import Redsuite.Calls
import Redsuite.OnChange

/-!
# The waits of the fault scope

`Faults::reset` waits until no operation of its scope is on hold, and `RuleHandle::wait_hit` for the
first operation that its rule counts.
-/

namespace Redsuite

open List Option State

open OnChange (Announced)

/-! ### The waits -/

section

variable (quote : String → String)

/-- What a call leaves behind; nothing if it panics. -/
def afterCall (w : World) (call : Call) : Option World :=
  match (exec quote call).run w with
  | .ok (_, after) => some after
  | .error _ => none

/-- A call of `on_change` among other calls: it sleeps on this `Notify`, and its closure looks at
the shared memory. -/
def awaitFault (changed : World → Option Notify) (look : World → Option Unit) :
    Subject World Call Empty Unit where
  change := afterCall quote
  announces w call :=
    match afterCall quote w call with
    | some after => changed after ≠ changed w
    | none => false
  observe w := (.ok (look w), w)

/-- The wait of `Faults::reset`. -/
def awaitDrained (scope : ScopeId) : Subject World Call Empty Unit :=
  awaitFault quote (fun w => (w.state? scope).map State.drained) fun w =>
    if (w.state? scope).map State.holding = some 0 then some () else none

def waitHit (hits : HitsId) : Subject World Call Empty Unit :=
  awaitFault quote (fun w => w.hits[hits]?.map Hits.changed) fun w =>
    if (w.hits[hits]?.map Hits.count).getD 0 > 0 then some () else none

end

/-! ### What happens without a notification -/

/-- Either `drained` was notified, or no token was dropped. -/
def State.Precedes (before after : State) : Prop :=
  before.drained.count < after.drained.count ∨
    after.drained = before.drained ∧ before.holding ≤ after.holding

/-- Either `changed` was notified, or nothing was counted. -/
def Hits.Precedes (before after : Hits) : Prop :=
  before.changed.count < after.changed.count ∨ after = before

theorem State.precedes_same {before after : State} (hdr : after.drained = before.drained)
    (hholding : before.holding ≤ after.holding) : before.Precedes after :=
  .inr ⟨hdr, hholding⟩

theorem State.Precedes.trans {first second third : State} (h : first.Precedes second)
    (h' : second.Precedes third) : first.Precedes third := by
  rcases h with hlt | ⟨hdr, hholding⟩
  · rcases h' with hlt' | ⟨hdr', -⟩
    · exact .inl (Nat.lt_trans hlt hlt')
    · exact .inl (hdr' ▸ hlt)
  · rcases h' with hlt' | ⟨hdr', hholding'⟩
    · exact .inl (hdr ▸ hlt')
    · exact .inr ⟨hdr'.trans hdr, Nat.le_trans hholding hholding'⟩

theorem Hits.Precedes.trans {first second third : Hits} (h : first.Precedes second)
    (h' : second.Precedes third) : first.Precedes third := by
  rcases h with hlt | rfl
  · rcases h' with hlt' | rfl
    · exact .inl (Nat.lt_trans hlt hlt')
    · exact .inl hlt
  · exact h'

/-- No counter went back. -/
def HitsPrecede (before after : List Hits) : Prop :=
  ∀ (id : ℕ) (hits : Hits), before[id]? = some hits →
    ∃ later, after[id]? = some later ∧ hits.Precedes later

theorem HitsPrecede.refl (hits : List Hits) : HitsPrecede hits hits :=
  fun _ counter hlk => ⟨counter, hlk, .inr rfl⟩

theorem HitsPrecede.trans {first second third : List Hits} (h : HitsPrecede first second)
    (h' : HitsPrecede second third) : HitsPrecede first third := by
  intro id hits hlk
  obtain ⟨later, hlat, hpre⟩ := h id hits hlk
  obtain ⟨last, hla, hpre'⟩ := h' id later hlat
  exact ⟨last, hla, hpre.trans hpre'⟩

/-- **`Hits::record` notifies.** -/
theorem hitsPrecede_record (hits : List Hits) (id : HitsId) :
    HitsPrecede hits (hits.modify id Hits.record) := by
  intro other counter hlk
  by_cases hid : id = other
  · refine ⟨counter.record, ?_, .inl (Nat.lt_succ_self _)⟩
    rw [getElem?_modify, hlk]
    exact congrArg some (if_pos hid)
  · refine ⟨counter, ?_, .inr rfl⟩
    rw [getElem?_modify, hlk]
    exact congrArg some (if_neg hid)

theorem hitsPrecede_observed (rules : List Rule) (op : Operation) (hits : List Hits) :
    HitsPrecede hits (observedHits rules op hits) := by
  unfold observedHits
  induction rules generalizing hits with
  | nil => exact .refl hits
  | cons rule rules ih =>
    rw [foldl_cons]
    split
    · exact (hitsPrecede_record hits rule.hits).trans (ih _)
    · exact ih hits

theorem hitsPrecede_append (hits more : List Hits) : HitsPrecede hits (hits ++ more) := by
  intro id counter hlk
  refine ⟨counter, ?_, .inr rfl⟩
  rw [getElem?_append_left (lt_of_getElem? hlk), hlk]

/-- The later world remembers the earlier one. -/
structure Precedes (w w' : World) : Prop where
  scopes : ∀ scope state, w.state? scope = some state →
    ∃ later, w'.state? scope = some later ∧ state.Precedes later
  hits : HitsPrecede w.hits w'.hits

section Pieces

variable {quote : String → String} {w w' : World}

theorem Precedes.refl (w : World) : Precedes w w where
  scopes _ s hs := ⟨s, hs, precedes_same rfl (Nat.le_refl _)⟩
  hits := .refl w.hits

theorem Precedes.trans {w'' : World} (h : Precedes w w') (h' : Precedes w' w'') :
    Precedes w w'' where
  scopes scope state hs := by
    obtain ⟨later, hlat, hpre⟩ := h.scopes scope state hs
    obtain ⟨last, hla, hpre'⟩ := h'.scopes scope later hlat
    exact ⟨last, hla, hpre.trans hpre'⟩
  hits := h.hits.trans h'.hits

theorem Precedes.same (hscopes : w'.scopes = w.scopes) (hhits : w'.hits = w.hits) :
    Precedes w w' where
  scopes scope s hs := by
    refine ⟨s, ?_, precedes_same rfl (Nat.le_refl _)⟩
    rwa [World.state?, hscopes]
  hits := hhits ▸ .refl w.hits

theorem Precedes.update {scope : ScopeId} {s later : State} (hs : w.state? scope = some s)
    (hscopes : w'.scopes = (w.setState scope later).scopes) (hlat : s.Precedes later)
    (hhits : HitsPrecede w.hits w'.hits) : Precedes w w' where
  scopes other contents ho := by
    have hstate : ∀ other, w'.state? other = (w.setState scope later).state? other := by
      intro other
      rw [World.state?, hscopes]
      rfl
    by_cases hsco : other = scope
    · subst hsco
      cases hs.symm.trans ho
      exact ⟨later, (hstate other).trans (World.state?_setState_self (by rw [hs]; rfl) later),
        hlat⟩
    · exact ⟨contents, (hstate other).trans ((World.state?_setState_ne hsco later).trans ho),
        precedes_same rfl (Nat.le_refl _)⟩
  hits := hhits

theorem Precedes.rewrite {scope : ScopeId} {s later : State}
    (hs : w.state? scope = some s) (hscopes : w'.scopes = (w.setState scope later).scopes)
    (hdr : later.drained = s.drained) (hholding : later.holding = s.holding)
    (hhits : w'.hits = w.hits) : Precedes w w' :=
  .update hs hscopes (precedes_same hdr (Nat.le_of_eq hholding.symm))
    (hhits ▸ .refl w.hits)

theorem Gated.precedes {op : Operation} {gate : Gate} (h : Gated w op gate w') :
    Precedes w w' := by
  cases h with
  | inactive => exact .refl w
  | rejected ha hl hs hr he =>
    refine .update hs rfl (precedes_same rfl (Nat.le_refl _)) ?_
    exact (hitsPrecede_observed _ _ _).trans (hitsPrecede_record _ _)
  | stalled ha hl hs hr he =>
    refine .update hs rfl (precedes_same rfl (Nat.le_succ _)) ?_
    exact (hitsPrecede_observed _ _ _).trans (hitsPrecede_record _ _)
  | released ha hl hs hr ht =>
    exact .update hs rfl (precedes_same rfl (Nat.le_refl _)) (hitsPrecede_observed _ _ _)
  | held ha hl hs hr ht hd =>
    exact .update hs rfl (precedes_same rfl (Nat.le_succ _)) (hitsPrecede_observed _ _ _)

/-- **Every piece of a call**: the one that drops a token notifies `drained`. -/
theorem Change.precedes (h : Change quote w w') : Precedes w w' := by
  cases h with
  | gated hgated => exact hgated.precedes
  | holdingDropped hs hpos =>
    exact .update hs rfl (.inl (Nat.lt_succ_self _)) (.refl w.hits)
  | opened hinactive =>
    refine ⟨fun scope s hs => ⟨s, ?_, ?_⟩, .refl w.hits⟩
    on_goal 2 => exact precedes_same rfl (Nat.le_refl _)
    rw [World.state?] at hs ⊢
    obtain ⟨cell, hcell, rfl⟩ := map_eq_some_iff.mp hs
    rw [getElem?_append_left (lt_of_getElem? hcell), hcell]
    rfl
  | intercepted hs sel | removed hs | restored hs | resetStarted hs | resetOk hr hs hh hu
  | resetErr hr hs hh hu => exact .rewrite hs rfl rfl rfl rfl
  | ruled hs sel hwatches =>
    exact .update hs rfl (precedes_same rfl (Nat.le_refl _)) (hitsPrecede_append _ _)
  | _ => exact .same rfl rfl

theorem Changes.precedes (h : Changes quote w w') : Precedes w w' := by
  induction h with
  | refl => exact .refl w
  | tail _ hch ih => exact ih.trans hch.precedes

theorem afterCall_changes (hv : w.Valid) {call : Call} (h : afterCall quote w call = some w') :
    Changes quote w w' := by
  rw [afterCall] at h
  split at h
  · rename_i out after hrun
    cases h
    exact exec_changes hv hrun
  · cases h

end Pieces

/-! ### Both waits are told -/

variable (quote : String → String)

theorem awaitFault_announced {changed : World → Option Notify} {look : World → Option Unit}
    {here : World → Prop} (hhere : ∀ {w w'}, here w → Precedes w w' → here w')
    (hlook : ∀ {w w'}, here w → Precedes w w' → changed w' = changed w → look w = none →
      look w' = none) : Announced (awaitFault quote changed look) fun w => w.Valid ∧ here w where
  changes := by
    rintro w w' call ⟨hv, hw⟩ hc
    have hchs := afterCall_changes hv hc
    exact ⟨hchs.valid hv, hhere hw hchs.precedes⟩
  looks hw := hw
  quiet := by
    rintro w w' call ⟨hv, hw⟩ hc hq hn
    have hsm : changed w' = changed w := by
      change afterCall quote w call = some w' at hc
      simpa [awaitFault, hc] using hq
    have hnth : look w = none := by
      cases hseen : look w with
      | none => rfl
      | some v => simp [Subject.result, awaitFault, hseen, answered] at hn
    have haf := hlook hw (afterCall_changes hv hc).precedes hsm hnth
    simp [Subject.result, awaitFault, haf, answered]
  vain _ hn := hn

theorem awaitDrained_announced (scope : ScopeId) :
    Announced (awaitDrained quote scope) fun w => w.Valid ∧ (w.state? scope).isSome = true := by
  refine awaitFault_announced quote ?_ ?_
  · intro w w' hw hpre
    obtain ⟨s, hs⟩ := isSome_iff_exists.mp hw
    obtain ⟨later, hlat, -⟩ := hpre.scopes scope s hs
    rw [hlat]
    rfl
  · intro w w' hw hpre hchd hn
    obtain ⟨s, hs⟩ := isSome_iff_exists.mp hw
    obtain ⟨later, hlat, hstate⟩ := hpre.scopes scope s hs
    have hdr : later.drained = s.drained := by simpa [hs, hlat] using hchd
    have hholding : s.holding ≠ 0 := by
      intro hzero
      simp [hs, hzero] at hn
    rcases hstate with hlt | ⟨-, hle⟩
    · rw [hdr] at hlt
      exact absurd hlt (Nat.lt_irrefl _)
    · have hpos : later.holding ≠ 0 := by omega
      simp [hlat, hpos]

theorem waitHit_announced (hits : HitsId) :
    Announced (waitHit quote hits) fun w => w.Valid ∧ (w.hits[hits]?).isSome = true := by
  refine awaitFault_announced quote ?_ ?_
  · intro w w' hw hpre
    obtain ⟨counter, hcounter⟩ := isSome_iff_exists.mp hw
    obtain ⟨later, hlat, -⟩ := hpre.hits hits counter hcounter
    rw [hlat]
    rfl
  · intro w w' hw hpre hchd hn
    obtain ⟨counter, hcounter⟩ := isSome_iff_exists.mp hw
    obtain ⟨later, hlat, hcounts⟩ := hpre.hits hits counter hcounter
    have hsm : later.changed = counter.changed := by simpa [hcounter, hlat] using hchd
    rcases hcounts with hlt | rfl
    · rw [hsm] at hlt
      exact absurd hlt (Nat.lt_irrefl _)
    · simpa [hcounter, hlat] using hn

end Redsuite
