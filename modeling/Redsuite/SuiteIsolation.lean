import Redsuite.SuiteMoves

/-!
# Isolation in a lane

The scenarios of a group use one ER.
-/

namespace Redsuite.Cli

open List

/-! ### Quiet logs -/

namespace Note

variable {α : Type}

/-- Nothing is to be started after it. -/
def halts : Note α → Bool
  | .started _ => false
  | .recorded _ passed => !passed
  | .stopSeen => true

def starts : Note α → Bool
  | .started _ => true
  | .recorded _ _ | .stopSeen => false

/-- Nothing is started after a line that halts. -/
def Quiet (log : List (Note α)) : Prop :=
  log.Pairwise fun earlier later => earlier.halts = true → later.starts = false

section Quiet

variable {log more : List (Note α)}

theorem Quiet.append_of_not_starts (h : Quiet log) (hmore : ∀ note ∈ more, note.starts = false) :
    Quiet (log ++ more) := by
  refine pairwise_append.mpr ⟨h, ?_, fun _ _ later hlat _ => hmore later hlat⟩
  exact pairwise_of_forall_mem_list fun _ _ later hlat _ => hmore later hlat

theorem Quiet.append_of_not_halts (h : Quiet log) (hlog : ∀ note ∈ log, note.halts = false)
    (hmore : ∀ note ∈ more, note.halts = false) : Quiet (log ++ more) := by
  have hnever {note : Note α} (hnote : note.halts = false) {P : Prop} (hhalts : note.halts = true) :
      P := nomatch hnote.symm.trans hhalts
  refine pairwise_append.mpr ⟨h, ?_, fun earlier hearlier _ _ => hnever (hlog earlier hearlier)⟩
  exact pairwise_of_forall_mem_list fun earlier hearlier _ _ => hnever (hmore earlier hearlier)

end Quiet

theorem halts_iff {note : Note α} :
    note.halts = true ↔ note = .stopSeen ∨ ∃ e, note = .recorded e false := by
  cases note with
  | started e => simp [halts]
  | recorded e passed => cases passed <;> simp [halts]
  | stopSeen => simp [halts]

end Note

/-! ### The lane of a group -/

/-- How many scenarios of a lane may run at once. -/
def Lane.bound (suite : Suite) (lane : Lane) : ℕ :=
  if suite.serial then 1
  else
    match lane.group with
    | some _ => suite.sharedConcurrency.get
    | none => suite.freshConcurrency.get

/-- Exclusive entries run alone. -/
structure LaneRun.Isolated (suite : Suite) (stop : Bool) (lane : LaneRun) : Prop where
  idle : lane.stage.active = false → lane.running = []
  limited : lane.running.length ≤ lane.limit.get
  bounded : lane.limit.get ≤ lane.lane.bound suite
  early : lane.stage = .waiting ∨ lane.stage = .booting → lane.log = []
  grouped : lane.stage = .booting → lane.lane.group ≠ none
  /-- the first of two passes has no exclusive scenario -/
  shared : lane.stage = .shared → ∀ entry ∈ lane.pending ++ lane.running, entry.er.isShared = true
  single : lane.stage = .last → lane.lane.group ≠ none → lane.limit.get = 1
  /-- in its passes the lane of a group has an ER, or knows why not -/
  answered : lane.stage.active = true → lane.lane.group ≠ none → lane.er.isSome = true
  seen : .stopSeen ∈ lane.log → stop = true
  /-- a failure that was seen is in the records, and the pass knows of it -/
  broken : ∀ entry, .recorded entry false ∈ lane.log →
    (∃ record ∈ lane.records, record.passed = false) ∧
    (lane.stage.active = true → lane.lane.group ≠ none → lane.failed = true)
  /-- nothing is started after a failure or an interruption that was seen -/
  quiet : lane.lane.group ≠ none → Note.Quiet lane.log

section Isolated

variable {suite : Suite} {base : Except String Unit} {stopped : Bool} {work next : Work}

theorem one_le_bound (suite : Suite) (lane : Lane) : 1 ≤ lane.bound suite := by
  rw [Lane.bound]
  split
  · exact Nat.le_refl 1
  · split
    · exact suite.sharedConcurrency.pos
    · exact suite.freshConcurrency.pos

theorem Lane.isolated (lane : Lane) (stop : Bool) : lane.run.Isolated suite stop :=
  ⟨fun _ => rfl, Nat.zero_le _, one_le_bound suite lane,
    fun _ => rfl, nofun, nofun, nofun, nofun, nofun,
    fun _ h => (nomatch h), fun _ => .nil⟩

theorem startLoop_length (limit running : ℕ) (pending : List ScenarioEntry)
    (h : running ≤ limit) : running + (startLoop limit running pending).1.length ≤ limit := by
  induction pending generalizing running with
  | nil => exact h
  | cons e pending ih =>
    rw [startLoop]
    split
    · rename_i hlt
      have := ih (running + 1) hlt
      rw [length_cons]
      omega
    · exact h

section

variable (h : work.Isolated suite stopped)

include h

theorem LaneRun.Isolated.not_halts (hsg : work.stage.active = true) (hgr : work.lane.group ≠ none)
    (hfl : work.failed = false) (hstp : stopped = false) : ∀ note ∈ work.log, note.halts = false :=
    by
  intro note hnote
  by_contra hhalts
  rcases Note.halts_iff.mp (Bool.not_eq_false _ ▸ hhalts) with rfl | ⟨e, rfl⟩
  · cases hstp.symm.trans (h.seen hnote)
  · cases hfl.symm.trans ((h.broken e hnote).2 hsg hgr)

theorem LaneRun.Isolated.fill (hsg : work.stage.active = true) :
    (work.fill stopped).Isolated suite stopped := by
  rw [Work.fill]
  split
  · exact h
  · rename_i hfl
    split
    · rename_i hstp
      refine ⟨h.idle, h.limited, h.bounded, fun hea => absurd hea (Stage.active_cases hsg).1,
        h.grouped, h.shared, h.single, h.answered, fun _ => hstp,
        fun e he => h.broken e ?_, fun hgr =>
        (h.quiet hgr).append_of_not_starts fun note hnote => ?_⟩
      · rcases mem_concat.mp he with hold | hnew
        · exact hold
        · cases hnew
      · rw [mem_singleton.mp hnote]
        rfl
    · rename_i hstp
      have hnew {note : Note ScenarioEntry} (hnote : note.starts = false)
          (hm : note ∈ work.log ++
            (startLoop work.limit.get work.running.length work.pending).1.map .started) :
          note ∈ work.log := by
        rcases mem_append.mp hm with hold | hstarted
        · exact hold
        · obtain ⟨e, -, rfl⟩ := mem_map.mp hstarted
          cases hnote
      refine ⟨fun hidle => (by cases hidle.symm.trans hsg), ?_, h.bounded,
        fun hea => absurd hea (Stage.active_cases hsg).1, h.grouped, ?_, h.single, h.answered,
        fun hseen => h.seen (hnew rfl hseen), fun e he => h.broken e (hnew rfl he),
        fun hgr => (h.quiet hgr).append_of_not_halts
          (h.not_halts hsg hgr (Bool.eq_false_iff.mpr hfl) (Bool.eq_false_iff.mpr hstp))
          fun note hnote => ?_⟩
      · rw [length_append]
        exact startLoop_length _ _ _ h.limited
      · intro hshr e he
        refine h.shared hshr e ?_
        rw [← startLoop_append work.limit.get work.running.length work.pending]
        simp only [mem_append] at he ⊢
        tauto
      · obtain ⟨e, -, rfl⟩ := mem_map.mp hnote
        rfl

theorem LaneRun.Isolated.record (hsg : work.stage.active = true) (i : ℕ) (e : ScenarioEntry)
    (a : Attempt) : (work.record suite i e a).Isolated suite stopped := by
  generalize hrec : e.run suite.family suite.config work.er a = r
  rw [Work.record, hrec]
  have hlen : (work.running.eraseIdx i).length ≤ work.running.length :=
    (eraseIdx_sublist work.running i).length_le
  refine ⟨fun hidle => (nomatch hidle.symm.trans hsg), Nat.le_trans hlen h.limited, h.bounded,
    fun hea => absurd hea (Stage.active_cases hsg).1, h.grouped,
    fun hshr other ho => h.shared hshr other ?_, h.single, h.answered, fun hseen => ?_,
    fun other ho => ?_, fun hgr => (h.quiet hgr).append_of_not_starts fun note hnote => ?_⟩
  · rcases mem_append.mp ho with hpd | hrn
    · exact mem_append_left _ hpd
    · exact mem_append_right _ (mem_of_mem_eraseIdx hrn)
  · rcases mem_concat.mp hseen with hold | hnew
    · exact h.seen hold
    · cases hnew
  · rcases mem_concat.mp ho with hold | hnew
    · obtain ⟨⟨failing, hm, hps⟩, hfl⟩ := h.broken other hold
      refine ⟨⟨failing, mem_append_left _ hm, hps⟩, fun hac hgr => ?_⟩
      exact Bool.or_eq_true_iff.mpr (.inl (hfl hac hgr))
    · obtain ⟨rfl, hps⟩ := Note.recorded.inj hnew
      refine ⟨⟨r, mem_append_right _ mem_cons_self, hps.symm⟩,
        fun hac hgr => Bool.or_eq_true_iff.mpr (.inr ?_)⟩
      rw [h.answered hac hgr, ← hps]
      rfl
  · rw [mem_singleton.mp hnote]
    rfl

theorem LaneRun.Isolated.conclude (hsg : work.stage.active = true) :
    (work.conclude suite stopped).Isolated suite stopped := by
  have hm {note : Note ScenarioEntry} (hnote : note ∈ (work.conclude suite stopped).log) :
      note ∈ work.log ∨ (note = .stopSeen ∧ stopped = true) := by
    rw [Work.conclude] at hnote
    split at hnote
    · rename_i hstp
      rcases mem_concat.mp hnote with hold | hnew
      · exact .inl hold
      · exact .inr ⟨hnew, hstp⟩
    · exact .inl hnote
  refine ⟨h.idle, h.limited, h.bounded, fun hea => absurd hea (Stage.active_cases hsg).1,
    h.grouped, fun hshr e he => ?_, h.single, h.answered,
    fun hseen => ?_, fun e he => ?_, fun hgr => ?_⟩
  · exact h.shared hshr e (mem_append_right _ he)
  · rcases hm hseen with hold | ⟨-, hstp⟩
    · exact h.seen hold
    · exact hstp
  · rcases hm he with hold | ⟨hnew, -⟩
    · obtain ⟨⟨r, hrec, hps⟩, hfl⟩ := h.broken e hold
      exact ⟨⟨r, mem_append_left _ hrec, hps⟩, hfl⟩
    · cases hnew
  · rw [Work.conclude]
    split
    · refine (h.quiet hgr).append_of_not_starts fun note hnote => ?_
      rw [mem_singleton.mp hnote]
      rfl
    · exact h.quiet hgr

theorem LaneRun.Isolated.exclusivePass (hsg : work.stage = .shared) (hrn : work.running = [])
    (hps : work.records.all RunRecord.passed = true) :
    work.exclusivePass.Isolated suite stopped := by
  refine ⟨nofun, ?_, one_le_bound suite work.lane, nofun, nofun, nofun, fun _ _ => rfl,
    fun _ hgr => ?_,
    h.seen, fun e he => ?_, h.quiet⟩
  · change work.running.length ≤ 1
    rw [hrn]
    exact Nat.zero_le 1
  · exact h.answered (congrArg Stage.active hsg) hgr
  · obtain ⟨⟨r, hrec, hfl⟩, -⟩ := h.broken e he
    cases hfl.symm.trans (all_eq_true.mp hps r hrec)

theorem LaneRun.Isolated.close (hrn : work.running = []) : work.close.Isolated suite stopped := by
  have hover : ∀ stage, stage ≠ .teardown → stage ≠ .done → work.close.stage ≠ stage := by
    rintro _ hteardown hd rfl
    rcases Work.close_stage work with ⟨hsg, -⟩ | ⟨hsg, -⟩
    · exact hteardown hsg
    · exact hd hsg
  have hidle : ¬work.close.stage.active = true := by
    intro hac
    rcases Stage.active_iff.mp hac with hshr | hla
    · exact hover .shared nofun nofun hshr
    · exact hover .last nofun nofun hla
  refine ⟨fun _ => hrn, h.limited, h.bounded, ?_, fun hbooting => ?_, fun hshr => ?_,
    fun hla => ?_, fun hac => absurd hac hidle, h.seen, fun e he =>
    ⟨(h.broken e he).1, fun hac => absurd hac hidle⟩, h.quiet⟩
  · rintro (hw | hbooting)
    · exact absurd hw (hover _ nofun nofun)
    · exact absurd hbooting (hover _ nofun nofun)
  · exact absurd hbooting (hover _ nofun nofun)
  · exact absurd hshr (hover _ nofun nofun)
  · exact absurd hla (hover _ nofun nofun)

theorem LaneRun.Isolated.move (hmove : Move suite base stopped work next) :
    next.Isolated suite stopped := by
  -- a lane that is about to begin a pass has nothing running, so that any limit will do
  have hfits {stage : Stage} (hsg : work.stage = stage) (hac : stage.active = false)
      (limit : ℕ) : work.running = [] ∧ work.running.length ≤ limit := by
    have hrn := h.idle ((congrArg Stage.active hsg).trans hac)
    rw [hrn]
    exact ⟨rfl, Nat.zero_le limit⟩
  -- and has no line in its log
  have hea {entry : ScenarioEntry} {P : Prop} (hsg : work.stage = .booting)
      (he : .recorded entry false ∈ work.log) : P := by
    rw [h.early (.inr hsg)] at he
    cases he
  cases hmove with
  | boot hsg hgr =>
    exact ⟨fun _ => (hfits hsg rfl 0).1, h.limited, h.bounded, fun _ => h.early (.inl hsg),
      fun _ => hgr, nofun, nofun, nofun, h.seen,
      fun entry he => ⟨(h.broken entry he).1, nofun⟩, h.quiet⟩
  | fresh hsg hgr =>
    refine ⟨nofun, (hfits hsg rfl _).2, ?_, nofun, nofun, nofun,
      fun _ hsome => absurd hgr hsome, fun _ hsome => absurd hgr hsome, h.seen,
      fun entry he => ⟨(h.broken entry he).1, fun _ hsome => absurd hgr hsome⟩, h.quiet⟩
    rw [Lane.bound, hgr]
    split <;> exact Nat.le_refl _
  | onePass result hsg hserial =>
    exact ⟨nofun, (hfits hsg rfl _).2, one_le_bound suite work.lane, nofun, nofun, nofun,
      fun _ _ => rfl, fun _ _ => rfl, h.seen, fun _ he => hea hsg he, h.quiet⟩
  | twoPasses result hsg hserial =>
    refine ⟨nofun, (hfits hsg rfl _).2, ?_, nofun, nofun, fun _ entry he => ?_, nofun,
      fun _ _ => rfl, h.seen, fun _ he => hea hsg he, h.quiet⟩
    · obtain ⟨group, hgr⟩ := Option.ne_none_iff_exists'.mp (h.grouped hsg)
      rw [Lane.bound, hserial, hgr]
      exact Nat.le_refl _
    · rw [(hfits hsg rfl 0).1, append_nil] at he
      exact (mem_filter.mp he).2
  | fill hsg => exact h.fill hsg
  | record attempt hsg he => exact h.record hsg _ _ attempt
  | conclude hsg hrn => exact h.conclude hsg
  | exclusivePass hsg hrn _ hps => exact h.exclusivePass hsg hrn hps
  | skipLater hsg hrn hpd =>
    refine ⟨h.idle, h.limited, h.bounded, h.early, h.grouped, h.shared, h.single, h.answered, h.seen,
      fun entry he => ?_, h.quiet⟩
    obtain ⟨⟨record, hrec, hps⟩, hfl⟩ := h.broken entry he
    exact ⟨⟨record, mem_append_left _ hrec, hps⟩, hfl⟩
  | close hsg hrn => exact h.close hrn
  | tornDown result hsg =>
    refine ⟨fun _ => (hfits hsg rfl 0).1, h.limited, h.bounded, nofun, nofun, nofun, nofun, nofun,
      h.seen, fun entry he => ?_, h.quiet⟩
    obtain ⟨⟨record, hrec, hps⟩, -⟩ := h.broken entry he
    exact ⟨⟨record, mem_append_left _ hrec, hps⟩, nofun⟩

end

theorem Rule.isolated (suite : Suite) :
    Rule suite fun _ stop s => ∀ lane ∈ s.1, lane.Isolated suite stop :=
  .of_lanes (fun _ stop lane _ => lane.isolated stop) (fun _ _ _ _ h hmove => h.move hmove)
    fun _ _ _ h => ⟨h.idle, h.limited, h.bounded, h.early, h.grouped, h.shared, h.single, h.answered,
      fun _ => rfl, h.broken, h.quiet⟩

end Isolated

/-! ### Scenarios of one ER -/

section Alone

variable {suite : Suite} {stop : Bool} {lane : LaneRun}

theorem LaneRun.Isolated.length_le (h : lane.Isolated suite stop) :
    lane.running.length ≤ lane.lane.bound suite := Nat.le_trans h.limited h.bounded

theorem LaneRun.Isolated.alone (h : lane.Isolated suite stop) (hgr : lane.lane.group ≠ none)
    {e : ScenarioEntry} (he : e ∈ lane.running)
    (hexc : e.er.isExclusive = true) : lane.running = [e] := by
  have hac : lane.stage.active = true := by
    by_contra hidle
    rw [h.idle (Bool.eq_false_iff.mpr hidle)] at he
    cases he
  rcases Stage.active_iff.mp hac with hshr | hla
  · -- the first of two passes runs scenarios that share the ER
    have := h.shared hshr e (mem_append_right _ he)
    cases her : e.er <;> rw [her] at this hexc
    · cases hexc
    · cases this
    · cases this
  · have hlen : lane.running.length ≤ 1 := h.single hla hgr ▸ h.limited
    obtain ⟨only, honly⟩ : ∃ only, lane.running = [only] :=
      length_eq_one_iff.mp (Nat.le_antisymm hlen (length_pos_of_mem he))
    rw [honly] at he ⊢
    rw [mem_singleton.mp he]

end Alone

end Redsuite.Cli
