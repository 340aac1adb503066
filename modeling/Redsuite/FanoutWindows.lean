import Redsuite.Fanout

/-!
# The windows of the fanout

The ids of a window follow the cursor, which moves by the writes delivered; so the next window goes
on where this one ended exactly if no request failed.
-/

namespace Redsuite

open List Option

namespace Fanout

open Runner (Driver RawRunOutcome RunOutcome)
open Ws

variable {π : Type} {change : Window π → Window π}

def Window.writes (window : Window π) (keys : List π) : List (ℕ × π) :=
  window.ids.flatMap fun id => (copyThree keys id).map (id, ·)

namespace WebsocketFanout

/-- No window before had failed requests. -/
def Clean (fanout : WebsocketFanout π) : Prop := ∀ window ∈ fanout.past, window.failed = 0

def failed (self : WebsocketFanout π) : ℕ := (self.window.map Window.failed).getD 0

def writes (self : WebsocketFanout π) (setup : Setup π) : List (ℕ × π) :=
  self.window.toList.flatMap fun window => window.writes setup.keys

variable {setup : Setup π} {self : WebsocketFanout π} {window : Window π}

theorem mem_windows : window ∈ self.windows ↔ window ∈ self.past ∨ self.window = some window := by
  rw [windows, mem_append, mem_toList]

theorem writes_eq (hwin : self.window = some window) :
    self.writes setup = window.writes setup.keys := by
  rw [writes, hwin]
  exact append_nil _

theorem ids_note
    (hids : ∀ window, (change window).ids = window.ids) : (self.note change).ids = self.ids := by
  rw [ids, ids, windows, windows, note]
  cases self.window with
  | none => rfl
  | some window => simp [hids]

theorem writes_note (hids : ∀ window, (change window).ids = window.ids) :
    (self.note change).writes setup = self.writes setup := by
  rw [writes, writes, note]
  cases self.window with
  | none => rfl
  | some window => simp [Window.writes, hids]

theorem proceed_past (deadline : ℕ) (driver : Driver) :
    (self.proceed deadline driver).past = self.past := by
  rw [proceed]
  split <;> rfl

theorem read_past {next : WebsocketFanout π} {outcome : RunOutcome ObservationsStats} {index : ℕ}
    {p95 : ℤ} {timedOut : Bool} {rng : Rng}
    (hrd : self.read outcome index p95 timedOut rng = some next) : next.past = self.past := by
  rw [read] at hrd
  split at hrd
  · cases hrd
    rfl
  · grind [take, note]

theorem forall_mem_set {P : Reader π → Prop} {readers : List (Reader π)} {index : ℕ}
    {after : Reader π} (h : ∀ reader ∈ readers, P reader)
    (hkp : ∀ before ∈ readers, readers[index]? = some before → P after) :
    ∀ reader ∈ readers.set index after, P reader := by
  intro reader hrdr
  obtain ⟨p, hpl⟩ := mem_iff_getElem?.mp hrdr
  obtain ⟨rfl, rfl⟩ | ⟨-, hold⟩ := of_getElem?_set hpl
  · have hb := getElem?_eq_getElem (length_set ▸ lt_of_getElem? hpl)
    exact hkp _ (mem_of_getElem? hb) hb
  · exact h reader (mem_of_getElem? hold)

end WebsocketFanout

variable [DecidableEq π]

/-! ### Readers -/

namespace Reader

/-- The indexes agree, and the counters are those of the writes counted. -/
structure Sound (reader : Reader π) : Prop where
  indexed : reader.feed.state.Indexed
  counts : reader.counted.card = reader.feed.state.observed + reader.feed.state.superseded

/-- What is pending or counted is among these writes. -/
structure Within (reader : Reader π) (writes : List (ℕ × π)) : Prop where
  pending : ∀ write ∈ reader.feed.state.writes, write ∈ writes
  counted : ∀ write ∈ reader.counted, write ∈ writes

variable {self next : Reader π} {writes : List (ℕ × π)}

theorem Within.mono (h : self.Within writes) {more : List (ℕ × π)}
    (hmore : ∀ write ∈ writes, write ∈ more) : self.Within more :=
  ⟨fun write hwrite => hmore write (h.pending write hwrite),
    fun write hwrite => hmore write (h.counted write hwrite)⟩

theorem sound_connect (rng : Rng) : (connect rng : Reader π).Sound :=
  ⟨(AccountUpdates.sound_connect rng).indexed, rfl⟩

theorem within_connect (rng : Rng) : (connect rng : Reader π).Within [] :=
  ⟨fun _ h => absurd h (Finset.notMem_empty _), fun _ h => absurd h (Multiset.notMem_zero _)⟩

theorem track_spec (h : self.Sound) (hwin : self.Within writes) (id : ℕ) (targets : List π) :
    (self.track id targets).Sound ∧
      (self.track id targets).Within (writes ++ targets.map (id, ·)) := by
  induction targets generalizing self writes with
  | nil =>
    rw [map_nil, append_nil]
    exact ⟨h, hwin⟩
  | cons t targets ih =>
    have hone : ({ self with feed.state := self.feed.state.track id t } : Reader π).Sound :=
      ⟨h.indexed.track id t, h.counts⟩
    have honeWithin : ({ self with feed.state := self.feed.state.track id t } :
        Reader π).Within (writes ++ [(id, t)]) := by
      refine ⟨fun write hwrite => ?_, fun write hwrite =>
        mem_append_left _ (hwin.counted write hwrite)⟩
      rw [AccountState.track_writes, Finset.mem_insert] at hwrite
      rcases hwrite with rfl | hold
      · exact mem_append_right _ mem_cons_self
      · exact mem_append_left _ (hwin.pending write hold)
    have hr := ih hone honeWithin
    rwa [append_assoc] at hr

/-- The reader changes without anything new to count. -/
structure Keeps (before after : Reader π) : Prop where
  sound : before.Sound → after.Sound
  within : before.Sound → ∀ writes, before.Within writes → after.Within writes

theorem observe_keeps {acc : π} {id : ℕ} {clock : SendClock} {now : ℕ}
    (h : self.observe acc id clock now = some next) : Keeps self next := by
  have hobv : ∀ {after}, self.feed.state.observe acc id clock now = some after →
      next = ⟨{ self.feed with state := after },
        self.counted + (self.feed.state.writes \ after.writes).val⟩ := by
    intro after haf
    rw [observe, haf] at h
    exact (some.inj h).symm
  refine ⟨fun hsd => ?_, fun hsd writes hwin => ?_⟩
  all_goals
    obtain ⟨after, haf, hdrops, hobs, hsup⟩ :=
      AccountState.observe_spec hsd.indexed acc id clock now
    rw [hobv haf]
  · refine ⟨hdrops.indexed, ?_⟩
    have hsubset : after.writes ⊆ self.feed.state.writes :=
      fun write hwrite => ((hdrops.writes write).mp hwrite).1
    have hcard := AccountUpdates.card_drops hdrops
    have hgone := Finset.card_sdiff_add_card_eq_card hsubset
    have hcounts := hsd.counts
    rw [Multiset.card_add, ← Finset.card_def, hobs, hsup]
    omega
  · refine ⟨fun write hwrite => ?_, fun write hwrite => ?_⟩
    · exact hwin.pending write ((hdrops.writes write).mp hwrite).1
    · rcases Multiset.mem_add.mp hwrite with hold | hnew
      · exact hwin.counted write hold
      · exact hwin.pending write (Finset.mem_sdiff.mp hnew).1

theorem close_keeps (self : Reader π) (reason : Events.CloseReason) :
    Keeps self (self.close reason) :=
  ⟨fun hsd => ⟨⟨hsd.indexed.inverse, hsd.indexed.nonempty⟩, hsd.counts⟩,
    fun _ _ hwin => ⟨hwin.pending, hwin.counted⟩⟩

theorem takeOutcome_keeps (self : Reader π) (rng : Rng) : Keeps self (self.takeOutcome rng).2 :=
  ⟨fun hsd => ⟨⟨hsd.indexed.inverse, hsd.indexed.nonempty⟩, rfl⟩,
    fun _ _ hwin => ⟨hwin.pending, fun _ h => absurd h (Multiset.notMem_zero _)⟩⟩

theorem takeOutcome_settled (h : self.settled = true) (rng : Rng) :
    (self.takeOutcome rng).2.Within [] := by
  refine ⟨?_, fun _ h => absurd h (Multiset.notMem_zero _)⟩
  rintro ⟨id, acc⟩ hwrite
  have hpd : self.feed.state.pending.entries = [] := isEmpty_iff.mp h
  have hm : acc ∈ Multimap.members self.feed.state.pending id :=
    AccountState.mem_writes.mp hwrite
  rw [Multimap.members, AList.lookup, hpd] at hm
  exact absurd hm (Finset.notMem_empty _)

end Reader

namespace WebsocketFanout

/-! ### The invariant -/

/-- The readers count each write once. -/
structure Apart (setup : Setup π) (fanout : WebsocketFanout π) : Prop where
  numbered : fanout.ids = List.range' 1 fanout.ids.length
  sound : ∀ reader ∈ fanout.readers, reader.Sound
  within : ∀ reader ∈ fanout.readers, reader.Within (fanout.writes setup)
  counts : ∀ window ∈ fanout.windows, ∀ taken ∈ window.taken,
    taken.counted.card = taken.outcome.observed + taken.outcome.superseded
  own : ∀ window ∈ fanout.windows, ∀ taken ∈ window.taken,
    ∀ write ∈ taken.counted, write ∈ window.writes setup.keys

/-- What holds in this phase. -/
def AtPhase (setup : Setup π) (fanout : WebsocketFanout π) : Phase → Prop
  | .head => fanout.ids.length = fanout.cursor + fanout.failed ∧
      (fanout.failed = 0 → ∀ reader ∈ fanout.readers, reader.Within [])
  | .running deadline driver =>
      fanout.window.isSome = true ∧ Runner.Inv (workload setup.rate deadline) driver ∧
        fanout.ids.length = fanout.cursor + driver.admitted
  | .reading outcome index _ =>
      fanout.window.map Window.failed = some outcome.failed ∧
        fanout.ids.length = fanout.cursor + (outcome.delivered + outcome.failed) ∧
        (outcome.failed = 0 → ∀ reader ∈ fanout.readers.take index, reader.Within [])
  | .verifying outcome _ =>
      fanout.window.map Window.failed = some outcome.failed ∧
        fanout.ids.length = fanout.cursor + (outcome.delivered + outcome.failed) ∧
        (outcome.failed = 0 → ∀ reader ∈ fanout.readers, reader.Within [])
  | .ended _ => True

/-- What holds of a run at every await. -/
structure Inv (setup : Setup π) (fanout : WebsocketFanout π) : Prop where
  apart : fanout.Apart setup
  atPhase : fanout.AtPhase setup fanout.phase

variable {setup : Setup π} {self next : WebsocketFanout π} {window : Window π}

theorem Apart.of_eq (h : self.Apart setup) (hpast : next.past = self.past)
    (hwin : next.window = self.window) (hreaders : next.readers = self.readers) :
    next.Apart setup := by
  have hwindows : next.windows = self.windows := by rw [windows, windows, hpast, hwin]
  have hids : next.ids = self.ids := by rw [ids, ids, hwindows]
  have hwrites : next.writes setup = self.writes setup := by rw [writes, writes, hwin]
  constructor
  · rw [hids]
    exact h.numbered
  · rw [hreaders]
    exact h.sound
  · rw [hreaders, hwrites]
    exact h.within
  · rw [hwindows]
    exact h.counts
  · rw [hwindows]
    exact h.own

theorem Apart.ended (h : self.Apart setup) (ending : Ending) :
    ({ self with phase := .ended ending } : WebsocketFanout π).Inv setup :=
  ⟨h.of_eq rfl rfl rfl, trivial⟩

/-- Something is noted of the last window that leaves its ids alone; what is taken was counted in
it. -/
theorem Apart.note (h : self.Apart setup)
    (hids : ∀ window, (change window).ids = window.ids)
    (htk : ∀ window, self.window = some window → ∀ taken ∈ (change window).taken,
      taken ∈ window.taken ∨
        taken.counted.card = taken.outcome.observed + taken.outcome.superseded ∧
          ∀ write ∈ taken.counted, write ∈ self.writes setup) : (self.note change).Apart setup := by
  refine ⟨?_, h.sound, ?_, ?_, ?_⟩
  · rw [ids_note hids]
    exact h.numbered
  · rw [writes_note hids]
    exact h.within
  all_goals
    intro window hwin taken hm
    rcases mem_windows.mp hwin with hpast | hntd
  · exact h.counts window (mem_windows.mpr (.inl hpast)) taken hm
  · obtain ⟨old, hold, rfl⟩ := map_eq_some_iff.mp hntd
    rcases htk old hold taken hm with hb | hnew
    · exact h.counts old (mem_windows.mpr (.inr hold)) taken hb
    · exact hnew.1
  · exact h.own window (mem_windows.mpr (.inl hpast)) taken hm
  · obtain ⟨old, hold, rfl⟩ := map_eq_some_iff.mp hntd
    have hsm : (change old).writes setup.keys = old.writes setup.keys := by
      rw [Window.writes, hids, Window.writes]
    rw [hsm]
    rcases htk old hold taken hm with hb | hnew
    · exact h.own old (mem_windows.mpr (.inr hold)) taken hb
    · rw [← writes_eq hold]
      exact hnew.2

/-! ### Requests -/

theorem ids_request (hwin : self.window.isSome = true) (iteration : ℕ) :
    (self.request setup iteration).ids = self.ids ++ [self.cursor + iteration] := by
  obtain ⟨window, hwin⟩ := isSome_iff_exists.mp hwin
  simp [request, note, ids, windows, hwin]

theorem writes_request (hwin : self.window.isSome = true) (iteration : ℕ) :
    (self.request setup iteration).writes setup = self.writes setup ++
      (copyThree setup.keys (self.cursor + iteration)).map (self.cursor + iteration, ·) := by
  obtain ⟨window, hwin⟩ := isSome_iff_exists.mp hwin
  simp [request, note, writes, Window.writes, hwin]

theorem Apart.request (h : self.Apart setup) (hwin : self.window.isSome = true) {iteration : ℕ}
    (hnx : self.cursor + iteration = self.ids.length + 1) :
    (self.request setup iteration).Apart setup := by
  have htrk : ∀ reader ∈ (self.request setup iteration).readers, reader.Sound ∧
      reader.Within ((self.request setup iteration).writes setup) := by
    intro reader hrdr
    obtain ⟨old, hold, rfl⟩ := mem_map.mp hrdr
    rw [writes_request hwin]
    exact Reader.track_spec (h.sound old hold) (h.within old hold) _ _
  refine ⟨?_, fun reader hrdr => (htrk reader hrdr).1,
    fun reader hrdr => (htrk reader hrdr).2, ?_, ?_⟩
  · rw [ids_request hwin, length_append, length_singleton, range'_1_concat,
      ← h.numbered, hnx, Nat.add_comm 1]
  all_goals
    intro window hm taken htk
    rcases mem_windows.mp hm with hpast | hntd
  · exact h.counts window (mem_windows.mpr (.inl hpast)) taken htk
  · obtain ⟨old, hold, rfl⟩ := map_eq_some_iff.mp hntd
    exact h.counts old (mem_windows.mpr (.inr hold)) taken htk
  · exact h.own window (mem_windows.mpr (.inl hpast)) taken htk
  · obtain ⟨old, hold, rfl⟩ := map_eq_some_iff.mp hntd
    intro write hwrite
    rw [Window.writes, flatMap_append]
    exact mem_append_left _ (h.own old (mem_windows.mpr (.inr hold)) taken htk write hwrite)

theorem requests_past (iterations : List ℕ) :
    (self.requests setup iterations).past = self.past := by
  induction iterations generalizing self with
  | nil => rfl
  | cons iteration iterations ih => exact ih

theorem Apart.requests (h : self.Apart setup) (hwin : self.window.isSome = true) {first : ℕ}
    (hlen : self.ids.length = self.cursor + first) (count : ℕ) :
    (self.requests setup (List.range' (first + 1) count)).Apart setup ∧
    (self.requests setup (List.range' (first + 1) count)).window.isSome = true ∧
    (self.requests setup (List.range' (first + 1) count)).ids.length =
      (self.requests setup (List.range' (first + 1) count)).cursor + (first + count) := by
  induction count generalizing self first with
  | zero => exact ⟨h, hwin, hlen⟩
  | succ count ih =>
    have hone : (self.request setup (first + 1)).Apart setup := h.request hwin (by omega)
    have hsome : (self.request setup (first + 1)).window.isSome = true := by
      rw [WebsocketFanout.request, WebsocketFanout.note, isSome_map]
      exact hwin
    have hct : (self.request setup (first + 1)).ids.length =
        (self.request setup (first + 1)).cursor + (first + 1) := by
      rw [ids_request hwin, length_append, hlen]
      rfl
    have hr := ih hone hsome hct
    rw [Nat.add_right_comm first 1 count] at hr
    exact hr

theorem calls_eq {w : Runner.Workload} {before after : Driver}
    (hb : Runner.Inv w before) (haf : Runner.Inv w after) :
    calls before after = List.range' (before.admitted + 1) (after.admitted - before.admitted) := by
  rw [calls, hb.books.calls, haf.books.calls, length_range', drop_range',
    Nat.mul_one, Nat.add_comm 1]

/-! ### Steps -/

theorem Apart.proceed (h : self.Apart setup) (hwin : self.window.isSome = true) {deadline : ℕ}
    {driver : Driver} (hdrv : Runner.Inv (workload setup.rate deadline) driver)
    (hlen : self.ids.length = self.cursor + driver.admitted) :
    (self.proceed deadline driver).Inv setup := by
  have hat := hdrv.atPoint
  rw [WebsocketFanout.proceed]
  split
  · exact h.ended _
  · rename_i outcome hpoint
    rw [hpoint] at hat
    have hnote : (self.note fun window => { window with failed := outcome.failed }).Apart setup :=
      h.note (fun _ => rfl) fun window _ taken htk => .inl htk
    have hids : (self.note fun window => { window with failed := outcome.failed }).ids = self.ids :=
      ids_note fun _ => rfl
    refine ⟨hnote.of_eq rfl rfl rfl, ?_⟩
    split
    · trivial
    · obtain ⟨window, hwin⟩ := isSome_iff_exists.mp hwin
      refine ⟨?_, ?_, fun _ reader hrdr => ?_⟩
      · rw [WebsocketFanout.note, hwin]
        rfl
      · refine (congrArg List.length hids).trans ?_
        rw [hlen, ← hat.total]
        rfl
      · cases hrdr
  · exact ⟨h.of_eq rfl rfl rfl, hwin, hdrv, hlen⟩

theorem Inv.enter (h : self.Inv setup) (hp : self.phase = .head)
    (hcl : ∀ window ∈ self.windows, window.failed = 0) (now started : ℕ) (entropy : ℕ → Rng) :
    (self.enter setup now started entropy).Inv setup := by
  have hat := h.atPhase
  rw [hp] at hat
  have hfl : self.failed = 0 := by
    rw [failed]
    cases hwin : self.window with
    | none => rfl
    | some window => exact hcl window (mem_windows.mpr (.inr hwin))
  obtain ⟨hlen, hclear⟩ := hat
  rw [hfl] at hlen
  have hids : ∀ clock : SendClock, ({ self with
      clock, past := self.windows, window := some ⟨[], 0, []⟩ } : WebsocketFanout π).ids =
        self.ids := by
    intro clock
    rw [ids, windows, flatMap_append]
    exact append_nil _
  refine Apart.proceed ⟨?_, ?_, fun reader hrdr => ?_, ?_, ?_⟩ rfl (.start _ entropy started) ?_
  · rw [hids]
    exact h.apart.numbered
  · exact h.apart.sound
  · exact (hclear hfl reader hrdr).mono fun _ hm => absurd hm not_mem_nil
  · intro window hwin taken htk
    rcases mem_windows.mp hwin with hpast | hnew
    · exact h.apart.counts window hpast taken htk
    · cases hnew
      cases htk
  · intro window hwin taken htk
    rcases mem_windows.mp hwin with hpast | hnew
    · exact h.apart.own window hpast taken htk
    · cases hnew
      cases htk
  · rw [hids]
    exact hlen

theorem Inv.run (h : self.Inv setup) {deadline : ℕ} {driver after : Driver} {ev : Runner.Event}
    (hp : self.phase = .running deadline driver)
    (hdrv : driver.step (workload setup.rate deadline) ev = some after) :
    ((self.requests setup (calls driver after)).proceed deadline after).Inv setup := by
  have hat := h.atPhase
  rw [hp] at hat
  obtain ⟨hwin, hrn, hlen⟩ := hat
  have haf := hrn.step hdrv
  rw [calls_eq hrn haf]
  obtain ⟨hapart, hsome, hct⟩ := h.apart.requests hwin hlen
    (after.admitted - driver.admitted)
  refine hapart.proceed hsome haf ?_
  rw [hct, Nat.add_sub_cancel' (Driver.step_admitted hdrv)]

variable {i : ℕ} {out : RunOutcome ObservationsStats} {p95 : ℤ}

theorem Inv.set (h : self.Inv setup) {before after : Reader π}
    (hb : self.readers[i]? = some before) (hkp : before.Keeps after) :
    ({ self with readers := self.readers.set i after } : WebsocketFanout π).Inv setup := by
  have hm := mem_of_getElem? hb
  have hsd := h.apart.sound before hm
  have hwin : ∀ {readers : List (Reader π)} {writes : List (ℕ × π)},
      (∀ reader, readers[i]? = some reader → reader = before) →
      (∀ reader ∈ readers, reader.Within writes) →
      ∀ reader ∈ readers.set i after, reader.Within writes := by
    intro readers writes hsm hall
    refine forall_mem_set hall fun reader hrdr hi => ?_
    rw [hsm reader hi] at hrdr
    exact hkp.within hsd writes (hall before hrdr)
  have hself : ∀ reader, self.readers[i]? = some reader → reader = before :=
    fun reader hrdr => some.inj (hrdr.symm.trans hb)
  refine ⟨⟨h.apart.numbered, ?_, hwin hself h.apart.within, h.apart.counts, h.apart.own⟩, ?_⟩
  · exact forall_mem_set h.apart.sound fun _ _ _ => hkp.sound hsd
  · have hat := h.atPhase
    cases hp : self.phase with
    | head =>
      rw [hp] at hat
      exact ⟨hat.1, fun hfl => hwin hself (hat.2 hfl)⟩
    | running deadline driver =>
      rw [hp] at hat
      exact hat
    | reading out p p95 =>
      rw [hp] at hat
      refine ⟨hat.1, hat.2.1, fun hfl => ?_⟩
      rw [take_set]
      refine hwin (fun reader hrdr => hself reader ?_) (hat.2.2 hfl)
      rw [getElem?_take] at hrdr
      split at hrdr
      · exact hrdr
      · cases hrdr
    | verifying out p95 =>
      rw [hp] at hat
      exact ⟨hat.1, hat.2.1, fun hfl => hwin hself (hat.2.2 hfl)⟩
    | ended ending => trivial

theorem Inv.take (h : self.Inv setup) {reader : Reader π}
    (hp : self.phase = .reading out i p95)
    (hrdr : self.readers[i]? = some reader)
    (hsettled : out.failed = 0 → reader.settled = true) (rng : Rng) :
    (self.take out i p95 reader rng).Inv setup := by
  have hm := mem_of_getElem? hrdr
  have hset := h.set hrdr (reader.takeOutcome_keeps rng)
  have hat := hset.atPhase
  rw [hp] at hat
  obtain ⟨hfl, hlen, hclear⟩ := hat
  have hnote : (({ self with readers := self.readers.set i (reader.takeOutcome rng).2 } :
      WebsocketFanout π).note fun window =>
        { window with taken := window.taken ++ [(reader.takeOutcome rng).1] }).Apart setup := by
    refine hset.apart.note (fun _ => rfl) fun window hwin taken htk => ?_
    rcases mem_concat.mp htk with hold | rfl
    · exact .inl hold
    · exact .inr ⟨(h.apart.sound reader hm).counts, (h.apart.within reader hm).counted⟩
  have hids : (self.note fun window =>
      { window with taken := window.taken ++ [(reader.takeOutcome rng).1] }).ids = self.ids :=
    ids_note fun _ => rfl
  refine ⟨hnote.of_eq rfl rfl rfl, ?_, ?_, ?_⟩
  · refine Eq.trans ?_ hfl
    exact map_map ..
  · exact (congrArg List.length hids).trans hlen
  · intro hzero other ho
    change other ∈ (self.readers.set i (reader.takeOutcome rng).2).take (i + 1) at ho
    rw [take_add_one, mem_append] at ho
    rcases ho with hearlier | hthis
    · exact hclear hzero other hearlier
    · rw [getElem?_set_of hrdr _] at hthis
      rw [mem_singleton.mp hthis]
      exact Reader.takeOutcome_settled (hsettled hzero) rng

theorem Inv.read (h : self.Inv setup) (hp : self.phase = .reading out i p95)
    {timedOut : Bool} {rng : Rng} (hrd : self.read out i p95 timedOut rng = some next) :
    next.Inv setup := by
  rw [WebsocketFanout.read] at hrd
  split at hrd
  · -- That was the last reader.
    rename_i hn
    cases hrd
    have hat := h.atPhase
    rw [hp] at hat
    refine ⟨h.apart.of_eq rfl rfl rfl, hat.1, hat.2.1,
      fun hfl reader hrdr => hat.2.2 hfl reader ?_⟩
    rw [take_of_length_le (getElem?_eq_none_iff.mp hn)]
    exact hrdr
  · rename_i reader hrdr
    split at hrd
    · split at hrd
      · cases hrd
        exact h.apart.ended _
      · split at hrd
        · rename_i hset
          cases hrd
          exact h.take hp hrdr (fun _ => hset) rng
        · split at hrd
          · cases hrd
            exact h.apart.ended _
          · cases hrd
    · rename_i hfl
      cases hrd
      exact h.take hp hrdr (fun hzero => absurd hzero hfl) rng

theorem Inv.leave (h : self.Inv setup) (hp : self.phase = .verifying out p95) :
    (self.leave out p95).Inv setup := by
  have hat := h.atPhase
  rw [hp] at hat
  obtain ⟨hwin, hlen, hclear⟩ := hat
  have hfl : self.failed = out.failed := by
    rw [failed, hwin]
    rfl
  refine ⟨h.apart.of_eq rfl rfl rfl, ?_, fun hzero => hclear (hfl.symm.trans hzero)⟩
  change self.ids.length = self.cursor + out.delivered + self.failed
  rw [hlen, hfl, Nat.add_assoc]

/-- **One step.** A window is over when the next begins, so a clean run was clean before. -/
theorem Inv.step (h : self.Clean → self.Inv setup) {ev : FanoutEvent π}
    (hst : self.step setup ev = some next) (hcl : next.Clean) : next.Inv setup := by
  cases ev with
  | enter now started entropy =>
    rw [WebsocketFanout.step] at hst
    split at hst
    · rename_i hp
      split at hst
      · cases hst
        exact (h hcl).apart.ended _
      · cases hst
        have hwindows : ∀ window ∈ self.windows, window.failed = 0 := by
          rw [WebsocketFanout.Clean, WebsocketFanout.enter, proceed_past] at hcl
          exact hcl
        have hb : self.Clean := fun window hwin =>
          hwindows window (mem_windows.mpr (.inl hwin))
        exact (h hb).enter hp hwindows now started entropy
    · cases hst
  | range =>
    rw [WebsocketFanout.step] at hst
    split at hst
    · cases hst
      exact (h hcl).apart.ended _
    · cases hst
  | run ev =>
    rw [WebsocketFanout.step] at hst
    split at hst
    · rename_i deadline driver hp
      split at hst
      · rename_i after hdrv
        cases hst
        rw [WebsocketFanout.Clean, proceed_past, requests_past] at hcl
        exact (h hcl).run hp hdrv
      · cases hst
    · cases hst
  | stamp id time =>
    rw [WebsocketFanout.step] at hst
    split at hst
    · obtain ⟨clock, -, rfl⟩ := map_eq_some_iff.mp hst
      exact ⟨(h hcl).apart.of_eq rfl rfl rfl, (h hcl).atPhase⟩
    · cases hst
  | notify i acc id now =>
    rw [WebsocketFanout.step] at hst
    split at hst
    · rename_i reader hrdr
      split at hst
      · cases hst
      · split at hst
        · rename_i after hobv
          cases hst
          exact (h hcl).set hrdr (Reader.observe_keeps hobv)
        · cases hst
    · cases hst
  | close i reason =>
    rw [WebsocketFanout.step] at hst
    split at hst
    · rename_i reader hrdr
      cases hst
      exact (h hcl).set hrdr (reader.close_keeps reason)
    · cases hst
  | take timedOut rng =>
    rw [WebsocketFanout.step] at hst
    split at hst
    · rename_i out i p95 hp
      rw [WebsocketFanout.Clean, read_past hst] at hcl
      exact (h hcl).read hp hst
    · cases hst
  | verified success =>
    rw [WebsocketFanout.step] at hst
    split at hst
    · rename_i out p95 hp
      cases hst
      cases success with
      | true => exact (h hcl).leave hp
      | false =>
        exact (h hcl).apart.ended _
    · cases hst
  | stop =>
    cases hst
    exact ⟨(h hcl).apart.of_eq rfl rfl rfl, (h hcl).atPhase⟩

theorem Inv.start (setup : Setup π) (duration : ℕ) (entropy : ℕ → Rng) :
    (start setup duration entropy).Inv setup := by
  have hreaders : ∀ reader ∈ (WebsocketFanout.start setup duration entropy).readers,
      reader.Sound ∧ reader.Within [] := by
    intro reader hrdr
    obtain ⟨i, -, rfl⟩ := mem_map.mp hrdr
    exact ⟨Reader.sound_connect _, Reader.within_connect _⟩
  refine ⟨⟨rfl, fun reader hrdr => (hreaders reader hrdr).1,
    fun reader hrdr => (hreaders reader hrdr).2, fun window hwin => ?_,
    fun window hwin => ?_⟩, rfl, fun _ reader hrdr => (hreaders reader hrdr).2⟩
  all_goals cases hwin

theorem Reachable.inv (h : self.Reachable setup) : self.Clean → self.Inv setup := by
  obtain ⟨duration, entropy, hreachable⟩ := h
  exact hreachable.induction (fun _ => .start setup duration entropy)
    fun _ _ _ hs hst => Inv.step hs hst

/-- **The windows of the fanout do not overlap, as long as only the last one may have failed
requests.** However many windows there are, no id is used twice, and what is taken from a reader at
the end of a window counts writes of that window only. -/
theorem windows_apart (setup : Setup π) (self : WebsocketFanout π) (h : self.Reachable setup)
    (hclean : ∀ window ∈ self.past, window.failed = 0) :
    self.ids.Nodup ∧
    ∀ window ∈ self.windows, ∀ taken ∈ window.taken,
      taken.outcome.observed + taken.outcome.superseded = taken.counted.card ∧
      ∀ write ∈ taken.counted, write ∈ window.writes setup.keys := by
  have hapart := (h.inv hclean).apart
  refine ⟨?_, fun window hwindow taken htaken => ⟨?_, ?_⟩⟩
  · rw [hapart.numbered]
    exact nodup_range'
  · exact (hapart.counts window hwindow taken htaken).symm
  · exact hapart.own window hwindow taken htaken

/-- **After a window with failed requests, the next id was used before.** -/
theorem next_id_reused (h : self.Reachable setup) (hcl : self.Clean)
    (hp : self.phase = .head) (hfl : self.failed ≠ 0) : self.cursor + 1 ∈ self.ids := by
  have hinv := h.inv hcl
  have hat := hinv.atPhase
  rw [hp] at hat
  obtain ⟨hlen, -⟩ := hat
  rw [hinv.apart.numbered, mem_range'_1]
  omega

/-! ### Two windows -/

def lite : Setup ℕ := ⟨List.range 16, 8, 200⟩

def still : Rng := ⟨id, 0⟩

def report (deliver : Except String Unit) : Runner.Report :=
  ⟨0, .ok (), 0, deliver, 0, .ok (), 0⟩

/-- The first window, with two requests: the ids are 1 and 2. The readers are told of some writes.
The driver starts three milliseconds after the deadline was computed, so there is time left. -/
def firstWindow (first : Except String Unit) (updates : List (ℕ × ℕ)) : List (FanoutEvent ℕ) :=
  [.enter 0 3000000 fun _ => still, .run (.check ⟨3010000, false, false⟩), .run .tick,
    .run (.check ⟨3020000, false, false⟩), .run (.check ⟨3030000, false, false⟩), .run .tick,
    .run (.check ⟨8600000, false, false⟩), .run (.check ⟨8610000, false, false⟩),
    .run (.completed 0 (report first) 9500000), .run (.completed 0 (report (.ok ())) 9600000),
    .run (.stopped ⟨10700000, false, false⟩)] ++
  ((List.range 8).flatMap fun reader => updates.map fun (account, id) =>
    .notify reader account id 11000000) ++
  List.replicate 9 (.take false still) ++ [.verified true]

/-- The second window, with one request, which is done when admission is over. -/
def secondWindow (updates : List (ℕ × ℕ)) : List (FanoutEvent ℕ) :=
  [.enter 12000000 12100000 fun _ => still, .run (.check ⟨12110000, false, false⟩), .run .tick,
    .run (.check ⟨12120000, false, false⟩), .run (.check ⟨12130000, false, false⟩),
    .run (.stopped ⟨15000000, false, false⟩), .run (.completed 0 (report (.ok ())) 15500000)] ++
  ((List.range 8).flatMap fun reader => updates.map fun (account, id) =>
    .notify reader account id 16000000) ++
  List.replicate 8 (.take false still)

def sample (events : List (FanoutEvent ℕ)) : WebsocketFanout ℕ :=
  Machine.goOn (step lite) (start lite 10000000 fun _ => still) events

theorem sample_reachable (evs : List (FanoutEvent ℕ)) : (sample evs).Reachable lite :=
  ⟨10000000, fun _ => still, Machine.reachable_goOn _ evs⟩

def allDelivered : WebsocketFanout ℕ :=
  sample (firstWindow (.ok ()) [(1, 1), (2, 1), (4, 2), (5, 2)] ++ secondWindow [(7, 3), (8, 3)])

/-- The answer to the first request is lost. Its write, and the second one, are seen in the next
window. -/
def answerLost : WebsocketFanout ℕ :=
  sample (firstWindow (.error "connection reset") [] ++ secondWindow [(1, 1), (2, 1), (4, 2), (5, 2)])

theorem windows_apart_delivered :
    allDelivered.ids = [1, 2, 3] ∧ allDelivered.past.length = 1 ∧ allDelivered.ids.Nodup ∧
    ∀ window ∈ allDelivered.windows, ∀ taken ∈ window.taken,
      taken.outcome.observed + taken.outcome.superseded = taken.counted.card ∧
      ∀ write ∈ taken.counted, write ∈ window.writes lite.keys :=
  ⟨by decide +kernel, by decide +kernel,
    windows_apart lite allDelivered (sample_reachable _) (by decide +kernel)⟩

/-- After a window with a failed request an id is used again, and each reader counts four writes in
a window of two: among them one of the window before. -/
theorem failed_request_mixes_windows :
    answerLost.Reachable lite ∧ answerLost.ids = [1, 2, 2] ∧
    ∃ window ∈ answerLost.windows, (window.writes lite.keys) = [(2, 4), (2, 5)] ∧
      window.taken.length = 8 ∧ ∀ taken ∈ window.taken,
        taken.outcome.observed + taken.outcome.superseded = 4 ∧ (1, 1) ∈ taken.counted :=
  ⟨sample_reachable _, by decide +kernel, by decide +kernel⟩

end WebsocketFanout

end Fanout

end Redsuite
