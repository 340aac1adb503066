import Redsuite.Account
import Redsuite.HttpHead
import Redsuite.Table
import Mathlib.Algebra.BigOperators.Group.Multiset.Basic
import Mathlib.Data.List.TakeWhile
import Mathlib.Algebra.Order.BigOperators.Group.List
import Mathlib.Algebra.Order.Ring.Rat

/-!
# Scraped metrics

A model of `Metrics` and `MetricsDelta` of `core/src/api/mod.rs` and of the idle check of
`scheduler_contention/mod.rs`.
-/

namespace Redsuite

open List
open Http (isWhitespace trim)

/-- `Metrics`: samples by key. -/
abbrev Metrics : Type := Table (List Char) ℚ

namespace Metrics

def sumSeries (self : Metrics) (name : List Char) (value : List Char → ℚ → ℚ) : Option ℚ :=
  match self.entries.filter fun entry => (name ++ ['{']).isPrefixOf entry.1 with
  | [] => (self.lookup name).map (value name)
  | matched => some (matched.map fun entry => value entry.1 entry.2).sum

def valueSum (self : Metrics) (name : List Char) : Option ℚ :=
  self.sumSeries name fun _ value => value

/-- Where the key of a line ends: after the last brace, or before the first blank. -/
def keyEnd (line : List Char) : Option ℕ :=
  if '{' ∈ line then
    if '}' ∈ line then some (line.length - line.reverse.idxOf '}') else none
  else if ' ' ∈ line then some (line.idxOf ' ')
  else none

def readLine (number : List Char → Option ℚ) (line : List Char) : Option (List Char × ℚ) :=
  let line := trim line
  if line = [] ∨ line.head? = some '#' then none
  else do
    let keyEnd ← keyEnd line
    let word := ((line.drop keyEnd).dropWhile isWhitespace).takeWhile fun c => !isWhitespace c
    let value ← if word = [] then none else number word
    some (line.take keyEnd, value)

def bare (key : List Char) : List Char := key.takeWhile (· ≠ '{')

/-- The inserts of `Metrics::parse` for one line. -/
def put (self : Metrics) (entry : List Char × ℚ) : Metrics :=
  (if '{' ∈ entry.1 then self.insert (bare entry.1) entry.2 else self).insert entry.1 entry.2

/-- What all lines of a text say. `str::lines` also cuts off `\r` and a last empty line, as
`trim` and the check for empty lines do here. -/
def said (number : List Char → Option ℚ) (text : List Char) : List (List Char × ℚ) :=
  (text.splitOn '\n').filterMap (readLine number)

def parse (number : List Char → Option ℚ) (text : List Char) : Metrics :=
  (said number text).foldl put ∅

/-- `BLOCKED_TRANSACTIONS`, `BUSY_EXECUTORS` and `PENDING_TRANSACTIONS`. -/
def gauges : List String :=
  ["engine_processor_blocked_transactions", "engine_processor_busy_executors",
    "engine_ledger_pending_transactions"]

/-- `is_idle`; a gauge that is missing is not a number. -/
def isIdle (self : Metrics) : Bool := gauges.all fun gauge => self.lookup gauge.toList = some 0

def counterAll (before after : Metrics) (name : List Char) : Option ℚ :=
  after.sumSeries name fun key value => value - (before.lookup key).getD 0

/-! ### What is found under a key -/

variable {number : List Char → Option ℚ} {es : List (List Char × ℚ)} {key name : List Char}

/-- The line is kept under this key. -/
def Touches (key : List Char) (entry : List Char × ℚ) : Prop :=
  entry.1 = key ∨ '{' ∈ entry.1 ∧ bare entry.1 = key

instance (key : List Char) (entry : List Char × ℚ) : Decidable (Touches key entry) :=
  inferInstanceAs (Decidable (_ ∨ _))

/-- **A key holds what the last line kept there said.** -/
theorem lookup_put (es : List (List Char × ℚ)) (key : List Char) :
    (es.foldl put ∅).lookup key =
      (es.filter (Touches key ·)).getLast?.map Prod.snd := by
  induction es using List.reverseRecOn with
  | nil => rfl
  | append_singleton es e ih =>
    rw [foldl_append, foldl_cons, foldl_nil, put, filter_append, Table.lookup_insert_iff]
    by_cases htch : Touches key e
    · rw [filter_cons_of_pos (by simpa using htch), filter_nil, getLast?_concat]
      split
      · rfl
      · rename_i hne
        obtain ⟨hbrace, hbare⟩ := htch.resolve_left (Ne.symm hne)
        rw [if_pos hbrace, hbare, AList.lookup_insert]
        rfl
    · rw [filter_cons_of_neg (by simpa using htch), filter_nil, append_nil, ← ih, if_neg]
      · split
        · rename_i hbrace
          rw [AList.lookup_insert_ne]
          exact fun heq => htch (.inr ⟨hbrace, heq.symm⟩)
        · rfl
      · exact fun heq => htch (.inl heq.symm)

theorem of_lookup_put {v : ℚ} (h : (es.foldl put ∅).lookup key = some v) :
    ∃ e ∈ es, Touches key e ∧ e.2 = v := by
  rw [lookup_put] at h
  obtain ⟨e, hla, hval⟩ := Option.map_eq_some_iff.mp h
  obtain ⟨hm, htch⟩ := mem_filter.mp (mem_of_getLast? hla)
  exact ⟨e, hm, of_decide_eq_true htch, hval⟩

theorem brace_not_mem_bare : '{' ∉ bare key := fun hm => by simpa using mem_takeWhile_imp hm

theorem exists_labels (h : '{' ∈ key) : ∃ rest, key = bare key ++ '{' :: rest := by
  induction key with
  | nil => cases h
  | cons c key ih =>
    by_cases hc : c = '{'
    · exact ⟨key, by simp [bare, hc]⟩
    · obtain ⟨rest, hr⟩ := ih (mem_of_ne_of_mem (Ne.symm hc) h)
      refine ⟨rest, ?_⟩
      rw [bare, takeWhile_cons_of_pos (by simpa using hc)]
      exact congrArg (c :: ·) hr

theorem bare_append (hnm : '{' ∉ name) (rest : List Char) : bare (name ++ '{' :: rest) = name := by
  rw [bare, takeWhile_append_of_pos fun c hc => ?_]
  · simp
  · simpa using fun heq : c = '{' => hnm (heq ▸ hc)

theorem prefix_iff (hnm : '{' ∉ name) :
    (name ++ ['{']).isPrefixOf key = true ↔ '{' ∈ key ∧ bare key = name := by
  rw [ isPrefixOf_iff_prefix]
  constructor
  · rintro ⟨rest, rfl⟩
    rw [append_assoc]
    exact ⟨by simp, bare_append hnm rest⟩
  · rintro ⟨hbrace, rfl⟩
    obtain ⟨rest, hr⟩ := exists_labels hbrace
    exact ⟨rest, by rw [append_assoc]; exact hr.symm⟩

theorem lookup_said (hkeys : (es.map Prod.fst).Nodup)
    (hown : ∀ e ∈ es, '{' ∈ e.1 → bare e.1 ≠ key) (v : ℚ) :
    (es.foldl put ∅).lookup key = some v ↔ (key, v) ∈ es := by
  have htch : ∀ e ∈ es, Touches key e → e.1 = key :=
    fun e hm h => h.resolve_right fun hbare => hown e hm hbare.1 hbare.2
  constructor
  · intro hlk
    obtain ⟨e, hm, htouch, rfl⟩ := of_lookup_put hlk
    exact htch e hm htouch ▸ hm
  · intro hm
    have hne : es.filter (Touches key ·) ≠ [] :=
      ne_nil_of_mem (mem_filter.mpr ⟨hm, decide_eq_true (.inl rfl)⟩)
    obtain ⟨found, hf⟩ : ∃ found, (es.foldl put ∅).lookup key = some found :=
      ⟨_, by rw [lookup_put, getLast?_eq_some_getLast hne]; rfl⟩
    obtain ⟨e, he, htouch, rfl⟩ := of_lookup_put hf
    rw [hf, inj_on_of_nodup_map hkeys he hm (htch e he htouch)]

/-- What the last of these lines said. -/
def lastSaid (test : List Char → Prop) [DecidablePred test] (entries : List (List Char × ℚ)) :
    Option ℚ :=
  (entries.filter fun entry => test entry.1).getLast?.map Prod.snd

theorem lookup_name (hnm : '{' ∉ name) (es : List (List Char × ℚ)) :
    (es.foldl put ∅).lookup name = lastSaid (bare · = name) es := by
  have htch : ∀ e : List Char × ℚ, Touches name e ↔ bare e.1 = name := by
    intro e
    by_cases hbrace : '{' ∈ e.1
    · simp only [Touches, hbrace, true_and, or_iff_right_iff_imp]
      rintro rfl
      exact absurd hbrace hnm
    · have hself : bare e.1 = e.1 :=
        takeWhile_eq_self_iff.mpr fun c hc => decide_eq_true fun heq => hbrace (heq ▸ hc)
      simp only [Touches, hbrace, false_and, or_false, hself]
  rw [lookup_put, lastSaid]
  simp only [htch]

theorem lookup_series (hbrace : '{' ∈ key) (es : List (List Char × ℚ)) :
    (es.foldl put ∅).lookup key = lastSaid (· = key) es := by
  have htch : ∀ e : List Char × ℚ, Touches key e ↔ e.1 = key :=
    fun e => or_iff_left fun h => brace_not_mem_bare (h.2 ▸ hbrace)
  rw [lookup_put, lastSaid]
  simp only [htch]

/-- The labelled series of a metric. -/
def labelled (name : List Char) (entries : List (List Char × ℚ)) : List (List Char × ℚ) :=
  entries.filter fun entry => '{' ∈ entry.1 ∧ bare entry.1 = name

theorem series_perm (hkeys : (es.map Prod.fst).Nodup) (hnm : '{' ∉ name) :
    (((es.foldl put ∅).entries.filter fun e => (name ++ ['{']).isPrefixOf e.1).map
      fun e => (e.1, e.2)) ~ labelled name es := by
  have hnd := (es.foldl put ∅).nodupKeys.nodup.filter
    fun e => (name ++ ['{']).isPrefixOf e.1
  refine (perm_ext_iff_of_nodup (hnd.map fun a b h => ?_) (hkeys.of_map.filter _)).mpr ?_
  · exact Sigma.ext (congrArg Prod.fst h) (heq_of_eq (congrArg Prod.snd h))
  rintro ⟨key, v⟩
  rw [mem_filter, decide_eq_true_eq, mem_map]
  constructor
  · rintro ⟨e, he, heq⟩
    cases heq
    obtain ⟨hm, hprefix⟩ := mem_filter.mp he
    have hlabd := (prefix_iff hnm).mp hprefix
    refine ⟨(lookup_said hkeys (fun other _ _ heq => ?_) _).mp (AList.mem_lookup_iff.mpr hm),
      hlabd⟩
    exact brace_not_mem_bare (heq ▸ hlabd.1)
  · rintro ⟨hm, hlabd⟩
    refine ⟨⟨key, v⟩, mem_filter.mpr ⟨AList.mem_lookup_iff.mp ?_, (prefix_iff hnm).mpr hlabd⟩,
      rfl⟩
    refine (lookup_said hkeys (fun other _ _ heq => ?_) _).mpr hm
    exact brace_not_mem_bare (heq ▸ hlabd.1)

/-! ### Idle -/

section Idle

variable {text : List Char} {gauge : String} (hgauge : gauge ∈ gauges)

include hgauge

theorem gauge_name : '{' ∉ gauge.toList := by
  revert gauge
  decide

/-- What is summed up are the last values of the labelled series. -/
theorem mem_series {key : List Char} {v : ℚ} :
    ⟨key, v⟩ ∈ (parse number text).entries.filter
        (fun entry => (gauge.toList ++ ['{']).isPrefixOf entry.1) ↔
      ('{' ∈ key ∧ bare key = gauge.toList) ∧ lastSaid (· = key) (said number text) = some v := by
  rw [mem_filter, prefix_iff (gauge_name hgauge), and_comm]
  refine and_congr_right fun hkey => ?_
  rw [← lookup_series hkey.1]
  exact AList.mem_lookup_iff.symm

theorem zero_of_sum
    (hnonneg : ∀ entry ∈ labelled gauge.toList (said number text), 0 ≤ entry.2)
    (hsum : (parse number text).valueSum gauge.toList = some 0) :
    ∀ entry ∈ labelled gauge.toList (said number text),
      lastSaid (· = entry.1) (said number text) = some 0 := by
  intro entry hentry
  obtain ⟨hin, hkey⟩ := mem_filter.mp hentry
  obtain ⟨v, hv⟩ : ∃ v, lastSaid (· = entry.1) (said number text) = some v := by
    have hne : (said number text).filter (fun e => e.1 = entry.1) ≠ [] :=
      ne_nil_of_mem (mem_filter.mpr ⟨hin, decide_eq_true rfl⟩)
    exact ⟨_, by rw [lastSaid, getLast?_eq_some_getLast hne]; rfl⟩
  have hmem := (mem_series hgauge).mpr ⟨of_decide_eq_true hkey, hv⟩
  rw [valueSum, sumSeries] at hsum
  split at hsum
  · rename_i hnone
    exact absurd hmem (hnone ▸ not_mem_nil)
  · -- nothing is negative, so nothing makes up for another
    have hzero : ∀ x ∈ ((parse number text).entries.filter fun entry =>
        (gauge.toList ++ ['{']).isPrefixOf entry.1).map fun entry => entry.2, 0 ≤ x := by
      intro x hx
      obtain ⟨⟨key, _⟩, hfound, rfl⟩ := mem_map.mp hx
      obtain ⟨hseries, hlast⟩ := (mem_series hgauge).mp hfound
      obtain ⟨last, hsome, rfl⟩ := Option.map_eq_some_iff.mp hlast
      obtain ⟨hsaid, hlastKey⟩ := mem_filter.mp (mem_of_getLast? hsome)
      refine hnonneg last (mem_filter.mpr ⟨hsaid, decide_eq_true ?_⟩)
      rwa [of_decide_eq_true hlastKey]
    have hall := all_zero_of_le_zero_le_of_sum_eq_zero hzero (Option.some.inj hsum)
      (mem_map_of_mem hmem)
    rw [hv]
    exact congrArg some hall

theorem sum_of_zero (hshown : (parse number text).lookup gauge.toList = some 0)
    (hzero : ∀ entry ∈ labelled gauge.toList (said number text),
      lastSaid (· = entry.1) (said number text) = some 0) :
    (parse number text).valueSum gauge.toList = some 0 := by
  rw [valueSum, sumSeries]
  split
  · rw [hshown]
    rfl
  · refine congrArg some (sum_eq_zero fun value hvalue => ?_)
    obtain ⟨⟨key, found⟩, hfound, rfl⟩ := mem_map.mp hvalue
    obtain ⟨hkey, hlast⟩ := (mem_series hgauge).mp hfound
    obtain ⟨entry, hentry, -⟩ := Option.map_eq_some_iff.mp hlast
    obtain ⟨hsaid, heq⟩ := mem_filter.mp (mem_of_getLast? hentry)
    obtain rfl := of_decide_eq_true heq
    have hnone := hzero entry (mem_filter.mpr ⟨hsaid, decide_eq_true hkey⟩)
    exact Option.some.inj (hlast.symm.trans hnone)

end Idle

/-- **When a pipeline that looks idle is idle.** For a text without negative series: `is_idle` tells
the truth about the sums of the gauges exactly where it is false, because the last line of some
gauge shows something else than zero, or where the last line of every labelled series of the
gauges shows zero. -/
theorem idle_sums (text : List Char)
    (hnonneg : ∀ gauge ∈ gauges, ∀ entry ∈ labelled gauge.toList (said number text), 0 ≤ entry.2) :
    (isIdle (parse number text) = true →
      ∀ gauge ∈ gauges, (parse number text).valueSum gauge.toList = some 0) ↔
    (∃ gauge ∈ gauges, lastSaid (bare · = gauge.toList) (said number text) ≠ some 0) ∨
      ∀ gauge ∈ gauges, ∀ entry ∈ labelled gauge.toList (said number text),
        lastSaid (· = entry.1) (said number text) = some 0 := by
  have hidle : isIdle (parse number text) = true ↔
      ∀ gauge ∈ gauges, lastSaid (bare · = gauge.toList) (said number text) = some 0 := by
    rw [isIdle, all_eq_true]
    refine forall₂_congr fun gauge hgauge => ?_
    rw [decide_eq_true_iff, parse, lookup_name (gauge_name hgauge)]
  rw [hidle]
  constructor
  · intro hsums
    by_cases hshown : ∀ gauge ∈ gauges,
        lastSaid (bare · = gauge.toList) (said number text) = some 0
    · exact .inr fun gauge hgauge =>
        zero_of_sum hgauge (hnonneg gauge hgauge) (hsums hshown gauge hgauge)
    · simp only [not_forall] at hshown
      obtain ⟨gauge, hgauge, hne⟩ := hshown
      exact .inl ⟨gauge, hgauge, hne⟩
  · rintro (⟨gauge, hgauge, hne⟩ | hzero) hshown
    · exact absurd (hshown gauge hgauge) hne
    · intro gauge hgauge
      refine sum_of_zero hgauge ?_ (hzero gauge hgauge)
      rw [parse, lookup_name (gauge_name hgauge)]
      exact hshown gauge hgauge

def sampleNumber : List Char → Option ℚ
  | ['0'] => some 0
  | ['5'] => some 5
  | _ => none

/-- The gauges, with these lines for the busy executors. -/
def sampleText (busy : String) : List Char :=
  ("engine_processor_blocked_transactions 0\nengine_ledger_pending_transactions 0\n" ++ busy).toList

/-- One unlabelled series that is printed twice. -/
theorem idle_sums_twice :
    (parse sampleNumber (sampleText
      "engine_processor_busy_executors 5\nengine_processor_busy_executors 0")).valueSum
        "engine_processor_busy_executors".toList = some 0 := by
  have hnone : ∀ gauge ∈ gauges, labelled gauge.toList (said sampleNumber (sampleText
      "engine_processor_busy_executors 5\nengine_processor_busy_executors 0")) = [] := by
    decide +kernel
  refine (idle_sums _ ?_).mpr (.inr ?_) (by decide +kernel) _ (by decide)
  · intro gauge hgauge entry hentry
    rw [hnone gauge hgauge] at hentry
    cases hentry
  · intro gauge hgauge entry hentry
    rw [hnone gauge hgauge] at hentry
    cases hentry

/-- **A busy executor is overlooked**, where another series of the gauge follows. -/
theorem busy_looks_idle :
    let metrics := parse sampleNumber (sampleText
      "engine_processor_busy_executors\x7ber=\"1\"\x7d 5\nengine_processor_busy_executors\x7ber=\"2\"\x7d 0")
    isIdle metrics = true ∧
      metrics.valueSum "engine_processor_busy_executors".toList = some 5 := by
  decide +kernel

/-! ### Sums over series -/

/-- A line that ends with the value after its label block, if it has one. -/
structure Written (number : List Char → Option ℚ) (line key : List Char) (value : ℚ) : Prop where
  line_eq : ∃ digits, line = key ++ ' ' :: digits ∧ digits ≠ [] ∧ number digits = some value ∧
    ∀ c ∈ digits, c ≠ '{' ∧ c ≠ '}' ∧ isWhitespace c = false
  key_eq : ∃ name, name ≠ [] ∧ name.head? ≠ some '#' ∧
    (∀ c ∈ name, c ≠ '{' ∧ isWhitespace c = false) ∧
    (key = name ∨ ∃ labels, key = name ++ '{' :: labels ++ ['}'])

theorem trim_eq_self {first last : Char} (line : List Char) (hfst : isWhitespace first = false)
    (hla : isWhitespace last = false) :
    trim (first :: line ++ [last]) = first :: line ++ [last] := by
  rw [trim, cons_append, dropWhile_cons_of_neg (by simp [hfst]), ← cons_append, reverse_append]
  rw [reverse_singleton, singleton_append, dropWhile_cons_of_neg (by simp [hla])]
  simp

theorem keyEnd_written {line : List Char} {v : ℚ} (h : Written number line key v) :
    keyEnd line = some key.length := by
  obtain ⟨digits, rfl, -, -, hdig⟩ := h.line_eq
  obtain ⟨name, -, -, hnm, rfl | ⟨labels, rfl⟩⟩ := h.key_eq
  · have hbrace : '{' ∉ key ++ ' ' :: digits := by
      simp only [mem_append, mem_cons, not_or]
      exact ⟨fun h => (hnm _ h).1 rfl, by decide, fun h => (hdig _ h).1 rfl⟩
    have hspace : isWhitespace ' ' = true := by decide
    have hblank : ' ' ∉ key := fun h => Bool.noConfusion ((hnm ' ' h).2.symm.trans hspace)
    rw [keyEnd, if_neg hbrace, if_pos (by simp), idxOf_append_of_notMem hblank, idxOf_cons_self]
    rfl
  · have hclose : '}' ∉ digits.reverse ++ [' '] := by
      simp only [mem_append, mem_reverse, mem_singleton, not_or]
      exact ⟨fun h => (hdig _ h).2.1 rfl, by decide⟩
    rw [keyEnd, if_pos (by simp), if_pos (by simp)]
    have hreverse : (name ++ '{' :: labels ++ ['}'] ++ ' ' :: digits).reverse
        = digits.reverse ++ [' '] ++ '}' :: (name ++ '{' :: labels).reverse := by simp
    rw [hreverse, idxOf_append_of_notMem hclose, idxOf_cons_self]
    simp only [length_append, length_reverse, length_cons, length_nil]
    exact congrArg some (by omega)

theorem readLine_written {line : List Char} {v : ℚ} (h : Written number line key v) :
    readLine number line = some (key, v) := by
  have hk := keyEnd_written h
  obtain ⟨digits, rfl, hne, hnum, hdig⟩ := h.line_eq
  obtain ⟨first, rest, hfst, hwhite, hhash⟩ : ∃ first rest, key = first :: rest ∧
      isWhitespace first = false ∧ first ≠ '#' := by
    obtain ⟨name, hnm, hhead, hwhite, hk⟩ := h.key_eq
    obtain ⟨first, rest, rfl⟩ := exists_cons_of_ne_nil hnm
    have hchar := (hwhite first mem_cons_self).2
    rcases hk with rfl | ⟨labels, rfl⟩
    · exact ⟨first, rest, rfl, hchar, fun heq => hhead (congrArg some heq)⟩
    · exact ⟨first, _, rfl, hchar, fun heq => hhead (congrArg some heq)⟩
  have htrim : trim (key ++ ' ' :: digits) = key ++ ' ' :: digits := by
    obtain ⟨front, last, rfl⟩ := (eq_nil_or_concat digits).resolve_left hne
    have := trim_eq_self (rest ++ ' ' :: front) hwhite (hdig last (by simp)).2.2
    simpa [hfst] using this
  have hword : ((' ' :: digits).dropWhile isWhitespace).takeWhile (fun c => !isWhitespace c) =
      digits := by
    obtain ⟨head, tail, rfl⟩ := exists_cons_of_ne_nil hne
    rw [dropWhile_cons_of_pos (by decide),
      dropWhile_cons_of_neg (by simp [(hdig head mem_cons_self).2.2]), takeWhile_eq_self_iff]
    exact fun c hc => by simp [(hdig c hc).2.2]
  have hsr : ¬(key ++ ' ' :: digits = [] ∨ (key ++ ' ' :: digits).head? = some '#') := by
    simp [hfst, hhash]
  simp only [readLine, htrim, if_neg hsr, hk, drop_left, hword, if_neg hne, hnum,
    take_left, Option.bind_eq_bind, Option.bind_some]

/-- The sum over the labelled series of a metric, or else its unlabelled one. -/
def total (series : List (List Char × ℚ)) (name : List Char) (value : List Char → ℚ → ℚ) :
    Option ℚ :=
  match labelled name series with
  | [] => (series.lookup name).map (value name)
  | matched => some (matched.map fun entry => value entry.1 entry.2).sum

theorem total_congr {v other : List Char → ℚ → ℚ}
    (hlabd : ∀ e ∈ labelled name es, v e.1 = other e.1)
    (hbare : labelled name es = [] → v name = other name) :
    total es name v = total es name other := by
  rw [total, total]
  split
  · rw [hbare ‹_›]
  · exact congrArg (some ∘ sum) (map_congr_left fun e he => congrFun (hlabd e he) _)

theorem not_labelled (h : labelled name es = []) :
    ∀ e ∈ es, '{' ∈ e.1 → bare e.1 ≠ name :=
  fun e hm hbrace hbare =>
    filter_eq_nil_iff.mp h e hm (decide_eq_true ⟨hbrace, hbare⟩)

section Order

variable {found : List (List Char × ℚ)} (hperm : found ~ es)
  (hkeys : (es.map Prod.fst).Nodup)

include hperm hkeys

theorem lookup_eq (hown : ∀ e ∈ es, '{' ∈ e.1 → bare e.1 ≠ key) :
    (found.foldl put ∅).lookup key = es.lookup key := by
  refine Option.ext fun v => ?_
  have hsaid := lookup_said ((hperm.map _).nodup_iff.mpr hkeys)
    (fun e hm => hown e (hperm.mem_iff.mp hm)) v
  rw [hsaid, hperm.mem_iff]
  exact ⟨fun hm => by convert lookup_of_mem hkeys hm, fun h => mem_of_lookup (by convert h)⟩

theorem sumSeries_eq (hnm : '{' ∉ name) (v : List Char → ℚ → ℚ) :
    sumSeries (found.foldl put ∅) name v = total es name v := by
  have hseries := (series_perm ((hperm.map _).nodup_iff.mpr hkeys) hnm).trans (hperm.filter _)
  have hsum := (hseries.map fun e => v e.1 e.2).sum_eq
  rw [map_map] at hsum
  rw [sumSeries, total]
  split
  · rename_i hn
    rw [hn] at hseries
    have hlabd : labelled name es = [] := hseries.symm.eq_nil
    rw [hlabd, lookup_eq hperm hkeys (not_labelled hlabd)]
  · rename_i hsome
    split
    · rename_i hn
      rw [labelled] at hn
      rw [hn] at hseries
      exact (hsome (map_eq_nil_iff.mp hseries.eq_nil)).elim
    · exact congrArg some hsum

end Order

/-- **Sums are over the series of a metric.** Lines are read as they are written, and what is
summed up are the labelled series of a metric, or the unlabelled one if there is none, whatever
the order of the lines. An increase counts each series from what it was before, and from nothing
where it was not there, exactly if the metric has labelled series now or none at all, or if its last
line before showed its unlabelled series. -/
theorem sums_of_series (number : List Char → Option ℚ) :
    (∀ line key value, Written number line key value → readLine number line = some (key, value)) ∧
    ∀ after after' before before' name : List Char, after'.splitOn '\n' ~ after.splitOn '\n' →
      before'.splitOn '\n' ~ before.splitOn '\n' → ((said number after).map Prod.fst).Nodup →
      ((said number before).map Prod.fst).Nodup → '{' ∉ name →
      (parse number after').valueSum name = total (said number after) name (fun _ value => value) ∧
      (counterAll (parse number before') (parse number after') name =
          total (said number after) name (fun key value =>
            value - ((said number before).lookup key).getD 0) ↔
        labelled name (said number after) ≠ [] ∨ (said number after).lookup name = none ∨
          (lastSaid (bare · = name) (said number before')).getD 0 =
            ((said number before).lookup name).getD 0) := by
  refine ⟨fun _ _ _ => readLine_written, fun after after' before before' name hafter hbefore hkeys
    hkeys' hname => ?_⟩
  have hafter : said number after' ~ said number after := hafter.filterMap _
  have hbefore : said number before' ~ said number before := hbefore.filterMap _
  refine ⟨sumSeries_eq hafter hkeys hname _, ?_⟩
  rw [counterAll, parse, sumSeries_eq hafter hkeys hname, ← lookup_name hname]
  by_cases hlabelled : labelled name (said number after) = []
  · -- the unlabelled series, if there is one
    simp only [total, hlabelled, ne_eq, not_true_eq_false, false_or, parse]
    cases (said number after).lookup name with
    | none => simp
    | some value => simp
  · refine iff_of_true (total_congr (fun entry hentry => ?_) fun h => absurd h hlabelled)
      (.inl hlabelled)
    have hbrace := (of_decide_eq_true (mem_filter.mp hentry).2).1
    rw [parse, lookup_eq hbefore hkeys' fun _ _ _ heq => brace_not_mem_bare (heq ▸ hbrace)]

theorem sums_of_series_sample :
    (parse sampleNumber "x\x7ba\x7d 5\nxy\x7ba\x7d 5\nx\x7bb\x7d 5\nx 0".toList).valueSum ['x']
      = some 10 :=
  (((sums_of_series sampleNumber).2 _ _ [] [] ['x'] (.refl _) (.refl _) (by decide +kernel)
    (by decide +kernel) (by decide)).1).trans (by decide +kernel)

/-- **A series that was not there before is counted from another**, where the metric had labels. -/
theorem increase_of_other_series :
    let before := "x\x7ba\x7d 0\nx\x7bb\x7d 5".toList
    let after := "x 5".toList
    counterAll (parse sampleNumber before) (parse sampleNumber after) ['x'] = some 0 ∧
    total (said sampleNumber after) ['x'] (fun key value =>
      value - ((said sampleNumber before).lookup key).getD 0) = some 5 := by
  decide +kernel

end Metrics

end Redsuite
