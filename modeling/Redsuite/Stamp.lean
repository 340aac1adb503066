import Mathlib.Algebra.Group.Nat.Defs
import Mathlib.Order.Nat

/-!
# Time stamps

A model of `utc_stamp` in `core/src/report/mod.rs`.
-/

namespace Redsuite.Report

open List

/-! ### The calendar -/

def isLeap (year : ℕ) : Bool := year % 4 = 0 && (year % 100 ≠ 0 || year % 400 = 0)

def monthLength (leap : Bool) (month : ℕ) : ℕ :=
  if month = 2 then if leap then 29 else 28 else if month ∈ [4, 6, 9, 11] then 30 else 31

/-- The day after a day of some year: how many years later, the month and the day. -/
def dayAfter (leap : Bool) (month day : ℕ) : ℕ × ℕ × ℕ :=
  if day < monthLength leap month then (0, month, day + 1)
  else if month < 12 then (0, month + 1, 1) else (1, 1, 1)

/-- A date of the calendar. -/
structure Date where
  year : ℕ
  month : ℕ
  day : ℕ
  deriving DecidableEq

def Date.next (self : Date) : Date :=
  let (years, month, day) := dayAfter (isLeap self.year) self.month self.day
  ⟨self.year + years, month, day⟩

def dateOf : ℕ → Date
  | 0 => ⟨1970, 1, 1⟩
  | days + 1 => (dateOf days).next

/-! ### The computation -/

def monthOf (dayOfYear : ℕ) : ℕ :=
  let monthIndex := (5 * dayOfYear + 2) / 153
  if monthIndex < 10 then monthIndex + 3 else monthIndex - 9

def dayOf (dayOfYear : ℕ) : ℕ :=
  let monthIndex := (5 * dayOfYear + 2) / 153
  dayOfYear - (153 * monthIndex + 2) / 5 + 1

def yearOfEra (dayOfEra : ℕ) : ℕ :=
  (dayOfEra - dayOfEra / 1460 + dayOfEra / 36524 - dayOfEra / 146096) / 365

/-- The date of `utc_stamp`, by the days since the epoch. -/
def civil (daysSinceEpoch : ℕ) : Date :=
  let days := daysSinceEpoch + 719468
  let era := days / 146097
  let dayOfEra := days % 146097
  let yearOfEra := yearOfEra dayOfEra
  let dayOfYear := dayOfEra - (365 * yearOfEra + yearOfEra / 4 - yearOfEra / 100)
  let month := monthOf dayOfYear
  ⟨yearOfEra + era * 400 + (if month ≤ 2 then 1 else 0), month, dayOf dayOfYear⟩

def padded : ℕ → ℕ → List Char
  | 0, n => if n = 0 then [] else Nat.toDigits 10 n
  | width + 1, n => padded width (n / 10) ++ [Nat.digitChar (n % 10)]

/-- `utc_stamp` at so many seconds since the epoch. -/
def utcStamp (secs : ℕ) : List Char :=
  let date := civil (secs / 86400)
  padded 4 date.year ++ padded 2 date.month ++ padded 2 date.day ++ 'T' ::
    (padded 2 (secs / 3600 % 24) ++ padded 2 (secs / 60 % 60) ++ padded 2 (secs % 60) ++ ['Z'])

/-! ### The date -/

def ofYearDay (year day : ℕ) : Date :=
  ⟨year + (if monthOf day ≤ 2 then 1 else 0), monthOf day, dayOf day⟩

/-- A day number is a day of a year that begins with March. The leap day is the last one. -/
structure At (days year day : ℕ) : Prop where
  count : days + 719468 = 365 * year + year / 4 - year / 100 + year / 400 + day
  last : day ≤ 364 + if isLeap (year + 1) then 1 else 0

theorem isLeap_iff (year : ℕ) :
    isLeap year = true ↔ year % 4 = 0 ∧ (year % 100 ≠ 0 ∨ year % 400 = 0) := by
  simp [isLeap]

theorem yearOfEra_eq {c k p t : ℕ} (hc : c ≤ 3) (hk : k ≤ 24) (hp : p ≤ 3) (ht : t ≤ 365)
    (hla : t = 365 → p = 3 ∧ (k = 24 → c = 3)) :
    yearOfEra (36524 * c + 1461 * k + 365 * p + t) = 100 * c + 4 * k + p := by
  generalize hd : 36524 * c + 1461 * k + 365 * p + t = d
  have hera : d / 146096 = if d = 146096 then 1 else 0 := by split <;> omega
  have hcentury : d / 36524 = c + if d = 146096 then 1 else 0 := by split <;> omega
  have hfour : d / 1460 = 25 * c + k + (24 * c + k + 365 * p + t) / 1460 := by omega
  rw [yearOfEra, hera, hcentury, hfour]
  split <;> omega

theorem At.civil {days year day : ℕ} (h : At days year day) : civil days = ofYearDay year day := by
  obtain ⟨hct, hday⟩ := h
  have hleap := isLeap_iff (year + 1)
  obtain ⟨e, c, k, p, hyear, hc, hk, hp⟩ : ∃ e c k p, year = 400 * e + (100 * c + 4 * k + p) ∧
      c ≤ 3 ∧ k ≤ 24 ∧ p ≤ 3 :=
    ⟨year / 400, year % 400 / 100, year % 100 / 4, year % 4, by omega, by omega, by omega, by omega⟩
  have hla : day ≤ 365 ∧ (day = 365 → p = 3 ∧ (k = 24 → c = 3)) := by
    split at hday
    · rename_i hyes
      have := hleap.mp hyes
      omega
    · omega
  have hfour : year / 4 = 100 * e + 25 * c + k := by omega
  have hcentury : year / 100 = 4 * e + c := by omega
  have hera : year / 400 = e := by omega
  have hdays : days + 719468 = 146097 * e + (36524 * c + 1461 * k + 365 * p + day) := by omega
  have hdiv : (days + 719468) / 146097 = e := by omega
  have hmod : (days + 719468) % 146097 = 36524 * c + 1461 * k + 365 * p + day := by omega
  have hfour' : (100 * c + 4 * k + p) / 4 = 25 * c + k := by omega
  have hcentury' : (100 * c + 4 * k + p) / 100 = c := by omega
  have hdoy : 36524 * c + 1461 * k + 365 * p + day - (365 * (100 * c + 4 * k + p) +
      (100 * c + 4 * k + p) / 4 - (100 * c + 4 * k + p) / 100) = day := by omega
  have hsum : 100 * c + 4 * k + p + e * 400 = year := by omega
  simp only [Report.civil, hdiv, hmod, yearOfEra_eq hc hk hp hla.1 hla.2, hdoy, hsum, ofYearDay]

theorem dayAfter_table : ∀ day < 364, ∀ leap, dayAfter leap (monthOf day) (dayOf day) =
    ((if monthOf (day + 1) ≤ 2 then 1 else 0) - (if monthOf day ≤ 2 then 1 else 0),
      monthOf (day + 1), dayOf (day + 1)) ∧
    ((if monthOf day ≤ 2 then 1 else 0) ≤ if monthOf (day + 1) ≤ 2 then 1 else 0) := by
  decide +kernel

theorem start_succ (year : ℕ) : 365 * (year + 1) + (year + 1) / 4 - (year + 1) / 100 +
    (year + 1) / 400 = 365 * year + year / 4 - year / 100 + year / 400 + 365 +
      if isLeap (year + 1) then 1 else 0 := by
  have hfour : (year + 1) / 4 = year / 4 + if (year + 1) % 4 = 0 then 1 else 0 := by
    split <;> omega
  have hcentury : (year + 1) / 100 = year / 100 + if (year + 1) % 100 = 0 then 1 else 0 := by
    split <;> omega
  have hera : (year + 1) / 400 = year / 400 + if (year + 1) % 400 = 0 then 1 else 0 := by
    split <;> omega
  have hle : year / 100 ≤ year / 4 := by omega
  rw [hfour, hcentury, hera]
  -- with the quotients as numbers of their own the cases are short
  clear hfour hcentury hera
  generalize year / 4 = fours at hle ⊢
  generalize year / 100 = centuries at hle ⊢
  generalize year / 400 = eras
  simp only [isLeap_iff]
  split <;> split <;> split <;> split <;> omega

theorem At.next {days year day : ℕ} (h : At days year day) :
    ∃ year' day', At (days + 1) year' day' ∧ ofYearDay year' day' = (ofYearDay year day).next := by
  obtain ⟨hct, hday⟩ := h
  have hsucc := start_succ year
  by_cases hinn : day < 364
  · obtain ⟨haf, hle⟩ := dayAfter_table day hinn (isLeap (ofYearDay year day).year)
    refine ⟨year, day + 1, ⟨by omega, by omega⟩, ?_⟩
    rw [Date.next]
    simp only [ofYearDay] at haf ⊢
    rw [haf]
    simp only [Date.mk.injEq, and_true]
    omega
  · cases hyes : isLeap (year + 1) with
    | true =>
      rw [hyes, if_pos rfl] at hday hsucc
      obtain rfl | rfl : day = 364 ∨ day = 365 := by omega
      · refine ⟨year, 365, ⟨by omega, by simp [hyes]⟩, ?_⟩
        simp [Date.next, ofYearDay, monthOf, dayOf, hyes, dayAfter, monthLength]
      · refine ⟨year + 1, 0, ⟨by omega, by omega⟩, ?_⟩
        simp [Date.next, ofYearDay, monthOf, dayOf, hyes, dayAfter, monthLength]
    | false =>
      rw [hyes, if_neg Bool.false_ne_true] at hday hsucc
      obtain rfl : day = 364 := by omega
      refine ⟨year + 1, 0, ⟨by omega, by omega⟩, ?_⟩
      simp [Date.next, ofYearDay, monthOf, dayOf, hyes, dayAfter, monthLength]

theorem civil_eq_dateOf (days : ℕ) : civil days = dateOf days := by
  suffices h : ∃ year day, At days year day ∧ ofYearDay year day = dateOf days by
    obtain ⟨year, day, hat, hdate⟩ := h
    rw [hat.civil, hdate]
  induction days with
  | zero =>
    have hat : At 0 1969 306 := ⟨by omega, by decide⟩
    exact ⟨1969, 306, hat, by decide⟩
  | succ days ih =>
    obtain ⟨year, day, hat, hdate⟩ := ih
    obtain ⟨year', day', hat', hdate'⟩ := hat.next
    exact ⟨year', day', hat', by rw [hdate', hdate, dateOf]⟩

/-! ### The order of the stamps -/

theorem padded_length {width n : ℕ} (h : n < 10 ^ width) : (padded width n).length = width := by
  induction width generalizing n with
  | zero => simp [padded, Nat.lt_one_iff.mp h]
  | succ width ih =>
    have hn : n / 10 < 10 ^ width := Nat.div_lt_of_lt_mul (by rwa [Nat.pow_succ'] at h)
    rw [padded, length_append, ih hn, length_singleton]

theorem padded_append (left width m n : ℕ) (h : n < 10 ^ width) :
    padded left m ++ padded width n = padded (left + width) (10 ^ width * m + n) := by
  induction width generalizing n with
  | zero =>
    obtain rfl := Nat.lt_one_iff.mp h
    simp [padded]
  | succ width ih =>
    have hn : n / 10 < 10 ^ width := Nat.div_lt_of_lt_mul (by rwa [Nat.pow_succ'] at h)
    have hdiv : (10 ^ (width + 1) * m + n) / 10 = 10 ^ width * m + n / 10 := by
      rw [Nat.pow_succ', Nat.mul_assoc]
      omega
    have hmod : (10 ^ (width + 1) * m + n) % 10 = n % 10 := by
      rw [Nat.pow_succ', Nat.mul_assoc]
      omega
    rw [padded, ← append_assoc, ih _ hn, ← Nat.add_assoc, padded, hdiv, hmod]

theorem append_lt_of_lt {xs ys : List Char} (h : xs < ys) (hlen : xs.length = ys.length)
    (us vs : List Char) : xs ++ us < ys ++ vs := by
  induction xs generalizing ys with
  | nil =>
    obtain rfl := length_eq_zero_iff.mp hlen.symm
    exact absurd h (List.lt_irrefl _)
  | cons x xs ih =>
    cases ys with
    | nil => cases hlen
    | cons y ys =>
      rw [cons_append, cons_append, cons_lt_cons_iff]
      rcases cons_lt_cons_iff.mp h with hlt | ⟨heq, hlt⟩
      · exact .inl hlt
      · exact .inr ⟨heq, ih hlt (Nat.succ.inj hlen)⟩

theorem padded_lt {width m n : ℕ} (h : m < n) (hn : n < 10 ^ width) :
    padded width m < padded width n := by
  induction width generalizing m n with
  | zero => omega
  | succ width ih =>
    have hdiv : n / 10 < 10 ^ width := Nat.div_lt_of_lt_mul (by rwa [Nat.pow_succ'] at hn)
    rcases Nat.lt_or_ge (m / 10) (n / 10) with hlt | hge
    · refine append_lt_of_lt (ih hlt hdiv) ?_ _ _
      rw [padded_length hdiv, padded_length (Nat.lt_trans hlt hdiv)]
    · have heq : m / 10 = n / 10 := by omega
      have hdig : ∀ a < 10, ∀ b < a, Nat.digitChar b < Nat.digitChar a := by decide
      rw [padded, padded, heq]
      refine append_left_lt (cons_lt_cons_iff.mpr (.inl (hdig _ (by omega) _ ?_)))
      omega

def Date.rank (self : Date) : ℕ := 10000 * self.year + 100 * self.month + self.day

theorem dateOf_next (days : ℕ) : (dateOf days).month ≤ 12 ∧ (dateOf days).day ≤ 31 ∧
    (dateOf days).rank < (dateOf (days + 1)).rank := by
  suffices h : (dateOf days).month ≤ 12 ∧ (dateOf days).day ≤ 31 by
    refine ⟨h.1, h.2, ?_⟩
    simp only [dateOf, Date.next, dayAfter, Date.rank]
    split
    · omega
    · split <;> omega
  induction days with
  | zero => decide
  | succ days ih =>
    have hlen : ∀ leap month, monthLength leap month ≤ 31 := by
      intro leap month
      simp only [monthLength]
      split
      · split <;> omega
      · split <;> omega
    have := hlen (isLeap (dateOf days).year) (dateOf days).month
    simp only [dateOf, Date.next, dayAfter]
    split
    · exact ⟨ih.1, by dsimp only; omega⟩
    · split
      · exact ⟨by dsimp only; omega, by dsimp only; omega⟩
      · decide

theorem rank_mono {days later : ℕ} (h : days < later) :
    (dateOf days).rank < (dateOf later).rank := by
  induction h with
  | refl => exact (dateOf_next days).2.2
  | step _ ih => exact Nat.lt_trans ih (dateOf_next _).2.2

theorem utcStamp_eq (secs : ℕ) : utcStamp secs = padded 8 (dateOf (secs / 86400)).rank ++ 'T' ::
    (padded 6 (10000 * (secs / 3600 % 24) + 100 * (secs / 60 % 60) + secs % 60) ++ ['Z']) := by
  obtain ⟨hmonth, hday, -⟩ := dateOf_next (secs / 86400)
  simp only [utcStamp, civil_eq_dateOf]
  rw [padded_append 4 2 _ _ (by omega), padded_append 6 2 _ _ (by omega),
    padded_append 2 2 _ _ (by omega), padded_append 4 2 _ _ (by omega), Date.rank]
  simp only [Nat.reducePow, Nat.reduceAdd]
  congr 2
  · omega
  · congr 3
    omega

theorem utcStamp_lt {secs later : ℕ} (h : secs < later)
    (hyear : (dateOf (later / 86400)).year ≤ 9999) : utcStamp secs < utcStamp later := by
  obtain ⟨hmonth, hday, -⟩ := dateOf_next (later / 86400)
  have hrank : (dateOf (later / 86400)).rank < 10 ^ 8 := by
    rw [Date.rank]
    omega
  rw [utcStamp_eq, utcStamp_eq]
  rcases Nat.lt_or_ge (secs / 86400) (later / 86400) with hlt | hge
  · have hdate := rank_mono hlt
    refine append_lt_of_lt (padded_lt hdate hrank) ?_ _ _
    rw [padded_length hrank, padded_length (Nat.lt_trans hdate hrank)]
  · have heq : secs / 86400 = later / 86400 := by omega
    rw [heq]
    refine append_left_lt (cons_lt_cons_iff.mpr (.inr ⟨rfl, append_lt_of_lt ?_ ?_ _ _⟩))
    · refine padded_lt ?_ (by omega)
      have htime : secs / 3600 % 24 < later / 3600 % 24 ∨ secs / 3600 % 24 = later / 3600 % 24 ∧
          (secs / 60 % 60 < later / 60 % 60 ∨
            secs / 60 % 60 = later / 60 % 60 ∧ secs % 60 < later % 60) := by omega
      omega
    · rw [padded_length (by omega), padded_length (by omega)]

/-- **The stamp of a second.** Its date is the one that counting the days from the epoch leads to,
its time the one of the day; and until the end of the year 9999 the stamps are ordered as the
seconds are. -/
theorem stamp_of_second (secs : ℕ) :
    utcStamp secs = padded 4 (dateOf (secs / 86400)).year ++
      padded 2 (dateOf (secs / 86400)).month ++ padded 2 (dateOf (secs / 86400)).day ++ 'T' ::
      (padded 2 (secs / 3600 % 24) ++ padded 2 (secs / 60 % 60) ++ padded 2 (secs % 60) ++ ['Z']) ∧
    secs = 86400 * (secs / 86400) + 3600 * (secs / 3600 % 24) + 60 * (secs / 60 % 60) + secs % 60 ∧
    ∀ later, (dateOf (secs / 86400)).year ≤ 9999 → (dateOf (later / 86400)).year ≤ 9999 →
      (utcStamp secs < utcStamp later ↔ secs < later) := by
  refine ⟨by simp only [utcStamp, civil_eq_dateOf], by omega, fun later hsecs hlater => ?_⟩
  constructor
  · intro hlt
    rcases Nat.lt_trichotomy secs later with hless | rfl | hmore
    · exact hless
    · exact absurd hlt (List.lt_irrefl _)
    · exact absurd hlt (List.lt_asymm (utcStamp_lt hmore hsecs))
  · exact fun hless => utcStamp_lt hless hlater

theorem stamp_of_second_leap : String.ofList (utcStamp 951782400) = "20000229T000000Z" ∧
    (utcStamp 951782399 < utcStamp 951782400 ↔ 951782399 < 951782400) := by
  refine ⟨by decide +kernel, (stamp_of_second 951782399).2.2 951782400 ?_ ?_⟩
  · rw [← civil_eq_dateOf]
    decide +kernel
  · rw [← civil_eq_dateOf]
    decide +kernel

end Redsuite.Report
