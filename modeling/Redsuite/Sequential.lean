import Redsuite.Lists
import Mathlib.Data.List.Basic
import Mathlib.Data.List.Count

/-!
# Workers that take one item at a time

A number of workers take numbered items.
-/

namespace Redsuite.Sequential

open List

/-- Where a worker is. -/
inductive Worker : Type where
  | idle
  | busy (item : ℕ)
  | done

/-- An item, and how it was settled. -/
structure Item where
  worker : ℕ
  settled : Option Bool
  deriving DecidableEq

def Item.is (success : Bool) (self : Item) : Bool := self.settled = some success

/-- The workers and their items. -/
structure Book where
  workers : List Worker
  items : List Item
  succeeded : ℕ
  failed : ℕ

/-- A worker takes an item, settles it, or is done. -/
inductive Move (before : Book) : Book → Prop
  | take {worker : ℕ} (hidle : before.workers[worker]? = some .idle) :
    Move before
      { before with
        workers := before.workers.set worker (.busy before.items.length)
        items := before.items ++ [⟨worker, none⟩] }
  | quit {worker : ℕ} (hidle : before.workers[worker]? = some .idle) :
    Move before { before with workers := before.workers.set worker .done }
  | succeed {worker item : ℕ} (hbusy : before.workers[worker]? = some (.busy item)) :
    Move before
      { before with
        workers := before.workers.set worker .idle
        items := before.items.set item ⟨worker, some true⟩
        succeeded := before.succeeded + 1 }
  | fail {worker item : ℕ} (hbusy : before.workers[worker]? = some (.busy item)) :
    Move before
      { before with
        workers := before.workers.set worker .done
        items := before.items.set item ⟨worker, some false⟩
        failed := before.failed + 1 }

/-- What holds after any moves. -/
structure Inv (book : Book) : Prop where
  succeeded : book.succeeded = book.items.countP (Item.is true)
  failed : book.failed = book.items.countP (Item.is false)
  working : ∀ (worker item : ℕ), book.workers[worker]? = some (.busy item) →
    book.items[item]? = some ⟨worker, none⟩
  taken : ∀ (number : ℕ) (item : Item), book.items[number]? = some item → item.settled = none →
    book.workers[item.worker]? = some (.busy number)
  well : ∀ (number : ℕ) (item : Item), book.items[number]? = some item →
    item.settled = some false → book.workers[item.worker]? = some .done
  last : ∀ (early late : ℕ) (first second : Item), early < late →
    book.items[early]? = some first → book.items[late]? = some second →
    first.worker = second.worker → first.settled = some true

theorem inv_start {book : Book} (hitems : book.items = [])
    (hwks : ∀ worker ∈ book.workers, worker = .idle) (hsucceeded : book.succeeded = 0)
    (hfl : book.failed = 0) : Inv book where
  succeeded := by rw [hsucceeded, hitems, countP_nil]
  failed := by rw [hfl, hitems, countP_nil]
  working worker item hbusy := by cases hwks _ (mem_of_getElem? hbusy)
  taken number item hitem := by simp [hitems] at hitem
  well number item hitem := by simp [hitems] at hitem
  last early late first second _ hfst := by simp [hitems] at hfst

variable {book before after : Book} {w n : ℕ}

theorem Inv.of_idle (h : Inv book) (hidle : book.workers[w]? = some .idle) {item : Item}
    (hitem : book.items[n]? = some item) (hwk : item.worker = w) :
    item.settled = some true := by
  cases hset : item.settled with
  | none =>
    have hbusy := h.taken n item hitem hset
    rw [hwk, hidle] at hbusy
    cases hbusy
  | some success =>
    cases success with
    | true => rfl
    | false =>
      have hd := h.well n item hitem hset
      rw [hwk, hidle] at hd
      cases hd

theorem getElem?_set_other {workers : List Worker} {other : ℕ} {old found : Worker}
    (hold : workers[w]? = some old) (ho : workers[other]? = some found)
    (hne : found ≠ old) (next : Worker) : (workers.set w next)[other]? = some found := by
  have hwk : w ≠ other := by
    rintro rfl
    rw [hold] at ho
    exact hne (Option.some.inj ho).symm
  rw [getElem?_set, if_neg hwk]
  exact ho

theorem Inv.take (h : Inv before) (hidle : before.workers[w]? = some .idle) :
    Inv { before with
      workers := before.workers.set w (.busy before.items.length)
      items := before.items ++ [⟨w, none⟩] } := by
  refine ⟨?_, ?_, ?_, ?_, ?_, ?_⟩
  · rw [countP_append, h.succeeded]
    rfl
  · rw [countP_append, h.failed]
    rfl
  · intro other item hbusy
    obtain ⟨rfl, heq⟩ | ⟨-, hbusy⟩ := of_getElem?_set hbusy
    · cases heq
      exact getElem?_concat_length
    · exact getElem?_append_of (h.working other item hbusy) _
  · intro n item hitem hn
    obtain ⟨rfl, rfl⟩ | ⟨-, hold⟩ := of_getElem?_concat hitem
    · exact getElem?_set_of hidle _
    · exact getElem?_set_other hidle (h.taken n item hold hn) (by simp) _
  · intro n item hitem hfl
    obtain ⟨-, rfl⟩ | ⟨-, hold⟩ := of_getElem?_concat hitem
    · cases hfl
    · exact getElem?_set_other hidle (h.well n item hold hfl) (by simp) _
  · intro early late first second hlate hfst hsecond hwk
    obtain ⟨rfl, rfl⟩ | ⟨-, hold⟩ := of_getElem?_concat hfst
    · have := lt_of_getElem? hsecond
      rw [length_append, length_singleton] at this
      omega
    · obtain ⟨-, rfl⟩ | ⟨-, holdSecond⟩ := of_getElem?_concat hsecond
      · exact h.of_idle hidle hold hwk
      · exact h.last early late first second hlate hold holdSecond hwk

theorem Inv.quit (h : Inv before) (hidle : before.workers[w]? = some .idle) :
    Inv { before with workers := before.workers.set w .done } := by
  refine ⟨h.succeeded, h.failed, ?_, ?_, ?_, h.last⟩
  · intro other item hbusy
    obtain ⟨-, heq⟩ | ⟨-, hbusy⟩ := of_getElem?_set hbusy
    · cases heq
    · exact h.working other item hbusy
  · intro n item hitem hn
    exact getElem?_set_other hidle (h.taken n item hitem hn) (by simp) _
  · intro n item hitem hfl
    exact getElem?_set_other hidle (h.well n item hitem hfl) (by simp) _

theorem countP_settle {xs : List Item} {item : ℕ}
    (hitem : xs[item]? = some ⟨w, none⟩) (success kind : Bool) :
    (xs.set item ⟨w, some success⟩).countP (Item.is kind) =
      xs.countP (Item.is kind) + if success = kind then 1 else 0 := by
  obtain ⟨hlt, hget⟩ := List.getElem?_eq_some_iff.mp hitem
  rw [List.countP_set hlt, hget]
  cases success <;> cases kind <;> simp [Item.is]

theorem Inv.settle (h : Inv before) {item : ℕ}
    (hbusy : before.workers[w]? = some (.busy item)) (success : Bool) {next : Worker}
    (hnx : next = if success then .idle else .done) :
    Inv ⟨before.workers.set w next, before.items.set item ⟨w, some success⟩,
      before.succeeded + (if success = true then 1 else 0),
      before.failed + if success = false then 1 else 0⟩ := by
  have hitem := h.working w item hbusy
  refine ⟨?_, ?_, ?_, ?_, ?_, ?_⟩
  · rw [countP_settle hitem, h.succeeded]
  · rw [countP_settle hitem, h.failed]
  · intro other found hf
    obtain ⟨-, heq⟩ | ⟨hne, hf⟩ := of_getElem?_set hf
    · rw [hnx] at heq
      cases success <;> cases heq
    · have ho := h.working other found hf
      rw [getElem?_set, if_neg]
      · exact ho
      · rintro rfl
        rw [hitem] at ho
        cases ho
        exact hne rfl
  · intro n found hf hn
    obtain ⟨-, rfl⟩ | ⟨hne, hold⟩ := of_getElem?_set hf
    · cases hn
    · refine getElem?_set_other hbusy (h.taken n found hold hn) ?_ _
      rintro heq
      cases heq
      exact hne rfl
  · intro n found hf hfl
    obtain ⟨-, rfl⟩ | ⟨-, hold⟩ := of_getElem?_set hf
    · cases hfl
      rw [hnx]
      exact getElem?_set_of hbusy _
    · exact getElem?_set_other hbusy (h.well n found hold hfl) (by simp) _
  · intro early late first second hlate hfst hsecond hwk
    -- Nothing of this worker comes after the item it was busy with.
    obtain ⟨rfl, rfl⟩ | ⟨-, hold⟩ := of_getElem?_set hfst
    · obtain ⟨rfl, -⟩ | ⟨-, holdSecond⟩ := of_getElem?_set hsecond
      · exact absurd hlate (Nat.lt_irrefl _)
      · cases h.last early late _ second hlate hitem holdSecond hwk
    · obtain ⟨rfl, rfl⟩ | ⟨-, holdSecond⟩ := of_getElem?_set hsecond
      · exact h.last early late first _ hlate hold hitem hwk
      · exact h.last early late first second hlate hold holdSecond hwk

theorem Inv.move (h : Inv before) (hmove : Move before after) : Inv after := by
  cases hmove with
  | take hidle => exact h.take hidle
  | quit hidle => exact h.quit hidle
  | succeed hbusy => exact h.settle hbusy true rfl
  | fail hbusy => exact h.settle hbusy false rfl

theorem Inv.counted (h : Inv book) (hd : ∀ w ∈ book.workers, w = .done) :
    (∀ item ∈ book.items, item.settled ≠ none) ∧
      book.succeeded + book.failed = book.items.length := by
  have hset : ∀ item ∈ book.items, item.settled ≠ none := by
    intro item hm hn
    obtain ⟨n, hitem⟩ := mem_iff_getElem?.mp hm
    have hbusy := h.taken n item hitem hn
    cases hd _ (mem_of_getElem? hbusy)
  refine ⟨hset, ?_⟩
  have hfl : book.items.countP (Item.is false) =
      book.items.countP fun item => ¬Item.is true item := by
    refine countP_congr fun item hm => ?_
    have := hset item hm
    cases hcase : item.settled with
    | none => exact absurd hcase this
    | some success => cases success <;> simp [Item.is, hcase]
  rw [h.succeeded, h.failed, hfl]
  exact (length_eq_countP_add_countP _).symm

end Redsuite.Sequential
