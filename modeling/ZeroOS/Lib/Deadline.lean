import Mathlib

/-!
# Queues ordered by a deadline

A list kept in ascending order of a deadline. A new element goes behind all elements whose deadline
is not later than its own, found as the partition point of the list, and the elements that are due
are taken off the front.
-/

universe u

namespace Deadline

open List

variable {α : Type u} (key : α → Nat)

/-- Ascending in the deadline. -/
def Ordered (xs : List α) : Prop := xs.Pairwise fun x y => key x ≤ key y

/-- The index of the first element that is later than `d`. -/
def partitionPoint (d : Nat) (xs : List α) : Nat := (xs.takeWhile fun x => key x ≤ d).length

/-- Insert behind the elements that are not later. -/
def insertAt (x : α) (xs : List α) : List α := xs.insertIdx (partitionPoint key (key x) xs) x

/-- The elements at the front that are due. -/
def due (now : Nat) (xs : List α) : List α := xs.takeWhile fun x => key x ≤ now

/-- What stays behind them. -/
def later (now : Nat) (xs : List α) : List α := xs.dropWhile fun x => key x ≤ now

variable {key}

lemma due_append_later : due key now xs ++ later key now xs = xs := takeWhile_append_dropWhile

lemma insertAt_eq : insertAt key x xs = due key (key x) xs ++ x :: later key (key x) xs := by
  simp only [insertAt, partitionPoint, due, later]
  induction xs with
  | nil => rfl
  | cons y xs ih =>
    by_cases hy : key y ≤ key x
    · simp [hy, ih]
    · simp [hy]

lemma mem_insertAt : y ∈ insertAt key x xs ↔ y = x ∨ y ∈ xs := by
  rw [insertAt_eq, mem_append, mem_cons, ← or_assoc, or_comm (a := y ∈ due ..), or_assoc, ← mem_append, due_append_later]

lemma insertAt_perm : (insertAt key x xs).Perm (x :: xs) := by
  rw [insertAt_eq]
  exact perm_middle.trans (by rw [due_append_later])

lemma le_of_mem_due (h : y ∈ due key now xs) : key y ≤ now := by
  simpa using mem_takeWhile_imp h

lemma Ordered.sublist (h : Ordered key xs) (hs : ys.Sublist xs) : Ordered key ys := List.Pairwise.sublist hs h

lemma Ordered.later (h : Ordered key xs) (now : Nat) : Ordered key (later key now xs) := h.sublist (dropWhile_sublist _)

lemma Ordered.lt_of_mem_later (h : Ordered key xs) (hy : y ∈ Deadline.later key now xs) :
    now < key y := by
  induction xs with
  | nil => cases hy
  | cons x xs ih =>
    obtain ⟨hx, hs⟩ := pairwise_cons.mp h
    by_cases hle : key x ≤ now
    · exact ih hs (by simpa [Deadline.later, hle] using hy)
    · have hm : y = x ∨ y ∈ xs := by simpa [Deadline.later, hle] using hy
      rcases hm with rfl | hm
      · omega
      · exact lt_of_lt_of_le (by omega) (hx y hm)

lemma Ordered.insertAt (h : Ordered key xs) : Ordered key (insertAt key x xs) := by
  rw [insertAt_eq]
  refine pairwise_append.mpr ⟨h.sublist (takeWhile_sublist _), ?_, ?_⟩
  · exact pairwise_cons.mpr
      ⟨fun y hy => le_of_lt (h.lt_of_mem_later hy), h.later (key x)⟩
  · intro y hy z hz
    rcases mem_cons.mp hz with rfl | hz
    · exact le_of_mem_due hy
    · exact le_of_lt (lt_of_le_of_lt (le_of_mem_due hy) (h.lt_of_mem_later hz))

/-! ## First in, first out -/

/-- Among the elements of one deadline a new one is the last. -/
lemma Ordered.filter_insertAt (h : Ordered key xs) (w : Nat) : (Deadline.insertAt key x xs).filter (fun y => key y = w)
      = xs.filter (fun y => key y = w) ++ if key x = w then [x] else [] := by
  have hs : xs.filter (fun y => key y = w)
      = (due key (key x) xs).filter (fun y => key y = w)
        ++ (Deadline.later key (key x) xs).filter (fun y => key y = w) := by
    rw [← filter_append, due_append_later]
  rw [insertAt_eq, filter_append, filter_cons, hs]
  by_cases hw : key x = w
  · -- nothing that is later has this deadline
    have hn : (Deadline.later key (key x) xs).filter (fun y => key y = w) = [] := by
      refine filter_eq_nil_iff.mpr fun y hy => ?_
      have := h.lt_of_mem_later hy
      simp only [decide_eq_true_eq]
      omega
    rw [if_pos hw, if_pos (by simpa using hw), hn, append_nil]
  · simp [hw]

lemma filter_due (p : α → Bool) : (due key now xs).filter p ++ (later key now xs).filter p = xs.filter p := by
  rw [← filter_append, due_append_later]

end Deadline
