import Mathlib

/-!
# A bounded ring buffer as a FIFO list

`RingBuffer α cap` is the usual array queue: a buffer of `cap` cells, a head, a tail and a length, all
indices taken modulo the capacity. The well-formedness of the four fields is part of the structure, so
a ring whose tail disagrees with its length, or with a hole between head and tail, cannot be built.
-/

universe u

/-- A ring buffer with room for `cap` elements. -/
structure RingBuffer (α : Type u) (cap : Nat) where
  /-- The cells; only those below the capacity are ever used. -/
  buf : Nat → Option α
  /-- The cell of the oldest element. -/
  head : Nat
  /-- The cell the next element goes to. -/
  tail : Nat
  /-- The number of elements. -/
  len : Nat
  head_lt : head < cap
  len_le : len ≤ cap
  tail_eq : tail = (head + len) % cap
  filled : ∀ i < len, (buf ((head + i) % cap)).isSome

namespace RingBuffer

open Function List

variable {α : Type u} {cap : Nat}

/-! ## Indices modulo the capacity -/

lemma index_eq (hh : h < cap) (hi : i ≤ cap) : (h + i) % cap = if h + i < cap then h + i else h + i - cap := by
  split
  · exact Nat.mod_eq_of_lt ‹_›
  · rw [Nat.mod_eq_sub_mod (by omega), Nat.mod_eq_of_lt (by omega)]

lemma index_ne (hh : h < cap) (hij : i < j) (hj : j < cap) : (h + i) % cap ≠ (h + j) % cap := by
  rw [index_eq hh (by omega), index_eq hh (Nat.le_of_lt hj)]
  split <;> split <;> omega

lemma index_succ_ne (hh : h < cap) (hi : i + 1 < cap) : (h + (i + 1)) % cap ≠ h := by
  have hne := index_ne (i := 0) hh (Nat.succ_pos i) hi
  rw [Nat.add_zero, Nat.mod_eq_of_lt hh] at hne
  exact hne.symm

lemma index_succ (h i : Nat) : ((h + 1) % cap + i) % cap = (h + (i + 1)) % cap := by
  rw [Nat.mod_add_mod, Nat.add_assoc, Nat.add_comm 1 i]

/-! ## The queue as a list -/

/-- The elements, oldest first. -/
def toList (q : RingBuffer α cap) : List α := (range q.len).filterMap fun i => q.buf ((q.head + i) % cap)

/-- The ring without elements. -/
def empty (h : 0 < cap) : RingBuffer α cap where
  buf := fun _ => none
  head := 0
  tail := 0
  len := 0
  head_lt := h
  len_le := Nat.zero_le _
  tail_eq := by simp
  filled := fun _ hi => absurd hi (Nat.not_lt_zero _)

@[simp] lemma toList_empty (h : 0 < cap) : (empty h : RingBuffer α cap).toList = [] := rfl

private lemma length_filterMap_range {f : Nat → Option α} :
    ∀ {n : Nat}, (∀ i < n, (f i).isSome) → ((range n).filterMap f).length = n
  | 0, _ => rfl
  | n + 1, hf => by
      obtain ⟨a, ha⟩ := Option.isSome_iff_exists.mp (hf n n.lt_succ_self)
      have ih := length_filterMap_range (n := n) fun i hi => hf i (Nat.lt_succ_of_lt hi)
      simp [range_succ, filterMap_append, ha, ih]

lemma length_toList (q : RingBuffer α cap) : q.toList.length = q.len := length_filterMap_range q.filled

/-- Appending an element; `none` when there is no free cell. -/
def push (q : RingBuffer α cap) (x : α) : Option (RingBuffer α cap) :=
  if h : q.len < cap then
    some
      { buf := update q.buf q.tail (some x)
        head := q.head
        tail := (q.tail + 1) % cap
        len := q.len + 1
        head_lt := q.head_lt
        len_le := h
        tail_eq := by rw [q.tail_eq, Nat.mod_add_mod, Nat.add_assoc]
        filled := by
          intro i hi
          rcases Nat.lt_succ_iff_lt_or_eq.mp hi with hlt | rfl
          · rw [q.tail_eq, update_of_ne (index_ne q.head_lt hlt h)]
            exact q.filled i hlt
          · rw [q.tail_eq, update_self]; rfl }
  else none

/-- Removing the oldest element, if there is one. -/
def pop (q : RingBuffer α cap) : Option α × RingBuffer α cap :=
  if h : q.len = 0 then (none, q)
  else
    (q.buf q.head,
      { buf := update q.buf q.head none
        head := (q.head + 1) % cap
        tail := q.tail
        len := q.len - 1
        head_lt := Nat.mod_lt _ (Nat.zero_lt_of_lt q.head_lt)
        len_le := Nat.le_trans (Nat.sub_le _ _) q.len_le
        tail_eq := by
          rw [q.tail_eq, Nat.mod_add_mod]
          congr 1
          omega
        filled := by
          intro i hi
          have hlen := q.len_le
          rw [index_succ, update_of_ne (index_succ_ne q.head_lt (by omega))]
          exact q.filled (i + 1) (by omega) })

variable {q : RingBuffer α cap}

lemma push_isSome : (q.push x).isSome ↔ q.toList.length < cap := by
  rw [length_toList]
  unfold push
  split <;> simp_all

lemma toList_push (h : q.push x = some q') :
    q'.toList = q.toList ++ [x] := by
  unfold push at h
  split at h
  next hlt =>
    cases h
    have hc : ∀ i ∈ range q.len, update q.buf q.tail (some x) ((q.head + i) % cap)
          = q.buf ((q.head + i) % cap) := by
      intro i hi
      rw [q.tail_eq, update_of_ne (index_ne q.head_lt (mem_range.mp hi) hlt)]
    simp only [toList, range_succ, filterMap_append, filterMap_congr hc]
    simp [← q.tail_eq]
  · cases h

private lemma head_cell (hn : q.len = n + 1) :
    ∃ x, q.buf q.head = some x ∧ q.toList = x :: (range n).filterMap fun i => q.buf ((q.head + (i + 1)) % cap) := by
  have h0 := q.filled 0 (by omega)
  rw [Nat.add_zero, Nat.mod_eq_of_lt q.head_lt] at h0
  obtain ⟨x, hx⟩ := Option.isSome_iff_exists.mp h0
  refine ⟨x, hx, ?_⟩
  simp only [toList, hn, range_succ_eq_map, filterMap_cons, Nat.add_zero, Nat.mod_eq_of_lt q.head_lt, hx, filterMap_map]
  rfl

lemma pop_eq_some (h : q.pop = (some x, q')) :
    q.toList = x :: q'.toList := by
  unfold pop at h
  split at h
  · cases h
  next hne =>
    obtain ⟨n, hn⟩ := Nat.exists_eq_succ_of_ne_zero hne
    obtain ⟨y, hy, hl⟩ := head_cell hn
    obtain ⟨hx, rfl⟩ := Prod.mk.inj h
    obtain rfl := Option.mem_unique hy hx
    rw [hl]
    congr 1
    have he := q.len_le
    simp only [toList, show q.len - 1 = n by omega]
    refine filterMap_congr fun i hi => ?_
    have hi : i < n := mem_range.mp hi
    rw [index_succ, update_of_ne (index_succ_ne q.head_lt (by omega))]

end RingBuffer
