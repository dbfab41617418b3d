import Mathlib

/-!
# Linked lists in memory

A node is known by a number, and `next` is its link. `Seg next a l b` says that from `a` on the links
run through the nodes `l`, in this order, and then to `b`. A null terminated list is a segment that
ends in null, and in which null is no node.
-/

namespace Segment

open Function List

/-- From `a` on the links run through `l`, and then to `b`. -/
def Seg (next : Nat → Nat) : Nat → List Nat → Nat → Prop
  | a, [], b => a = b
  | a, n :: l, b => a = n ∧ Seg next (next n) l b

variable {next next' : Nat → Nat} {a b m n x : Nat} {l l₁ l₂ : List Nat}

lemma seg_append : Seg next a (l₁ ++ l₂) b ↔ ∃ m, Seg next a l₁ m ∧ Seg next m l₂ b := by
  induction l₁ generalizing a with
  | nil => simp [Seg]
  | cons n l₁ ih =>
    simp only [cons_append, Seg, ih]
    constructor
    · rintro ⟨ha, m, h₁, h₂⟩
      exact ⟨m, ⟨ha, h₁⟩, h₂⟩
    · rintro ⟨m, ⟨ha, h₁⟩, h₂⟩
      exact ⟨ha, m, h₁, h₂⟩

lemma seg_snoc : Seg next a (l ++ [n]) b ↔ Seg next a l n ∧ next n = b := by
  rw [seg_append]
  constructor
  · rintro ⟨m, h, rfl, hb⟩
    exact ⟨h, hb⟩
  · rintro ⟨h, hb⟩
    exact ⟨n, h, rfl, hb⟩

lemma Seg.congr (h : Seg next a l b) (heq : ∀ n ∈ l, next' n = next n) : Seg next' a l b := by
  induction l generalizing a with
  | nil => exact h
  | cons n l ih =>
    obtain ⟨rfl, h⟩ := h
    refine ⟨rfl, ih ?_ fun n hn => heq n (mem_cons_of_mem _ hn)⟩
    rw [heq a mem_cons_self]
    exact h

lemma Seg.update_of_notMem (h : Seg next a l b) (hn : n ∉ l) : Seg (update next n x) a l b :=
  h.congr fun _ hm => update_of_ne (ne_of_mem_of_not_mem hm hn) ..

lemma Seg.update_last (h : Seg next a (l ++ [n]) b) (hd : (l ++ [n]).Nodup) :
    Seg (update next n x) a (l ++ [n]) x := by
  obtain ⟨h, -⟩ := seg_snoc.mp h
  have hn : n ∉ l := fun hm => by
    have := disjoint_of_nodup_append hd hm
    simp at this
  exact seg_snoc.mpr ⟨h.update_of_notMem hn, update_self ..⟩

/-! ## Null terminated lists -/

/-- The list of `l`, from `a` on. -/
structure Listed (next : Nat → Nat) (null a : Nat) (l : List Nat) : Prop where
  seg : Seg next a l null
  null : null ∉ l

variable {null : Nat}

lemma Listed.nil_iff : Listed next null a [] ↔ a = null := ⟨fun h => h.seg, fun h => ⟨h, by simp⟩⟩

lemma listed_cons : Listed next null a (n :: l) ↔ a = n ∧ n ≠ null ∧ Listed next null (next n) l := by
  constructor
  · rintro ⟨⟨rfl, hs⟩, hl⟩
    obtain ⟨hn, hl⟩ := not_or.mp (mem_cons.not.mp hl)
    exact ⟨rfl, Ne.symm hn, hs, hl⟩
  · rintro ⟨rfl, hn, hs, hl⟩
    exact ⟨⟨rfl, hs⟩, by simp [Ne.symm hn, hl]⟩

lemma Listed.eq_nil (h : Listed next null null l) : l = [] := by
  cases l with
  | nil => rfl
  | cons n l =>
    obtain ⟨rfl, hne, -⟩ := listed_cons.mp h
    exact absurd rfl hne

lemma Listed.congr (h : Listed next null a l) (heq : ∀ n ∈ l, next' n = next n) :
    Listed next' null a l :=
  ⟨h.seg.congr heq, h.null⟩

/-- A node that is reached from its predecessor is taken out of a list. -/
lemma Listed.unlink (h : Listed next null a (l₁ ++ [m] ++ n :: l₂)) (hn : (l₁ ++ [m] ++ n :: l₂).Nodup) :
    Listed (update next m (next n)) null a (l₁ ++ [m] ++ l₂) := by
  obtain ⟨k, hp, rfl, hs⟩ := seg_append.mp h.seg
  have hm : m ∉ l₂ := fun he => disjoint_of_nodup_append hn (by simp) (mem_cons_of_mem _ he)
  refine ⟨seg_append.mpr ⟨next k, hp.update_last hn.of_append_left, ?_⟩, fun he => h.null ?_⟩
  · exact hs.update_of_notMem hm
  · simp only [mem_append, mem_cons] at he ⊢
    tauto

lemma Listed.unique (h : Listed next null a l) (h' : Listed next null a l') : l = l' := by
  induction l generalizing a l' with
  | nil =>
    obtain rfl := Listed.nil_iff.mp h
    exact h'.eq_nil.symm
  | cons n l ih =>
    obtain ⟨rfl, hne, h⟩ := listed_cons.mp h
    cases l' with
    | nil => exact absurd (Listed.nil_iff.mp h') hne
    | cons m l' =>
      obtain ⟨rfl, -, h'⟩ := listed_cons.mp h'
      rw [ih h h']

lemma Listed.unlink_head (h : Listed next null a (n :: l)) : Listed next null (next n) l := (listed_cons.mp h).2.2

end Segment
