import Mathlib

/-!
# Joined lists

Lists are joined by putting a separator in front of each of them. If the separator is in none of them, the
lists can be told from what they are joined to, and so can the first of them.
-/

namespace Joined

open List

variable {α : Type*} {sep : α} {p q : List α} {ps qs : List (List α)}

def join (sep : α) (ps : List (List α)) : List α := ps.flatMap (sep :: ·)

/-- Lists that can be told apart. -/
def Parts (sep : α) (ps : List (List α)) : Prop := ∀ p ∈ ps, p ≠ [] ∧ sep ∉ p

@[simp] lemma join_nil : join sep [] = [] := rfl

@[simp] lemma join_cons : join sep (p :: ps) = sep :: (p ++ join sep ps) := rfl

@[simp] lemma join_append : join sep (ps ++ qs) = join sep ps ++ join sep qs := flatMap_append

lemma join_eq_nil_iff : join sep ps = [] ↔ ps = [] := by
  cases ps <;> simp

lemma parts_nil : Parts sep [] := fun _ h => absurd h List.not_mem_nil

lemma parts_cons : Parts sep (p :: ps) ↔ (p ≠ [] ∧ sep ∉ p) ∧ Parts sep ps := List.forall_mem_cons

lemma parts_append : Parts sep (ps ++ qs) ↔ Parts sep ps ∧ Parts sep qs := List.forall_mem_append

lemma Parts.dropLast (h : Parts sep ps) : Parts sep ps.dropLast :=
  fun p hp => h p ((dropLast_sublist ps).subset hp)

lemma append_join_inj (hp : sep ∉ p) (hq : sep ∉ q) (h : p ++ join sep ps = q ++ join sep qs) :
    p = q ∧ join sep ps = join sep qs := by
  induction p generalizing q with
  | nil =>
    cases q with
    | nil => exact ⟨rfl, h⟩
    | cons b q =>
      cases ps with
      | nil => cases h
      | cons r ps =>
        obtain ⟨rfl, -⟩ := List.cons.inj h
        exact absurd mem_cons_self hq
  | cons a p ih =>
    cases q with
    | nil =>
      cases qs with
      | nil => cases h
      | cons r qs =>
        obtain ⟨rfl, -⟩ := List.cons.inj h
        exact absurd mem_cons_self hp
    | cons b q =>
      obtain ⟨rfl, ht⟩ := List.cons.inj h
      obtain ⟨rfl, hj⟩ := ih (fun hm => hp (mem_cons_of_mem _ hm))
        (fun hm => hq (mem_cons_of_mem _ hm)) ht
      exact ⟨rfl, hj⟩

lemma join_inj (hp : Parts sep ps) (hq : Parts sep qs) (h : join sep ps = join sep qs) : ps = qs := by
  induction ps generalizing qs with
  | nil => exact (join_eq_nil_iff.mp h.symm).symm
  | cons p ps ih =>
    cases qs with
    | nil => cases h
    | cons q qs =>
      rw [parts_cons] at hp hq
      obtain ⟨rfl, hj⟩ := append_join_inj hp.1.2 hq.1.2 (List.cons.inj h).2
      rw [ih hp.2 hq.2 hj]

/-- What starts with some lists and one more separator has more lists after them. -/
lemma exists_of_join_append (hp : Parts sep ps) (hq : Parts sep qs) (h : join sep qs = join sep ps ++ sep :: rest) :
    ∃ rs, rs ≠ [] ∧ qs = ps ++ rs ∧ join sep rs = sep :: rest := by
  induction ps generalizing qs with
  | nil =>
    refine ⟨qs, ?_, rfl, h⟩
    rintro rfl
    cases h
  | cons p ps ih =>
    cases qs with
    | nil => cases h
    | cons q qs =>
      rw [parts_cons] at hp hq
      have ht : q ++ join sep qs = p ++ join sep (ps ++ [rest]) := by
        rw [join_cons, join_cons, cons_append, append_assoc] at h
        rw [join_append, join_cons, join_nil, append_nil]
        exact (List.cons.inj h).2
      obtain ⟨rfl, hj⟩ := append_join_inj hq.1.2 hp.1.2 ht
      obtain ⟨rs, hne, rfl, hr⟩ := ih hp.2 hq.2 (by simpa using hj)
      exact ⟨rs, hne, rfl, hr⟩

lemma getLast?_join (hp : Parts sep ps) : (join sep ps).getLast? ≠ some sep := by
  cases hl : ps.getLast? with
  | none => simp [getLast?_eq_none_iff.mp hl]
  | some p =>
    obtain ⟨qs, rfl⟩ := getLast?_eq_some_iff.mp hl
    obtain ⟨hne, hs⟩ := hp p (by simp)
    intro h
    rw [join_append, join_cons, join_nil, append_nil, getLast?_append_cons, getLast?_cons_of_ne_nil hne] at h
    exact hs (mem_of_getLast? h)

lemma notMem_of_mem_splitOn [DecidableEq α] {l : List α} (h : p ∈ l.splitOn sep) : sep ∉ p := by
  induction l generalizing p with
  | nil =>
    rw [splitOn_nil, mem_singleton] at h
    rw [h]
    exact not_mem_nil
  | cons a l ih =>
    rw [splitOn_cons_eq_if_modifyHead] at h
    split at h
    · rcases mem_cons.mp h with rfl | h
      · exact not_mem_nil
      · exact ih h
    next hne =>
      obtain ⟨q, qs, hs⟩ := exists_cons_of_ne_nil (splitOn_ne_nil sep l)
      rw [hs, modifyHead_cons, mem_cons] at h
      rcases h with rfl | h
      · have hq := ih (hs ▸ mem_cons_self)
        intro hm
        rcases mem_cons.mp hm with rfl | hm
        · simp at hne
        · exact hq hm
      · exact ih (hs ▸ mem_cons_of_mem _ h)

end Joined
