import Mathlib

/-!
# Counting who points where

`tally S f p` is the number of places of `S` that `f` sends to `p`. A place may point nowhere. One
place changes at a time, and then two counts change by one.
-/

namespace Tally

open Finset Function

variable {ι κ : Type} [DecidableEq κ]

/-- One, if the place points to `p`. -/
def hit (x : Option κ) (p : κ) : Nat := if x = some p then 1 else 0

/-- The places of `S` that point to `p`. -/
def tally (S : Finset ι) (f : ι → Option κ) (p : κ) : Nat := (S.filter fun i => f i = some p).card

variable {S : Finset ι} {f g : ι → Option κ} {a : ι} {p : κ} {x : Option κ}

@[simp] lemma hit_none (p : κ) : hit none p = 0 := rfl

@[simp] lemma hit_self (p : κ) : hit (some p) p = 1 := if_pos rfl

lemma tally_congr (h : ∀ i ∈ S, f i = g i) : tally S f p = tally S g p := by
  unfold tally
  rw [filter_congr fun i hi => by rw [h i hi]]

lemma tally_eq_zero (h : ∀ i ∈ S, f i ≠ some p) : tally S f p = 0 :=
  Finset.card_eq_zero.mpr (Finset.filter_eq_empty_iff.mpr fun _ hi => h _ hi)

/-- A list that has every place that points to `p`, and none twice, counts them. -/
lemma count_filterMap {l : List ι} (hn : l.Nodup) (h : ∀ i, f i = some p → (i ∈ l ↔ i ∈ S)) :
    (l.filterMap f).count p = tally S f p := by
  classical
  have hc : ∀ l : List ι, (l.filterMap f).count p = (l.filter fun i => f i = some p).length := by
    intro l
    induction l with
    | nil => rfl
    | cons i l ih =>
      match hi : f i with
      | none => simp [hi, ih]
      | some q => by_cases hq : q = p <;> simp [hi, hq, ih]
  rw [hc, ← List.toFinset_card_of_nodup (hn.filter _), tally]
  congr 1
  ext i
  simp only [List.mem_toFinset, List.mem_filter, decide_eq_true_eq, mem_filter]
  exact and_congr_left fun hi => h i hi

variable [DecidableEq ι]

lemma tally_erase (ha : a ∈ S) : tally S f p = tally (S.erase a) f p + hit (f a) p := by
  unfold tally hit
  rw [filter_erase]
  split
  next h => rw [card_erase_add_one (mem_filter.mpr ⟨ha, h⟩)]
  next h => rw [erase_eq_of_notMem (by simp [h]), Nat.add_zero]

lemma tally_update (ha : a ∈ S) (x : Option κ) :
    tally S (update f a x) p + hit (f a) p = tally S f p + hit x p := by
  have hr : tally (S.erase a) (update f a x) p = tally (S.erase a) f p :=
    tally_congr fun i hi => update_of_ne (Finset.ne_of_mem_erase hi) ..
  have hn := tally_erase (f := update f a x) (p := p) ha
  have ho := tally_erase (f := f) (p := p) ha
  rw [update_self, hr] at hn
  omega

lemma sum_update {ν : Type} (S : Finset ι) (F : ν → Nat) (h : ι → ν) (ha : a ∈ S) (y : ν) :
    ∑ i ∈ S, F (update h a y i) + F (h a) = ∑ i ∈ S, F (h i) + F y := by
  have hr : ∑ i ∈ S.erase a, F (update h a y i) = ∑ i ∈ S.erase a, F (h i) :=
    Finset.sum_congr rfl fun i hi => by rw [update_of_ne (ne_of_mem_erase hi)]
  have hn := Finset.add_sum_erase S (fun i => F (update h a y i)) ha
  have ho := Finset.add_sum_erase S (fun i => F (h i)) ha
  simp only [update_self] at hn
  omega

end Tally
