import Mathlib

/-!
# Painting on a raster

A picture of `width` by `height` cells lies in a list of cells, row after row, each row `stride`
cells long. A painter is a function on such lists that may fail, by a write outside the list.
`Paints g P m` says that `m` does not fail and that it leaves the picture `P` over the one that was
there: a cell for which `P` has a colour gets it, every other cell stays.
-/

universe u v

namespace Raster

open List

variable {α : Type u} {β : Type v} {Ps : β → Nat → Nat → Option α} {bs : List β}

/-- Where the cells of a picture are. -/
structure Geometry where
  width : Nat
  height : Nat
  stride : Nat
  /-- The length of the list. -/
  len : Nat
  width_le : width ≤ stride
  len_le : stride * height ≤ len

/-- The place of a cell in the list. -/
def Geometry.index (g : Geometry) (x y : Nat) : Nat := y * g.stride + x

lemma Geometry.index_lt (g : Geometry) (hx : x < g.width) (hy : y < g.height) :
    g.index x y < g.stride * g.height := by
  have hr : y * g.stride + g.stride ≤ g.stride * g.height := by
    calc y * g.stride + g.stride = g.stride * (y + 1) := by rw [Nat.mul_succ, Nat.mul_comm]
      _ ≤ g.stride * g.height := Nat.mul_le_mul_left _ hy
  have := g.width_le
  unfold index
  omega

lemma Geometry.index_inj (g : Geometry) (hx : x < g.width) (hx' : x' < g.width)
    (h : g.index x y = g.index x' y') : x = x' ∧ y = y' := by
  have hw := g.width_le
  have hlt : x < g.stride := by omega
  have hlt' : x' < g.stride := by omega
  have hdiv := congrArg (· / g.stride) h
  have hmod := congrArg (· % g.stride) h
  simp only [index, Nat.mul_comm _ g.stride] at hdiv hmod
  rw [Nat.mul_add_div (by omega), Nat.mul_add_div (by omega), Nat.div_eq_of_lt hlt, Nat.div_eq_of_lt hlt'] at hdiv
  rw [Nat.mul_add_mod, Nat.mul_add_mod, Nat.mod_eq_of_lt hlt, Nat.mod_eq_of_lt hlt'] at hmod
  exact ⟨hmod, by omega⟩

/-- Write a cell; outside the list this fails. -/
def put (i : Nat) (v : α) (out : List α) : Option (List α) :=
  if i < out.length then some (out.set i v) else none

/-- `m` paints `P` over the picture that is there. -/
def Paints (g : Geometry) (P : Nat → Nat → Option α) (m : List α → Option (List α)) : Prop :=
  ∀ out, out.length = g.len → ∃ out', m out = some out' ∧ out'.length = g.len ∧
    ∀ x < g.width, ∀ y < g.height, out'[g.index x y]? = (P x y).or out[g.index x y]?

variable {g : Geometry} {P Q : Nat → Nat → Option α} {m m' : List α → Option (List α)}

lemma Paints.congr (h : Paints g P m) (hp : ∀ x < g.width, ∀ y < g.height, P x y = Q x y) :
    Paints g Q m := by
  intro out ho
  obtain ⟨out', hm, hl, hc⟩ := h out ho
  exact ⟨out', hm, hl, fun x hx y hy => by rw [hc x hx y hy, hp x hx y hy]⟩

lemma paints_some : Paints g (fun _ _ => none) (some : List α → Option (List α)) :=
  fun out ho => ⟨out, rfl, ho, fun _ _ _ _ => rfl⟩

lemma paints_put (ha : a < g.width) (hb : b < g.height) (v : α) :
    Paints g (fun x y => if x = a ∧ y = b then some v else none) (put (g.index a b) v) := by
  intro out ho
  have hlt : g.index a b < out.length := by
    have := g.index_lt ha hb
    have := g.len_le
    omega
  refine ⟨out.set (g.index a b) v, by rw [put, if_pos hlt], by rw [length_set, ho], ?_⟩
  intro x hx y hy
  by_cases hxy : x = a ∧ y = b
  · obtain ⟨rfl, rfl⟩ := hxy
    simp [getElem?_set_self hlt]
  · have hne : g.index a b ≠ g.index x y := fun he => hxy ((g.index_inj ha hx he).imp Eq.symm Eq.symm)
    simp [hxy, getElem?_set_ne hne]

/-- One painter after the other: the second picture lies over the first. -/
lemma Paints.bind (hm : Paints g P m) (hm' : Paints g Q m') :
    Paints g (fun x y => (Q x y).or (P x y)) (fun out => (m out).bind m') := by
  intro out ho
  obtain ⟨out₁, hm, hl₁, hc₁⟩ := hm out ho
  obtain ⟨out₂, hm', hl₂, hc₂⟩ := hm' out₁ hl₁
  refine ⟨out₂, by simp only [hm, Option.bind_some, hm'], hl₂, fun x hx y hy => ?_⟩
  rw [hc₂ x hx y hy, hc₁ x hx y hy, Option.or_assoc]

/-- The topmost of several pictures. -/
def topmost (Ps : β → Nat → Nat → Option α) (bs : List β) (x y : Nat) : Option α := bs.reverse.findSome? fun b => Ps b x y

lemma topmost_cons (Ps : β → Nat → Nat → Option α) (b : β) (bs : List β) (x y : Nat) :
    topmost Ps (b :: bs) x y = (topmost Ps bs x y).or (Ps b x y) := by
  simp [topmost, findSome?_append]

lemma Paints.foldlM {body : β → List α → Option (List α)} (h : ∀ b ∈ bs, Paints g (Ps b) (body b)) :
    Paints g (topmost Ps bs) (fun out => bs.foldlM (fun out b => body b out) out) := by
  induction bs with
  | nil => exact paints_some
  | cons b bs ih =>
    have hr := ih fun b' hb' => h b' (mem_cons_of_mem _ hb')
    refine ((h b mem_cons_self).bind hr).congr fun x _ y _ => ?_
    rw [topmost_cons]

/-- Where one of the pictures at most has a colour, the order does not matter. -/
lemma topmost_eq_some (hb : b ∈ bs) (hv : Ps b x y = some v) (hu : ∀ b' ∈ bs, ∀ w, Ps b' x y = some w → w = v) :
    topmost Ps bs x y = some v := by
  have hs : (topmost Ps bs x y).isSome := by
    rw [topmost, findSome?_isSome_iff]
    exact ⟨b, mem_reverse.mpr hb, by rw [hv]; rfl⟩
  obtain ⟨w, hw⟩ := Option.isSome_iff_exists.mp hs
  obtain ⟨b', hb', hw'⟩ := exists_of_findSome?_eq_some hw
  rw [hw, hu b' (mem_reverse.mp hb') w hw']

lemma topmost_eq_none (h : ∀ b ∈ bs, Ps b x y = none) : topmost Ps bs x y = none := by
  rw [topmost, findSome?_eq_none_iff]
  exact fun b hb => h b (mem_reverse.mp hb)

end Raster
