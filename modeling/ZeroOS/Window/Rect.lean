import Mathlib

/-!
# Rectangles on the screen

A rectangle has `i32` coordinates and `u32` sizes, and its right and lower edges are computed in
`i32`: the sizes are cast, `contains` and `intersect` add with saturation, the bounding box of the
damage wraps around. `i32`, `u32` and `satAdd` are these operations on integers.
-/

namespace ZeroOS.Window

/-- The `i32` value with the same bits. -/
@[irreducible] def i32 (v : Int) : Int := (v + 2 ^ 31) % 2 ^ 32 - 2 ^ 31

/-- An `i32` cast to `u32`. -/
@[irreducible] def u32 (v : Int) : Nat := (v % 2 ^ 32).toNat

/-- An `i32` cast to `usize`. -/
@[irreducible] def usize (v : Int) : Nat := (v % 2 ^ 64).toNat

/-- `i32::saturating_add`. -/
@[irreducible] def satAdd (a b : Int) : Int := max (-2 ^ 31) (min (a + b) (2 ^ 31 - 1))

structure Rect where
  x : Int
  y : Int
  w : Nat
  h : Nat
  deriving DecidableEq, Repr

namespace Rect

def right (r : Rect) : Int := satAdd r.x (i32 r.w)

def bottom (r : Rect) : Int := satAdd r.y (i32 r.h)

def contains (r : Rect) (x y : Int) : Bool := r.x ≤ x && r.y ≤ y && x < r.right && y < r.bottom

def intersect (r s : Rect) : Option Rect :=
  let x₁ := max r.x s.x
  let y₁ := max r.y s.y
  let x₂ := min r.right s.right
  let y₂ := min r.bottom s.bottom
  if x₁ < x₂ ∧ y₁ < y₂ then some ⟨x₁, y₁, u32 (i32 (x₂ - x₁)), u32 (i32 (y₂ - y₁))⟩ else none

/-- The bounding box that `mark_dirty` computes. -/
def join (a r : Rect) : Rect :=
  let x := min a.x r.x
  let y := min a.y r.y
  let x₂ := max (i32 (a.x + i32 a.w)) (i32 (r.x + i32 r.w))
  let y₂ := max (i32 (a.y + i32 a.h)) (i32 (r.y + i32 r.h))
  ⟨x, y, u32 (i32 (x₂ - x)), u32 (i32 (y₂ - y))⟩

/-- The edges are `i32` values. -/
structure Edges (r : Rect) : Prop where
  left : -2 ^ 31 ≤ r.x
  right : r.x + r.w < 2 ^ 31
  top : -2 ^ 31 ≤ r.y
  bottom : r.y + r.h < 2 ^ 31

/-- Edges and sizes are `i32` values. -/
structure Fits (r : Rect) : Prop extends Edges r where
  width : r.w < 2 ^ 31
  height : r.h < 2 ^ 31

instance (r : Rect) : Decidable r.Fits :=
  decidable_of_iff (-2 ^ 31 ≤ r.x ∧ r.x + r.w < 2 ^ 31 ∧ -2 ^ 31 ≤ r.y ∧ r.y + r.h < 2 ^ 31 ∧ r.w < 2 ^ 31 ∧ r.h < 2 ^ 31)
    ⟨fun ⟨h₁, h₂, h₃, h₄, h₅, h₆⟩ => ⟨⟨h₁, h₂, h₃, h₄⟩, h₅, h₆⟩,
      fun h => ⟨h.left, h.right, h.top, h.bottom, h.width, h.height⟩⟩

/-- The points of a rectangle. -/
def Covers (r : Rect) (x y : Int) : Prop := r.x ≤ x ∧ x < r.x + r.w ∧ r.y ≤ y ∧ y < r.y + r.h

instance (r : Rect) (x y : Int) : Decidable (r.Covers x y) := inferInstanceAs (Decidable (_ ∧ _))

variable {r s : Rect} {x y : Int}

lemma Fits.right_eq (h : r.Fits) : r.right = r.x + r.w := by
  have := h.left
  have := h.right
  have := h.width
  unfold Rect.right satAdd i32
  omega

lemma Fits.bottom_eq (h : r.Fits) : r.bottom = r.y + r.h := by
  have := h.top
  have := h.bottom
  have := h.height
  unfold Rect.bottom satAdd i32
  omega

lemma Fits.contains_iff (h : r.Fits) : r.contains x y = true ↔ r.Covers x y := by
  simp only [Covers, contains, h.right_eq, h.bottom_eq, Bool.and_eq_true, decide_eq_true_eq]
  omega

lemma u32_sub (ha : 0 ≤ a) (hab : a < b) (hb : b < 2 ^ 31) : (u32 (i32 (b - a)) : Int) = b - a := by
  unfold u32 i32
  omega

lemma right_range (r : Rect) : -2 ^ 31 ≤ r.right ∧ r.right < 2 ^ 31 := by
  unfold Rect.right satAdd
  omega

lemma bottom_range (r : Rect) : -2 ^ 31 ≤ r.bottom ∧ r.bottom < 2 ^ 31 := by
  unfold Rect.bottom satAdd
  omega

lemma intersect_eq_some (h : r.intersect s = some q) (hx : 0 ≤ s.x) (hy : 0 ≤ s.y) :
    q.x = max r.x s.x ∧ q.y = max r.y s.y ∧ q.x + q.w = min r.right s.right ∧ q.y + q.h = min r.bottom s.bottom := by
  have := r.right_range
  have := s.right_range
  have := r.bottom_range
  have := s.bottom_range
  simp only [intersect] at h
  split at h
  next hlt =>
    cases h
    have hw := u32_sub (by omega) hlt.1 (by omega)
    have hh := u32_sub (by omega) hlt.2 (by omega)
    exact ⟨rfl, rfl, by dsimp only; omega, by dsimp only; omega⟩
  · cases h

lemma intersect_eq_none (h : r.intersect s = none) :
    ¬(max r.x s.x < min r.right s.right ∧ max r.y s.y < min r.bottom s.bottom) := by
  simp only [intersect] at h
  split at h
  · cases h
  next hlt => exact hlt

lemma i32_edge {a : Int} {n : Nat} (hl : -2 ^ 31 ≤ a) (hh : a + n < 2 ^ 31) :
    i32 (a + i32 n) = a + n := by
  unfold i32
  omega

lemma u32_edge (hl : -2 ^ 31 ≤ a) (ha : a ≤ b) (hh : b < 2 ^ 31) :
    a + u32 (i32 (b - a)) = b := by
  unfold u32 i32
  omega

lemma Edges.join_eq (hr : r.Edges) (hs : s.Edges) : (r.join s).x = min r.x s.x ∧ (r.join s).y = min r.y s.y ∧
      (r.join s).x + (r.join s).w = max (r.x + r.w) (s.x + s.w) ∧
      (r.join s).y + (r.join s).h = max (r.y + r.h) (s.y + s.h) := by
  have h₁ := hr.left
  have h₂ := hr.right
  have h₃ := hr.top
  have h₄ := hr.bottom
  have h₅ := hs.left
  have h₆ := hs.right
  have h₇ := hs.top
  have h₈ := hs.bottom
  simp only [join, i32_edge h₁ h₂, i32_edge h₃ h₄, i32_edge h₅ h₆, i32_edge h₇ h₈]
  exact ⟨trivial, trivial, u32_edge (by omega) (by omega) (by omega), u32_edge (by omega) (by omega) (by omega)⟩

lemma Edges.join (hr : r.Edges) (hs : s.Edges) : (r.join s).Edges := by
  obtain ⟨hx, hy, hg, hb⟩ := hr.join_eq hs
  have := hr.left
  have := hr.right
  have := hr.top
  have := hr.bottom
  have := hs.left
  have := hs.right
  have := hs.top
  have := hs.bottom
  constructor <;> omega

lemma Edges.join_covers (hr : r.Edges) (hs : s.Edges) (h : r.Covers x y ∨ s.Covers x y) : (r.join s).Covers x y := by
  obtain ⟨hx, hy, hg, hb⟩ := hr.join_eq hs
  unfold Covers at h ⊢
  omega

end Rect

end ZeroOS.Window
