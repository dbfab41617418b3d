import ZeroOS.Window.Compositor

/-!
# What a composition paints

Inside the clip rectangle, which is a part of the screen, `compose` paints the background and then
the windows from back to front. Neither the frame nor a surface is left by an index, as long as every
surface is as large as its window says (`Win.Sound`). The arithmetic of window coordinates may wrap
around here; what it means when it does not is the business of `ZeroOS.Window.Repaint`.
-/

namespace ZeroOS.Window

open Option Raster

/-- The surface covers the window's rectangle. -/
structure Win.Sound (w : Win) : Prop where
  stride_le : w.rect.w ≤ w.stride
  surface_le : w.stride * w.rect.h ≤ w.surface.length

lemma Win.Sound.index_lt {w : Win} (h : w.Sound) (hx : sx < w.rect.w)
    (hy : sy < w.rect.h) : sy * w.stride + sx < w.surface.length := by
  have h₁ := h.stride_le
  have h₂ := h.surface_le
  have hr : sy * w.stride + w.stride ≤ w.stride * w.rect.h := by
    calc sy * w.stride + w.stride = w.stride * (sy + 1) := by rw [Nat.mul_succ, Nat.mul_comm]
      _ ≤ w.stride * w.rect.h := Nat.mul_le_mul_left _ hy
  omega

/-- The rectangle is a part of the picture. -/
structure Rect.Inside (r : Rect) (g : Geometry) : Prop where
  left : 0 ≤ r.x
  right : r.x + r.w ≤ g.width
  top : 0 ≤ r.y
  bottom : r.y + r.h ≤ g.height

/-- The picture fits `i32` coordinates and `usize` indices. -/
structure Small (g : Geometry) : Prop where
  width : g.width < 2 ^ 31
  height : g.height < 2 ^ 31
  cells : g.stride * g.height < 2 ^ 64

namespace Compositor

variable {g : Geometry} {r clip : Rect} {w : Win} {c : Compositor}

def dot (x y : Int) (v : Option Pixel) (a b : Nat) : Option Pixel :=
  if (a : Int) = x ∧ (b : Int) = y then v else none

def region (r : Rect) (f : Int → Int → Option Pixel) (a b : Nat) : Option Pixel :=
  if r.Covers a b then f a b else none

lemma mem_span {a v : Int} {n : Nat} (ha : 0 ≤ a) (hn : a + n < 2 ^ 31) :
    v ∈ span a n ↔ a ≤ v ∧ v < a + n := by
  have he : (i32 (a + i32 n) - a).toNat = n := by
    unfold i32
    omega
  simp only [span, he, List.mem_map, List.mem_range]
  constructor
  · rintro ⟨i, hi, rfl⟩
    omega
  · rintro ⟨hl, hh⟩
    exact ⟨(v - a).toNat, by omega, by omega⟩

lemma place_eq (hg : Small g) {x y : Int} (hx : 0 ≤ x) (hx' : x < g.width) (hy : 0 ≤ y)
    (hy' : y < g.height) : place g.stride x y = g.index x.toNat y.toNat := by
  have hlt := g.index_lt (x := x.toNat) (y := y.toNat) (by omega) (by omega)
  have hw := hg.width
  have hh := hg.height
  have hu : usize x = x.toNat := by unfold usize; omega
  have huy : usize y = y.toNat := by unfold usize; omega
  rw [place, hu, huy]
  exact Nat.mod_eq_of_lt (Nat.lt_trans hlt hg.cells)

lemma paints_place (hg : Small g) {x y : Int} (hx : 0 ≤ x) (hx' : x < g.width) (hy : 0 ≤ y) (hy' : y < g.height) (v : Pixel) :
    Paints g (dot x y (some v)) (put (place g.stride x y) v) := by
  rw [place_eq hg hx hx' hy hy']
  refine (paints_put (a := x.toNat) (b := y.toNat) (by omega) (by omega) v).congr
    fun a _ b _ => ?_
  have hf : (a = x.toNat ∧ b = y.toNat) ↔ ((a : Int) = x ∧ (b : Int) = y) := by omega
  simp only [dot, hf]

lemma paints_forPixels (hg : Small g) (hr : r.Inside g) (hb : ∀ x y, r.x ≤ x → x < r.x + r.w → r.y ≤ y → y < r.y + r.h →
      Paints g (dot x y (f x y)) (body x y)) : Paints g (region r f) (forPixels r body) := by
  have hw := hg.width
  have hh := hg.height
  have hx : ∀ v, v ∈ span r.x r.w ↔ r.x ≤ v ∧ v < r.x + r.w := fun v => mem_span hr.left (by have := hr.right; omega)
  have hy : ∀ v, v ∈ span r.y r.h ↔ r.y ≤ v ∧ v < r.y + r.h := fun v => mem_span hr.top (by have := hr.bottom; omega)
  have hrw : ∀ y ∈ span r.y r.h, Paints g (topmost (fun x => dot x y (f x y)) (span r.x r.w))
      (fun out => (span r.x r.w).foldlM (fun out x => body x y out) out) := by
    intro y hme
    obtain ⟨hy₁, hy₂⟩ := (hy y).mp hme
    refine Paints.foldlM fun x hm => ?_
    obtain ⟨hx₁, hx₂⟩ := (hx x).mp hm
    exact hb x y hx₁ hx₂ hy₁ hy₂
  refine (Paints.foldlM hrw).congr fun a _ b _ => ?_
  -- a row has a colour in a cell only if it is the row of that cell, and then that of its column
  have hc : ∀ y, topmost (fun x => dot x y (f x y)) (span r.x r.w) a b
      = if (b : Int) = y ∧ r.x ≤ a ∧ (a : Int) < r.x + r.w then f a y else none := by
    intro y
    split
    next hn =>
      cases hf : f a y with
      | none =>
        refine topmost_eq_none fun x _ => ?_
        simp only [dot]
        split
        next he => rw [← he.1, hf]
        · rfl
      | some v =>
        refine topmost_eq_some ((hx a).mpr hn.2) (by simp [dot, hn.1, hf]) fun x _ u hu => ?_
        simp only [dot] at hu
        split at hu
        next he => rw [← he.1, hf] at hu; exact (some.inj hu).symm
        · cases hu
    next ho =>
      refine topmost_eq_none fun x hm => ?_
      simp only [dot]
      split
      next he => exact absurd ⟨he.2, he.1 ▸ (hx x).mp hm⟩ ho
      · rfl
  simp only [region]
  split
  next hn =>
    cases hf : f a b with
    | none =>
      refine topmost_eq_none fun y _ => ?_
      rw [hc]
      split
      next he => rw [← he.1, hf]
      · rfl
    | some v =>
      refine topmost_eq_some ((hy b).mpr hn.2.2) ?_ fun y _ u hu => ?_
      · rw [hc, if_pos ⟨rfl, hn.1, hn.2.1⟩, hf]
      · rw [hc] at hu
        split at hu
        next he => rw [← he.1, hf] at hu; exact (some.inj hu).symm
        · cases hu
  next ho =>
    refine topmost_eq_none fun y hym => ?_
    rw [hc]
    split
    next he => exact absurd ⟨he.2.1, he.2.2, he.1 ▸ (hy y).mp hym⟩ ho
    · rfl

/-- The pixel of a window's surface for a cell of the screen. -/
def colour (w : Win) (x y : Int) : Option Pixel :=
  let sx := usize (i32 (x - w.rect.x))
  let sy := usize (i32 (y - w.rect.y))
  if sx < w.rect.w ∧ sy < w.rect.h then w.surface[(sy * w.stride + sx) % 2 ^ 64]? else none

lemma paints_paintPixel (hg : Small g) (hw : w.Sound) {x y : Int} (hx : 0 ≤ x)
    (hx' : x < g.width) (hy : 0 ≤ y) (hy' : y < g.height) :
    Paints g (dot x y (colour w x y)) (paintPixel g.stride w x y) := by
  simp only [colour]
  split
  next hn =>
    have hlt := hw.index_lt hn.1 hn.2
    have hr := List.getElem?_eq_getElem (Nat.lt_of_le_of_lt (Nat.mod_le _ (2 ^ 64)) hlt)
    obtain ⟨v, hv⟩ : ∃ v, w.surface[_]? = some v := ⟨_, hr⟩
    have hb : paintPixel g.stride w x y = put (place g.stride x y) v := by
      funext out
      simp only [paintPixel, if_pos hn]
      rw [show w.surface[_]? = some v from hv]
      rfl
    rw [hb, show w.surface[_]? = some v from hv]
    exact paints_place hg hx hx' hy hy' v
  next ho =>
    have hb : paintPixel g.stride w x y = some := by
      funext out
      simp only [paintPixel, if_neg ho]
    rw [hb]
    refine paints_some.congr fun a _ b _ => ?_
    simp [dot]

lemma inside_intersect {s : Rect} (hg : Small g) (hc : clip.Inside g) (h : s.intersect clip = some r) : r.Inside g := by
  have := hc.left
  have := hc.right
  have := hc.top
  have := hc.bottom
  have := hg.width
  have := hg.height
  obtain ⟨hx, hy, hr, hb⟩ := Rect.intersect_eq_some h hc.left hc.top
  have hrg : clip.right = clip.x + clip.w := by unfold Rect.right satAdd i32; omega
  have ht : clip.bottom = clip.y + clip.h := by unfold Rect.bottom satAdd i32; omega
  constructor <;> omega

/-- What a window adds to the picture in the clip rectangle. -/
def layer (clip : Rect) (w : Win) (a b : Nat) : Option Pixel :=
  match w.rect.intersect clip with
  | none => none
  | some r => region r (colour w) a b

lemma paints_paintWindow (hg : Small g) (hc : clip.Inside g) (hw : w.Sound) :
    Paints g (layer clip w) (paintWindow g.stride clip w) := by
  unfold layer paintWindow
  cases hr : w.rect.intersect clip with
  | none => exact paints_some
  | some r =>
    have hn := inside_intersect hg hc hr
    have h₁ := hn.left
    have h₂ := hn.right
    have h₃ := hn.top
    have h₄ := hn.bottom
    exact paints_forPixels hg hn fun x y _ _ _ _ => paints_paintPixel hg hw (by omega) (by omega) (by omega) (by omega)

lemma paints_paint (hg : Small g) (hc : clip.Inside g) (hw : ∀ w ∈ c.windows, w.Sound) :
    Paints g (fun a b => (topmost (layer clip) c.windows a b).or
      (region clip (fun _ _ => some background) a b)) (c.paint g.stride clip) := by
  have h₁ := hc.left
  have h₂ := hc.right
  have h₃ := hc.top
  have h₄ := hc.bottom
  refine Paints.bind ?_ (Paints.foldlM fun w hm => paints_paintWindow hg hc (hw w hm))
  exact paints_forPixels hg hc fun x y _ _ _ _ => paints_place hg (by omega) (by omega) (by omega) (by omega) background

/-- What a composition paints for a rectangle of damage. -/
def picture (c : Compositor) (dirty : Rect) (a b : Nat) : Option Pixel := (dirty.intersect c.screen).bind fun clip =>
    (topmost (layer clip) c.windows a b).or (region clip (fun _ _ => some background) a b)

/-- The frame as a raster of the size of the screen. -/
def geometry (c : Compositor) {out : List Pixel} {stride : Nat} (hw : c.width ≤ stride)
    (hl : stride * c.height ≤ out.length) : Geometry :=
  ⟨c.width, c.height, stride, out.length, hw, hl⟩

lemma small_geometry {out : List Pixel} (hw : c.width ≤ stride)
    (hl : stride * c.height ≤ out.length) (hs : stride * c.height < 2 ^ 64) :
    Small (c.geometry hw hl) :=
  ⟨c.width_lt, c.height_lt, hs⟩

lemma redraw_eq {c : Compositor} {out : List Pixel} {stride : Nat} (hw : c.width ≤ stride)
    (hl : stride * c.height ≤ out.length) (hs : stride * c.height < 2 ^ 64)
    (hsn : ∀ w ∈ c.windows, w.Sound) (dirty : Rect) :
    ∃ r out', c.redraw dirty out stride = some (r, out') ∧ out'.length = out.length ∧ ∀ x < c.width, ∀ y < c.height,
        out'[y * stride + x]? = (c.picture dirty x y).or out[y * stride + x]? := by
  have hg := small_geometry hw hl hs
  cases hc : dirty.intersect c.screen with
  | none =>
    have hr : c.redraw dirty out stride = some (none, out) := by rw [redraw, hc, elim_none]
    refine ⟨none, out, hr, rfl, fun x _ y _ => ?_⟩
    rw [picture, hc, bind_none, none_or]
  | some clip =>
    have hsc : c.screen.Inside (c.geometry hw hl) := by constructor <;> simp [screen, geometry]
    have hn := inside_intersect hg hsc hc
    obtain ⟨out', hp, he, hcs⟩ := paints_paint hg hn hsn out rfl
    have hr : c.redraw dirty out stride = some (some clip, out') := by
      rw [redraw, hc, Option.elim_some]
      exact congrArg (Option.map (some clip, ·)) hp
    refine ⟨some clip, out', hr, he, fun x hx y hy => ?_⟩
    rw [picture, hc, bind_some]
    exact hcs x hx y hy

/-- No index out of bounds: with sound windows a composition is always possible. -/
lemma compose_ne_none (hn : ∀ w ∈ c.windows, w.Sound) (out : List Pixel)
    (hs : stride * c.height < 2 ^ 64) : c.compose out stride ≠ none := by
  unfold compose
  split
  · exact nofun
  next hz =>
    rw [Nat.mod_eq_of_lt hs] at hz
    cases hd : c.dirty with
    | none => exact nofun
    | some dirty =>
      obtain ⟨r, out', hr, -⟩ := @redraw_eq c out stride (by omega) (by omega) hs hn dirty
      simp only [hr, map_some]
      exact nofun

end Compositor

end ZeroOS.Window
