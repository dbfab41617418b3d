import ZeroOS.Window.Surfaces

/-!
# Composing the damage shows the whole scene

The scene is what a screen ought to show: at every point the pixel of the front-most window that
contains it, or the background. A composition paints only the damage, one bounding box of everything
that was touched since the last one. Outside the damage the frame already shows the scene: this is
the invariant of a run (`Display.Settled`), and a composition therefore leaves the frame that a
repaint of the whole screen would.
-/

namespace ZeroOS.Window

open Compositor List Option Raster Transition

/-- The pixel of a window at a point of the screen. -/
def Win.pixel (w : Win) (x y : Int) : Option Pixel := w.surface[(y - w.rect.y).toNat * w.stride + (x - w.rect.x).toNat]?

namespace Compositor

/-- The windows that contain a point, back to front. -/
def stack (c : Compositor) (x y : Int) : List Win := c.windows.filter fun w => w.rect.contains x y

/-- What the screen ought to show at a point. -/
def scene (c : Compositor) (x y : Int) : Option Pixel :=
  match (c.stack x y).getLast? with
  | none => some background
  | some w => w.pixel x y

/-- Strides are widths, and no edge or size of a rectangle leaves `i32`. -/
structure Plain (c : Compositor) : Prop where
  stride_eq : ∀ w ∈ c.windows, w.stride = w.rect.w
  fits : ∀ w ∈ c.windows, w.rect.Fits
  dirty : ∀ r, c.dirty = some r → r.Fits

instance (c : Compositor) : Decidable c.Plain :=
  decidable_of_iff ((∀ w ∈ c.windows, w.stride = w.rect.w ∧ w.rect.Fits) ∧ ∀ r ∈ c.dirty, r.Fits)
    ⟨fun h => ⟨fun w hw => (h.1 w hw).1, fun w hw => (h.1 w hw).2, h.2⟩,
      fun h => ⟨fun w hw => ⟨h.stride_eq w hw, h.fits w hw⟩, h.dirty⟩⟩

/-! ## The picture of the damage -/

section

variable {c : Compositor} {w : Win} {clip dirty : Rect} {a b : Nat}

lemma colour_eq (ht : w.Tight) (hf : w.rect.Fits) (ha : a < 2 ^ 31) (hb : b < 2 ^ 31)
    (h : w.rect.Covers a b) : colour w a b = w.pixel a b ∧ (w.pixel a b).isSome := by
  obtain ⟨h₁, h₂, h₃, h₄⟩ := h
  have h₅ := hf.left
  have h₆ := hf.top
  have h₇ := hf.width
  have h₈ := hf.height
  have hs : usize (i32 (a - w.rect.x)) = (a - w.rect.x).toNat := by unfold usize i32; omega
  have hsy : usize (i32 (b - w.rect.y)) = (b - w.rect.y).toNat := by unfold usize i32; omega
  have hx : (a - w.rect.x).toNat < w.rect.w := by omega
  have hy : (b - w.rect.y).toNat < w.rect.h := by omega
  have hlt := ht.sound.index_lt hx hy
  have hr : w.surface.length < 2 ^ 64 := by
    rw [ht.length_eq]
    calc w.rect.w * w.rect.h ≤ 2 ^ 31 * 2 ^ 31 := Nat.mul_le_mul (by omega) (by omega)
      _ < 2 ^ 64 := by decide
  refine ⟨?_, ?_⟩
  · simp only [colour, Win.pixel, hs, hsy, if_pos (And.intro hx hy)]
    rw [Nat.mod_eq_of_lt (Nat.lt_trans hlt hr)]
  · rw [Win.pixel, getElem?_eq_getElem hlt]
    rfl

lemma covers_screen : c.screen.Covers a b ↔ a < c.width ∧ b < c.height := by
  simp only [Rect.Covers, screen]
  omega

lemma covers_intersect {r s q : Rect} (hr : r.Fits) (hs : s.Fits) (hx : 0 ≤ s.x) (hy : 0 ≤ s.y)
    (h : r.intersect s = some q) : q.Covers x y ↔ r.Covers x y ∧ s.Covers x y := by
  obtain ⟨h₁, h₂, h₃, h₄⟩ := Rect.intersect_eq_some h hx hy
  rw [hr.right_eq, hs.right_eq] at h₃
  rw [hr.bottom_eq, hs.bottom_eq] at h₄
  unfold Rect.Covers
  omega

lemma not_covers_of_intersect {r s : Rect} (hr : r.Fits) (hs : s.Fits)
    (h : r.intersect s = none) : ¬(r.Covers x y ∧ s.Covers x y) := by
  have he := Rect.intersect_eq_none h
  rw [hr.right_eq, hs.right_eq, hr.bottom_eq, hs.bottom_eq] at he
  unfold Rect.Covers
  omega

lemma screen_fits : c.screen.Fits := by
  have := c.width_lt
  have := c.height_lt
  refine ⟨⟨?_, ?_, ?_, ?_⟩, ?_, ?_⟩ <;> simp only [screen] <;> omega

lemma intersect_fits {r s q : Rect} (hr : r.Fits) (hs : s.Fits) (hx : 0 ≤ s.x) (hy : 0 ≤ s.y)
    (h : r.intersect s = some q) : q.Fits ∧ 0 ≤ q.x ∧ 0 ≤ q.y := by
  obtain ⟨h₁, h₂, h₃, h₄⟩ := Rect.intersect_eq_some h hx hy
  rw [hr.right_eq, hs.right_eq] at h₃
  rw [hr.bottom_eq, hs.bottom_eq] at h₄
  have := hs.right
  have := hs.bottom
  refine ⟨⟨⟨?_, ?_, ?_, ?_⟩, ?_, ?_⟩, ?_, ?_⟩ <;> omega

lemma layer_eq (ht : w.Tight) (hf : w.rect.Fits) (hl : clip.Fits) (hx : 0 ≤ clip.x) (hy : 0 ≤ clip.y) (hn : clip.Covers a b) :
    layer clip w a b = if w.rect.contains a b then w.pixel a b else none := by
  have ha : a < 2 ^ 31 := by have := hl.right; have := hn.2.1; omega
  have hb : b < 2 ^ 31 := by have := hl.bottom; have := hn.2.2.2; omega
  unfold layer
  cases hr : w.rect.intersect clip with
  | none =>
    have ho : ¬w.rect.contains a b := by
      rw [hf.contains_iff]
      exact fun h => not_covers_of_intersect hf hl hr ⟨h, hn⟩
    rw [if_neg ho]
  | some r =>
    have hif := covers_intersect hf hl hx hy (x := a) (y := b) hr
    by_cases hc : w.rect.contains a b
    · have hv := hf.contains_iff.mp hc
      rw [if_pos hc]
      dsimp only
      rw [region, if_pos (hif.mpr ⟨hv, hn⟩)]
      exact (colour_eq ht hf ha hb hv).1
    · rw [if_neg hc]
      dsimp only
      rw [region, if_neg]
      exact fun h => hc (hf.contains_iff.mpr (hif.mp h).1)

lemma topmost_eq_getLast {β α : Type*} {Ps : β → Nat → Nat → Option α} {p : β → Bool}
    {f : β → Option α} {bs : List β} {x y : Nat}
    (h : ∀ w ∈ bs, Ps w x y = if p w then f w else none)
    (hs : ∀ w ∈ bs, p w = true → (f w).isSome) :
    topmost Ps bs x y = (bs.filter p).getLast?.bind f := by
  induction bs with
  | nil => rfl
  | cons w bs ih =>
    rw [topmost_cons, ih (fun v hv => h v (mem_cons_of_mem _ hv))
      (fun v hv => hs v (mem_cons_of_mem _ hv)), h w mem_cons_self]
    cases hl : (bs.filter p).getLast? with
    | none =>
      have hn : bs.filter p = [] := getLast?_eq_none_iff.mp hl
      by_cases hp : p w = true
      · simp [hp, hn]
      · simp [hp, hn]
    | some v =>
      have hv : v ∈ bs.filter p := mem_of_getLast? hl
      obtain ⟨u, hu⟩ := isSome_iff_exists.mp
        (hs v (mem_cons_of_mem _ (mem_filter.mp hv).1) (mem_filter.mp hv).2)
      have hc : ((w :: bs).filter p).getLast? = some v := by
        by_cases hp : p w = true
        · simp [hp, getLast?_cons, hl]
        · simp [hp, hl]
      simp [hc, hu]

lemma scene_isSome (ht : ∀ w ∈ c.windows, w.Tight) (hc : c.Plain) (ha : a < c.width)
    (hb : b < c.height) : (c.scene a b).isSome := by
  have ha' : a < 2 ^ 31 := Nat.lt_trans ha c.width_lt
  have hb' : b < 2 ^ 31 := Nat.lt_trans hb c.height_lt
  unfold scene
  split
  · rfl
  next w hw =>
    obtain ⟨hm, hn⟩ := mem_filter.mp (mem_of_getLast? hw)
    exact (colour_eq (ht w hm) (hc.fits w hm) ha' hb'
      ((hc.fits w hm).contains_iff.mp hn)).2

/-- The picture of the damage is the scene inside it. -/
lemma picture_eq (ht : ∀ w ∈ c.windows, w.Tight) (hc : c.Plain) (hd : dirty.Fits) (ha : a < c.width) (hb : b < c.height) :
    c.picture dirty a b = if dirty.contains a b then c.scene a b else none := by
  have hsc : c.screen.Covers a b := covers_screen.mpr ⟨ha, hb⟩
  have ha' : a < 2 ^ 31 := Nat.lt_trans ha c.width_lt
  have hb' : b < 2 ^ 31 := Nat.lt_trans hb c.height_lt
  cases hcl : dirty.intersect c.screen with
  | none =>
    have ho : ¬dirty.contains a b := by
      rw [hd.contains_iff]
      exact fun h => not_covers_of_intersect hd screen_fits hcl ⟨h, hsc⟩
    rw [picture, hcl, bind_none, if_neg ho]
  | some clip =>
    have h0 : 0 ≤ c.screen.x ∧ 0 ≤ c.screen.y := ⟨Int.le_refl 0, Int.le_refl 0⟩
    have hif := covers_intersect hd screen_fits h0.1 h0.2 (x := a) (y := b) hcl
    obtain ⟨hf, hx, hy⟩ := intersect_fits hd screen_fits h0.1 h0.2 hcl
    rw [picture, hcl, bind_some]
    by_cases hin : clip.Covers a b
    · have hcv := hd.contains_iff.mpr (hif.mp hin).1
      have hov : topmost (layer clip) c.windows a b = (c.stack a b).getLast?.bind (·.pixel a b) :=
        topmost_eq_getLast (fun w hw => layer_eq (ht w hw) (hc.fits w hw) hf hx hy hin)
          (fun w hw hp => (colour_eq (ht w hw) (hc.fits w hw) ha' hb'
            ((hc.fits w hw).contains_iff.mp hp)).2)
      have hs := scene_isSome ht hc ha hb
      rw [if_pos hcv, hov, region, if_pos hin]
      unfold scene at hs ⊢
      cases hl : (c.stack a b).getLast? with
      | none => rfl
      | some w =>
        rw [hl] at hs
        obtain ⟨v, hv⟩ := isSome_iff_exists.mp hs
        simp only [bind_some, hv, some_or]
    · have ho : ¬dirty.contains a b := fun h => hin (hif.mpr ⟨hd.contains_iff.mp h, hsc⟩)
      have hn : topmost (layer clip) c.windows a b = none := by
        refine topmost_eq_none fun w hw => ?_
        unfold layer
        cases hr : w.rect.intersect clip with
        | none => rfl
        | some r =>
          dsimp only
          rw [region, if_neg]
          exact fun h => hin ((covers_intersect (hc.fits w hw) hf hx hy hr).mp h).2
      rw [if_neg ho, hn, region, if_neg hin]
      rfl

end

/-! ## Damage and scene -/

section

variable {R : Win → Win → Prop} {c c' : Compositor} {x y : Int}

def Damaged (c : Compositor) (x y : Int) : Prop := ∃ r, c.dirty = some r ∧ r.Covers x y

/-- The edges of the damage are `i32` values. -/
def DirtyEdges (c : Compositor) : Prop := ∀ r, c.dirty = some r → r.Edges

lemma markDirty_edges (hc : c.DirtyEdges) (hr : r.Edges) : (c.markDirty r).DirtyEdges := by
  intro q hq
  cases hd : c.dirty with
  | none =>
    simp only [markDirty, hd, Option.some.injEq] at hq
    exact hq ▸ hr
  | some a =>
    simp only [markDirty, hd, Option.some.injEq] at hq
    exact hq ▸ (hc a hd).join hr

lemma markDirty_damaged (hc : c.DirtyEdges) (hr : r.Edges)
    (h : c.Damaged x y ∨ r.Covers x y) : (c.markDirty r).Damaged x y := by
  cases hd : c.dirty with
  | none =>
    refine ⟨r, by simp only [markDirty, hd], h.resolve_left ?_⟩
    rintro ⟨a, ha, -⟩
    cases hd.symm.trans ha
  | some a =>
    refine ⟨a.join r, by simp only [markDirty, hd], (hc a hd).join_covers hr (h.imp_left ?_)⟩
    rintro ⟨a', ha', hv⟩
    obtain rfl := mem_unique hd ha'
    exact hv

lemma stack_eraseIdx {i : Nat} {w : Win} {ws : List Win} {p : Win → Bool} (hi : ws[i]? = some w)
    (hp : p w = false) : (ws.eraseIdx i).filter p = ws.filter p := by
  obtain ⟨hlt, rfl⟩ := List.getElem?_eq_some_iff.mp hi
  conv_rhs => rw [← List.take_append_drop i ws, List.drop_eq_getElem_cons hlt]
  rw [List.eraseIdx_eq_take_drop_succ, List.filter_append, List.filter_append, List.filter_cons_of_neg]
  simpa using hp

lemma stack_set {i : Nat} {w w' : Win} {ws : List Win} {p : Win → Bool} (hi : ws[i]? = some w)
    (hp : p w = false) (hp' : p w' = false) : (ws.set i w').filter p = ws.filter p := by
  have hs : (ws.set i w')[i]? = some w' := by
    obtain ⟨hlt, -⟩ := List.getElem?_eq_some_iff.mp hi
    exact List.getElem?_set_self hlt
  rw [← stack_eraseIdx hs hp', ← stack_eraseIdx hi hp, List.eraseIdx_set_eq]

lemma Change.scene_eq (h : Change R c c') (hc : c.Plain) (hc' : c'.Plain)
    (hu : ¬c'.Damaged x y) : ¬c.Damaged x y ∧ c'.scene x y = c.scene x y := by
  have he : c.DirtyEdges := fun r hr => (hc.dirty r hr).toEdges
  -- a rectangle that fits and is not in the damage does not contain the point
  have hm : ∀ w : Win, w.rect.Fits → ¬w.rect.Covers x y → w.rect.contains x y = false := by
    intro w hw hn
    exact Bool.eq_false_iff.mpr fun h => hn (hw.contains_iff.mp h)
  have hon : ∀ {w : Win}, w.rect.Fits → c'.dirty = (c.markDirty w.rect).dirty →
      ¬c.Damaged x y ∧ w.rect.contains x y = false := by
    intro w hw hd
    have hn : ¬(c.Damaged x y ∨ w.rect.Covers x y) := fun h =>
      hu (by simpa only [Damaged, hd] using markDirty_damaged he hw.toEdges h)
    rw [not_or] at hn
    exact ⟨hn.1, hm w hw hn.2⟩
  cases h with
  | same hw hd => exact ⟨by simpa only [Damaged, hd] using hu, by simp only [scene, stack, hw]⟩
  | @added w _ hw hd =>
    have hme : w ∈ c'.windows := by simp [hw]
    obtain ⟨ho, hn⟩ := hon (hc'.fits w hme) hd
    exact ⟨ho, by simp [scene, stack, hw, hn]⟩
  | removed hi hw hd =>
    obtain ⟨ho, hn⟩ := hon (hc.fits _ (mem_of_getElem? hi)) hd
    exact ⟨ho, by simp only [scene, stack, hw, stack_eraseIdx (p := (·.rect.contains x y)) hi hn]⟩
  | raised hi hw hd =>
    obtain ⟨ho, hn⟩ := hon (hc.fits _ (mem_of_getElem? hi)) hd
    have hs : c'.stack x y = c.stack x y := by
      rw [stack, hw, filter_append, stack_eraseIdx hi hn]
      simp [stack, hn]
    exact ⟨ho, by rw [scene, scene, hs]⟩
  | redrawn hi _ hr hw hd =>
    obtain ⟨ho, hn⟩ := hon (hc.fits _ (mem_of_getElem? hi)) hd
    have hs : c'.stack x y = c.stack x y := by
      rw [stack, hw]
      exact stack_set hi hn (by rw [hr]; exact hn)
    exact ⟨ho, by rw [scene, scene, hs]⟩
  | @changed i w w' hi _ hw hd =>
    have hf := hc.fits w (List.mem_of_getElem? hi)
    have hlt := (List.getElem?_eq_some_iff.mp hi).1
    have hf' : w'.rect.Fits := hc'.fits w' (hw ▸ List.mem_set hlt w')
    have hn : ¬((c.Damaged x y ∨ w.rect.Covers x y) ∨ w'.rect.Covers x y) := fun h =>
      hu (by
        have hmr := markDirty_damaged (markDirty_edges he hf.toEdges) hf'.toEdges
          (h.imp_left (markDirty_damaged he hf.toEdges))
        simpa only [Damaged, hd] using hmr)
    rw [not_or, not_or] at hn
    have hs : c'.stack x y = c.stack x y := by
      rw [stack, hw]
      exact stack_set hi (hm w hf hn.1.2) (hm w' hf' hn.2)
    exact ⟨hn.1.1, by rw [scene, scene, hs]⟩

end

end Compositor

namespace Display

/-! ## Runs -/

/-- The place of a point of the screen in the frame. -/
def cell (d : Display) (x y : Nat) : Option Pixel := d.out[y * d.stride + x]?

/-- The frame is large enough for the screen, and shows the scene wherever there is no damage. -/
structure Settled (d : Display) : Prop where
  width_le : d.comp.width ≤ d.stride
  length_le : d.stride * d.comp.height ≤ d.out.length
  length_lt : d.out.length < 2 ^ 64
  tight : ∀ w ∈ d.comp.windows, w.Tight
  shows : ∀ x < d.comp.width, ∀ y < d.comp.height, ¬d.comp.Damaged x y → d.cell x y = d.comp.scene x y

/-- Runs whose windows have their width as stride and whose rectangles stay within `i32`. -/
abbrev PlainRun (d : Display) := Run (fun d e d' => d.Step e d' ∧ d'.comp.Plain) d

variable {d d' : Display} {e : Event}

lemma tight_of_stride (ha : d.comp.Alters e w w') (hw : w.Tight) (hs : w'.stride = w'.rect.w) : w'.Tight := by
  cases e with
  | setGeometry owner id rect =>
    obtain ⟨-, rfl⟩ := ha
    refine Win.tight_resize fun hr => ?_
    simpa [Win.resize, hr] using hs
  | _ =>
    obtain ⟨x, y, rfl⟩ := ha
    exact hw.moveTo x y

lemma compose_shows (h : d.Settled) (hp : d.comp.Plain) :
    ∃ d', d.Step .compose d' ∧ d'.comp.windows = d.comp.windows ∧ d'.out.length = d.out.length ∧
      ∀ x < d.comp.width, ∀ y < d.comp.height, d'.cell x y = d.comp.scene x y := by
  have hs : d.stride * d.comp.height < 2 ^ 64 := Nat.lt_of_le_of_lt h.length_le h.length_lt
  have hsn : ∀ w ∈ d.comp.windows, w.Sound := fun w hw => (h.tight w hw).sound
  have he : ¬(d.out.length < d.stride * d.comp.height % 2 ^ 64 ∨ d.stride < d.comp.width) := by
    have := h.width_le
    have := h.length_le
    rw [Nat.mod_eq_of_lt hs]
    omega
  cases hd : d.comp.dirty with
  | none =>
    have hc : d.comp.compose d.out d.stride = some (none, d.out, d.comp) := by rw [compose, if_neg he, hd]
    refine ⟨d, by rw [Step, step, hc]; rfl, rfl, rfl, fun x hx y hy => h.shows x hx y hy ?_⟩
    rintro ⟨r, hr, -⟩
    cases hd.symm.trans hr
  | some dirty =>
    obtain ⟨r, out', hr, hl, hcl⟩ := Compositor.redraw_eq h.width_le h.length_le hs hsn dirty
    have hc : d.comp.compose d.out d.stride
        = some (r, out', { d.comp with dirty := none }) := by
      rw [compose, if_neg he, hd]
      simp only [hr, map_some]
    refine ⟨⟨{ d.comp with dirty := none }, out', d.stride⟩, by rw [Step, step, hc]; rfl,
      rfl, hl, fun x hx y hy => ?_⟩
    have hf := hp.dirty dirty hd
    rw [cell, hcl x hx y hy, picture_eq h.tight hp hf hx hy]
    by_cases hn : dirty.contains x y
    · obtain ⟨v, hv⟩ := isSome_iff_exists.mp (Compositor.scene_isSome h.tight hp hx hy)
      rw [if_pos hn, hv, some_or]
    · rw [if_neg hn, none_or]
      refine h.shows x hx y hy ?_
      rintro ⟨q, hq, hcv⟩
      obtain rfl := mem_unique hd hq
      exact hn (hf.contains_iff.mpr hcv)

lemma Settled.step (h : d.Settled) (hp : d.comp.Plain) (hs : d.Step e d') (hp' : d'.comp.Plain) :
    d'.Settled := by
  obtain ⟨hd, hh, ht⟩ := step_size hs
  rcases step_cases hs with ⟨-, he, ho, -⟩ | ⟨rfl, -⟩
  · refine ⟨?_, ?_, ?_, ?_, fun x hx y hy hn => ?_⟩
    · rw [hd, ht]
      exact h.width_le
    · rw [ht, hh, ho]
      exact h.length_le
    · rw [ho]
      exact h.length_lt
    · exact he.change.tight
        (fun w w' hw hw' ha => tight_of_stride ha (h.tight w hw) (hp'.stride_eq w' hw')) h.tight
    · obtain ⟨hol, hsc⟩ := Compositor.Change.scene_eq he.change hp hp' hn
      rw [hsc, cell, ho, ht]
      exact h.shows x (hd ▸ hx) y (hh ▸ hy) hol
  · obtain ⟨d₁, hs₁, hwn, hl, hc⟩ := compose_shows h hp
    obtain rfl := mem_unique hs₁ hs
    have hsc : ∀ x y, d₁.comp.scene x y = d.comp.scene x y := fun x y => by
      rw [scene, scene, stack, stack, hwn]
    refine ⟨?_, ?_, ?_, hwn ▸ h.tight, fun x hx y hy _ => ?_⟩
    · rw [hd, ht]
      exact h.width_le
    · rw [ht, hh, hl]
      exact h.length_le
    · rw [hl]
      exact h.length_lt
    · rw [hsc]
      exact hc x (hd ▸ hx) y (hh ▸ hy)

lemma PlainRun.settled (hrun : PlainRun d es d') (h : d.Settled) (hp : d.comp.Plain) : d'.Settled ∧ d'.comp.Plain := by
  induction hrun with
  | nil => exact ⟨h, hp⟩
  | snoc _ hs ih => exact ⟨ih.1.step ih.2 hs.1 hs.2, hs.2⟩

lemma PlainRun.size (hrun : PlainRun d es d') :
    d'.comp.width = d.comp.width ∧ d'.comp.height = d.comp.height ∧ d'.stride = d.stride := by
  induction hrun with
  | nil => exact ⟨rfl, rfl, rfl⟩
  | snoc _ hs ih =>
    obtain ⟨h₁, h₂, h₃⟩ := step_size hs.1
    exact ⟨h₁.trans ih.1, h₂.trans ih.2.1, h₃.trans ih.2.2⟩

end Display

end ZeroOS.Window
