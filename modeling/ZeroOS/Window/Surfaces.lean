import ZeroOS.Lib.Run
import ZeroOS.Window.Paint

/-!
# The surfaces of the windows

A display is a compositor with the frame it composes into. Every operation on it adds a window,
removes one, brings one to the front or changes one in its place, and puts the rectangles concerned
into the damage: `Change` lists this, and is all the rest of the development uses.

`set_geometry` keeps the surface when its area is that of the new rectangle, and then keeps the
stride too. A window of another shape with the same area is left with a stride that is not its
width: its rows are no longer where its rectangle says, and may end behind the surface.
-/

namespace ZeroOS.Window

open Compositor List Transition

/-! ## Displays -/

structure Display where
  comp : Compositor
  out : List Pixel
  stride : Nat

inductive Event
  | create (owner : Nat) (rect : Rect)
  | destroy (owner id : Nat)
  | setGeometry (owner id : Nat) (rect : Rect)
  | raise (owner id : Nat)
  | setSurface (owner id : Nat) (pixels : List Pixel) (width height stride : Nat)
  | motion (dx dy : Int)
  | absolute (axis : Nat) (raw : Int)
  | button (pressed : Bool)
  | compose
  deriving DecidableEq, Repr

namespace Display

def new (width height : Nat) (hw : width < 2 ^ 31) (hh : height < 2 ^ 31) (out : List Pixel) (stride : Nat) : Display :=
  ⟨.new width height hw hh, out, stride⟩

/-- One step; `none`: an index is outside its slice. -/
def step (d : Display) : Event → Option Display
  | .create owner rect => some { d with comp := (d.comp.create owner rect).2 }
  | .destroy owner id => some { d with comp := (d.comp.destroy owner id).2 }
  | .setGeometry owner id rect => some { d with comp := (d.comp.setGeometry owner id rect).2 }
  | .raise owner id => some { d with comp := (d.comp.raise owner id).2 }
  | .setSurface owner id pixels width height stride =>
    (d.comp.setSurface owner id pixels width height stride).map fun p => { d with comp := p.2 }
  | .motion dx dy => some { d with comp := d.comp.pointerMotion dx dy }
  | .absolute axis raw => some { d with comp := d.comp.pointerAbsoluteAxis axis raw }
  | .button pressed => some { d with comp := d.comp.pointerButton pressed }
  | .compose => (d.comp.compose d.out d.stride).map fun p => { d with out := p.2.1, comp := p.2.2 }

def Step (d : Display) (e : Event) (d' : Display) : Prop := d.step e = some d'

end Display

/-! ## What an operation does -/

/-- The surface is as large as the window, without gaps between rows. -/
structure Win.Tight (w : Win) : Prop where
  stride_eq : w.stride = w.rect.w
  length_eq : w.surface.length = w.rect.w * w.rect.h

lemma Win.Tight.sound {w : Win} (h : w.Tight) : w.Sound where
  stride_le := Nat.le_of_eq h.stride_eq.symm
  surface_le := Nat.le_of_eq (by rw [h.stride_eq, h.length_eq])

/-- What an operation does to the windows and the damage; `R` relates a window that is changed in its
place to what it becomes. -/
inductive Change (R : Win → Win → Prop) (c c' : Compositor) : Prop
  | same (hw : c'.windows = c.windows) (hd : c'.dirty = c.dirty)
  | added {w : Win} (ht : w.Tight) (hw : c'.windows = c.windows ++ [w])
      (hd : c'.dirty = (c.markDirty w.rect).dirty)
  | removed {i : Nat} {w : Win} (hi : c.windows[i]? = some w) (hw : c'.windows = c.windows.eraseIdx i)
      (hd : c'.dirty = (c.markDirty w.rect).dirty)
  | raised {i : Nat} {w : Win} (hi : c.windows[i]? = some w)
      (hw : c'.windows = c.windows.eraseIdx i ++ [w]) (hd : c'.dirty = (c.markDirty w.rect).dirty)
  | redrawn {i : Nat} {w w' : Win} (hi : c.windows[i]? = some w) (ht : w'.Tight)
      (hr : w'.rect = w.rect) (hw : c'.windows = c.windows.set i w')
      (hd : c'.dirty = (c.markDirty w.rect).dirty)
  | changed {i : Nat} {w w' : Win} (hi : c.windows[i]? = some w) (hc : R w w')
      (hw : c'.windows = c.windows.set i w')
      (hd : c'.dirty = ((c.markDirty w.rect).markDirty w'.rect).dirty)

/-- What an operation does; the screen keeps its size. -/
structure Effect (R : Win → Win → Prop) (c c' : Compositor) : Prop where
  change : Change R c c'
  width_eq : c'.width = c.width
  height_eq : c'.height = c.height

/-- How an event changes a window in its place. -/
def Compositor.Alters (c : Compositor) (e : Event) (w w' : Win) : Prop :=
  match e with
  | .setGeometry owner id rect => c.target owner id = some w ∧ w' = w.resize rect
  | _ => ∃ x y, w' = w.moveTo x y

namespace Compositor

variable {R : Win → Win → Prop} {c : Compositor} {owner id : Nat} {rect : Rect} {pixels : List Pixel}

lemma tight_blank (id owner : Nat) (r : Rect) : Win.Tight ⟨id, owner, r, blankSurface r, r.w⟩ := ⟨rfl, by simp [blankSurface]⟩

lemma unchanged : Effect R c c := ⟨.same rfl rfl, rfl, rfl⟩

lemma create_effect : Effect R c (c.create owner rect).2 := by
  unfold create
  split
  · exact unchanged
  · exact ⟨.added (tight_blank _ _ _) rfl rfl, rfl, rfl⟩

lemma destroy_effect : Effect R c (c.destroy owner id).2 := by
  unfold destroy
  split
  · exact unchanged
  · split
    · exact unchanged
    next w hi => exact ⟨.removed hi rfl rfl, rfl, rfl⟩

lemma rect_resize (w : Win) (r : Rect) : (w.resize r).rect = r := by
  unfold Win.resize
  split <;> rfl

lemma setGeometry_effect : Effect (c.Alters (.setGeometry owner id rect)) c (c.setGeometry owner id rect).2 := by
  unfold setGeometry
  split
  · exact unchanged
  · split
    · exact unchanged
    next i hp =>
      split
      · exact unchanged
      next w hi =>
        have ht : c.target owner id = some w := by rw [target, hp, Option.bind_some, hi]
        exact ⟨.changed hi ⟨ht, rfl⟩ rfl (by rw [rect_resize]; rfl), rfl, rfl⟩

lemma raise_effect : Effect R c (c.raise owner id).2 := by
  unfold raise
  split
  · exact unchanged
  · split
    · exact unchanged
    next w hi => exact ⟨.raised hi rfl rfl, rfl, rfl⟩

lemma pointerMotion_effect :
    Effect (fun w w' => ∃ x y, w' = w.moveTo x y) c (c.pointerMotion dx dy) := by
  unfold pointerMotion
  dsimp only
  split
  · exact ⟨.same rfl rfl, rfl, rfl⟩
  · split
    · exact ⟨.same rfl rfl, rfl, rfl⟩
    · split
      · exact ⟨.same rfl rfl, rfl, rfl⟩
      next w hi => exact ⟨.changed hi ⟨_, _, rfl⟩ rfl rfl, rfl, rfl⟩

lemma pointerAbsoluteAxis_effect :
    Effect (fun w w' => ∃ x y, w' = w.moveTo x y) c (c.pointerAbsoluteAxis axis raw) := by
  unfold pointerAbsoluteAxis
  dsimp only
  split <;> exact pointerMotion_effect

lemma Change.congr (h : Change R c c₁) (hw : c₂.windows = c₁.windows) (hd : c₂.dirty = c₁.dirty) : Change R c c₂ := by
  cases h with
  | same hw' hd' => exact .same (hw.trans hw') (hd.trans hd')
  | added ht hw' hd' => exact .added ht (hw.trans hw') (hd.trans hd')
  | removed hi hw' hd' => exact .removed hi (hw.trans hw') (hd.trans hd')
  | raised hi hw' hd' => exact .raised hi (hw.trans hw') (hd.trans hd')
  | redrawn hi ht hr hw' hd' => exact .redrawn hi ht hr (hw.trans hw') (hd.trans hd')
  | changed hi hc hw' hd' => exact .changed hi hc (hw.trans hw') (hd.trans hd')

lemma pointerButton_effect : Effect R c (c.pointerButton pressed) := by
  unfold pointerButton
  split
  · split
    · exact ⟨.same rfl rfl, rfl, rfl⟩
    next id _ =>
      split
      · exact ⟨.same rfl rfl, rfl, rfl⟩
      next w _ =>
        have he := @raise_effect R c w.owner id
        exact ⟨Change.congr he.change rfl rfl, he.width_eq, he.height_eq⟩
  · exact ⟨.same rfl rfl, rfl, rfl⟩

lemma length_row {row : List Pixel} {width stride y : Nat} (h : Compositor.row pixels width stride y = some row) :
    row.length = width := by
  unfold Compositor.row at h
  dsimp only at h
  split at h
  · cases h
    rw [length_take, length_drop]
    omega
  · cases h

lemma length_rows {width stride : Nat} : ∀ {ys : List Nat} {rows : List (List Pixel)},
      ys.mapM (Compositor.row pixels width stride) = some rows → rows.flatten.length = ys.length * width
  | [], rows, h => by
      obtain rfl : [] = rows := by simpa using h
      simp
  | y :: ys, rows, h => by
      rw [mapM_cons] at h
      obtain ⟨row, hrow, h⟩ := Option.bind_eq_some_iff.mp h
      obtain ⟨rest, hrest, h⟩ := Option.bind_eq_some_iff.mp h
      obtain rfl : row :: rest = rows := by simpa using h
      rw [flatten_cons, length_append, length_row hrow, length_rows hrest, length_cons, Nat.succ_mul, Nat.add_comm]

lemma setSurface_effect {width height stride : Nat} {b : Bool} {c' : Compositor}
    (h : c.setSurface owner id pixels width height stride = some (b, c')) :
    Effect R c c' := by
  unfold setSurface at h
  split at h
  · cases h
    exact ⟨.same rfl rfl, rfl, rfl⟩
  · split at h
    · cases h
      exact ⟨.same rfl rfl, rfl, rfl⟩
    next w hi =>
      split at h
      · cases h
        exact ⟨.same rfl rfl, rfl, rfl⟩
      next ha =>
        obtain ⟨rows, hr, h⟩ := Option.bind_eq_some_iff.mp h
        cases h
        have hl := length_rows hr
        rw [length_range] at hl
        have hw : width = w.rect.w := by
          by_contra hne
          exact ha (.inl hne)
        have hh : height = w.rect.h := by
          by_contra hne
          exact ha (.inr (.inl hne))
        have ht : Win.Tight { w with surface := rows.flatten, stride := width } := ⟨hw, by rw [hl, hw, hh, Nat.mul_comm]⟩
        exact ⟨.redrawn hi ht rfl rfl rfl, rfl, rfl⟩

end Compositor

lemma Compositor.compose_cases {c c' : Compositor} {out out' : List Pixel} {stride : Nat}
    {r : Option Rect} (h : c.compose out stride = some (r, out', c')) :
    (c' = c ∧ out' = out ∧ (c.dirty = none ∨ out.length < stride * c.height % 2 ^ 64 ∨ stride < c.width)) ∨
    ∃ dirty, c.dirty = some dirty ∧ c.redraw dirty out stride = some (r, out') ∧ c' = { c with dirty := none } := by
  unfold compose at h
  split at h
  next hs =>
    cases h
    exact .inl ⟨rfl, rfl, .inr hs⟩
  · split at h
    next hd =>
      cases h
      exact .inl ⟨rfl, rfl, .inl hd⟩
    next dirty hd =>
      obtain ⟨p, hp, h⟩ := Option.map_eq_some_iff.mp h
      cases h
      exact .inr ⟨dirty, hd, hp, rfl⟩

lemma Display.step_cases {d d' : Display} (h : d.step e = some d') :
    (e ≠ .compose ∧ Effect (d.comp.Alters e) d.comp d'.comp ∧ d'.out = d.out ∧ d'.stride = d.stride) ∨
    (e = .compose ∧ ∃ r, d.comp.compose d.out d.stride = some (r, d'.out, d'.comp) ∧ d'.stride = d.stride) := by
  cases e with
  | create owner rect => cases h; exact .inl ⟨nofun, create_effect, rfl, rfl⟩
  | destroy owner id => cases h; exact .inl ⟨nofun, destroy_effect, rfl, rfl⟩
  | setGeometry owner id rect =>
    cases h
    exact .inl ⟨nofun, setGeometry_effect, rfl, rfl⟩
  | raise owner id => cases h; exact .inl ⟨nofun, raise_effect, rfl, rfl⟩
  | setSurface owner id pixels width height stride =>
    obtain ⟨p, hp, rfl⟩ := Option.map_eq_some_iff.mp h
    exact .inl ⟨nofun, setSurface_effect hp, rfl, rfl⟩
  | motion dx dy => cases h; exact .inl ⟨nofun, pointerMotion_effect, rfl, rfl⟩
  | absolute axis raw =>
    cases h
    exact .inl ⟨nofun, pointerAbsoluteAxis_effect, rfl, rfl⟩
  | button pressed => cases h; exact .inl ⟨nofun, pointerButton_effect, rfl, rfl⟩
  | compose =>
    obtain ⟨⟨r, out, c⟩, hp, rfl⟩ := Option.map_eq_some_iff.mp h
    exact .inr ⟨rfl, r, hp, rfl⟩

lemma Display.step_size {d d' : Display} (h : d.step e = some d') :
    d'.comp.width = d.comp.width ∧ d'.comp.height = d.comp.height ∧ d'.stride = d.stride := by
  rcases step_cases h with ⟨-, he, -, hs⟩ | ⟨rfl, r, hr, hs⟩
  · exact ⟨he.width_eq, he.height_eq, hs⟩
  · rcases compose_cases hr with ⟨hc, -⟩ | ⟨dirty, -, -, hc⟩
    · rw [hc]
      exact ⟨rfl, rfl, hs⟩
    · rw [hc]
      exact ⟨rfl, rfl, hs⟩

/-! ## Tight surfaces -/

lemma Win.Tight.moveTo {w : Win} (h : w.Tight) (x y : Int) : (w.moveTo x y).Tight := ⟨h.stride_eq, h.length_eq⟩

lemma Win.tight_resize {w : Win} {r : Rect} (hr : w.surface.length = r.w * r.h → w.stride = r.w) : (w.resize r).Tight := by
  unfold resize
  split
  · exact ⟨rfl, by simp [blankSurface]⟩
  next ha =>
    have ha := not_not.mp ha
    exact ⟨hr ha, ha⟩

lemma Change.tight {R : Win → Win → Prop} (h : Change R c c')
    (hR : ∀ w w', w ∈ c.windows → w' ∈ c'.windows → R w w' → w'.Tight)
    (hc : ∀ w ∈ c.windows, w.Tight) : ∀ w ∈ c'.windows, w.Tight := by
  intro u hu
  cases h with
  | same hw => exact hc u (hw ▸ hu)
  | added ht hw =>
    rw [hw, mem_append, mem_singleton] at hu
    rcases hu with hu | rfl
    · exact hc u hu
    · exact ht
  | removed hi hw => exact hc u (mem_of_mem_eraseIdx (hw ▸ hu))
  | raised hi hw =>
    rw [hw, mem_append, mem_singleton] at hu
    rcases hu with hu | rfl
    · exact hc u (mem_of_mem_eraseIdx hu)
    · exact hc u (mem_of_getElem? hi)
  | redrawn hi ht hr hw =>
    rcases mem_or_eq_of_mem_set (hw ▸ hu) with hu | rfl
    · exact hc u hu
    · exact ht
  | changed hi hh hw =>
    rcases mem_or_eq_of_mem_set (hw ▸ hu) with hm | rfl
    · exact hc u hm
    · exact hR _ u (mem_of_getElem? hi) hu hh

namespace Display

/-- A window gets another width only together with another area. -/
def keepsRows (d : Display) : Event → Bool
  | .setGeometry owner id rect =>
    (d.comp.target owner id).all fun w => w.surface.length ≠ rect.w * rect.h || w.stride = rect.w
  | _ => true

/-- Runs of a display in which every change of geometry keeps the rows of a surface. -/
abbrev RowRun (d : Display) := Run (Guarded (fun d e => d.keepsRows e = true) Step) d

lemma tight_of_alters {d : Display} {w w' : Win} (hk : d.keepsRows e = true)
    (ha : d.comp.Alters e w w') (hw : w.Tight) : w'.Tight := by
  cases e with
  | setGeometry owner id rect =>
    obtain ⟨ht, rfl⟩ := ha
    have hk : w.surface.length ≠ rect.w * rect.h ∨ w.stride = rect.w := by simpa [keepsRows, ht] using hk
    exact Win.tight_resize fun hr => hk.resolve_left fun hne => hne hr
  | _ =>
    obtain ⟨x, y, rfl⟩ := ha
    exact hw.moveTo x y

lemma tight_step {d d' : Display} (hk : d.keepsRows e = true) (h : d.Step e d')
    (hd : ∀ w ∈ d.comp.windows, w.Tight) : ∀ w ∈ d'.comp.windows, w.Tight := by
  rcases step_cases h with ⟨-, he, -⟩ | ⟨rfl, r, hr, -⟩
  · exact he.change.tight (fun w w' hw _ ha => tight_of_alters hk ha (hd w hw)) hd
  · rcases compose_cases hr with ⟨hc, -⟩ | ⟨dirty, -, -, hc⟩
    · rwa [hc]
    · rwa [hc]

lemma RowRun.tight (hrun : RowRun d es d') (hd : ∀ w ∈ d.comp.windows, w.Tight) : ∀ w ∈ d'.comp.windows, w.Tight := by
  induction hrun with
  | nil => exact hd
  | snoc _ hs ih => exact tight_step hs.1 hs.2 ih

/-- Compositor memory safety. As long as no window gets another shape with the area of its
surface, every surface covers its window, and a composition into any frame stays inside the
surfaces and inside the frame. -/
theorem surfaces_cover {width height stride : Nat} {hw : width < 2 ^ 31} {hh : height < 2 ^ 31}
    {out : List Pixel} {es : List Event} {d : Display}
    (hrun : RowRun (.new width height hw hh out stride) es d) :
    (∀ w ∈ d.comp.windows, w.rect.w ≤ w.stride ∧ w.stride * w.rect.h ≤ w.surface.length) ∧
      ∀ out stride, stride * d.comp.height < 2 ^ 64 → d.comp.compose out stride ≠ none := by
  have ht := hrun.tight nofun
  have hn : ∀ w ∈ d.comp.windows, w.Sound := fun w hm => (ht w hm).sound
  refine ⟨fun w hm => ⟨(hn w hm).stride_le, (hn w hm).surface_le⟩, ?_⟩
  intro out stride hs
  exact compose_ne_none hn out hs

def smallDisplay : Display := .new 8 8 (by decide) (by decide) (List.replicate 64 0) 8

theorem surfaces_cover_enlarged :
    ∃ d, RowRun smallDisplay [.create 1 ⟨2, 2, 4, 2⟩, .setGeometry 1 1 ⟨-1, 3, 3, 4⟩, .compose] d ∧ d.comp.windows ≠ [] ∧
      (∀ w ∈ d.comp.windows, w.rect.w ≤ w.stride ∧ w.stride * w.rect.h ≤ w.surface.length) ∧
      d.comp.compose d.out 8 ≠ none := by
  refine exists_run_and (guarded_of_guardedNext id id)
    (fun d => d.comp.windows.length = 1 && d.comp.height = 8) (by decide +kernel) fun hrun hd => ?_
  simp only [Bool.and_eq_true, decide_eq_true_eq] at hd
  have hc := surfaces_cover hrun
  refine ⟨?_, hc.1, hc.2 _ 8 (by rw [hd.2]; decide)⟩
  intro he
  simp [he] at hd

/-- The window gets 2 by 4 pixels and keeps its rows of 4: the last of them are behind the surface,
and the next composition stops there. -/
theorem reshaped_window_leaves_surface : ∃ d, Run Step smallDisplay [.create 1 ⟨2, 2, 4, 2⟩, .setGeometry 1 1 ⟨2, 2, 2, 4⟩] d ∧
      (∃ w ∈ d.comp.windows, w.rect.Fits ∧ w.surface.length < w.stride * w.rect.h) ∧
      d.comp.compose d.out d.stride = none := by
  refine exists_run_and id (fun d => (d.comp.windows.any fun w => decide (w.rect = ⟨2, 2, 2, 4⟩) &&
      decide (w.surface.length < w.stride * w.rect.h)) && (d.comp.compose d.out d.stride).isNone)
    (by decide +kernel) fun _ hd => ?_
  simp only [Bool.and_eq_true, any_eq_true, decide_eq_true_eq, Option.isNone_iff_eq_none] at hd
  obtain ⟨⟨w, hm, hr, hl⟩, hn⟩ := hd
  refine ⟨⟨w, hm, ?_, hl⟩, hn⟩
  rw [hr]
  exact ⟨⟨by decide, by decide, by decide, by decide⟩, by decide, by decide⟩

end Display

end ZeroOS.Window
