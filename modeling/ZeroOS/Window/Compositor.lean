import ZeroOS.Lib.Raster
import ZeroOS.Window.Rect

/-!
# The window server's compositor

The compositor keeps the windows from back to front, each with a surface of its own, and one
rectangle of damage, into which every operation puts what it may have changed on the screen.
`compose` paints the damaged part of the screen again: the background, then the windows in order.

An index outside a slice is `none`: the server stops. Allocation succeeds. The titles of windows are
stored and never read, and are left out; so is the screen's size beyond `i32`.
-/

namespace ZeroOS.Window

abbrev Pixel := UInt32

def maxWindows : Nat := 32

def blank : Pixel := 0x00202020

def background : Pixel := 0x00181a1f

/-- `Window`. -/
structure Win where
  id : Nat
  owner : Nat
  rect : Rect
  surface : List Pixel
  stride : Nat
  deriving DecidableEq, Repr

/-- `Compositor`; the screen's sides are `i32` values. -/
structure Compositor where
  width : Nat
  height : Nat
  width_lt : width < 2 ^ 31
  height_lt : height < 2 ^ 31
  /-- Back to front. -/
  windows : List Win
  nextId : Nat
  focus : Option Nat
  pointer : Int × Int
  /-- The window that is dragged, and where in it the pointer is. -/
  dragging : Option (Nat × Int × Int)
  dirty : Option Rect

def blankSurface (r : Rect) : List Pixel := List.replicate (r.w * r.h) blank

/-- The window with its new place; a surface of another area is replaced. -/
def Win.resize (w : Win) (rect : Rect) : Win :=
  if w.surface.length ≠ rect.w * rect.h then
    { w with rect := rect, surface := blankSurface rect, stride := rect.w }
  else { w with rect := rect }

def Win.moveTo (w : Win) (x y : Int) : Win :=
  { w with rect := { w.rect with x := x, y := y } }

namespace Compositor

def screen (c : Compositor) : Rect := ⟨0, 0, c.width, c.height⟩

def new (width height : Nat) (hw : width < 2 ^ 31) (hh : height < 2 ^ 31) : Compositor where
  width := width
  height := height
  width_lt := hw
  height_lt := hh
  windows := []
  nextId := 1
  focus := none
  pointer := (0, 0)
  dragging := none
  dirty := some ⟨0, 0, width, height⟩

variable (c : Compositor)

def markDirty (r : Rect) : Compositor :=
  { c with dirty := some (match c.dirty with
    | none => r
    | some a => a.join r) }

def position (owner id : Nat) : Option Nat := c.windows.findIdx? fun w => w.id == id && w.owner == owner

def target (owner id : Nat) : Option Win := (c.position owner id).bind (c.windows[·]?)

def create (owner : Nat) (rect : Rect) : Option Nat × Compositor :=
  if maxWindows ≤ c.windows.length ∨ rect.w = 0 ∨ rect.h = 0 then (none, c)
  else
    let win := ⟨c.nextId, owner, rect, blankSurface rect, rect.w⟩
    (some c.nextId, { c with
      windows := c.windows ++ [win]
      nextId := max ((c.nextId + 1) % 2 ^ 32) 1
      focus := some c.nextId }.markDirty rect)

def destroy (owner id : Nat) : Bool × Compositor :=
  match c.position owner id with
  | none => (false, c)
  | some i =>
    match c.windows[i]? with
    | none => (false, c)
    | some w =>
      let windows := c.windows.eraseIdx i
      let focus := if c.focus = some id then windows.getLast?.map (·.id) else c.focus
      (true, { c with windows := windows, focus := focus }.markDirty w.rect)

def setGeometry (owner id : Nat) (rect : Rect) : Bool × Compositor :=
  if rect.w = 0 ∨ rect.h = 0 then (false, c)
  else
    match c.position owner id with
    | none => (false, c)
    | some i =>
      match c.windows[i]? with
      | none => (false, c)
      | some w =>
        (true, ({ c with windows := c.windows.set i (w.resize rect) }.markDirty
          w.rect).markDirty rect)

def raise (owner id : Nat) : Bool × Compositor :=
  match c.position owner id with
  | none => (false, c)
  | some i =>
    match c.windows[i]? with
    | none => (false, c)
    | some w => (true, { c with windows := c.windows.eraseIdx i ++ [w], focus := some id }.markDirty w.rect)

def hitTest (x y : Int) : Option Nat := (c.windows.reverse.find? fun w => w.rect.contains x y).map (·.id)

/-- `i32::clamp(0, size - 1)` for a side of the screen. -/
def clampTo (size : Nat) (v : Int) : Int := max 0 (min v (size - 1 : Nat))

def pointerMotion (dx dy : Int) : Compositor :=
  let p := (clampTo c.width (i32 (c.pointer.1 + dx)), clampTo c.height (i32 (c.pointer.2 + dy)))
  let c := { c with pointer := p }
  match c.dragging with
  | none => c
  | some (id, ox, oy) =>
    match c.windows.findIdx? fun w => w.id == id with
    | none => c
    | some i =>
      match c.windows[i]? with
      | none => c
      | some w =>
        let w' := w.moveTo (i32 (p.1 - ox)) (i32 (p.2 - oy))
        ({ c with windows := c.windows.set i w' }.markDirty w.rect).markDirty w'.rect

def pointerAbsoluteAxis (axis : Nat) (raw : Int) : Compositor :=
  let raw := max 0 (min raw 0x7fff)
  if axis = 0 then
    let target := i32 (raw * (c.width - 1 : Nat) / 0x7fff)
    c.pointerMotion (i32 (target - c.pointer.1)) 0
  else
    let target := i32 (raw * (c.height - 1 : Nat) / 0x7fff)
    c.pointerMotion 0 (i32 (target - c.pointer.2))

def pointerButton (pressed : Bool) : Compositor :=
  if pressed then
    match c.hitTest c.pointer.1 c.pointer.2 with
    | none => c
    | some id =>
      match c.windows.find? fun w => w.id == id with
      | none => c
      | some w =>
        let ox := i32 (c.pointer.1 - w.rect.x)
        let oy := i32 (c.pointer.2 - w.rect.y)
        { (c.raise w.owner id).2 with dragging := some (id, ox, oy) }
  else { c with dragging := none }

/-- Row `y` of the pixels a client submits; `none` when the slice ends before it does. -/
def row (pixels : List Pixel) (width stride y : Nat) : Option (List Pixel) :=
  let start := y * stride % 2 ^ 64
  if start + width ≤ pixels.length then some ((pixels.drop start).take width) else none

def setSurface (owner id : Nat) (pixels : List Pixel) (width height stride : Nat) :
    Option (Bool × Compositor) :=
  match c.position owner id with
  | none => some (false, c)
  | some i =>
    match c.windows[i]? with
    | none => some (false, c)
    | some w =>
      if width ≠ w.rect.w ∨ height ≠ w.rect.h ∨ stride < width ∨ pixels.length < stride * height % 2 ^ 64 then some (false, c)
      else do
        let rows ← (List.range height).mapM (row pixels width stride)
        let win := { w with surface := rows.flatten, stride := width }
        some (true, { c with windows := c.windows.set i win }.markDirty w.rect)

/-! ## Painting -/

/-- The columns or rows of a rectangle: `a..a + n as i32`. -/
def span (a : Int) (n : Nat) : List Int := (List.range (i32 (a + i32 n) - a).toNat).map fun i : Nat => a + i

/-- Where a pixel of the screen is in a frame. -/
def place (stride : Nat) (x y : Int) : Nat := (usize y * stride + usize x) % 2 ^ 64

/-- Paint every pixel of a rectangle. -/
def forPixels (r : Rect) (body : Int → Int → List Pixel → Option (List Pixel)) (out : List Pixel) : Option (List Pixel) :=
  (span r.y r.h).foldlM (fun out y => (span r.x r.w).foldlM (fun out x => body x y out) out) out

def paintPixel (stride : Nat) (w : Win) (x y : Int) (out : List Pixel) : Option (List Pixel) :=
  let sx := usize (i32 (x - w.rect.x))
  let sy := usize (i32 (y - w.rect.y))
  if sx < w.rect.w ∧ sy < w.rect.h then do
    let v ← w.surface[(sy * w.stride + sx) % 2 ^ 64]?
    Raster.put (place stride x y) v out
  else some out

/-- The part of a window that is in `clip`. -/
def paintWindow (stride : Nat) (clip : Rect) (w : Win) (out : List Pixel) : Option (List Pixel) :=
  match w.rect.intersect clip with
  | none => some out
  | some r => forPixels r (paintPixel stride w) out

/-- The background and the windows, back to front, in `clip`. -/
def paint (stride : Nat) (clip : Rect) (out : List Pixel) : Option (List Pixel) :=
  (forPixels clip (fun x y => Raster.put (place stride x y) background) out).bind fun out =>
    c.windows.foldlM (fun out w => paintWindow stride clip w out) out

/-- Paint the part of the damage that is on the screen. -/
def redraw (dirty : Rect) (out : List Pixel) (stride : Nat) : Option (Option Rect × List Pixel) :=
  (dirty.intersect c.screen).elim (some (none, out)) fun clip => (c.paint stride clip out).map (some clip, ·)

def compose (out : List Pixel) (stride : Nat) : Option (Option Rect × List Pixel × Compositor) :=
  if out.length < stride * c.height % 2 ^ 64 ∨ stride < c.width then some (none, out, c)
  else
    match c.dirty with
    | none => some (none, out, c)
    | some dirty => (c.redraw dirty out stride).map fun p => (p.1, p.2, { c with dirty := none })

end Compositor

end ZeroOS.Window
