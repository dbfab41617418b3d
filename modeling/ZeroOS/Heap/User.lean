import ZeroOS.Heap.Kernel

/-!
# The heap of a user process

`StaticFreeList` works on offsets into an array of `N` bytes, and the largest `usize` is its null. It
sets itself up in the first allocation, so that a program starts with an array of zeros. What a client
may not do it ignores.
-/

namespace ZeroOS.Heap

open Except Function List Nat Segment Tiling Transition

/-- `NONE`. -/
def noOffset : Nat := 2 ^ 64 - 1

/-- The array with its `State`. The addresses of `mem` are offsets. -/
structure StaticFreeList extends Area where
  /-- Where the array is. -/
  base : Nat
  /-- `N`. -/
  len : Nat
  initialised : Bool

namespace StaticFreeList

variable (h : StaticFreeList)

def usableLen : Nat := h.len &&& (2 ^ 64 - heapAlign)

def ensureInit : StaticFreeList × Bool :=
  if h.initialised then (h, true)
  else
    let len := h.usableLen
    if len < minFree then (h, false)
    else
      let area := (h.writeHeader 0 len noOffset).writeFooter 0 len
      ({ h with
          toArea := { area with head := 0 }
          initialised := true }, true)

/-- `alloc_locked`. -/
def alloc (layout : Layout) : Except Fault (StaticFreeList × Nat) := do
  let (h, ready) := h.ensureInit
  if !ready then return (h, 0)
  let align := max layout.align heapAlign
  if align &&& (align - 1) ≠ 0 then return (h, 0)
  let payload := alignUp (max layout.size 1) heapAlign
  let pad := fun cur =>
    let payloadBase := addUsize (addUsize h.base cur) header
    subUsize (alignUp payloadBase align) payloadBase
  let (area, ptr) ← h.allocLoop noOffset pad payload h.usableLen noOffset h.head
  return ({ h with toArea := area }, (ptr.map (h.base + ·)).getD 0)

def mergeBackward (block size : Nat) : Nat × Nat :=
  if footer ≤ block then
    let prevFooter := h.mem (block - footer)
    if isFree prevFooter then
      let prevSize := sizeBits prevFooter
      if minFree ≤ prevSize ∧ prevSize ≤ block then (block - prevSize, addUsize size prevSize)
      else (block, size)
    else (block, size)
  else (block, size)

def mergeForward (nextStart mergedSize : Nat) : Nat :=
  if nextStart + header ≤ h.usableLen then
    let nextRaw := h.mem nextStart
    if isFree nextRaw then
      let nextSize := sizeBits nextRaw
      if minFree ≤ nextSize ∧ addUsize nextStart nextSize ≤ h.usableLen then
        addUsize mergedSize nextSize
      else mergedSize
    else mergedSize
  else mergedSize

/-- `dealloc_locked`. -/
def dealloc (p : Nat) : Except Fault StaticFreeList := do
  if p = 0 ∨ !h.initialised then return h
  if p < h.base + header ∨ h.base + h.usableLen ≤ p then return h
  let block := h.readBack (p - h.base)
  if h.usableLen ≤ block then return h
  let raw := h.mem block
  if isFree raw then return h
  if raw < minFree ∨ h.usableLen < block + raw then return h
  let (mergedStart, mergedSize) := h.mergeBackward block raw
  let mergedSize := h.mergeForward (block + raw) mergedSize
  let area ← h.release noOffset mergedStart mergedSize h.usableLen
  return { h with toArea := area }

end StaticFreeList

def userHeap : Allocator StaticFreeList where
  alloc := StaticFreeList.alloc
  dealloc := StaticFreeList.dealloc
  store h addr value := { h with mem := update h.mem (addr - h.base) value }

/-- An array of `len` bytes: `repr(align(16))`, and no larger than an `isize`. -/
structure Static where
  base : Nat
  len : Nat
  base_mod : base % 16 = 0
  top : base + len ≤ 2 ^ 63

namespace Static

variable (x : Static)

/-- `N`, rounded down. -/
def usable : Nat := x.len / 16 * 16

def region : Region where
  lo := 0
  hi := x.usable
  null := noOffset
  base := x.base
  base_mod := x.base_mod
  top := by have := x.top; have := div_mul_le_self x.len 16; simp only [usable]; omega
  null_out := .inr (by
    have := x.top
    have := div_mul_le_self x.len 16
    simp only [usable, noOffset]
    omega)

@[simp] lemma region_lo : x.region.lo = 0 := rfl
@[simp] lemma region_hi : x.region.hi = x.usable := rfl
@[simp] lemma region_null : x.region.null = noOffset := rfl
@[simp] lemma region_base : x.region.base = x.base := rfl

def fresh : StaticFreeList where
  mem _ := 0
  head := 0
  base := x.base
  len := x.len
  initialised := false

end Static

/-- Before it is set up the heap has given out nothing; after that it is in shape, and `live` is what
is in use. -/
def StaticFreeList.Good (x : Static) (h : StaticFreeList) (live : List Use) : Prop := h.base = x.base ∧ h.len = x.len ∧
    if h.initialised then
      48 ≤ x.usable ∧ ∃ bs fl, Shape x.region h.toArea bs fl ∧ (uses bs).Perm live
    else live = []

section

variable {x : Static} {h : StaticFreeList} {live : List Use} {b : Block} {l₁ l₂ : List Block} {fl : List Nat}

lemma StaticFreeList.usableLen_eq (hl : h.len = x.len) : h.usableLen = x.usable := by
  have ht := x.top
  have hm : x.len &&& (2 ^ 64 - 2 ^ 4) = x.len / 2 ^ 4 * 2 ^ 4 := land_two_pow_sub (by omega) (by omega)
  rw [usableLen, hl, Static.usable]
  exact hm

lemma Static.usable_mod : x.usable % 16 = 0 := by
  simp only [usable]
  omega

lemma Static.usable_le : x.base + x.usable ≤ 2 ^ 63 := by
  have := x.top
  simp only [usable]
  omega

lemma StaticFreeList.ensureInit_spec (hg : h.Good x live) : (h.ensureInit = (h, false) ∧ x.usable < 48 ∧ live = []) ∨
      ∃ h', h.ensureInit = (h', true) ∧ h'.initialised = true ∧ h'.Good x live := by
  obtain ⟨hb, hl, hs⟩ := hg
  have hu := usableLen_eq hl
  have hmod := x.usable_mod
  unfold ensureInit
  cases hn : h.initialised with
  | true => exact .inr ⟨h, by simp, hn, hb, hl, by simpa [hn] using hs⟩
  | false =>
    simp only [hn, Bool.false_eq_true, if_false] at hs
    subst hs
    rw [hu]
    have hm : minFree = 40 := rfl
    by_cases hsm : x.usable < minFree
    · exact .inl ⟨by simp [hsm], by omega, rfl⟩
    · simp only [Bool.false_eq_true, if_false, hsm]
      refine .inr ⟨_, rfl, rfl, hb, hl, ?_⟩
      simp only [if_true]
      refine ⟨by omega, _, _, @Shape.fresh x.region h.toArea _ rfl ?_ ?_ rfl rfl, by simp [uses]⟩
      · simpa using hmod
      · simp only [Static.region_hi, Static.region_lo]
        omega

lemma land_pred_eq_zero (h : ∃ k, n = 2 ^ k) : n &&& (n - 1) = 0 := by
  obtain ⟨k, rfl⟩ := h
  rw [and_two_pow_sub_one_eq_mod, mod_self]

lemma user_payload_spec {layout : Layout} :
    layout.size ≤ alignUp (max layout.size 1) heapAlign ∧ 16 ≤ alignUp (max layout.size 1) heapAlign ∧
      alignUp (max layout.size 1) heapAlign < layout.size + 17 := by
  have hf := layout.fits
  obtain ⟨hle, hlt, hmod⟩ := @alignUp_spec (max layout.size 1) heapAlign ⟨4, rfl⟩
    (by simp only [heapAlign]; omega)
  simp only [heapAlign] at hlt hmod hle ⊢
  omega

lemma user_pad_spec {layout : Layout} {align a : Nat} (ha : align = max layout.align heapAlign)
    (hh : a < x.usable) (hmod : a % 16 = 0) :
    ∃ pad, subUsize (alignUp (addUsize (addUsize x.base a) header) align)
        (addUsize (addUsize x.base a) header) = pad ∧ pad % 16 = 0 ∧
      (x.base + (a + 16 + pad)) % layout.align = 0 ∧
      16 + pad + alignUp (max layout.size 1) heapAlign + 8 + 16 ≤ 2 ^ 64 := by
  obtain ⟨j, hj, hm, hd, hc⟩ := layout.exists_align
  obtain ⟨-, -, hp⟩ := @user_payload_spec layout
  have hf := layout.fits
  have ht := x.usable_le
  have hu := x.usable_mod
  have hb := x.base_mod
  rw [← ha] at hm
  have halignLe : align ≤ 2 ^ 63 ∧ (layout.align = align ∨ align = 16) := by
    rcases hc with hc | rfl
    · omega
    · simp only [hm]
      omega
  have hadd : addUsize (addUsize x.base a) header = x.base + a + 16 := by
    rw [addUsize_eq (by omega : x.base + a < 2 ^ 64), addUsize_eq (by simp only [header]; omega), header]
  rw [hadd]
  obtain ⟨hle, hlt, hz⟩ := alignUp_spec ⟨j, hm⟩ (by omega : x.base + a + 16 + align ≤ 2 ^ 64)
  have h16 : 16 ∣ align := hm ▸ pow_dvd_pow 2 hj
  have hup16 := mod_eq_zero_of_dvd (h16.trans (dvd_of_mod_eq_zero hz))
  refine ⟨_, subUsize_eq hle ?_, ?_, ?_, ?_⟩
  · omega
  · omega
  · have hs : x.base + (a + 16 + (alignUp (x.base + a + 16) align - (x.base + a + 16))) =
        alignUp (x.base + a + 16) align := by omega
    rw [hs]
    exact mod_eq_zero_of_dvd ((hm ▸ hd).trans (dvd_of_mod_eq_zero hz))
  · omega

/-- Allocation. It sets up the heap, and nothing else does. -/
lemma StaticFreeList.alloc_ok (layout : Layout) (hg : h.Good x live) :
    ∃ h' ptr, h.alloc layout = .ok (h', ptr) ∧ h'.Good x (if ptr = 0 then live else ⟨ptr, layout⟩ :: live) ∧
      h'.initialised = h.ensureInit.1.initialised ∧ h.ensureInit.1.Quiet h'.toArea noOffset := by
  rcases ensureInit_spec hg with ⟨hn, -, -⟩ | ⟨h₀, hn, hr, hg₀⟩
  · exact ⟨h, 0, by simp [StaticFreeList.alloc, hn, pure, Except.pure], by simpa using hg,
      by rw [hn], by rw [hn]; exact fun _ _ _ _ _ => rfl⟩
  obtain ⟨hb, hln, hs⟩ := hg₀
  simp only [hr, if_true] at hs
  obtain ⟨hm, bs, fl, S, hu⟩ := hs
  obtain ⟨hz, hy, -⟩ := @user_payload_spec layout
  have he := usableLen_eq hln
  have hw : max layout.align heapAlign &&& (max layout.align heapAlign - 1) = 0 := by
    obtain ⟨j, -, hj, -, -⟩ := layout.exists_align
    exact land_pred_eq_zero ⟨j, hj⟩
  have hrun := @Shape.allocLoop x.region h₀.toArea bs [] fl noOffset layout
    (fun cur => subUsize (alignUp (addUsize (addUsize h₀.base cur) header) (max layout.align heapAlign))
      (addUsize (addUsize h₀.base cur) header)) _ h₀.head h₀.usableLen S
    (fun a _ hh hmod => by
      obtain ⟨pad, hd, hsp⟩ := @user_pad_spec x layout _ a rfl hh hmod
      simp only [hb, hd]
      exact hsp)
    hz hy S.list rfl (by
      have := S.length_lt (by simp only [Static.region_lo, Static.region_hi]; omega)
      rw [he]
      exact this)
  rw [Static.region_null] at hrun
  have hgoodOf : ∀ {k : Area} {bs fl live}, Shape x.region k bs fl → (uses bs).Perm live →
      ({ h₀ with toArea := k } : StaticFreeList).Good x live := fun S hl =>
    ⟨hb, hln, by simp only [hr, if_true]; exact ⟨hm, _, _, S, hl⟩⟩
  rcases hrun with hrun | ⟨k, off, bs', fl', hrun, ⟨S', hq⟩, hu'⟩
  · refine ⟨h₀, 0, ?_, hgoodOf S (by simpa using hu), by rw [hn], by
      rw [hn]; exact fun _ _ _ _ _ => rfl⟩
    simp [StaticFreeList.alloc, hn, hw, hrun, bind, Except.bind, pure, Except.pure]
  · refine ⟨{ h₀ with toArea := k }, h₀.base + off, ?_, hgoodOf S' ?_, by rw [hn],
      by rw [hn]; exact hq⟩
    · simp [StaticFreeList.alloc, hn, hw, hrun, bind, Except.bind, pure, Except.pure]
    · have hp := S'.lt_ptr (hu'.symm.subset mem_cons_self)
      rw [Static.region_base, ← hb] at hp hu'
      simp only at hp
      rw [if_neg (by omega)]
      exact hu'.trans (hu.cons _)

lemma StaticFreeList.mergeBackward_eq (S : Shape x.region h.toArea (l₁ ++ b :: l₂) fl) :
    h.mergeBackward b.addr b.size = (b.addr - freeSize l₁.getLast?, freeSize l₁.getLast? + b.size) := by
  have ht := x.usable_le
  have hb := S.tiles.bounds (by simp : b ∈ l₁ ++ b :: l₂)
  simp only [Static.region_lo, Static.region_hi] at hb
  unfold mergeBackward
  rcases S.before with ⟨rfl, ha⟩ | ⟨l, p, rfl, hp, -, ha, hft⟩
  · have hn : ¬ footer ≤ b.addr := by
      rw [ha]
      simp [footer]
    simp [hn]
  · have hm := hp.size_min
    have hmod := hp.size_mod
    have hy : footer ≤ b.addr := by
      simp only [footer]
      omega
    have hf : minFree ≤ p.size ∧ p.size ≤ b.addr := by
      simp only [minFree, header, heapAlign, footer]
      omega
    rw [if_pos hy]
    simp only [footer, hft, Block.word]
    rw [isFree_tag (by omega), sizeBits_tag (by omega) (by omega), addUsize_eq (by omega),
      getLast?_concat, freeSize_some, if_pos hf]
    cases hr : p.use.isNone <;> simp [add_comm]

lemma StaticFreeList.mergeForward_eq (S : Shape x.region h.toArea (l₁ ++ b :: l₂) fl)
    (hl : h.len = x.len) {size : Nat} (hs : size ≤ b.addr + b.size) :
    h.mergeForward (b.addr + b.size) size = size + freeSize l₂.head? := by
  have ht := x.usable_le
  unfold mergeForward
  rw [usableLen_eq hl]
  rcases S.after with ⟨rfl, he⟩ | ⟨n, l, rfl, hn, ha, he, hh⟩
  · have ho : ¬ b.addr + b.size + header ≤ x.usable := by
      rw [he]
      simp [header]
    simp [ho]
  · have hm := hn.size_min
    have hmod := hn.size_mod
    rw [Static.region_hi] at he
    have hy : b.addr + b.size + header ≤ x.usable := by
      simp only [header]
      omega
    have hf : minFree ≤ n.size ∧ b.addr + b.size + n.size ≤ x.usable := by
      simp only [minFree, header, heapAlign, footer]
      omega
    simp only [hy, if_true, hh, Block.word]
    rw [isFree_tag (by omega), sizeBits_tag (by omega) (by omega), addUsize_eq (by omega),
      addUsize_eq (by omega), head?_cons, freeSize_some, if_pos hf]
    cases hr : n.use.isNone <;> simp

lemma StaticFreeList.dealloc_ok (hg : h.Good x (u :: live)) :
    ∃ h', h.dealloc u.ptr = .ok h' ∧ h'.Good x live ∧ h'.initialised = h.initialised ∧ h.Quiet h'.toArea noOffset ∧
      h'.InFree noOffset (h.readBack (u.ptr - h.base)) (h.blockSize (h.readBack (u.ptr - h.base))) := by
  obtain ⟨hbs, hln, hs⟩ := hg
  cases hinit : h.initialised with
  | false => simp [hinit] at hs
  | true =>
  simp only [hinit, if_true] at hs
  obtain ⟨hm, bs, fl, S, hu⟩ := hs
  obtain ⟨l₁, b, l₂, rfl, hue⟩ := Shape.exists_block (hu.symm.subset mem_cons_self)
  have hb := S.held b (by simp)
  have hmod := hb.size_mod
  have hbm := hb.size_min
  have ht := x.usable_le
  have hlenEq := usableLen_eq hln
  have hbn := S.tiles.bounds (by simp : b ∈ l₁ ++ b :: l₂)
  obtain ⟨off, hp, -, hl, hh, -, hc⟩ := hb.use u hue
  simp only [Static.region_lo, Static.region_hi, Static.region_base] at hbn hp
  have hr : h.readBack (u.ptr - h.base) = b.addr := by
    rw [hp, hbs, Nat.add_sub_cancel_left]
    exact hc
  have hw := hb.header_used hue
  have he : isFree b.size = false := isFree_even (by omega)
  have hmr := mergeBackward_eq S
  have hf := mergeForward_eq S hln (Nat.add_le_add_right S.freeSize_le b.size)
  obtain ⟨k, bs', fl', hrun, ⟨S', hq, hfr⟩, hu'⟩ := S.free_block hue rfl rfl
    (by
      have := S.length_lt (by simp only [Static.region_lo, Static.region_hi]; omega)
      rw [hlenEq]
      exact this : fl.length < h.usableLen)
  refine ⟨{ h with toArea := k }, ?_, ⟨hbs, hln, ?_⟩, hinit, hq, by
    rwa [hr, S.blockSize (by simp)]⟩
  · have hn : ¬ u.ptr = 0 := by omega
    have hin : ¬(u.ptr < h.base + header ∨ h.base + h.usableLen ≤ u.ptr) := by
      simp only [header]
      omega
    have hbl : ¬ h.usableLen ≤ b.addr := by omega
    have het : ¬(b.size < minFree ∨ h.usableLen < b.addr + b.size) := by
      simp only [minFree, header, heapAlign, footer]
      omega
    rw [Static.region_null] at hrun
    simp [StaticFreeList.dealloc, hinit, hn, hin, hr, hbl, hw, he, het, hmr, hf, hrun, bind, Except.bind, pure, Except.pure]
  · simp only [hinit, if_true]
    exact ⟨hm, bs', fl', S', (hu'.trans hu).cons_inv⟩

lemma userHeap_correct (x : Static) : Correct userHeap (StaticFreeList.Good x) where
  perm := by
    rintro h live live' hp ⟨hbs, hl, hs⟩
    refine ⟨hbs, hl, ?_⟩
    cases hn : h.initialised with
    | false =>
      simp only [hn, Bool.false_eq_true, if_false] at hs ⊢
      subst hs
      exact hp.nil_eq.symm
    | true =>
      simp only [hn, if_true] at hs ⊢
      obtain ⟨hm, bs, fl, S, hus⟩ := hs
      exact ⟨hm, bs, fl, S, hus.trans hp⟩
  alloc := fun layout hg => by
    obtain ⟨h', ptr, hrun, hg', -⟩ := StaticFreeList.alloc_ok layout hg
    exact ⟨h', ptr, hrun, hg'⟩
  dealloc := fun hg => by
    obtain ⟨h', hrun, hg', -⟩ := StaticFreeList.dealloc_ok hg
    exact ⟨h', hrun, hg'⟩
  store := by
    rintro h live u word value ⟨hbs, hl, hs⟩ hu hw
    cases hn : h.initialised with
    | false =>
      simp only [hn, Bool.false_eq_true, if_false] at hs
      simp [hs] at hu
    | true =>
      simp only [hn, if_true] at hs
      obtain ⟨hm, bs, fl, S, hus⟩ := hs
      obtain ⟨b, hb, he⟩ := mem_filterMap.mp (hus.symm.subset hu)
      obtain ⟨off, ht, -⟩ := (S.held b hb).use u he
      have S' := @Shape.store _ _ _ _ u off word value S (hus.symm.subset hu) ht hw
      rw [Static.region_base, ← hbs] at ht
      have ha : u.ptr + 8 * word - h.base = off + 8 * word := by omega
      refine ⟨hbs, hl, ?_⟩
      simp only [userHeap, hn, if_true, ha]
      exact ⟨hm, bs, fl, S'.1, hus⟩

lemma StaticFreeList.ensureInit_initialised (hl : h.len = x.len) :
    h.ensureInit.1.initialised = (h.initialised || decide (48 ≤ x.usable)) := by
  have hmod := x.usable_mod
  have hm : minFree = 40 := rfl
  unfold ensureInit
  cases hn : h.initialised with
  | true => simp [hn]
  | false =>
    rw [usableLen_eq hl]
    by_cases hs : x.usable < minFree
    · have : ¬ 48 ≤ x.usable := by omega
      simp [hs, hn, this]
    · have : 48 ≤ x.usable := by omega
      simp [hs, this]

lemma initialised_step {c c' : Client StaticFreeList} (hg : c.heap.Good x c.live) (hs : c.Step userHeap e c') :
    c'.heap.initialised = true ↔ c.heap.initialised = true ∨ 48 ≤ x.usable ∧ ∃ layout, e = .alloc layout := by
  obtain ⟨ho, hn⟩ := hs
  cases e with
  | alloc layout =>
    obtain ⟨h', ptr, hrun, -, hin, -⟩ := StaticFreeList.alloc_ok layout hg
    have hrun : userHeap.alloc c.heap layout = .ok (h', ptr) := hrun
    rw [Client.next, hrun] at hn
    cases hn
    rw [hin, StaticFreeList.ensureInit_initialised hg.2.1]
    simp
  | dealloc ptr =>
    obtain ⟨u, hu, rfl⟩ := ho
    obtain ⟨l₁, l₂, hl⟩ := append_of_mem hu
    have hp : c.live.Perm (u :: (l₁ ++ l₂)) := hl ▸ perm_middle
    obtain ⟨h', hrun, -, hin, -⟩ := StaticFreeList.dealloc_ok ((userHeap_correct x).perm hp hg)
    have hrun : userHeap.dealloc c.heap u.ptr = .ok h' := hrun
    rw [Client.next, hrun] at hn
    cases hn
    simp [hin]
  | store ptr word value =>
    cases hn
    simp [userHeap]

lemma initialised_run (hg : c.heap.Good x c.live) (hrun : Run (Client.Step userHeap) c es c') :
    c'.heap.initialised = true ↔ c.heap.initialised = true ∨ 48 ≤ x.usable ∧ ∃ layout, Event.alloc layout ∈ es := by
  induction hrun with
  | nil => simp
  | snoc hrun hs ih =>
    rw [initialised_step ((userHeap_correct x).run hg hrun) hs, ih]
    simp only [mem_append, mem_singleton]
    constructor
    · rintro ((h | ⟨hm, layout, he⟩) | ⟨hm, layout, rfl⟩)
      · exact .inl h
      · exact .inr ⟨hm, layout, .inl he⟩
      · exact .inr ⟨hm, layout, .inr rfl⟩
    · rintro (h | ⟨hm, layout, he | heq⟩)
      · exact .inl (.inl h)
      · exact .inl (.inr ⟨hm, layout, he⟩)
      · exact .inr ⟨hm, layout, heq.symm⟩

lemma userHeap_correct_ready (x : Static) :
    Correct userHeap fun h live => h.Good x live ∧ h.initialised = true where
  perm := fun hp ⟨hg, hn⟩ => ⟨(userHeap_correct x).perm hp hg, hn⟩
  alloc := by
    rintro h live layout ⟨hg, hn⟩
    obtain ⟨h', ptr, hrun, hg', hn', -⟩ := StaticFreeList.alloc_ok layout hg
    refine ⟨h', ptr, hrun, hg', ?_⟩
    rw [hn', StaticFreeList.ensureInit_initialised hg.2.1, hn, Bool.true_or]
  dealloc := by
    rintro h u live ⟨hg, hn⟩
    obtain ⟨h', hrun, hg', hn', -⟩ := StaticFreeList.dealloc_ok hg
    exact ⟨h', hrun, hg', hn'.trans hn⟩
  store := fun value ⟨hg, hn⟩ hu hw => ⟨(userHeap_correct x).store value hg hu hw, hn⟩

lemma Static.fresh_good : x.fresh.Good x [] := ⟨rfl, rfl, rfl⟩

/-- The user heap. It is set up by the first allocation if the array has room for a block, and
before that nobody holds a pointer. From then on, whatever its clients do, the blocks account for the
whole array and the pointers they hold are good. No operation goes on forever, and when everything is
given back, in any order, the array is one free block again. -/
theorem user_heap_is_sound {es : List Event} {c : Client StaticFreeList}
    (hrun : Run (Client.Step userHeap) ⟨x.fresh, []⟩ es c) :
    (c.heap.initialised = true ↔ 48 ≤ x.usable ∧ ∃ layout, Event.alloc layout ∈ es) ∧
      (c.heap.initialised = false → c.live = []) ∧
      (c.heap.initialised = true → ∃ bs fl, Sound x.region c.heap.toArea c.live bs fl) ∧
      (∀ e, c.Allowed e → ∃ c', c.next userHeap e = .ok c') ∧
      ∀ order, order.Perm (c.live.map Use.ptr) → ∃ h', deallocAll userHeap c.heap order = .ok h' ∧
        (c.heap.initialised = true → Sound x.region h'.toArea [] [⟨0, x.usable, none⟩] [0]) := by
  have C := userHeap_correct x
  have hg := C.run Static.fresh_good hrun
  have hin := initialised_run Static.fresh_good hrun
  refine ⟨by simpa [Static.fresh] using hin, fun h => ?_, fun h => ?_, fun e he => ?_,
    fun order ho => ?_⟩
  · simpa [h] using hg.2.2
  · have hs := hg.2.2
    simp only [h, if_true] at hs
    obtain ⟨-, bs, fl, S, hu⟩ := hs
    exact ⟨bs, fl, S.sound hu⟩
  · obtain ⟨c', hn, -⟩ := C.progress hg he
    exact ⟨c', hn⟩
  · obtain ⟨h', ha, -⟩ := C.deallocAll_ok hg ho
    refine ⟨h', ha, fun hr => ?_⟩
    obtain ⟨h'', ha', hg', hr'⟩ := (userHeap_correct_ready x).deallocAll_ok ⟨hg, hr⟩ ho
    obtain rfl : h'' = h' := ok.inj (ha'.symm.trans ha)
    have hs := hg'.2.2
    simp only [hr', if_true] at hs
    obtain ⟨hm, bs, fl, S, hu⟩ := hs
    obtain ⟨rfl, rfl⟩ := S.eq_single hu.eq_nil (by
      simp only [Static.region_lo, Static.region_hi]
      omega)
    exact S.sound hu

def smallStatic : Static := ⟨4096, 520, by decide, by decide⟩

theorem user_heap_is_sound_two : ∃ (es : List Event) (c : Client StaticFreeList),
      Run (Client.Step userHeap) ⟨smallStatic.fresh, []⟩ es c ∧ c.heap.initialised = true ∧ c.live.map Use.ptr = [4304, 4112] ∧
        ∃ bs fl, Sound smallStatic.region c.heap.toArea c.live bs fl := by
  obtain ⟨c, hrun, hl⟩ := @exists_run_of_execute _ _ (Client.Step userHeap)
    (Client.step? userHeap) ⟨smallStatic.fresh, []⟩ [.alloc wordsLayout, .alloc lineLayout,
      .alloc wordsLayout, .store 4112 2 1, .dealloc 4224]
    (fun h => Client.step_of_step? h)
    (fun c => c.heap.initialised && c.live.map Use.ptr == [4304, 4112]) (by decide +kernel)
  simp only [Bool.and_eq_true, beq_iff_eq] at hl
  exact ⟨_, c, hrun, hl.1, hl.2, (user_heap_is_sound hrun).2.2.1 hl.1⟩

def tinyStatic : Static := ⟨4096, 32, by decide, by decide⟩

/-- The array stays as it was: nothing tiles it. -/
theorem user_heap_without_blocks : ∃ (es : List Event) (c : Client StaticFreeList),
      Run (Client.Step userHeap) ⟨tinyStatic.fresh, []⟩ es c ∧ tinyStatic.usable = 32 ∧
        ¬ ∃ bs fl, Sound tinyStatic.region c.heap.toArea c.live bs fl := by
  refine ⟨[.alloc wordsLayout], ⟨tinyStatic.fresh, []⟩, .single ⟨trivial, rfl⟩, rfl, ?_⟩
  rintro ⟨bs, fl, hs⟩
  have hz : ∀ b ∈ bs, 0 ∣ b.size := fun b hb => by
    have hw : tag b.use.isNone b.size = 0 := (hs.tags b hb).1.symm
    unfold tag at hw
    split at hw
    · exact zero_dvd_iff.mpr (or_eq_zero_iff.mp hw).1
    · exact zero_dvd_iff.mpr hw
  obtain ⟨k, hk⟩ := hs.tiles.exists_mul hz
  simp [tinyStatic, Static.usable] at hk

end

end ZeroOS.Heap
