import ZeroOS.Heap.Client

/-!
# The kernel heap

`FreeListHeap` works on addresses, and 0 is its null. What a client may not do, and what shows that
the area was written to by somebody else, it answers with a panic.

A walk over the free list gets as much fuel as the area has bytes. It never runs out of it.
-/

namespace ZeroOS.Heap

open Function List Nat Segment Tiling Transition

structure FreeListHeap extends Area where
  start : Nat
  stop : Nat

namespace FreeListHeap

variable (h : FreeListHeap)

def initRegion : Except Fault FreeListHeap :=
  let size := subUsize h.stop h.start
  if size < minFree then .error .regionTooSmall
  else if h.start % heapAlign ≠ 0 then .error .startNotAligned
  else if size % heapAlign ≠ 0 then .error .sizeNotAligned
  else
    let area := (h.writeHeader h.start size 0).writeFooter h.start size
    .ok { h with toArea := { area with head := h.start } }

def alloc (layout : Layout) : Except Fault (FreeListHeap × Nat) := do
  let align := max layout.align heapAlign
  let payload := alignUp (max layout.size 1) align
  let pad := fun cur => (align - addUsize cur header % align) % align
  let (area, ptr) ← h.allocLoop 0 pad payload (h.stop - h.start) 0 h.head
  return ({ h with toArea := area }, ptr.getD 0)

def blockSizeUsedChecked (block : Nat) : Except Fault Nat :=
  let raw := h.mem block
  if isFree raw then .error .doubleFree
  else if raw < minFree then .error .corruptedBlockSize
  else .ok raw

/-- The block before is merged if its footer says that it is free. -/
def mergeBackward (block size : Nat) : Nat × Nat :=
  if h.start + header ≤ block then
    let prevFooter := h.mem (block - footer)
    if isFree prevFooter then
      let prevSize := sizeBits prevFooter
      let prevStart := subUsize block prevSize
      if h.start ≤ prevStart then (prevStart, addUsize prevSize size) else (block, size)
    else (block, size)
  else (block, size)

/-- The block behind is merged if its header says that it is free. -/
def mergeForward (nextStart mergedSize : Nat) : Except Fault Nat :=
  if addUsize nextStart header < h.stop then
    let nextSizeRaw := h.mem nextStart
    if isFree nextSizeRaw then
      let nextSize := sizeBits nextSizeRaw
      if addUsize nextStart nextSize ≤ h.stop then .ok (addUsize mergedSize nextSize)
      else .error .corruptNextBlock
    else .ok mergedSize
  else .ok mergedSize

def dealloc (p : Nat) : Except Fault FreeListHeap := do
  if p = 0 then throw .deallocNull
  if ¬(h.start ≤ p ∧ p < h.stop) then throw .outsideHeap
  let block := h.readBack p
  if ¬(h.start ≤ block ∧ addUsize block header ≤ p ∧ block < h.stop) then
    throw .corruptedBackPointer
  let size ← h.blockSizeUsedChecked block
  if ¬(addUsize block size ≤ h.stop ∧ block < addUsize block size) then throw .corruptedBlockSize
  let (mergedStart, mergedSize) := h.mergeBackward block size
  let mergedSize ← h.mergeForward (block + size) mergedSize
  let area ← h.release 0 mergedStart mergedSize (h.stop - h.start)
  return { h with toArea := area }

end FreeListHeap

def kernelHeap : Allocator FreeListHeap where
  alloc := FreeListHeap.alloc
  dealloc := FreeListHeap.dealloc
  store h addr value := { h with mem := update h.mem addr value }

/-- Where an area can be: the first bytes of the address space are never one, and no object is
larger than an `isize`. -/
structure Extent where
  start : Nat
  stop : Nat
  low : 32 ≤ start
  ordered : start ≤ stop
  top : stop ≤ 2 ^ 63

def Extent.region (x : Extent) : Region where
  lo := x.start
  hi := x.stop
  null := 0
  base := 0
  base_mod := rfl
  top := by simpa using x.top
  null_out := .inl (by have := x.low; omega)

@[simp] lemma Extent.region_lo (x : Extent) : x.region.lo = x.start := rfl
@[simp] lemma Extent.region_hi (x : Extent) : x.region.hi = x.stop := rfl
@[simp] lemma Extent.region_null (x : Extent) : x.region.null = 0 := rfl
@[simp] lemma Extent.region_base (x : Extent) : x.region.base = 0 := rfl

/-- The heap is in shape, and `live` is what is in use. -/
def FreeListHeap.Good (x : Extent) (h : FreeListHeap) (live : List Use) : Prop :=
  h.start = x.start ∧ h.stop = x.stop ∧ x.start < x.stop ∧ ∃ bs fl, Shape x.region h.toArea bs fl ∧ (uses bs).Perm live

section

variable {x : Extent} {h : FreeListHeap} {live : List Use} {b : Block} {l₁ l₂ : List Block} {fl : List Nat}

lemma add_pad_mod {a align : Nat} (hp : 0 < align) : (a + (align - a % align) % align) % align = 0 := by
  have hlt := Nat.mod_lt a hp
  by_cases hz : a % align = 0
  · rw [hz, Nat.sub_zero, Nat.mod_self, Nat.add_zero, hz]
  · have hdiv := Nat.div_add_mod a align
    have hs : a + (align - a % align) = align * (a / align + 1) := by
      rw [mul_add, mul_one]
      omega
    rw [mod_eq_of_lt (by omega : align - a % align < align), hs, mul_mod_right]

lemma payload_spec {layout : Layout} {align : Nat} (ha : align = max layout.align heapAlign) :
    layout.size ≤ alignUp (max layout.size 1) align ∧ 16 ≤ alignUp (max layout.size 1) align ∧
      alignUp (max layout.size 1) align < max layout.size 1 + align := by
  obtain ⟨j, hj, hm, -, hc⟩ := layout.exists_align
  have hf := layout.fits
  have hb : max layout.size 1 + align ≤ 2 ^ 64 := by rcases hc with hc | rfl <;> omega
  obtain ⟨hle, hlt, hmod⟩ := alignUp_spec ⟨j, ha.trans hm⟩ hb
  have hd : align ∣ alignUp (max layout.size 1) align := dvd_of_mod_eq_zero hmod
  have hn := le_of_dvd (by omega) hd
  have h16 : 16 ≤ align := ha ▸ le_max_right ..
  exact ⟨by omega, by omega, hlt⟩

lemma pad_spec {layout : Layout} (ha : align = max layout.align heapAlign)
    (hl : 32 ≤ a) (hh : a < 2 ^ 63) (hmod : a % 16 = 0) :
    (align - addUsize a header % align) % align % 16 = 0 ∧
      (a + 16 + (align - addUsize a header % align) % align) % layout.align = 0 ∧
      16 + (align - addUsize a header % align) % align + alignUp (max layout.size 1) align + 8 + 16 ≤ 2 ^ 64 := by
  obtain ⟨j, hj, hm, hd, hc⟩ := layout.exists_align
  obtain ⟨-, -, hy⟩ := payload_spec ha
  rw [← ha] at hm
  have hp : 0 < align := hm ▸ Nat.two_pow_pos j
  have hadd : addUsize a header = a + 16 := addUsize_eq (by simp only [header]; omega)
  rw [hadd]
  have hz := @add_pad_mod (a + 16) align hp
  have hlt := mod_lt (align - (a + 16) % align) hp
  have h16 : 16 ∣ align := hm ▸ pow_dvd_pow 2 hj
  have hf := layout.fits
  refine ⟨?_, ?_, ?_⟩
  · have := mod_eq_zero_of_dvd (h16.trans (dvd_of_mod_eq_zero hz))
    omega
  · exact mod_eq_zero_of_dvd ((hm ▸ hd).trans (dvd_of_mod_eq_zero hz))
  · -- only the largest alignment comes near the end of the address space
    by_cases hb : align = 2 ^ 63
    · have hsz : layout.size = 0 := by
        rcases hc with hc | rfl
        · omega
        · simp only [hm] at hb
          norm_num at hb
      have hpd : (align - (a + 16) % align) % align ≤ align - (a + 16) := by
        by_cases heq : a + 16 = align
        · simp [heq]
        · rw [mod_eq_of_lt (by omega : a + 16 < align)]
          exact mod_le ..
      omega
    · have hs : align ≤ 2 ^ 62 := by
        have hj63 : j ≤ 63 := by
          rcases hc with hc | rfl
          · have : 2 ^ j ≤ 2 ^ 63 := by omega
            exact (Nat.pow_le_pow_iff_right (by omega)).mp this
          · omega
        have hne : j ≠ 63 := by
          rintro rfl
          exact hb hm
        exact hm ▸ Nat.pow_le_pow_right (by omega) (by omega)
      rcases hc with hc | rfl <;> omega

lemma FreeListHeap.alloc_ok (layout : Layout) (hg : h.Good x live) : ∃ h' ptr, h.alloc layout = .ok (h', ptr) ∧
      h'.Good x (if ptr = 0 then live else ⟨ptr, layout⟩ :: live) ∧ h.Quiet h'.toArea 0 := by
  obtain ⟨hb, hs, hlt, bs, fl, S, hu⟩ := hg
  have hw := x.low
  have ht := x.top
  obtain ⟨hz, hm, -⟩ := @payload_spec layout _ rfl
  have hrun := @Shape.allocLoop x.region h.toArea bs [] fl 0 layout
    (fun cur => (max layout.align heapAlign - addUsize cur header % max layout.align heapAlign) %
      max layout.align heapAlign) _ h.head (h.stop - h.start) S
    (fun a hl hh hmod => by
      have := pad_spec (@rfl _ (max layout.align heapAlign)) (hw.trans hl)
        (lt_of_lt_of_le hh ht) hmod
      simpa using this)
    hz hm S.list rfl (by
      have := S.length_lt hlt
      simp only [hb, hs]
      exact this)
  rw [Extent.region_null] at hrun
  rcases hrun with hrun | ⟨k, off, bs', fl', hrun, ⟨S', hq⟩, hu'⟩
  · refine ⟨h, 0, ?_, ⟨hb, hs, hlt, bs, fl, S, by simpa using hu⟩, fun _ _ _ _ _ => rfl⟩
    simp only [FreeListHeap.alloc, hrun]
    rfl
  · refine ⟨{ h with toArea := k }, off, ?_, ⟨hb, hs, hlt, bs', fl', S', ?_⟩, hq⟩
    · simp only [FreeListHeap.alloc, hrun]
      rfl
    · have hp := S'.lt_ptr (hu'.symm.subset mem_cons_self)
      simp only [Extent.region_base, zero_add] at hp hu'
      rw [if_neg (by omega)]
      exact hu'.trans (hu.cons _)

lemma FreeListHeap.mergeBackward_eq (S : Shape x.region h.toArea (l₁ ++ b :: l₂) fl) (hbg : h.start = x.start) :
    h.mergeBackward b.addr b.size = (b.addr - freeSize l₁.getLast?, freeSize l₁.getLast? + b.size) := by
  have ht := x.top
  have hb := S.held b (by simp)
  have hbn := S.tiles.bounds (by simp : b ∈ l₁ ++ b :: l₂)
  simp only [Extent.region_lo, Extent.region_hi] at hbn
  unfold FreeListHeap.mergeBackward
  rcases S.before with ⟨rfl, ha⟩ | ⟨l, p, rfl, hp, hl, ha, hf⟩
  · have hn : ¬ h.start + header ≤ b.addr := by
      rw [ha, hbg]
      simp [header]
    simp [hn]
  · have hm := hp.size_min
    have hmod := hp.size_mod
    have hy : h.start + header ≤ b.addr := by
      rw [Extent.region_lo] at hl
      simp only [hbg, header]
      omega
    simp only [hy, if_true, footer, hf, Block.word]
    rw [isFree_tag (by omega), sizeBits_tag (by omega) (by omega), subUsize_eq (by omega) (by omega),
      addUsize_eq (by omega), getLast?_concat, freeSize_some]
    cases hr : p.use.isNone with
    | false => simp
    | true =>
      have hg : h.start ≤ b.addr - p.size := by
        rw [Extent.region_lo] at hl
        omega
      simp [hg]

lemma FreeListHeap.mergeForward_eq (S : Shape x.region h.toArea (l₁ ++ b :: l₂) fl)
    (hs : h.stop = x.stop) {size : Nat} (hz : size ≤ b.addr + b.size) :
    h.mergeForward (b.addr + b.size) size = .ok (size + freeSize l₂.head?) := by
  have ht := x.top
  have hb := S.tiles.bounds (by simp : b ∈ l₁ ++ b :: l₂)
  simp only [Extent.region_lo, Extent.region_hi] at hb
  unfold FreeListHeap.mergeForward
  rw [addUsize_eq (by simp only [header]; omega), hs]
  rcases S.after with ⟨rfl, he⟩ | ⟨n, l, rfl, hn, ha, he, hh⟩
  · have ho : ¬ b.addr + b.size + header < x.stop := by
      rw [he]
      simp
    simp [ho]
  · have hm := hn.size_min
    have hmod := hn.size_mod
    rw [Extent.region_hi] at he
    have hy : b.addr + b.size + header < x.stop := by
      simp only [header]
      omega
    simp only [hy, if_true, hh, Block.word]
    rw [isFree_tag (by omega), sizeBits_tag (by omega) (by omega), addUsize_eq (by omega),
      addUsize_eq (by omega), head?_cons, freeSize_some]
    have hf : b.addr + b.size + n.size ≤ x.stop := by omega
    cases hr : n.use.isNone <;> simp [hf]

lemma FreeListHeap.dealloc_ok (hg : h.Good x (u :: live)) :
    ∃ h', h.dealloc u.ptr = .ok h' ∧ h'.Good x live ∧ h.Quiet h'.toArea 0 ∧
      h'.InFree 0 (h.readBack u.ptr) (h.blockSize (h.readBack u.ptr)) := by
  obtain ⟨hbg, hs, hlt, bs, fl, S, hu⟩ := hg
  obtain ⟨l₁, b, l₂, rfl, hue⟩ := Shape.exists_block (hu.symm.subset mem_cons_self)
  have hb := S.held b (by simp)
  have hmod := hb.size_mod
  have hm := hb.size_min
  have ht := x.top
  have hw := x.low
  have hbn := S.tiles.bounds (by simp : b ∈ l₁ ++ b :: l₂)
  obtain ⟨off, hp, -, hl, hh, -, hc⟩ := hb.use u hue
  simp only [Extent.region_lo, Extent.region_hi, Extent.region_base, zero_add] at hbn hp
  subst hp
  have hr : h.readBack u.ptr = b.addr := hc
  have hz : h.blockSizeUsedChecked b.addr = .ok b.size := by
    have hbi : ¬ b.size < minFree := by
      simp only [minFree, header, heapAlign, footer]
      omega
    have he : isFree b.size = false := isFree_even (by omega)
    simp [FreeListHeap.blockSizeUsedChecked, hb.header_used hue, he, hbi]
  have hc := FreeListHeap.mergeBackward_eq S hbg
  have hf := FreeListHeap.mergeForward_eq S hs
    (Nat.add_le_add_right S.freeSize_le b.size)
  obtain ⟨k, bs', fl', hrun, ⟨S', hq, hfr⟩, hu'⟩ := S.free_block hue rfl rfl
    (by have := S.length_lt hlt; simp only [hbg, hs]; exact this : fl.length < h.stop - h.start)
  refine ⟨{ h with toArea := k }, ?_, ⟨hbg, hs, hlt, bs', fl', S', ?_⟩, hq, by
    rwa [hr, S.blockSize (by simp)]⟩
  · have hn : ¬ u.ptr = 0 := by omega
    have hin : h.start ≤ u.ptr ∧ u.ptr < h.stop := by omega
    have hbl : h.start ≤ b.addr ∧ addUsize b.addr header ≤ u.ptr ∧ b.addr < h.stop := by
      rw [addUsize_eq (by simp only [header]; omega)]
      simp only [header]
      omega
    have het : addUsize b.addr b.size ≤ h.stop ∧ b.addr < addUsize b.addr b.size := by
      rw [addUsize_eq (by omega)]
      omega
    rw [Extent.region_null] at hrun
    simp [FreeListHeap.dealloc, hn, hr, hz, hin, hbl, het, hc, hf, hrun, bind, Except.bind, pure, Except.pure]
  · exact (hu'.trans hu).cons_inv

lemma kernelHeap_correct (x : Extent) : Correct kernelHeap (FreeListHeap.Good x) where
  perm := fun hp ⟨hb, hs, hlt, bs, fl, S, hus⟩ => ⟨hb, hs, hlt, bs, fl, S, hus.trans hp⟩
  alloc layout hg := by
    obtain ⟨h', ptr, hrun, hg', -⟩ := FreeListHeap.alloc_ok layout hg
    exact ⟨h', ptr, hrun, hg'⟩
  dealloc hg := by
    obtain ⟨h', hrun, hg', -⟩ := FreeListHeap.dealloc_ok hg
    exact ⟨h', hrun, hg'⟩
  store := by
    rintro h live u word value ⟨hb, hs, hlt, bs, fl, S, hus⟩ hu hw
    have S' := @Shape.store _ _ _ _ u u.ptr word value S (hus.symm.subset hu) (by simp) hw
    exact ⟨hb, hs, hlt, bs, fl, S'.1, hus⟩

lemma FreeListHeap.initRegion_good (hn : (⟨area, x.start, x.stop⟩ : FreeListHeap).initRegion = .ok h) : h.Good x [] := by
  have ht := x.top
  have ho := x.ordered
  simp only [FreeListHeap.initRegion] at hn
  rw [subUsize_eq ho (by omega)] at hn
  split at hn
  · cases hn
  split at hn
  · cases hn
  split at hn
  · cases hn
  next hm hb hs =>
    cases hn
    simp only [minFree, header, heapAlign, footer, not_lt, not_not] at hm hb hs
    refine ⟨rfl, rfl, by omega, _, _, @Shape.fresh x.region area _ ?_ ?_ ?_ rfl rfl, by simp [uses]⟩
    · exact hb
    · exact hs
    · simp only [Extent.region_lo, Extent.region_hi]
      omega

/-- The kernel heap. Whatever its clients do, the blocks account for the whole region, the
pointers they hold are good, no operation panics or goes on forever, and when everything is given
back, in any order, the region is one free block again. -/
theorem kernel_heap_is_sound {area : Area} {es : List Event} {c : Client FreeListHeap}
    (hinit : (⟨area, x.start, x.stop⟩ : FreeListHeap).initRegion = .ok h)
    (hrun : Run (Client.Step kernelHeap) ⟨h, []⟩ es c) :
    (∃ bs fl, Sound x.region c.heap.toArea c.live bs fl) ∧ (∀ e, c.Allowed e → ∃ c', c.next kernelHeap e = .ok c') ∧
      ∀ order, order.Perm (c.live.map Use.ptr) → ∃ h', deallocAll kernelHeap c.heap order = .ok h' ∧
        Sound x.region h'.toArea [] [⟨x.start, x.stop - x.start, none⟩] [x.start] := by
  have C := kernelHeap_correct x
  have hg := C.run (FreeListHeap.initRegion_good hinit) hrun
  refine ⟨?_, fun e he => ?_, fun order ho => ?_⟩
  · obtain ⟨-, -, -, bs, fl, S, hu⟩ := hg
    exact ⟨bs, fl, S.sound hu⟩
  · obtain ⟨c', hn, -⟩ := C.progress hg he
    exact ⟨c', hn⟩
  · obtain ⟨h', ha, -, -, hlt, bs, fl, S, hu⟩ := C.deallocAll_ok hg ho
    obtain ⟨rfl, rfl⟩ := S.eq_single hu.eq_nil hlt
    exact ⟨h', ha, S.sound hu⟩

def smallExtent : Extent := ⟨4096, 4608, by decide, by decide, by decide⟩

def wordsLayout : Layout := ⟨24, 8, ⟨3, rfl⟩, by decide⟩

def lineLayout : Layout := ⟨40, 64, ⟨6, rfl⟩, by decide⟩

def smallHeap : FreeListHeap where
  mem := (((⟨fun _ => 0, 0⟩ : Area).writeHeader 4096 512 0).writeFooter 4096 512).mem
  head := 4096
  start := smallExtent.start
  stop := smallExtent.stop

theorem kernel_heap_is_sound_two :
    ∃ (es : List Event) (c : Client FreeListHeap), Run (Client.Step kernelHeap) ⟨smallHeap, []⟩ es c ∧
      c.live.map Use.ptr = [4320, 4112] ∧
      ∃ bs fl, Sound smallExtent.region c.heap.toArea c.live bs fl := by
  obtain ⟨c, hrun, hl⟩ := @exists_run_of_execute _ _ (Client.Step kernelHeap)
    (Client.step? kernelHeap) ⟨smallHeap, []⟩ [.alloc wordsLayout, .alloc lineLayout,
      .alloc wordsLayout, .store 4112 2 1, .dealloc 4224]
    (fun h => Client.step_of_step? h) (fun c => c.live.map Use.ptr == [4320, 4112]) (by decide +kernel)
  have hn : (⟨⟨fun _ => 0, 0⟩, smallExtent.start, smallExtent.stop⟩ : FreeListHeap).initRegion = .ok smallHeap := rfl
  exact ⟨_, c, hrun, by simpa using hl, (kernel_heap_is_sound hn hrun).1⟩

end

end ZeroOS.Heap
