import ZeroOS.Heap.User

/-!
# Pointers that are given back twice

Both heaps find the block of a pointer through the word before it, and look at the header there to
see whether the block is in use. When the block is free these are words of a free block. Right
behind the header the word before the pointer is the link of the free list; further on it is left
alone. The header of a block that was merged into a lower one is not written any more: it says free
if the block was free by itself before, and in use if it never was.
-/

namespace ZeroOS.Heap

open Except Function List Segment Tiling Transition

variable {σ : Type}

namespace Area

/-- The word before the pointer is null, or leads to a free block. -/
def Linked (h : Area) (null off : Nat) : Prop := h.readBack off = null ∨ h.OnList null (h.readBack off)

/-- The word before the pointer is null, or leads to a header that says free. -/
def Spent (h : Area) (null off : Nat) : Prop := h.readBack off = null ∨ isFree (h.mem (h.readBack off)) = true

/-- The header at `b` says free, and the word before the pointer leads to it. -/
structure Stale (h : Area) (b off : Nat) : Prop where
  flagged : isFree (h.mem b) = true
  back : h.readBack off = b

end Area

/-- A pointer with some padding before it, in a block of `s` bytes from `b` on. -/
structure Padded (b s off : Nat) : Prop where
  block_mod : b % 16 = 0
  lo : b + 32 ≤ off
  hi : off + 8 ≤ b + s

section

variable {r : Region} {h k : Area} {bs : List Block} {fl : List Nat} {b s off n : Nat}

section

variable (S : Shape r h bs fl)
include S

lemma Shape.isFree_header (hn : h.OnList r.null n) :
    n % 16 = 0 ∧ isFree (h.mem n) = true := by
  obtain ⟨f, hf, hr, rfl⟩ := mem_frees.mp (S.free.subset (S.onList.mp hn))
  have hh := S.held f hf
  have hmod := hh.size_mod
  rw [hh.header, Block.word, isFree_tag (by omega), hr]
  exact ⟨hh.addr_mod, rfl⟩

lemma Shape.onList_head (hne : h.head ≠ r.null) : h.OnList r.null h.head := by
  cases fl with
  | nil => exact absurd (Listed.nil_iff.mp S.list) hne
  | cons n fl => exact S.onList.mpr (by simp [(listed_cons.mp S.list).1])

lemma Shape.linked_of_onList (hn : h.OnList r.null n) :
    h.Linked r.null (n + 16) := by
  obtain ⟨f₁, f₂, rfl⟩ := append_of_mem (S.onList.mp hn)
  have hr : h.readBack (n + 16) = h.mem (n + 8) := rfl
  obtain ⟨m, -, -, hs⟩ := seg_append.mp S.list.seg
  unfold Area.Linked
  rw [hr]
  cases f₂ with
  | nil => exact .inl hs
  | cons m f₂ =>
    have hl : h.mem (n + 8) = m := hs.1
    exact .inr (hl ▸ S.onList.mpr (by simp))

lemma Shape.spent_of_linked (hl : h.Linked r.null off) :
    h.Spent r.null off :=
  hl.imp_right fun ho => (S.isFree_header ho).2

end

lemma Area.Stale.spent (hs : h.Stale b off) : h.Spent null off := .inr (by rw [hs.back]; exact hs.flagged)

lemma Shape.stale (S : Shape r k bs fl) (hq : h.Quiet k r.null) (hin : k.InFree r.null b s)
    (hp : Padded b s off) (ho : k.OnList r.null b) (hb : h.readBack off = b) : k.Stale b off := by
  obtain ⟨n, hn, hl, hh⟩ := hin
  have hpadLo := hp.lo
  have hpadHi := hp.hi
  exact ⟨(S.isFree_header ho).2, (hq n (off - 8) hn (by omega) (by omega)).trans hb⟩

lemma Shape.stale_kept (S : Shape r k bs fl) (hq : h.Quiet k r.null) (hin : k.InFree r.null b s)
    (hp : Padded b s off) (hs : h.Stale b off) : k.Stale b off := by
  obtain ⟨n, hn, hl, hh⟩ := hin
  have hpadLo := hp.lo
  have hpadHi := hp.hi
  have hmod := hp.block_mod
  obtain ⟨hm, hf⟩ := S.isFree_header hn
  refine ⟨?_, (hq n (off - 8) hn (by omega) (by omega)).trans hs.back⟩
  by_cases heq : n = b
  · exact heq ▸ hf
  · rw [hq n b hn (by omega) (by omega)]
    exact hs.flagged

end

/-- A heap that keeps its memory in an area in shape, and leaves alone what is inside of free blocks. -/
structure Tagged (A : Allocator σ) (r : Region) (area : σ → Area) (good : σ → List Use → Prop) : Prop
    extends Correct A good where
  shape : ∀ {s live}, good s live → ∃ bs fl, Shape r (area s) bs fl ∧ (uses bs).Perm live
  quiet_alloc : ∀ {s live layout s' ptr}, good s live → A.alloc s layout = .ok (s', ptr) → (area s).Quiet (area s') r.null
  quiet_dealloc : ∀ {s u live s' off}, good s (u :: live) → A.dealloc s u.ptr = .ok s' →
    u.ptr = r.base + off → (area s).Quiet (area s') r.null ∧
      (area s').InFree r.null ((area s).readBack off) ((area s).blockSize ((area s).readBack off))
  quiet_store : ∀ {s live u word} value, good s live → u ∈ live → 8 * word < u.layout.size →
    (area s).Quiet (area (A.store s (u.ptr + 8 * word) value)) r.null

namespace Tagged

variable {A : Allocator σ} {r : Region} {area : σ → Area} {good : σ → List Use → Prop}
  {c c' c₁ c₂ c₃ : Client σ} {u : Use} {b s off : Nat}

section

variable (T : Tagged A r area good)
include T

lemma dealloc_step (hg : good c.heap c.live) (hu : u ∈ c.live) (ho : u.ptr = r.base + off)
    (h : c.Step A (.dealloc u.ptr) c') :
    (area c.heap).Quiet (area c'.heap) r.null ∧ (area c'.heap).InFree r.null
      ((area c.heap).readBack off) ((area c.heap).blockSize ((area c.heap).readBack off)) := by
  obtain ⟨l₁, l₂, hl⟩ := append_of_mem hu
  have hp : c.live.Perm (u :: (l₁ ++ l₂)) := hl ▸ perm_middle
  obtain ⟨s', hrun, -⟩ := T.dealloc (T.perm hp hg)
  have hn := h.2
  rw [Client.next, hrun] at hn
  cases hn
  exact T.quiet_dealloc (T.perm hp hg) hrun ho

lemma quiet (hg : good c.heap c.live) (h : c.Step A e c') : (area c.heap).Quiet (area c'.heap) r.null := by
  cases e with
  | alloc layout =>
    obtain ⟨s', ptr, hrun, -⟩ := T.alloc layout hg
    have hn := h.2
    rw [Client.next, hrun] at hn
    cases hn
    exact T.quiet_alloc hg hrun
  | dealloc ptr =>
    obtain ⟨u, hu, rfl⟩ := h.1
    obtain ⟨bs, fl, S, hs⟩ := T.shape hg
    obtain ⟨b, hb, he⟩ := mem_filterMap.mp (hs.symm.subset hu)
    obtain ⟨off, ho, -⟩ := (S.held b hb).use u he
    exact (T.dealloc_step hg hu ho h).1
  | store ptr word value =>
    obtain ⟨u, hu, rfl, hw⟩ := h.1
    obtain rfl := ok.inj h.2
    exact T.quiet_store value hg hu hw

lemma stale_run (hp : Padded b s off) (hrun : Run (fun c e c' => c.Step A e c' ∧ (area c'.heap).InFree r.null b s) c es c')
    (hg : good c.heap c.live) (ht : (area c.heap).Stale b off) : (area c'.heap).Stale b off := by
  have hn : good c'.heap c'.live ∧ (area c'.heap).Stale b off := by
    induction hrun with
    | nil => exact ⟨hg, ht⟩
    | snoc _ hs ih =>
      have hg' := T.step ih.1 hs.1
      obtain ⟨bs, fl, S, -⟩ := T.shape hg'
      exact ⟨hg', S.stale_kept (T.quiet ih.1 hs.1) hs.2 hp ih.2⟩
  exact hn.2

/-- The second call finds null, or a header that says free. -/
lemma spent (hg : good c₁.heap c₁.live) (hu : u ∈ c₁.live) (ho : u.ptr = r.base + off)
    (hb : (area c₁.heap).readBack off = b) (hs : (area c₁.heap).blockSize b = s)
    (hf : c₁.Step A (.dealloc u.ptr) c₂) (hon : (area c₂.heap).OnList r.null b)
    (hsn : Run (fun c e c' => c.Step A e c' ∧ (area c'.heap).InFree r.null b s) c₂ es c₃)
    (hl : (area c₃.heap).OnList r.null b ∨ (off = b + 16 → (area c₃.heap).Linked r.null off)) :
    good c₃.heap c₃.live ∧ (area c₃.heap).Spent r.null off := by
  have hg₂ := T.step hg hf
  have hg₃ := T.run hg₂ (hsn.mono fun _ _ _ h => h.1)
  obtain ⟨bs₂, fl₂, S₂, -⟩ := T.shape hg₂
  obtain ⟨bs₃, fl₃, S₃, -⟩ := T.shape hg₃
  refine ⟨hg₃, ?_⟩
  by_cases hr : off = b + 16
  · subst hr
    exact S₃.spent_of_linked (hl.elim S₃.linked_of_onList fun h => h rfl)
  · obtain ⟨bs, fl, S, hus⟩ := T.shape hg
    obtain ⟨d, hd, he⟩ := mem_filterMap.mp (hus.symm.subset hu)
    have hh := S.held d hd
    obtain ⟨off', ho', hmod, hlo, hhi, -, hc⟩ := hh.use u he
    obtain rfl : off' = off := by omega
    obtain rfl : d.addr = b := hc.symm.trans hb
    rw [S.blockSize hd] at hs
    have ha := hh.addr_mod
    have hp : Padded d.addr s off' := ⟨ha, by omega, by omega⟩
    obtain ⟨hq, hn⟩ := T.dealloc_step hg hu ho hf
    rw [hb, S.blockSize hd, hs] at hn
    exact (T.stale_run hp hsn hg₂ (S₂.stale hq hn hp hon hb)).spent

end

/-- After `p`, in a block from `b` on that is free by itself then, `q` is given back, and the block
is merged. -/
def mergesLater (A : Allocator σ) (area : σ → Area) (null p q b s : Nat) (c : Client σ) : Bool :=
  (c.step? A (.dealloc p)).any fun c₂ => b != null && (area c₂.heap).head == b &&
    (c₂.step? A (.dealloc q)).any fun c₃ => (area c₃.heap).head != null &&
      decide ((area c₃.heap).head ≤ b ∧ b + s ≤ (area c₃.heap).head + (area c₃.heap).blockSize (area c₃.heap).head)

lemma of_mergesLater (T : Tagged A r area good) (hg : good c.heap c.live) (h : mergesLater A area r.null p q b s c = true) :
    ∃ c₂ c₃, c.Step A (.dealloc p) c₂ ∧ (area c₂.heap).OnList r.null b ∧
      Run (fun c e c' => c.Step A e c' ∧ (area c'.heap).InFree r.null b s) c₂ [.dealloc q] c₃ := by
  obtain ⟨c₂, hs₂, h⟩ := (Option.any_eq_true ..).mp h
  simp only [Bool.and_eq_true, bne_iff_ne, beq_iff_eq] at h
  obtain ⟨⟨hb, hh⟩, h⟩ := h
  obtain ⟨c₃, hs₃, h⟩ := (Option.any_eq_true ..).mp h
  simp only [Bool.and_eq_true, bne_iff_ne, decide_eq_true_eq] at h
  have hs₂ := Client.step_of_step? hs₂
  have hs₃ := Client.step_of_step? hs₃
  obtain ⟨bs₂, fl₂, S₂, -⟩ := T.shape (T.step hg hs₂)
  obtain ⟨bs₃, fl₃, S₃, -⟩ := T.shape (T.step (T.step hg hs₂) hs₃)
  exact ⟨c₂, c₃, hs₂, hh ▸ S₂.onList_head (hh.trans_ne hb), .single ⟨hs₃, _, S₃.onList_head h.1, h.2⟩⟩

end Tagged

/-! ## The kernel heap -/

section

variable {x : Extent} {h : FreeListHeap}

lemma kernelHeap_tagged (x : Extent) :
    Tagged kernelHeap x.region FreeListHeap.toArea (FreeListHeap.Good x) where
  toCorrect := kernelHeap_correct x
  shape := fun ⟨_, _, _, bs, fl, S, hus⟩ => ⟨bs, fl, S, hus⟩
  quiet_alloc hg hrun := by
    obtain ⟨h', ptr, hrun', -, hq⟩ := FreeListHeap.alloc_ok _ hg
    obtain ⟨rfl, -⟩ := Prod.mk.inj (ok.inj (hrun'.symm.trans hrun))
    exact hq
  quiet_dealloc hg hrun ho := by
    obtain ⟨h', hrun', -, hs⟩ := FreeListHeap.dealloc_ok hg
    obtain rfl := ok.inj (hrun'.symm.trans hrun)
    rw [Extent.region_base, Nat.zero_add] at ho
    exact ho ▸ hs
  quiet_store := by
    rintro h live u word value ⟨-, -, -, bs, fl, S, hus⟩ hu hw
    exact (@Shape.store _ _ _ _ u u.ptr word value S (hus.symm.subset hu) (by simp) hw).2

lemma FreeListHeap.dealloc_spent (hg : 0 < h.start) (hs : h.Spent 0 p) : ∃ f, h.dealloc p = .error f := by
  unfold FreeListHeap.dealloc
  by_cases hn : p = 0
  · exact ⟨.deallocNull, by simp [hn, throw, throwThe, MonadExceptOf.throw, bind, Except.bind]⟩
  by_cases hin : h.start ≤ p ∧ p < h.stop
  · by_cases hb : h.start ≤ h.readBack p ∧ addUsize (h.readBack p) header ≤ p ∧ h.readBack p < h.stop
    · have hf := hs.resolve_left (by omega)
      refine ⟨.doubleFree, ?_⟩
      simp [hn, hin, hb, blockSizeUsedChecked, hf, bind, Except.bind]
    · refine ⟨.corruptedBackPointer, ?_⟩
      simp [hn, hin, hb, throw, throwThe, MonadExceptOf.throw, bind, Except.bind]
  · refine ⟨.outsideHeap, ?_⟩
    simp [hn, hin, throw, throwThe, MonadExceptOf.throw, bind, Except.bind]

/-- The kernel panics when a pointer is given back again, if its block began a free block of its
own after the first call and its bytes have been free since. -/
theorem kernel_double_free_detected {area : Area} {es fs : List Event}
    {c₁ c₂ c₃ : Client FreeListHeap} {p b s : Nat}
    (hinit : (⟨area, x.start, x.stop⟩ : FreeListHeap).initRegion = .ok h)
    (hrun : Run (Client.Step kernelHeap) ⟨h, []⟩ es c₁) (hb : c₁.heap.readBack p = b)
    (hs : c₁.heap.blockSize b = s) (hfirst : c₁.Step kernelHeap (.dealloc p) c₂)
    (hown : c₂.heap.OnList 0 b)
    (hsince : Run (fun c e c' => c.Step kernelHeap e c' ∧ c'.heap.InFree 0 b s) c₂ fs c₃)
    (hlast : c₃.heap.OnList 0 b ∨ (p = b + 16 → c₃.heap.Linked 0 p)) :
    ∃ f, c₃.heap.dealloc p = .error f := by
  have T := kernelHeap_tagged x
  have hg := T.run (FreeListHeap.initRegion_good hinit) hrun
  obtain ⟨u, hu, rfl⟩ := hfirst.1
  obtain ⟨hg₃, hp⟩ := T.spent hg hu (by simp) hb hs hfirst hown hsince hlast
  have hl := x.low
  exact FreeListHeap.dealloc_spent (by rw [hg₃.1]; omega) hp

theorem kernel_double_free_detected_padded : ∃ (es fs : List Event) (c₁ c₂ c₃ : Client FreeListHeap) (f : Fault),
      Run (Client.Step kernelHeap) ⟨smallHeap, []⟩ es c₁ ∧ c₁.Step kernelHeap (.dealloc 4224) c₂ ∧
        Run (Client.Step kernelHeap) c₂ fs c₃ ∧ c₃.heap.dealloc 4224 = .error f := by
  obtain ⟨c₁, hrun, hc⟩ := @exists_run_of_execute _ _ (Client.Step kernelHeap)
    (Client.step? kernelHeap) ⟨smallHeap, []⟩ [.alloc wordsLayout, .alloc lineLayout, .alloc wordsLayout]
    (fun h => Client.step_of_step? h)
    (fun c => c.heap.readBack 4224 == 4160 && c.heap.blockSize 4160 == 144 &&
      Tagged.mergesLater kernelHeap FreeListHeap.toArea 0 4224 4112 4160 144 c) (by decide +kernel)
  simp only [Bool.and_eq_true, beq_iff_eq] at hc
  have hn : (⟨⟨fun _ => 0, 0⟩, smallExtent.start, smallExtent.stop⟩ : FreeListHeap).initRegion = .ok smallHeap := rfl
  have T := kernelHeap_tagged smallExtent
  obtain ⟨c₂, c₃, hfs, ho, hs⟩ := T.of_mergesLater (T.run (FreeListHeap.initRegion_good hn) hrun) hc.2
  obtain ⟨f, hf⟩ := kernel_double_free_detected hn hrun hc.1.1 hc.1.2 hfs ho hs
    (.inr fun h => absurd h (by decide))
  exact ⟨_, _, c₁, c₂, c₃, f, hrun, hfs, hs.mono fun _ _ _ h => h.1, hf⟩

/-- A block that is merged into a lower one by the call that frees it keeps the header of a used block. -/
theorem kernel_double_free_accepted : ∃ (es : List Event) (c₁ c₂ : Client FreeListHeap) (h : FreeListHeap),
      Run (Client.Step kernelHeap) ⟨smallHeap, []⟩ es c₁ ∧ c₁.Step kernelHeap (.dealloc 4176) c₂ ∧
        c₂.live = [] ∧ c₂.heap.dealloc 4176 = .ok h := by
  obtain ⟨c₁, hrun, hc⟩ := @exists_run_of_execute _ _ (Client.Step kernelHeap)
    (Client.step? kernelHeap) ⟨smallHeap, []⟩ [.alloc wordsLayout, .alloc wordsLayout, .dealloc 4112]
    (fun h => Client.step_of_step? h)
    (fun c => (c.step? kernelHeap (.dealloc 4176)).any fun c₂ => c₂.live.isEmpty &&
      (c₂.heap.dealloc 4176).toOption.isSome) (by decide +kernel)
  obtain ⟨c₂, hs, hc⟩ := (Option.any_eq_true ..).mp hc
  simp only [Bool.and_eq_true, List.isEmpty_iff] at hc
  obtain ⟨h, hh⟩ := Option.isSome_iff_exists.mp hc.2
  exact ⟨_, c₁, c₂, h, hrun, Client.step_of_step? hs, hc.1, ok_of_toOption hh⟩

end

/-! ## The user heap -/

section

variable {x : Static} {h : StaticFreeList}

lemma userHeap_tagged (x : Static) : Tagged userHeap x.region StaticFreeList.toArea
    fun h live => h.Good x live ∧ h.initialised = true where
  toCorrect := userHeap_correct_ready x
  shape := fun ⟨hg, hn⟩ => by
    have hs := hg.2.2
    simp only [hn, if_true] at hs
    exact hs.2
  quiet_alloc := fun ⟨hg, hn⟩ hrun => by
    obtain ⟨h', ptr, hrun', -, -, hq⟩ := StaticFreeList.alloc_ok _ hg
    obtain ⟨rfl, -⟩ := Prod.mk.inj (ok.inj (hrun'.symm.trans hrun))
    simpa [StaticFreeList.ensureInit, hn] using hq
  quiet_dealloc := fun ⟨hg, _⟩ hrun ho => by
    obtain ⟨h', hrun', -, -, hsp⟩ := StaticFreeList.dealloc_ok hg
    obtain rfl := ok.inj (hrun'.symm.trans hrun)
    rw [ho, hg.1, Static.region_base, Nat.add_sub_cancel_left] at hsp
    exact hsp
  quiet_store := by
    rintro h live u word value ⟨⟨hbs, -, hs⟩, hn⟩ hu hw
    simp only [hn, if_true] at hs
    obtain ⟨-, bs, fl, S, hus⟩ := hs
    obtain ⟨b, hb, he⟩ := mem_filterMap.mp (hus.symm.subset hu)
    obtain ⟨off, hp, -⟩ := (S.held b hb).use u he
    have hq := (@Shape.store _ _ _ _ u off word value S (hus.symm.subset hu) hp hw).2
    rw [Static.region_base, ← hbs] at hp
    rwa [← show u.ptr + 8 * word - h.base = off + 8 * word by omega] at hq

lemma StaticFreeList.dealloc_spent (hl : h.usableLen ≤ noOffset)
    (hs : h.Spent noOffset (p - h.base)) : h.dealloc p = .ok h := by
  unfold StaticFreeList.dealloc
  split
  · rfl
  split
  · rfl
  dsimp only
  split
  · rfl
  next hb =>
    have hf := hs.resolve_left (by omega)
    rw [if_pos hf]
    rfl

/-- The heap of a process ignores a pointer that is given back again, under the same conditions. -/
theorem user_double_free_ignored {es fs : List Event} {c₁ c₂ c₃ : Client StaticFreeList} {p b s : Nat}
    (hrun : Run (Client.Step userHeap) ⟨x.fresh, []⟩ es c₁) (hb : c₁.heap.readBack (p - x.base) = b)
    (hs : c₁.heap.blockSize b = s) (hfirst : c₁.Step userHeap (.dealloc p) c₂)
    (hown : c₂.heap.OnList noOffset b)
    (hsince : Run (fun c e c' => c.Step userHeap e c' ∧ c'.heap.InFree noOffset b s) c₂ fs c₃)
    (hlast : c₃.heap.OnList noOffset b ∨ (p - x.base = b + 16 → c₃.heap.Linked noOffset (p - x.base))) :
    c₃.heap.dealloc p = .ok c₃.heap ∧ ∃ bs fl, Sound x.region c₃.heap.toArea c₃.live bs fl := by
  have T := userHeap_tagged x
  obtain ⟨u, hu, rfl⟩ := hfirst.1
  have hg := (userHeap_correct x).run Static.fresh_good hrun
  have hr : c₁.heap.initialised = true := by
    by_contra hn
    have hl := hg.2.2
    rw [if_neg hn] at hl
    simp [hl] at hu
  have hh := T.shape ⟨hg, hr⟩
  obtain ⟨bs, fl, S, hus⟩ := hh
  obtain ⟨d, hd, he⟩ := mem_filterMap.mp (hus.symm.subset hu)
  obtain ⟨off, ho, -⟩ := (S.held d hd).use u he
  have hsub : u.ptr - x.base = off := by rw [ho, Static.region_base, Nat.add_sub_cancel_left]
  rw [hsub] at hb hlast
  obtain ⟨hg₃, hp⟩ := T.spent ⟨hg, hr⟩ hu ho hb hs hfirst hown hsince hlast
  obtain ⟨bs₃, fl₃, S₃, hus₃⟩ := T.shape hg₃
  refine ⟨StaticFreeList.dealloc_spent ?_ ?_, bs₃, fl₃, S₃.sound hus₃⟩
  · have ht := x.usable_le
    rw [StaticFreeList.usableLen_eq hg₃.1.2.1, noOffset]
    omega
  · rw [hg₃.1.1, hsub]
    exact hp

theorem user_double_free_ignored_padded : ∃ (es fs : List Event) (c₁ c₂ c₃ : Client StaticFreeList),
      Run (Client.Step userHeap) ⟨smallStatic.fresh, []⟩ es c₁ ∧ c₁.Step userHeap (.dealloc 4224) c₂ ∧
        Run (Client.Step userHeap) c₂ fs c₃ ∧ c₃.heap.dealloc 4224 = .ok c₃.heap := by
  obtain ⟨c₁, hrun, hc⟩ := @exists_run_of_execute _ _ (Client.Step userHeap)
    (Client.step? userHeap) ⟨smallStatic.fresh, []⟩
    [.alloc wordsLayout, .alloc lineLayout, .alloc wordsLayout] (fun h => Client.step_of_step? h)
    (fun c => c.heap.readBack (4224 - smallStatic.base) == 64 && c.heap.blockSize 64 == 128 &&
      c.heap.initialised && Tagged.mergesLater userHeap StaticFreeList.toArea noOffset 4224 4112 64 128 c)
    (by decide +kernel)
  simp only [Bool.and_eq_true, beq_iff_eq] at hc
  have T := userHeap_tagged smallStatic
  obtain ⟨c₂, c₃, hf, ho, hs⟩ := T.of_mergesLater
    ⟨(userHeap_correct smallStatic).run Static.fresh_good hrun, hc.1.2⟩ hc.2
  have hm := user_double_free_ignored hrun hc.1.1.1 hc.1.1.2 hf ho hs
    (.inr fun h => absurd h (by decide))
  exact ⟨_, _, c₁, c₂, c₃, hrun, hf, hs.mono fun _ _ _ h => h.1, hm.1⟩

def wideLayout : Layout := ⟨100, 8, wordsLayout.isPow, by decide⟩

/-- The footer of the lower block is still there when its first bytes are in use again. The second
call merges these into the free block, and they are handed out once more. -/
theorem user_double_free_frees_another : ∃ (es : List Event) (c₁ c₂ c₃ : Client StaticFreeList) (h h' : StaticFreeList),
      Run (Client.Step userHeap) ⟨smallStatic.fresh, []⟩ es c₁ ∧ c₁.Step userHeap (.dealloc 4256) c₂ ∧
        c₂.Step userHeap (.alloc wordsLayout) c₃ ∧ c₃.live.map Use.ptr = [4112, 4320] ∧
        c₃.heap.dealloc 4256 = .ok h ∧ h.alloc wordsLayout = .ok (h', 4112) := by
  obtain ⟨c₁, hrun, hc⟩ := @exists_run_of_execute _ _ (Client.Step userHeap)
    (Client.step? userHeap) ⟨smallStatic.fresh, []⟩
    [.alloc wideLayout, .alloc wordsLayout, .alloc wordsLayout, .dealloc 4112]
    (fun h => Client.step_of_step? h)
    (fun c => (c.step? userHeap (.dealloc 4256)).any fun c₂ =>
      (c₂.step? userHeap (.alloc wordsLayout)).any fun c₃ => c₃.live.map Use.ptr == [4112, 4320] &&
        (c₃.heap.dealloc 4256).toOption.any fun h => (h.alloc wordsLayout).toOption.any (·.2 == 4112))
    (by decide +kernel)
  obtain ⟨c₂, hs₂, hc⟩ := (Option.any_eq_true ..).mp hc
  obtain ⟨c₃, hs₃, hc⟩ := (Option.any_eq_true ..).mp hc
  rw [Bool.and_eq_true, beq_iff_eq] at hc
  obtain ⟨h, hh, hc'⟩ := (Option.any_eq_true ..).mp hc.2
  obtain ⟨⟨h', ptr⟩, hh', hp⟩ := (Option.any_eq_true ..).mp hc'
  obtain rfl : ptr = 4112 := by simpa using hp
  exact ⟨_, c₁, c₂, c₃, h, h', hrun, Client.step_of_step? hs₂, Client.step_of_step? hs₃, hc.1,
    ok_of_toOption hh, ok_of_toOption hh'⟩

end

end ZeroOS.Heap
