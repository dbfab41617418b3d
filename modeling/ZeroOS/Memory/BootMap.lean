import ZeroOS.Lib.Disk
import ZeroOS.Memory.Phys

/-!
# The memory map of the boot loader

The boot loader joins the usable descriptors of the firmware to regions and writes them to a table of the kernel;
the kernel takes the table if the regions ascend, and sets up its allocator from them.

A descriptor is joined to the last region if it begins before the end of that one, and the new end is the end of
the descriptor. This is right for descriptors that ascend (`Merged.step`). One that lies below the last region
leaves it with no bytes at all, and the kernel then takes none of the table.
-/

namespace ZeroOS.Memory

open List PhysBitmap Wire

/-! ## The table -/

def memmapMagic : Nat := 0x5A4D454D31303131

def memmapHeader : Nat := 0x10

def memmapEntry : Nat := 16

def memmapSinkSize : Nat := 4096

def maxMemmapRegions : Nat := 32

/-- `rd_u64`. -/
def readU64 (raw : Bytes) (off : Nat) : Nat := ofLe ((raw.drop off).take 8)

/-- The loop of `read_memory_map_sink`. -/
def readEntries (raw : Bytes) : List Nat → Nat → List (Nat × Nat) → Option (List (Nat × Nat))
  | [], _, out => some out
  | i :: rest, prevEnd, out =>
    let off := memmapHeader + i * memmapEntry
    let base := readU64 raw off
    let len := readU64 raw (off + 8)
    if len = 0 ∨ base < prevEnd ∨ maxMemmapRegions ≤ out.length then none
    else readEntries raw rest (satAdd base len) (out ++ [(base, len)])

def readMemoryMapSink (raw : Bytes) : Option (List (Nat × Nat)) :=
  if readU64 raw 0 ≠ memmapMagic then none
  else
    let count := readU64 raw 8
    if count = 0 ∨ maxMemmapRegions < count then none else readEntries raw (List.range count) 0 []

/-- A descriptor of the firmware: some pages, not none, of the physical address space. -/
structure Descriptor where
  conventional : Bool
  physStart : Nat
  pageCount : Nat
  aligned : physStart % 4096 = 0
  pos : 0 < pageCount
  fits : physStart + pageCount * 4096 ≤ 2 ^ 64

def Descriptor.stop (d : Descriptor) : Nat := d.physStart + d.pageCount * 4096

/-- One round of the loop of `fill_memory_map_sink`. -/
def mergeDescriptor (regions : List (Nat × Nat)) (d : Descriptor) : List (Nat × Nat) :=
  if d.conventional then
    let start := d.physStart
    let stop := satAdd d.physStart (d.pageCount * 4096 % 2 ^ 64)
    match regions.getLast? with
    | some last =>
      if start ≤ satAdd last.1 last.2 then regions.dropLast ++ [(last.1, stop - last.1)]
      else regions ++ [(start, stop - start)]
    | none => [(start, stop - start)]
  else regions

/-- The regions of `fill_memory_map_sink`. -/
def mergeDescriptors (descs : List Descriptor) : List (Nat × Nat) := descs.foldl mergeDescriptor []

def memmapTable (regions : List (Nat × Nat)) : Bytes :=
  le 8 memmapMagic ++ (le 8 regions.length ++ regions.flatMap fun r => le 8 r.1 ++ le 8 r.2)

/-- `fill_memory_map_sink`: the table, in a sink of zeros. -/
def fillMemoryMapSink (descs : List Descriptor) : Bytes := Disk.pad memmapSinkSize
    (memmapTable ((mergeDescriptors descs).take ((memmapSinkSize - memmapHeader) / memmapEntry)))

/-! ## Reading what was written -/

/-- The regions ascend and are not empty, and their numbers have 64 bits. -/
structure Ascends (regions : List (Nat × Nat)) : Prop where
  chain : regions.Pairwise fun r s => satAdd r.1 r.2 ≤ s.1
  pos : ∀ r ∈ regions, 0 < r.2
  fits : ∀ r ∈ regions, r.1 < 2 ^ 64 ∧ r.2 < 2 ^ 64

lemma readU64_append {pre rest : Bytes} {n off : Nat} (hn : n < 2 ^ 64) (ho : pre.length = off) :
    readU64 (pre ++ (le 8 n ++ rest)) off = n := by
  rw [readU64, drop_left' ho, take_left' (length_le 8 n)]
  exact ofLe_le (by norm_num; exact hn)

lemma readEntries_eq {raw tail : Bytes} {rest : List (Nat × Nat)} :
    ∀ {pre : Bytes} {k prevEnd : Nat} {out : List (Nat × Nat)},
    raw = pre ++ ((rest.flatMap fun r => le 8 r.1 ++ le 8 r.2) ++ tail) →
    pre.length = memmapHeader + k * memmapEntry → Ascends rest → (∀ r ∈ rest, prevEnd ≤ r.1) →
    out.length + rest.length ≤ maxMemmapRegions →
    readEntries raw (List.range' k rest.length) prevEnd out = some (out ++ rest) := by
  induction rest with
  | nil =>
    intro pre k prevEnd out _ _ _ _ _
    simp [readEntries]
  | cons r rest ih =>
    intro pre k prevEnd out hr hp ha hpr hcn
    obtain ⟨hc, hs⟩ := pairwise_cons.mp ha.chain
    have hf := ha.fits r mem_cons_self
    have hps := ha.pos r mem_cons_self
    rw [flatMap_cons] at hr
    have hb : readU64 raw (memmapHeader + k * memmapEntry) = r.1 := by
      rw [hr, append_assoc, append_assoc]
      exact readU64_append hf.1 hp
    have hl : readU64 raw (memmapHeader + k * memmapEntry + 8) = r.2 := by
      rw [hr, append_assoc, append_assoc, ← append_assoc pre]
      exact readU64_append hf.2 (by simp [hp])
    rw [length_cons, List.range'_succ, readEntries]
    simp only [hb, hl]
    rw [length_cons] at hcn
    have hfs := hpr r mem_cons_self
    rw [if_neg (by omega)]
    have hn := @ih (pre ++ (le 8 r.1 ++ le 8 r.2)) (k + 1) (satAdd r.1 r.2) (out ++ [r])
      (by rw [hr]; simp only [append_assoc])
      (by simp only [length_append, length_le, hp, memmapHeader, memmapEntry]; omega)
      ⟨hs, fun q hq => ha.pos q (mem_cons_of_mem _ hq), fun q hq => ha.fits q (mem_cons_of_mem _ hq)⟩
      hc (by simp only [length_append, length_singleton]; omega)
    rw [hn, append_assoc, singleton_append]

lemma readMemoryMapSink_eq (ha : Ascends regions) (hne : regions ≠ []) (hc : regions.length ≤ maxMemmapRegions) :
    readMemoryMapSink (Disk.pad memmapSinkSize (memmapTable regions)) = some regions := by
  have hl : 0 < regions.length := length_pos_of_ne_nil hne
  have hs : regions.length < 2 ^ 64 := hc.trans_lt (by decide)
  generalize ht : List.replicate (memmapSinkSize - (memmapTable regions).length) (0 : UInt8) = tail
  have hp : Disk.pad memmapSinkSize (memmapTable regions) = le 8 memmapMagic ++ (le 8 regions.length ++
        ((regions.flatMap fun r => le 8 r.1 ++ le 8 r.2) ++ tail)) := by
    rw [Disk.pad, ht, memmapTable, append_assoc, append_assoc]
  have hm : readU64 (Disk.pad memmapSinkSize (memmapTable regions)) 0 = memmapMagic := by
    have hr := @readU64_append [] (le 8 regions.length ++ ((regions.flatMap fun r => le 8 r.1 ++ le 8 r.2) ++ tail))
      memmapMagic 0 (by norm_num [memmapMagic]) rfl
    rwa [nil_append, ← hp] at hr
  have hn : readU64 (Disk.pad memmapSinkSize (memmapTable regions)) 8 = regions.length := by
    rw [hp]
    exact readU64_append hs (length_le ..)
  rw [readMemoryMapSink, if_neg (by simp [hm])]
  simp only [hn]
  rw [if_neg (by omega), range_eq_range']
  refine @readEntries_eq _ tail regions (le 8 memmapMagic ++ le 8 regions.length) 0 0 [] ?_ (by simp [memmapHeader])
    ha (fun _ _ => Nat.zero_le _) (by simpa using hc)
  rw [hp, append_assoc]

/-! ## Joining descriptors -/

def Usable (descs : List Descriptor) (x : Nat) : Prop := ∃ d ∈ descs, d.conventional = true ∧ d.physStart ≤ x ∧ x < d.stop

def Covered (regions : List (Nat × Nat)) (x : Nat) : Prop := ∃ r ∈ regions, r.1 ≤ x ∧ x < r.1 + r.2

def Descriptor.beginsRun (descs : List Descriptor) (d : Descriptor) : Bool :=
  d.conventional && !descs.any fun e => e.conventional && e.stop == d.physStart

/-- The number of maximal runs of usable descriptors. -/
def runCount (descs : List Descriptor) : Nat := descs.countP (Descriptor.beginsRun descs)

def Upwards (descs : List Descriptor) : Prop :=
  descs.Pairwise fun d e => d.conventional = true → e.conventional = true → d.physStart < e.physStart

def NoOverlap (descs : List Descriptor) : Prop := descs.Pairwise fun d e => d.stop ≤ e.physStart ∨ e.stop ≤ d.physStart

lemma Descriptor.lt_stop (d : Descriptor) : d.physStart < d.stop := by
  have := d.pos
  unfold stop
  omega

/-- The regions are the runs of the descriptors so far, and the last one ends where the last descriptor does. -/
structure Merged (descs : List Descriptor) (regions : List (Nat × Nat)) : Prop where
  chain : regions.Pairwise fun r s => r.1 + r.2 < s.1
  pos : ∀ r ∈ regions, 0 < r.2
  covered : ∀ x, Covered regions x ↔ Usable descs x
  count : regions.length = runCount descs
  stop_le : ∀ d ∈ descs, d.conventional = true → ∃ r ∈ regions.getLast?, d.stop ≤ r.1 + r.2
  last : ∀ r ∈ regions.getLast?, ∃ d ∈ descs, d.conventional = true ∧ d.stop = r.1 + r.2

lemma usable_append (x : Nat) :
    Usable (descs ++ [d]) x ↔ Usable descs x ∨ (d.conventional = true ∧ d.physStart ≤ x ∧ x < d.stop) := by
  simp [Usable, or_and_right, exists_or]

lemma covered_append (x : Nat) :
    Covered (regions ++ [r]) x ↔ Covered regions x ∨ (r.1 ≤ x ∧ x < r.1 + r.2) := by
  simp only [Covered, mem_append, mem_singleton, or_and_right, exists_or, exists_eq_left]

lemma runCount_append (hd : d.conventional = true) (ha : ∀ e ∈ descs, e.conventional = true → e.stop ≤ d.physStart) :
    runCount (descs ++ [d]) = runCount descs +
      if ∃ e ∈ descs, e.conventional = true ∧ e.stop = d.physStart then 0 else 1 := by
  have ht := d.lt_stop
  have ho : ∀ e ∈ descs, Descriptor.beginsRun (descs ++ [d]) e = Descriptor.beginsRun descs e := by
    intro e he
    unfold Descriptor.beginsRun
    cases hc : e.conventional with
    | false => rfl
    | true =>
      have hb := ha e he hc
      have hne : d.stop ≠ e.physStart := by
        have := e.lt_stop
        omega
      simp [hne]
  have hs : Descriptor.beginsRun (descs ++ [d]) d =
      decide (¬∃ e ∈ descs, e.conventional = true ∧ e.stop = d.physStart) := by
    have hne : d.stop ≠ d.physStart := by omega
    rw [Bool.eq_iff_iff]
    simp [Descriptor.beginsRun, hd, hne]
  unfold runCount
  rw [countP_append, countP_congr fun e he => by rw [ho e he], countP_singleton, hs]
  congr 1
  split <;> simp_all

section

lemma Merged.skip (h : Merged descs regions) (hd : d.conventional = false) : Merged (descs ++ [d]) regions where
  chain := h.chain
  pos := h.pos
  covered x := by simp [h.covered, usable_append, hd]
  count := by
    have hs : Descriptor.beginsRun (descs ++ [d]) = Descriptor.beginsRun descs := by
      funext e
      simp [Descriptor.beginsRun, hd]
    rw [h.count, runCount, runCount, countP_append, hs]
    simp [Descriptor.beginsRun, hd]
  stop_le e he hc := by
    rcases mem_append.mp he with he | he
    · exact h.stop_le e he hc
    · rw [mem_singleton.mp he, hd] at hc
      cases hc
  last r hr := by
    obtain ⟨e, he, hrs⟩ := h.last r hr
    exact ⟨e, mem_append_left _ he, hrs⟩

lemma Merged.concat {base : Nat} (h : Merged descs regions) (hd : d.conventional = true)
    (ha : ∀ e ∈ descs, e.conventional = true → e.stop ≤ d.physStart)
    (hc : front.Pairwise fun r s => r.1 + r.2 < s.1) (hp : ∀ r ∈ front, 0 < r.2)
    (hf : ∀ r ∈ front, r.1 + r.2 < base) (hb : base < d.stop)
    (hv : ∀ x, Covered front x ∨ (base ≤ x ∧ x < d.stop) ↔ Covered regions x ∨ (d.physStart ≤ x ∧ x < d.stop))
    (ht : front.length + 1 = runCount (descs ++ [d])) :
    Merged (descs ++ [d]) (front ++ [(base, d.stop - base)]) := by
  have hlt := d.lt_stop
  have hn : base + (d.stop - base) = d.stop := Nat.add_sub_cancel' hb.le
  have hlenPos : 0 < d.stop - base := Nat.sub_pos_of_lt hb
  generalize d.stop - base = len at hn hlenPos ⊢
  have hl : (front ++ [(base, len)]).getLast? = some (base, len) := getLast?_concat
  refine ⟨pairwise_append.mpr ⟨hc, pairwise_singleton .., by simpa using hf⟩,
    forall_mem_append.mpr ⟨hp, by simpa using hlenPos⟩, fun x => ?_, by simpa using ht,
    fun e he hcn => ⟨_, hl, le_trans ?_ hn.ge⟩, fun r hr => ?_⟩
  · rw [covered_append, hn, hv, usable_append, h.covered]
    simp [hd]
  · rcases mem_append.mp he with he | he
    · exact (ha e he hcn).trans hlt.le
    · rw [mem_singleton.mp he]
  · obtain rfl := Option.mem_unique hl hr
    exact ⟨d, mem_append_right _ (mem_singleton_self d), hd, hn.symm⟩

lemma Merged.push (h : Merged descs regions) (hd : d.conventional = true)
    (ha : ∀ e ∈ descs, e.conventional = true → e.stop ≤ d.physStart)
    (hg : ∀ r ∈ regions, r.1 + r.2 < d.physStart) :
    Merged (descs ++ [d]) (regions ++ [(d.physStart, d.stop - d.physStart)]) := by
  refine h.concat hd ha h.chain h.pos hg d.lt_stop (fun _ => Iff.rfl) ?_
  rw [runCount_append hd ha, if_neg, h.count]
  rintro ⟨e, he, hc, heq⟩
  obtain ⟨r, hr, hle⟩ := h.stop_le e he hc
  have := hg r (mem_of_getLast? hr)
  omega

lemma Merged.extend {last : Nat × Nat} (h : Merged descs (front ++ [last])) (hd : d.conventional = true)
    (ha : ∀ e ∈ descs, e.conventional = true → e.stop ≤ d.physStart)
    (had : d.physStart = last.1 + last.2) :
    Merged (descs ++ [d]) (front ++ [(last.1, d.stop - last.1)]) := by
  have hlt := d.lt_stop
  obtain ⟨hc, -, hb⟩ := pairwise_append.mp h.chain
  obtain ⟨e, he, hn, heq⟩ := h.last last getLast?_concat
  refine h.concat hd ha hc (fun r hr => h.pos r (mem_append_left _ hr))
    (fun r hr => hb r hr last (mem_singleton_self _)) (by omega) (fun x => ?_) ?_
  · rw [covered_append, or_assoc]
    refine or_congr_right ?_
    omega
  · rw [runCount_append hd ha, if_pos ⟨e, he, hn, heq.trans had.symm⟩, ← h.count]
    simp

lemma Merged.step (h : Merged descs regions) (ha : d.conventional = true → ∀ e ∈ descs, e.conventional = true →
      e.stop ≤ d.physStart) (hs : d.conventional = true → d.stop < 2 ^ 64) :
    Merged (descs ++ [d]) (mergeDescriptor regions d) := by
  unfold mergeDescriptor
  cases hd : d.conventional with
  | false => exact h.skip hd
  | true =>
    have ha := ha hd
    have hs := hs hd
    have hlt := d.lt_stop
    have ht : satAdd d.physStart (d.pageCount * 4096 % 2 ^ 64) = d.stop := by
      unfold satAdd Descriptor.stop at *
      omega
    simp only [if_true, ht]
    rcases eq_nil_or_concat regions with rfl | ⟨before, last, rfl⟩
    · exact h.push hd ha nofun
    · rw [concat_eq_append] at h ⊢
      obtain ⟨e, he, hc, hed⟩ := h.last last getLast?_concat
      have hb := ha e he hc
      have hsa : satAdd last.1 last.2 = last.1 + last.2 := by
        unfold satAdd
        omega
      simp only [getLast?_concat, dropLast_concat, hsa]
      split
      next hle => exact h.extend hd ha (by omega)
      next hg =>
        refine h.push hd ha fun r hr => ?_
        rcases mem_append.mp hr with hr | hr
        · have hp := h.pos last (mem_append_right _ (mem_singleton_self _))
          have := (pairwise_append.mp h.chain).2.2 r hr last (mem_singleton_self _)
          omega
        · rw [mem_singleton.mp hr]
          omega

end

lemma merged_mergeDescriptors (ha : NoOverlap descs) (hu : Upwards descs)
    (hs : ∀ d ∈ descs, d.conventional = true → d.stop < 2 ^ 64) :
    Merged descs (mergeDescriptors descs) := by
  induction descs using List.reverseRecOn with
  | nil => exact ⟨.nil, nofun, fun x => by simp [Covered, Usable, mergeDescriptors], rfl, nofun, nofun⟩
  | append_singleton descs d ih =>
    obtain ⟨ha, -, hlastApart⟩ := pairwise_append.mp ha
    obtain ⟨hu, -, hlastUp⟩ := pairwise_append.mp hu
    have ho := ih ha hu fun e he => hs e (mem_append_left _ he)
    rw [mergeDescriptors, foldl_append]
    refine ho.step (fun hd e he hc => ?_) (hs d (mem_append_right _ (mem_singleton_self d)))
    have hlt := hlastUp e he d (mem_singleton_self d) hc hd
    have ht := d.lt_stop
    rcases hlastApart e he d (mem_singleton_self d) with h | h
    · exact h
    · omega

lemma Merged.ascends (h : Merged descs regions) (hs : ∀ d ∈ descs, d.conventional = true → d.stop < 2 ^ 64) :
    Ascends regions := by
  have he (r : Nat × Nat) (hr : r ∈ regions) : r.1 + r.2 < 2 ^ 64 := by
    have hp := h.pos r hr
    -- the last byte of the region is usable
    obtain ⟨d, hd, hc, -, hlt⟩ := (h.covered (r.1 + r.2 - 1)).mp ⟨r, hr, by omega, by omega⟩
    have := hs d hd hc
    omega
  refine ⟨h.chain.imp_of_mem fun hr _ hlt => ?_, h.pos, fun r hr => ?_⟩
  · have := he _ hr
    unfold satAdd
    omega
  · have := he r hr
    omega

/-- The kernel gets the usable memory, exactly, of every memory map whose usable descriptors ascend, in at
least one and at most 32 runs that end below the last byte of the address space. -/
theorem memory_map_handed_over {descs : List Descriptor} (hapart : NoOverlap descs) (hup : Upwards descs)
    (hsmall : ∀ d ∈ descs, d.conventional = true → d.stop < 2 ^ 64)
    (hruns : 0 < runCount descs ∧ runCount descs ≤ maxMemmapRegions) :
    ∃ regions, readMemoryMapSink (fillMemoryMapSink descs) = some regions ∧ ∀ x, Covered regions x ↔ Usable descs x := by
  have hm := merged_mergeDescriptors hapart hup hsmall
  have hc := hm.count
  have hl : (mergeDescriptors descs).length ≤ maxMemmapRegions := by omega
  have ha : (mergeDescriptors descs).take ((memmapSinkSize - memmapHeader) / memmapEntry) =
      mergeDescriptors descs := take_of_length_le (hl.trans (by decide))
  refine ⟨mergeDescriptors descs, ?_, hm.covered⟩
  rw [fillMemoryMapSink, ha]
  refine readMemoryMapSink_eq (hm.ascends hsmall) (ne_nil_of_length_pos ?_) hl
  omega

/-- A usable page, a page of the firmware, and two usable pages that adjoin. -/
def ascending : List Descriptor :=
  [⟨true, 0x1000, 1, by decide, by decide, by decide⟩, ⟨false, 0x3000, 1, by decide, by decide, by decide⟩,
    ⟨true, 0x4000, 1, by decide, by decide, by decide⟩, ⟨true, 0x5000, 1, by decide, by decide, by decide⟩]

theorem memory_map_handed_over_ascending : ∃ regions, readMemoryMapSink (fillMemoryMapSink ascending) = some regions ∧
      ∀ x, Covered regions x ↔ Usable ascending x :=
  memory_map_handed_over (by unfold NoOverlap; decide) (by unfold Upwards; decide) (by decide)
    (by decide)

def descending : List Descriptor :=
  [⟨true, 0x3000, 1, by decide, by decide, by decide⟩, ⟨true, 0x1000, 1, by decide, by decide, by decide⟩]

/-- The second descriptor leaves the first region with no bytes, and the kernel takes none of the table. -/
theorem descending_map_rejected :
    NoOverlap descending ∧ runCount descending = 2 ∧ mergeDescriptors descending = [(0x3000, 0)] ∧
      readMemoryMapSink (fillMemoryMapSink descending) = none :=
  ⟨by unfold NoOverlap; decide, by decide, by decide, by decide +kernel⟩

/-! ## The free pages after the boot -/

/-- The page at `a` lies in the region. -/
def Within (a : Nat) (r : Nat × Nat) : Prop := r.1 ≤ a ∧ a + pageSize ≤ r.1 + r.2

/-- Every page of the regions is in the window that the allocator manages. -/
def InWindow (regions : List (Nat × Nat)) : Prop :=
  ∀ r ∈ regions, ∀ a, a % pageSize = 0 → Within a r → ramBase ≤ a ∧ a + pageSize ≤ ramBase + topRel regions

/-- Pages are taken off the free ones, and no others. -/
structure Trimmed (b b' : PhysBitmap) (gone : Nat → Prop) : Prop where
  wf : b'.WellFormed
  total : b'.total = b.total
  base : b'.base = b.base
  clear : ∀ p, p ∈ b'.clearPages ↔ p ∈ b.clearPages ∧ ¬ gone p

lemma Trimmed.congr {gone gone' : Nat → Prop} (h : Trimmed b b' gone)
    (heq : ∀ p < b.total, gone p ↔ gone' p) : Trimmed b b' gone' where
  wf := h.wf
  total := h.total
  base := h.base
  clear p := (h.clear p).trans <| and_congr_right fun hp => not_congr (heq p (mem_clearPages.mp hp).1)

lemma InWindow.bounds (h : InWindow regions) (hr : r ∈ regions) (hn : Within (ramBase + p * pageSize) r) :
    ramBase + p * pageSize + pageSize ≤ ramBase + topRel regions ∧ r.1 + r.2 < 2 ^ 64 := by
  have ha (q : Nat) : (ramBase + q * pageSize) % pageSize = 0 := by
    simp only [ramBase, pageSize]
    omega
  have ht := topRel_le regions
  have hl := (h r hr _ (ha p) hn).2
  refine ⟨hl, ?_⟩
  by_contra hw
  -- otherwise the first page after the window lies in it
  have hp := h r hr (ramBase + maxPages * pageSize) (ha maxPages)
    ⟨by have := hn.1; omega, by simp only [ramBase, maxPages, pageSize] at *; omega⟩
  simp only [pageSize] at *
  omega

end ZeroOS.Memory
