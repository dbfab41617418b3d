import ZeroOS.Fs.Transaction

/-!
# Where the blocks are

Whatever is done to a volume, the blocks of its files are blocks of the device behind the banks, and
the allocator has the banks in use, so that no file ever gets a block of them (`Laid`). The same holds
of the directory and the allocator of every snapshot, which is why a restore keeps it.
-/

namespace ZeroOS.Fs

open Disk List Volume Wire

variable {G : Geometry} {crc : Bytes → UInt32} {sha : Bytes → Digest} {sb : SuperBlock}

/-- An allocator for the blocks behind block 0 that has the banks in use, and a directory whose blocks
are behind the banks. -/
structure Guarded (G : Geometry) (sb : SuperBlock) (a : BlockAllocator) (m : Entries) : Prop where
  base : a.base = 1
  total : a.total = totalBlocks G sb - 1
  low : ∀ b, 1 ≤ b → b < reservedEnd → a.isAllocated b = true
  normal : KeysNormal m
  block : ∀ b, HasBlock m b → reservedEnd ≤ b ∧ b < totalBlocks G sb

/-- A volume whose blocks are where they should be, and whose snapshots are such too. -/
structure Laid (G : Geometry) (sb : SuperBlock) (v : Volume) : Prop where
  live : Guarded G sb v.allocator v.directory.entries
  snaps : ∀ s ∈ v.snapshots, Guarded G sb s.allocator s.directory
  size : v.blockSize = G.blockSize
  inode : 2 ≤ v.nextInode
  time : 1 ≤ v.logicalTime

lemma le_max_right (a b : UInt64) : b ≤ max a b := by
  change b ≤ if a ≤ b then b else a
  split
  · exact UInt64.le_refl b
  next h =>
    rw [UInt64.le_iff_toNat_le] at *
    omega

namespace Guarded

section

variable (h : Guarded G sb a m)
include h

lemma inRange_iff :
    a.inRange b = true ↔ 1 ≤ b ∧ b < totalBlocks G sb := by
  have hb := totalBlocks_bounds G sb
  rw [BlockAllocator.inRange_iff, h.base, h.total]
  omega

lemma free (hr : a.inRange b = true) (hf : a.isAllocated b = false) :
    reservedEnd ≤ b ∧ b < totalBlocks G sb := by
  obtain ⟨hp, hlt⟩ := h.inRange_iff.mp hr
  refine ⟨?_, hlt⟩
  by_contra hl
  rw [h.low b hp (by omega)] at hf
  cases hf

lemma with_allocator (hs : BlockAllocator.Similar a a')
    (hl : ∀ b, b < reservedEnd → a.isAllocated b = true → a'.isAllocated b = true) :
    Guarded G sb a' m where
  base := hs.1.trans h.base
  total := hs.2.trans h.total
  low := fun b hp hb => hl b hb (h.low b hp hb)
  normal := h.normal
  block := h.block

lemma freeAll (hh : ∀ b ∈ blocks, reservedEnd ≤ b) :
    Guarded G sb (a.freeAll blocks) m := by
  obtain ⟨hs, hu⟩ := BlockAllocator.freeAll_spec a blocks
  refine h.with_allocator hs fun b hb hbs => (hu b).mpr ⟨fun hm => ?_, hbs⟩
  have hle := hh b hm
  omega

end

end Guarded

lemma Transaction.fresh_spec (t : Transaction G sha v op) :
    t.fresh.Nodup ∧ BlockAllocator.Similar v.allocator t.taken ∧
      (∀ b ∈ t.fresh, v.allocator.inRange b = true ∧ v.allocator.isAllocated b = false) ∧
      ∀ b, t.taken.isAllocated b = true ↔ b ∈ t.fresh ∨ v.allocator.isAllocated b = true := by
  obtain ⟨fresh, hf, -, hn, hs, hw, hu⟩ := BlockAllocator.takeBlocks_spec t.takes
  rw [nil_append] at hf
  subst hf
  exact ⟨hn, hs, hw, hu⟩

namespace Laid

variable {v : Volume} {op : Op} {out : Outcome}

lemma fresh (h : Laid G sb v) (t : Transaction G sha v op) : ∀ b ∈ t.fresh, reservedEnd ≤ b ∧ b < totalBlocks G sb := by
  intro b hb
  obtain ⟨hr, hf⟩ := t.fresh_spec.2.2.1 b hb
  exact h.live.free hr hf

lemma changed (h : Laid G sb v) (t : Transaction G sha v op) : Laid G sb t.changed where
  live := by
    obtain ⟨-, hs, -, hu⟩ := t.fresh_spec
    have hl := h.live.with_allocator hs fun b _ hbs => (hu b).mpr (.inr hbs)
    refine { hl with normal := t.change.keysNormal h.live.normal, block := ?_ }
    rintro b ⟨k, e, hk, hb⟩
    rcases t.change.entry hk with ⟨k₀, hk₀⟩ | hbl
    · exact h.live.block b ⟨k₀, e, hk₀, hb⟩
    · exact h.fresh t b (hbl ▸ hb)
  snaps := h.snaps
  size := h.size
  inode := by
    change 2 ≤ t.nextInode
    obtain ⟨k, e, -, -, -, -, -, -, heq⟩ | ⟨k, e, -, -, -, -, heq⟩ | ⟨moves, -, -, -, -, heq⟩ := t.change.cases
    · exact heq ▸ UInt64.le_trans h.inode (le_satSucc _)
    · exact heq ▸ h.inode
    · exact heq ▸ h.inode
  time := by
    change 1 ≤ t.logicalTime
    rcases t.time with heq | heq
    · exact heq ▸ h.time
    · exact heq ▸ UInt64.le_trans h.time (le_satSucc _)

lemma with_inode (h : Laid G sb v) {inode time : UInt64} (hn : 2 ≤ inode) (ht : 1 ≤ time) :
    Laid G sb { v with nextInode := inode, logicalTime := time } :=
  ⟨h.live, h.snaps, h.size, hn, ht⟩

lemma with_freed (h : Laid G sb v) (hh : ∀ b ∈ blocks, reservedEnd ≤ b) :
    Laid G sb { v with allocator := v.allocator.freeAll blocks } :=
  ⟨h.live.freeAll hh, h.snaps, h.size, h.inode, h.time⟩

lemma backInode_le (n : UInt64) : 2 ≤ backInode n := le_max_right _ _

lemma transaction_time (h : Laid G sb v) (t : Transaction G sha v op) : 1 ≤ t.logicalTime := (h.changed t).time

lemma effect (h : Laid G sb v) (he : Effect G crc sha v op out) : Laid G sb out.volume := by
  cases he with
  | refused e => exact h
  | unwritten t n => exact h
  | uncommitted t e ws inode _ hn =>
    refine h.with_inode ?_ (h.transaction_time t)
    rcases hn with rfl | rfl
    · exact h.inode
    · exact backInode_le _
  | committed t next ws _ =>
    have hc := h.changed t
    have hst : Laid G sb { t.changed with generation := next } := ⟨hc.live, hc.snaps, hc.size, hc.inode, hc.time⟩
    refine hst.with_freed fun b hb => ?_
    exact (h.live.block b (t.change.old_mem (mem_of_mem_filter hb))).1
  | created _ =>
    refine ⟨h.live, fun s hs => ?_, h.size, h.inode, UInt64.le_trans h.time (le_satSucc _)⟩
    rcases mem_append.mp hs with hs | hs
    · exact h.snaps s hs
    · obtain rfl := mem_singleton.mp hs
      exact h.live
  | restored _ hs => exact ⟨h.snaps _ (mem_of_find?_eq_some hs), h.snaps, h.size, h.inode, h.time⟩
  | deleted _ hs =>
    rename_i id s _
    have hg := h.snaps s (mem_of_find?_eq_some hs)
    have hr : Laid G sb { v with snapshots := v.snapshots.eraseP fun s => s.id == id } :=
      ⟨h.live, fun s hs => h.snaps s (mem_of_mem_eraseP hs), h.size, h.inode, h.time⟩
    unfold deleteSnapshot
    rw [hs]
    refine hr.with_freed fun b hb => ?_
    obtain ⟨item, ht, hb⟩ := mem_flatMap.mp (mem_of_mem_filter hb)
    exact (hg.block b ⟨item.1, item.2, mem_toList.mp ht, hb⟩).1

end Laid

/-! ## Mounting -/

section

variable {d : Nat → Bytes} {options : MountOptions}

lemma mem_reservedBlocks : b ∈ reservedBlocks options ↔ b ∈ options.reservedBlocks ∨ b < reservedEnd := by
  simp only [reservedBlocks, mem_dedup, mem_insertionSort, mem_append, mem_range'_1]
  have he : reservedEnd = 65 := rfl
  split
  next hz =>
    simp only [not_mem_nil, or_false]
    constructor
    · rintro (h | h)
      · exact .inl h
      · exact .inr (by omega)
    · rintro (h | h)
      · exact .inl h
      · by_cases hb : b = 0
        · exact .inl (hb ▸ hz)
        · exact .inr (by omega)
  · simp only [mem_singleton]
    constructor
    · rintro ((h | h) | h)
      · exact .inl h
      · exact .inr (by omega)
      · exact .inr (by omega)
    · rintro (h | h)
      · exact .inl (.inl h)
      · by_cases hb : b = 0
        · exact .inl (.inr hb)
        · exact .inr (by omega)

lemma markReserved_spec (blocks : List Nat) : ∃ a', markReserved a blocks = .ok a' ∧ BlockAllocator.Similar a a' ∧
    ∀ b, a'.isAllocated b = true ↔ (b ∈ blocks ∧ a.inRange b = true) ∨ a.isAllocated b = true := by
  induction blocks generalizing a with
  | nil => exact ⟨a, rfl, .rfl, by simp⟩
  | cons block blocks ih =>
    unfold markReserved
    by_cases hr : a.inRange block = true
    · obtain ⟨a₁, heq, hs, hu⟩ := BlockAllocator.markUsedIdempotent_spec hr
      obtain ⟨a', heq', hs', hu'⟩ := @ih a₁
      rw [if_pos hr, heq]
      refine ⟨a', heq', hs.trans hs', fun b => ?_⟩
      rw [hu', hu, hs.inRange, mem_cons]
      constructor
      · rintro (⟨hb, hr'⟩ | rfl | hb)
        · exact .inl ⟨.inr hb, hr'⟩
        · exact .inl ⟨.inl rfl, hr⟩
        · exact .inr hb
      · rintro (⟨rfl | hb, hr'⟩ | hb)
        · exact .inr (.inl rfl)
        · exact .inl ⟨hb, hr'⟩
        · exact .inr (.inr hb)
    · obtain ⟨a', heq', hs', hu'⟩ := @ih a
      rw [if_neg hr]
      refine ⟨a', heq', hs', fun b => ?_⟩
      rw [hu', mem_cons]
      constructor
      · rintro (⟨hb, hr'⟩ | hb)
        · exact .inl ⟨.inr hb, hr'⟩
        · exact .inr hb
      · rintro (⟨rfl | hb, hr'⟩ | hb)
        · exact absurd hr' hr
        · exact .inl ⟨hb, hr'⟩
        · exact .inr hb

lemma markBlocks_spec (h : ∀ b ∈ blocks, a.inRange b = true ∧ reservedEnd ≤ b) :
    ∃ a', markBlocks a blocks = .ok a' ∧ BlockAllocator.Similar a a' ∧
      ∀ b, a'.isAllocated b = true ↔ b ∈ blocks ∨ a.isAllocated b = true := by
  induction blocks generalizing a with
  | nil => exact ⟨a, rfl, .rfl, by simp⟩
  | cons block blocks ih =>
    obtain ⟨hr, hh⟩ := h block mem_cons_self
    obtain ⟨a₁, heq, hs, hu⟩ := BlockAllocator.markUsedIdempotent_spec hr
    obtain ⟨a', heq', hs', hu'⟩ := @ih a₁ fun b hb => by
      rw [hs.inRange]
      exact h b (mem_cons_of_mem _ hb)
    refine ⟨a', ?_, hs.trans hs', fun b => ?_⟩
    · unfold markBlocks
      rw [if_neg (by simp [hr, hh]), heq]
      exact heq'
    · rw [hu', hu, mem_cons]
      tauto

lemma restoreEntries_spec {dir : DirectoryIndex} {items : List (Path × DirectoryEntry)}
    (hl : ∀ item ∈ items, ∀ b ∈ item.2.blocks, a.inRange b = true ∧ reservedEnd ≤ b)
    (hk : ∀ item ∈ items, NormalPath item.1) :
    ∃ a', restoreEntries a dir items = .ok (a', ⟨insertAll dir.entries items⟩) ∧ BlockAllocator.Similar a a' ∧
      ∀ b, a'.isAllocated b = true ↔ (∃ item ∈ items, b ∈ item.2.blocks) ∨ a.isAllocated b = true := by
  induction items generalizing a dir with
  | nil => exact ⟨a, rfl, .rfl, by simp⟩
  | cons item items ih =>
    obtain ⟨a₁, heq, hs, hu⟩ := markBlocks_spec (hl item mem_cons_self)
    obtain ⟨a', heq', hs', hu'⟩ := @ih a₁ (dir.insert item.1 item.2)
      (fun item' ht' b hb => by
        rw [hs.inRange]
        exact hl item' (mem_cons_of_mem _ ht') b hb)
      fun item' ht' => hk item' (mem_cons_of_mem _ ht')
    have hn : (dir.insert item.1 item.2).entries = dir.entries.insert item.1 item.2 := by
      rw [DirectoryIndex.insert, (hk item mem_cons_self).normalize_eq]
    refine ⟨a', ?_, hs.trans hs', fun b => ?_⟩
    · unfold restoreEntries
      rw [heq]
      change restoreEntries a₁ (dir.insert item.1 item.2) items = _
      rw [heq', hn]
      rfl
    · rw [hu', hu]
      simp only [mem_cons, exists_eq_or_imp]
      rw [or_left_comm, or_assoc]

/-- The volume on a device whose banks hold a state. -/
structure Recovered (G : Geometry) (sb : SuperBlock) (options : MountOptions) (st : MetadataState) (v : Volume) : Prop where
  directory : v.directory = ⟨st.entries⟩
  snapshots : v.snapshots = []
  nextSnapshot : v.nextSnapshot = 1
  reserved : v.options.reservedBlocks = reservedBlocks options
  nextInode : v.nextInode = st.nextInode
  logicalTime : v.logicalTime = st.logicalTime
  generation : v.generation = st.generation
  size : v.blockSize = if sb.blockSize = 0 then G.blockSize else sb.blockSize.toNat
  base : v.allocator.base = 1
  total : v.allocator.total = totalBlocks G sb - 1
  used : ∀ b, v.allocator.isAllocated b = true ↔ v.allocator.inRange b = true ∧
    (b ∈ reservedBlocks options ∨ HasBlock st.entries b)

lemma assemble_spec {o : Option MetadataState} {st : MetadataState} (hl : load G crc d = .ok o)
    (hst : o.getD ⟨0, ∅, 2, 1⟩ = st) (hy : KeysNormal st.entries)
    (hbl : ∀ b, HasBlock st.entries b → reservedEnd ≤ b ∧ b < totalBlocks G sb) :
    ∃ v, assemble G crc d sb options = .ok v ∧ Recovered G sb options st v := by
  have hbn := totalBlocks_bounds G sb
  obtain ⟨a₁, hrr, hs₁, hu₁⟩ := @markReserved_spec
    (.new 1 (totalBlocks G sb - 1) (by omega)) (reservedBlocks options)
  have hrn₁ : ∀ b, a₁.inRange b = true ↔ 1 ≤ b ∧ b < totalBlocks G sb := by
    intro b
    rw [hs₁.inRange, BlockAllocator.inRange_iff]
    simp only [BlockAllocator.new]
    omega
  have hn : ∀ b, (BlockAllocator.new 1 (totalBlocks G sb - 1) (by omega)).isAllocated b = false := by
    intro b
    simp [BlockAllocator.isAllocated, BlockAllocator.new]
  obtain ⟨a₂, hrt, hs₂, hu₂⟩ := @restoreEntries_spec a₁ .new st.entries.toList
    (fun item ht b hb => by
      obtain ⟨hg, hlt⟩ := hbl b ⟨item.1, item.2, mem_toList.mp ht, hb⟩
      have he : reservedEnd = 65 := rfl
      exact ⟨(hrn₁ b).mpr ⟨by omega, hlt⟩, hg⟩)
    fun item ht => hy item.1 item.2 (mem_toList.mp ht)
  have het : insertAll DirectoryIndex.new.entries st.entries.toList = st.entries := insertAll_toList st.entries
  rw [het] at hrt
  have ha : assemble G crc d sb options = .ok
      { allocator := a₂
        directory := ⟨st.entries⟩
        snapshots := []
        nextSnapshot := 1
        options := { options with reservedBlocks := reservedBlocks options }
        blockSize := if sb.blockSize = 0 then G.blockSize else sb.blockSize.toNat
        nextInode := st.nextInode
        logicalTime := st.logicalTime
        generation := st.generation } := by
    unfold assemble
    simp only [hrr, hl, bind, Except.bind, hst, hrt, pure, Except.pure]
  refine ⟨_, ha, rfl, rfl, rfl, rfl, rfl, rfl, rfl, rfl, ?_, ?_, fun b => ?_⟩
  · exact hs₂.1.trans hs₁.1
  · exact hs₂.2.trans hs₁.2
  · change a₂.isAllocated b = true ↔ a₂.inRange b = true ∧ _
    rw [hu₂, hu₁, hs₂.inRange, hrn₁, hn b]
    have hin : (BlockAllocator.new 1 (totalBlocks G sb - 1) (by omega)).inRange b = true ↔
        1 ≤ b ∧ b < totalBlocks G sb := by rw [← hs₁.inRange, hrn₁]
    rw [hin]
    constructor
    · rintro (⟨item, ht, hb⟩ | ⟨hrs, hr⟩ | ho)
      · have hh : HasBlock st.entries b := ⟨item.1, item.2, mem_toList.mp ht, hb⟩
        obtain ⟨hg, hlt⟩ := hbl b hh
        have he : reservedEnd = 65 := rfl
        exact ⟨⟨by omega, hlt⟩, .inr hh⟩
      · exact ⟨hr, .inl hrs⟩
      · cases ho
    · rintro ⟨hr, hrs | ⟨k, e, hk, hb⟩⟩
      · exact .inr (.inl ⟨hrs, hr⟩)
      · exact .inl ⟨(k, e), mem_toList.mpr hk, hb⟩

lemma Recovered.laid (h : Recovered G sb options st v) (hk : KeysNormal st.entries)
    (hb : ∀ b, HasBlock st.entries b → reservedEnd ≤ b ∧ b < totalBlocks G sb)
    (hs : sb.blockSize = 0 ∨ sb.blockSize.toNat = G.blockSize) (hn : 2 ≤ st.nextInode)
    (ht : 1 ≤ st.logicalTime) : Laid G sb v where
  live := by
    refine ⟨h.base, h.total, fun b hp hl => ?_, by rw [h.directory]; exact hk,
      by rw [h.directory]; exact hb⟩
    have hbn := totalBlocks_bounds G sb
    refine (h.used b).mpr ⟨?_, .inl (mem_reservedBlocks.mpr (.inr hl))⟩
    rw [BlockAllocator.inRange_iff, h.base, h.total]
    omega
  snaps := by simp [h.snapshots]
  size := by
    rw [h.size]
    rcases hs with hz | heq
    · rw [if_pos hz]
    · split
      · rfl
      · exact heq
  inode := h.nextInode ▸ hn
  time := h.logicalTime ▸ ht

end

end ZeroOS.Fs
