import Mathlib

/-!
# The block allocator

A bitmap over the blocks `base .. base + total` of a device, with a count of the bits that are clear.
A bitmap is here the set of its bits that are set. The first clear bit is the one `allocate` takes; it
looks at whole words of the bitmap, so at bits behind the last block too, and then finds that the block
is out of bounds.

An allocator carries the fact that its count is right, and that no bit behind the last block is set.
-/

namespace ZeroOS.Fs

open Finset

inductive AllocError
  | noSpace
  | outOfBounds
  | doubleAlloc
  | notAllocated
  deriving DecidableEq, Repr

structure BlockAllocator where
  base : Nat
  total : Nat
  freeCount : Nat
  bitmap : Finset Nat
  bit_lt : ∀ i ∈ bitmap, i < total
  freeCount_add : freeCount + bitmap.card = total
  fits : base + total < 2 ^ 64

namespace BlockAllocator

def new (base total : Nat) (fits : base + total < 2 ^ 64) : BlockAllocator where
  base := base
  total := total
  freeCount := total
  bitmap := ∅
  bit_lt := by simp
  freeCount_add := by simp
  fits := fits

variable (a : BlockAllocator)

/-- `base.saturating_add(total)`. -/
def limit : Nat := min (a.base + a.total) (2 ^ 64 - 1)

def inRange (block : Nat) : Bool := decide (a.base ≤ block) && decide (block < a.limit)

def setBit (i : Nat) (hlt : i < a.total) (hclear : i ∉ a.bitmap) : BlockAllocator where
  base := a.base
  total := a.total
  freeCount := a.freeCount - 1
  bitmap := insert i a.bitmap
  bit_lt := by
    intro j hj
    rcases mem_insert.mp hj with rfl | hj
    · exact hlt
    · exact a.bit_lt j hj
  freeCount_add := by
    have hsub : insert i a.bitmap ⊆ Finset.range a.total := by
      intro j hj
      rcases mem_insert.mp hj with rfl | hj
      · exact mem_range.mpr hlt
      · exact mem_range.mpr (a.bit_lt j hj)
    have hle := Finset.card_le_card hsub
    rw [card_range] at hle
    rw [card_insert_of_notMem hclear] at hle ⊢
    have hcount := a.freeCount_add
    omega
  fits := a.fits

def clearBit (i : Nat) (hset : i ∈ a.bitmap) : BlockAllocator where
  base := a.base
  total := a.total
  freeCount := a.freeCount + 1
  bitmap := a.bitmap.erase i
  bit_lt := fun j hj => a.bit_lt j (Finset.mem_of_mem_erase hj)
  freeCount_add := by
    have hcard := Finset.card_erase_add_one hset
    have hcount := a.freeCount_add
    omega
  fits := a.fits

lemma lt_total_of_lt_limit (h : a.base + i < a.limit) : i < a.total := by
  unfold limit at h
  omega

/-- The first bit of the words of the bitmap that is clear. -/
def freeBit : Option Nat := (List.range (64 * ((a.total + 63) / 64))).find? fun i => decide (i ∉ a.bitmap)

lemma freeBit_clear (h : a.freeBit = some i) : i ∉ a.bitmap := by
  have hc := List.find?_some h
  simpa using hc

def allocate : Except AllocError (Nat × BlockAllocator) :=
  if a.freeCount = 0 then .error .noSpace
  else match h : a.freeBit with
    | none => .error .noSpace
    | some i =>
      if 2 ^ 64 ≤ a.base + i then .error .outOfBounds
      else if hlt : a.base + i < a.limit then
        .ok (a.base + i, a.setBit i (a.lt_total_of_lt_limit hlt) (a.freeBit_clear h))
      else .error .outOfBounds

def free (block : Nat) : Except AllocError BlockAllocator :=
  if a.inRange block = false then .error .outOfBounds
  else if h : block - a.base ∈ a.bitmap then .ok (a.clearBit _ h)
  else .error .notAllocated

lemma offset_lt_total (h : a.inRange block = true) : block - a.base < a.total := by
  simp only [inRange, Bool.and_eq_true, decide_eq_true_eq] at h
  unfold limit at h
  omega

def markUsed (block : Nat) : Except AllocError BlockAllocator :=
  if hr : a.inRange block = true then
    if h : block - a.base ∈ a.bitmap then .error .doubleAlloc
    else .ok (a.setBit _ (a.offset_lt_total hr) h)
  else .error .outOfBounds

def markUsedIdempotent (block : Nat) : Except AllocError BlockAllocator :=
  if a.inRange block = false then .error .outOfBounds
  else if block - a.base ∉ a.bitmap then a.markUsed block
  else .ok a

def isAllocated (block : Nat) : Bool := a.inRange block && decide (block - a.base ∈ a.bitmap)

/-- A free whose error is dropped. -/
def tryFree (block : Nat) : BlockAllocator :=
  match a.free block with
  | .ok a' => a'
  | .error _ => a

/-- Some blocks are given back, one after the other. -/
def freeAll (blocks : List Nat) : BlockAllocator := blocks.foldl tryFree a

/-- The loop of `write_file` that takes blocks. If there are not enough, those taken so far are given
back. -/
def takeBlocks (a : BlockAllocator) : Nat → List Nat → Except BlockAllocator (List Nat × BlockAllocator)
  | 0, blocks => .ok (blocks, a)
  | n + 1, blocks =>
    match a.allocate with
    | .ok (block, a') => takeBlocks a' n (blocks ++ [block])
    | .error _ => .error (a.freeAll blocks)

/-! ## Allocators as sets of blocks -/

def Similar (a a' : BlockAllocator) : Prop := a'.base = a.base ∧ a'.total = a.total

variable {a}

lemma Similar.rfl : Similar a a := ⟨Eq.refl _, Eq.refl _⟩

lemma Similar.trans (h : Similar a a') (h' : Similar a' a'') : Similar a a'' := ⟨h'.1.trans h.1, h'.2.trans h.2⟩

lemma inRange_iff : a.inRange block = true ↔ a.base ≤ block ∧ block < a.base + a.total := by
  have hf := a.fits
  simp only [inRange, Bool.and_eq_true, decide_eq_true_eq]
  unfold limit
  omega

lemma Similar.inRange (h : Similar a a') : a'.inRange block = a.inRange block := by
  rw [Bool.eq_iff_iff, inRange_iff, inRange_iff, h.1, h.2]

lemma isAllocated_iff : a.isAllocated block = true ↔ a.inRange block = true ∧ block - a.base ∈ a.bitmap := by
  simp [isAllocated]

lemma mem_bitmap_iff : i ∈ a.bitmap ↔ a.isAllocated (a.base + i) = true := by
  rw [isAllocated_iff, inRange_iff, Nat.add_sub_cancel_left]
  refine ⟨fun h => ⟨?_, h⟩, fun h => h.2⟩
  have hlt := a.bit_lt i h
  omega

/-- An allocator is the set of the blocks in use. -/
lemma ext_isAllocated (h : Similar a a') (hu : ∀ b, a'.isAllocated b = a.isAllocated b) : a' = a := by
  have hb : a'.bitmap = a.bitmap := by
    ext i
    rw [mem_bitmap_iff, mem_bitmap_iff, h.1, hu]
  have hc : a'.freeCount = a.freeCount := by
    have h1 := a.freeCount_add
    have h2 := a'.freeCount_add
    have h3 := h.2
    rw [hb] at h2
    omega
  cases a
  cases a'
  simp only [Similar] at h
  obtain ⟨rfl, rfl⟩ := h
  simp_all

lemma isAllocated_setBit (hlt : i < a.total) (hc : i ∉ a.bitmap) :
    (a.setBit i hlt hc).isAllocated b = true ↔ b = a.base + i ∨ a.isAllocated b = true := by
  rw [isAllocated_iff, isAllocated_iff, inRange_iff, inRange_iff]
  simp only [setBit, mem_insert]
  constructor
  · rintro ⟨hr, rfl | h⟩
    · exact .inl (by omega)
    · exact .inr ⟨hr, h⟩
  · rintro (rfl | ⟨hr, h⟩)
    · exact ⟨by omega, .inl (by omega)⟩
    · exact ⟨hr, .inr h⟩

lemma isAllocated_clearBit (hs : i ∈ a.bitmap) :
    (a.clearBit i hs).isAllocated b = true ↔ b ≠ a.base + i ∧ a.isAllocated b = true := by
  rw [isAllocated_iff, isAllocated_iff, inRange_iff, inRange_iff]
  simp only [clearBit, mem_erase]
  constructor
  · rintro ⟨hr, hne, h⟩
    exact ⟨by omega, hr, h⟩
  · rintro ⟨hne, hr, h⟩
    exact ⟨hr, by omega, h⟩

lemma allocate_spec (h : a.allocate = .ok (block, a')) :
    Similar a a' ∧ a.inRange block = true ∧ a.isAllocated block = false ∧
      ∀ b, a'.isAllocated b = true ↔ b = block ∨ a.isAllocated b = true := by
  unfold allocate at h
  split at h
  · cases h
  split at h
  · cases h
  next i hi =>
    split at h
    · cases h
    split at h
    next hlt =>
      cases h
      have hc := a.freeBit_clear hi
      refine ⟨⟨rfl, rfl⟩, ?_, ?_, fun b => isAllocated_setBit ..⟩
      · rw [inRange_iff]
        have ht := a.lt_total_of_lt_limit hlt
        omega
      · rw [Bool.eq_false_iff, Ne, isAllocated_iff, Nat.add_sub_cancel_left]
        exact fun h => hc h.2
    · cases h

lemma tryFree_spec (a : BlockAllocator) (block : Nat) : Similar a (a.tryFree block) ∧
    ∀ b, (a.tryFree block).isAllocated b = true ↔ b ≠ block ∧ a.isAllocated b = true := by
  have hs : a.isAllocated block = false → Similar a a ∧ ∀ b, a.isAllocated b = true ↔ b ≠ block ∧ a.isAllocated b = true := by
    intro hf
    refine ⟨.rfl, fun b => ⟨fun h => ⟨?_, h⟩, fun h => h.2⟩⟩
    rintro rfl
    rw [h] at hf
    cases hf
  unfold tryFree free
  by_cases hr : a.inRange block = true
  · rw [if_neg (by simp [hr])]
    by_cases hb : block - a.base ∈ a.bitmap
    · rw [dif_pos hb]
      refine ⟨⟨rfl, rfl⟩, fun b => ?_⟩
      rw [inRange_iff] at hr
      rw [isAllocated_clearBit hb, Nat.add_sub_cancel' hr.1]
    · rw [dif_neg hb]
      exact hs (by simp [isAllocated, hb])
  · rw [if_pos (by simpa using hr)]
    exact hs (by simp [isAllocated, hr])

lemma freeAll_spec (a : BlockAllocator) (blocks : List Nat) : Similar a (a.freeAll blocks) ∧
    ∀ b, (a.freeAll blocks).isAllocated b = true ↔ b ∉ blocks ∧ a.isAllocated b = true := by
  induction blocks generalizing a with
  | nil => exact ⟨.rfl, by simp [freeAll]⟩
  | cons block blocks ih =>
    obtain ⟨hs, hf⟩ := tryFree_spec a block
    obtain ⟨hs', hr⟩ := ih (a.tryFree block)
    refine ⟨hs.trans hs', fun b => (hr b).trans ?_⟩
    rw [hf, List.mem_cons]
    tauto

lemma markUsedIdempotent_spec (hr : a.inRange block = true) : ∃ a', a.markUsedIdempotent block = .ok a' ∧
    Similar a a' ∧ ∀ b, a'.isAllocated b = true ↔ b = block ∨ a.isAllocated b = true := by
  unfold markUsedIdempotent
  rw [if_neg (by simp [hr])]
  by_cases hb : block - a.base ∈ a.bitmap
  · rw [if_neg (not_not_intro hb)]
    refine ⟨a, rfl, .rfl, fun b => ⟨.inr, ?_⟩⟩
    rintro (rfl | h)
    · exact isAllocated_iff.mpr ⟨hr, hb⟩
    · exact h
  · rw [if_pos hb, markUsed, dif_pos hr, dif_neg hb]
    refine ⟨_, rfl, ⟨rfl, rfl⟩, fun b => ?_⟩
    rw [isAllocated_setBit, Nat.add_sub_cancel' (inRange_iff.mp hr).1]

lemma takeBlocks_spec (h : a.takeBlocks n taken = .ok (blocks, a')) :
    ∃ fresh, blocks = taken ++ fresh ∧ fresh.length = n ∧ fresh.Nodup ∧ Similar a a' ∧
      (∀ b ∈ fresh, a.inRange b = true ∧ a.isAllocated b = false) ∧
      ∀ b, a'.isAllocated b = true ↔ b ∈ fresh ∨ a.isAllocated b = true := by
  induction n generalizing a taken with
  | zero =>
    cases h
    exact ⟨[], by simp, rfl, List.nodup_nil, .rfl, by simp, by simp⟩
  | succ n ih =>
    simp only [takeBlocks] at h
    split at h
    next block a₁ ha =>
      obtain ⟨hs, hrn, hfr, hu⟩ := allocate_spec ha
      obtain ⟨fresh, rfl, hl, hn, hs', hfs, hu'⟩ := ih h
      refine ⟨block :: fresh, by simp, by simp [hl], List.nodup_cons.mpr ⟨fun hm => ?_, hn⟩, hs.trans hs', ?_, fun b => ?_⟩
      · have hbs := (hu block).mpr (.inl rfl)
        rw [(hfs block hm).2] at hbs
        cases hbs
      · intro b hb
        rcases List.mem_cons.mp hb with rfl | hb
        · exact ⟨hrn, hfr⟩
        · obtain ⟨hr, hf⟩ := hfs b hb
          refine ⟨hs.inRange ▸ hr, Bool.eq_false_iff.mpr fun hbs => ?_⟩
          rw [(hu b).mpr (.inr hbs)] at hf
          cases hf
      · rw [hu', hu, List.mem_cons]
        tauto
    · cases h

/-- Failing to take blocks changes nothing. -/
lemma takeBlocks_error (h : a.takeBlocks n taken = .error a')
    (hs₀ : Similar a₀ a) (hn : ∀ b ∈ taken, a₀.isAllocated b = false)
    (hu₀ : ∀ b, a.isAllocated b = true ↔ b ∈ taken ∨ a₀.isAllocated b = true) : a' = a₀ := by
  induction n generalizing a taken with
  | zero => cases h
  | succ n ih =>
    simp only [takeBlocks] at h
    split at h
    next block a₁ ha =>
      obtain ⟨hs, -, hf, hu⟩ := allocate_spec ha
      refine ih h (hs₀.trans hs) ?_ ?_
      · intro b hb
        rcases List.mem_append.mp hb with hb | hb
        · exact hn b hb
        · obtain rfl : b = block := by simpa using hb
          refine Bool.eq_false_iff.mpr fun hbs => ?_
          rw [(hu₀ b).mpr (.inr hbs)] at hf
          cases hf
      · intro b
        rw [hu, hu₀, List.mem_append, List.mem_singleton]
        tauto
    · cases h
      obtain ⟨hs, hu⟩ := freeAll_spec a taken
      refine ext_isAllocated (hs₀.trans hs) fun b => ?_
      rw [Bool.eq_iff_iff, hu, hu₀]
      refine ⟨fun h => h.2.resolve_left h.1, fun h => ⟨fun hb => ?_, .inr h⟩⟩
      rw [hn b hb] at h
      cases h

lemma freeAll_takeBlocks (h : a.takeBlocks n [] = .ok (blocks, a')) : a'.freeAll blocks = a := by
  obtain ⟨fresh, hl, -, -, hs, hf, hu⟩ := takeBlocks_spec h
  obtain rfl : blocks = fresh := hl
  obtain ⟨hs', hu'⟩ := freeAll_spec a' blocks
  refine ext_isAllocated (hs.trans hs') fun b => ?_
  rw [Bool.eq_iff_iff, hu', hu]
  refine ⟨fun h => h.2.resolve_left h.1, fun h => ⟨fun hb => ?_, .inr h⟩⟩
  rw [(hf b hb).2] at h
  cases h

end BlockAllocator

end ZeroOS.Fs
