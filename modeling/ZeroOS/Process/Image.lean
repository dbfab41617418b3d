import ZeroOS.Lib.Loop
import ZeroOS.Memory.Paging

/-!
# Loading an image

The two loops that map the segments of an image, page by page: `map_user_elf_segments_from_bytes` for
a program, `map_shared_library_segments` for a library. They differ in where a page comes from. The
pages of a library that are not writable are kept in a cache, and every process gets the same ones.

A space is a map from page numbers to the pages that were mapped: a slot that is empty and one that
holds the filler of `create_user_address_space` look the same to the loader. A page that has been
allocated is nobody else's, so its bytes are a part of the mapping. What cannot be foreseen is whether
the allocator has a page, for a page of the image or for a table on the way to it.
-/

namespace ZeroOS.Process

open Function List Loop Memory

structure UserElfSegment where
  vaddr : Nat
  offset : Nat
  filesz : Nat
  memsz : Nat
  flags : BitVec 32

def pfX : BitVec 32 := 1

def pfW : BitVec 32 := 2

/-- A page as it is mapped: `map_user_phys_page` makes it writable for EL0, or not, and executable. -/
structure Leaf where
  bytes : Nat → BitVec 8
  writable : Bool
  executable : Bool

structure SharedLibraryPage where
  name : String
  relPage : Nat
  bytes : Nat → BitVec 8

structure Loader where
  space : Nat → Option Leaf
  cache : List SharedLibraryPage

/-- What the allocator refuses, by virtual address. -/
structure Shortage where
  page : Nat → Bool
  table : Nat → Bool

/-- A `usize` is less. -/
def usizeSize : Nat := 2 ^ 64

/-- `align_up` to a page, which wraps. -/
def alignUp (value : Nat) : Nat := (value + (pageSize - 1)) % usizeSize / pageSize * pageSize

namespace UserElfSegment

variable (seg : UserElfSegment) (bias : Nat)

/-- A segment with a `.bss` is writable, whatever its flags say. -/
def writable : Bool := seg.flags &&& pfW != 0 || decide (seg.filesz < seg.memsz)

def executable : Bool := seg.flags &&& pfX != 0

def start : Nat := bias + seg.vaddr

def stop : Nat := seg.start bias + seg.memsz

def pageStart : Nat := seg.start bias / pageSize * pageSize

def pages : List Nat := (range ((alignUp (seg.stop bias) - seg.pageStart bias) / pageSize)).map fun i =>
    seg.pageStart bias + i * pageSize

/-- The bytes of the page at `va`: zeroes, and over them what the file has for it. -/
def pageBytes (file : List (BitVec 8)) (va off : Nat) : BitVec 8 :=
  let copyStart := max (seg.start bias) va
  let copyEnd := min (seg.start bias + seg.filesz) ((va + pageSize) % usizeSize)
  let srcOff := copyStart - seg.start bias
  let dstOff := copyStart - va
  if copyStart < copyEnd ∧ dstOff ≤ off ∧ off < dstOff + (copyEnd - copyStart) then
    file.getD (seg.offset + srcOff + (off - dstOff)) 0
  else 0

end UserElfSegment

/-- Where the bytes of a page come from: whether it is writable, what it would hold, its address. -/
abbrev Fetch := Bool → (Nat → BitVec 8) → Nat → Loader → Except MapError (Nat → BitVec 8) × Loader

def fetchNew (short : Shortage) : Fetch := fun _ fresh va l =>
  if short.page va then (.error .outOfMemory, l) else (.ok fresh, l)

def fetchShared (short : Shortage) (name : String) (bias : Nat) : Fetch := fun writable fresh va l =>
  if va < bias then (.error .kernelRegion, l)
  else if writable then fetchNew short writable fresh va l
  else
    match l.cache.find? fun p => p.name = name ∧ p.relPage = va - bias with
    | some hit => (.ok hit.bytes, l)
    | none =>
      if short.page va then (.error .outOfMemory, l)
      else (.ok fresh, { l with cache := l.cache ++ [⟨name, va - bias, fresh⟩] })

/-- `map_page_phys`. -/
def Loader.mapPage (short : Shortage) (va : Nat) (leaf : Leaf) (l : Loader) : Except MapError Unit × Loader :=
  if l0Idx (vpn va) = 0 ∧ isKernelSharedL1 (l1Idx (vpn va)) then (.error .kernelRegion, l)
  else if short.table va then (.error .outOfMemory, l)
  else
    match l.space (vpn va) with
    | some _ => (.error .alreadyMapped, l)
    | none => (.ok (), { l with space := update l.space (vpn va) (some leaf) })

section

variable (fetch : Fetch) (short : Shortage) (file : List (BitVec 8)) (bias : Nat)

def mapSegmentPage (seg : UserElfSegment) (va : Nat) (l : Loader) : Except MapError Unit × Loader :=
  match fetch seg.writable (seg.pageBytes bias file va) va l with
  | (.error e, l') => (.error e, l')
  | (.ok bytes, l') => l'.mapPage short va ⟨bytes, seg.writable, seg.executable⟩

def mapSegment (seg : UserElfSegment) (l : Loader) : Except MapError Unit × Loader :=
  if seg.memsz = 0 then (.ok (), l)
  else if usizeSize ≤ seg.start bias ∨ usizeSize ≤ seg.stop bias then (.error .kernelRegion, l)
  else tryEach (mapSegmentPage fetch short file bias seg) (seg.pages bias) l

end

def mapSharedLibrarySegments (short : Shortage) (file : List (BitVec 8)) (name : String) (bias : Nat)
    (segs : List UserElfSegment) (l : Loader) : Except MapError Unit × Loader :=
  tryEach (mapSegment (fetchShared short name bias) short file bias) segs l

/-! ## What a pass does -/

variable {file : List (BitVec 8)} {bias va : Nat}
  {seg : UserElfSegment} {segs : List UserElfSegment}

/-- Fetching a page leaves the space alone. -/
def Quiet (fetch : Fetch) : Prop := ∀ w fresh va l, (fetch w fresh va l).2.space = l.space

lemma quiet_new : Quiet (fetchNew short) := by
  intro w fresh va l
  unfold fetchNew
  split <;> rfl

lemma mapSegmentPage_space (ht : Quiet fetch) (short : Shortage) (file : List (BitVec 8))
    (bias : Nat) (seg : UserElfSegment) (va : Nat) (l : Loader) :
    ((mapSegmentPage fetch short file bias seg va l).2.space = l.space ∧
      (mapSegmentPage fetch short file bias seg va l).1 ≠ .ok ()) ∨
    ∃ bytes, (fetch seg.writable (seg.pageBytes bias file va) va l).1 = .ok bytes ∧ l.space (vpn va) = none ∧
      (mapSegmentPage fetch short file bias seg va l).2.space =
        update l.space (vpn va) (some ⟨bytes, seg.writable, seg.executable⟩) := by
  have hq := ht seg.writable (seg.pageBytes bias file va) va l
  unfold mapSegmentPage
  split
  next e l' heq =>
    rw [heq] at hq
    exact .inl ⟨hq, nofun⟩
  next bytes l' heq =>
    rw [heq] at hq
    unfold Loader.mapPage
    split_ifs
    · exact .inl ⟨hq, nofun⟩
    · exact .inl ⟨hq, nofun⟩
    · split
      · exact .inl ⟨hq, nofun⟩
      next hf => exact .inr ⟨bytes, by rw [heq], hq ▸ hf, by rw [hq]⟩

/-! ## Rights -/

/-- The page at `va` is mapped, with the bytes of the segment. -/
def Filled (file : List (BitVec 8)) (bias : Nat) (seg : UserElfSegment) (va : Nat) (l : Loader) : Prop :=
  ∃ leaf, l.space (vpn va) = some leaf ∧ leaf.bytes = seg.pageBytes bias file va

lemma Filled.mapSegmentPage (h : Filled file bias seg va l) :
    Filled file bias seg va (mapSegmentPage (fetchNew short) short file bias other va' l).2 := by
  obtain ⟨leaf, hl, hb⟩ := h
  obtain ⟨hs, -⟩ | ⟨bytes, -, hf, hn⟩ := mapSegmentPage_space quiet_new short file bias other va' l
  · exact ⟨leaf, hs ▸ hl, hb⟩
  · have hne : vpn va ≠ vpn va' := fun heq => by
      rw [heq, hf] at hl
      cases hl
    exact ⟨leaf, by rw [hn, update_of_ne hne, hl], hb⟩

lemma Filled.mapSegment (h : Filled file bias seg va l) :
    Filled file bias seg va (mapSegment (fetchNew short) short file bias other l).2 := by
  unfold Process.mapSegment
  split_ifs
  · exact h
  · exact h
  · exact tryEach_keeps (fun _ _ _ h => h.mapSegmentPage) h

end ZeroOS.Process
