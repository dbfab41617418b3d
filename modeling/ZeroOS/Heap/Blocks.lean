import ZeroOS.Lib.Segment
import ZeroOS.Lib.Tiling

/-!
# Blocks with boundary tags

The kernel heap and the heap of a user process keep their memory in the same way. The area is cut
into blocks. A block begins with a header and ends with a footer, both hold its size, and the lowest
bit of both says whether the block is free. The second word of a free block links it to the next free
block. The word before the pointer that was handed out holds the start of the block it is in.

The two heaps differ in how they write "no block" (`null`), in what their addresses count from
(`base`), and in the checks they make. What they share is here: the words, the search for a block that
is large enough, and the end of a deallocation, where the merged block is linked in.
-/

namespace ZeroOS.Heap

open Function List Option Segment Tiling Nat

variable {size : Nat}

/-- The words of the area. Every address the heaps read or write is a multiple of eight. -/
abbrev Mem := Nat → Nat

/-- `core::alloc::Layout`: `align` is a power of two, and `size` rounded up to it is an `isize`. -/
structure Layout where
  size : Nat
  align : Nat
  isPow : ∃ k, align = 2 ^ k
  fits : size + align ≤ 2 ^ 63

def heapAlign : Nat := 16

def header : Nat := 16

def footer : Nat := 8

/-- `MIN_FREE`, `MIN_BLOCK` in the user heap. -/
def minFree : Nat := header + heapAlign + footer

def freeFlag : Nat := 1

/-- Addition of two `usize`. -/
def addUsize (a b : Nat) : Nat := (a + b) % 2 ^ 64

/-- Subtraction of two `usize`. -/
def subUsize (a b : Nat) : Nat := (a + (2 ^ 64 - b)) % 2 ^ 64

/-- `align_up`. The complement of `align - 1` is `2 ^ 64 - align`. -/
def alignUp (value align : Nat) : Nat := (value + align - 1) % 2 ^ 64 &&& (2 ^ 64 - align)

/-- `align_up(HEADER + pad + payload + FOOTER, HEAP_ALIGN)`: what an allocation takes of a block. -/
def usedSize (pad payload : Nat) : Nat := alignUp (addUsize (addUsize (addUsize header pad) payload) footer) heapAlign

/-- `w & FREE_FLAG != 0`. -/
def isFree (w : Nat) : Bool := w &&& freeFlag != 0

/-- `w & !FREE_FLAG`. -/
def sizeBits (w : Nat) : Nat := w &&& (2 ^ 64 - 2)

/-- What ends an operation without a result: the assertions of the kernel heap, and a walk over a
free list that does not come to an end. -/
inductive Fault
  | spins
  | deallocNull
  | outsideHeap
  | corruptedBackPointer
  | doubleFree
  | corruptedBlockSize
  | corruptNextBlock
  | regionTooSmall
  | startNotAligned
  | sizeNotAligned
  deriving DecidableEq, Repr

/-- The area and the head of its free list. -/
structure Area where
  mem : Mem
  head : Nat

namespace Area

variable (h : Area)

def writeHeader (block size next : Nat) : Area :=
  { h with mem := update (update h.mem block (size ||| freeFlag)) (block + 8) next }

def writeHeaderUsed (block size : Nat) : Area := { h with mem := update h.mem block size }

def writeBack (ptr block : Nat) : Area := { h with mem := update h.mem (ptr - 8) block }

def readBack (ptr : Nat) : Nat := h.mem (ptr - 8)

def writeFooter (block size : Nat) : Area :=
  { h with mem := update h.mem (block + size - footer) (size ||| freeFlag) }

def writeFooterUsed (block size : Nat) : Area :=
  { h with mem := update h.mem (block + size - footer) size }

def writeNext (block next : Nat) : Area := { h with mem := update h.mem (block + 8) next }

def blockSize (block : Nat) : Nat := sizeBits (h.mem block)

def blockNext (block : Nat) : Nat := h.mem (block + 8)

/-- The block leaves the free list. -/
def unlink (null prev cur : Nat) : Area :=
  if prev = null then { h with head := h.blockNext cur } else h.writeNext prev (h.blockNext cur)

/-- What is left of a block after its first `used` bytes becomes a free block, unless it is too
small for one. With the heap comes the size the block is left with. -/
def split (cur size used : Nat) : Area × Nat :=
  if minFree ≤ size - used then
    ({ (h.writeHeader (cur + used) (size - used) h.head).writeFooter (cur + used) (size - used) with
        head := cur + used }, used)
  else (h, size)

/-- The block is marked as used. -/
def commit (cur size ptr : Nat) : Area := ((h.writeHeaderUsed cur size).writeBack ptr cur).writeFooterUsed cur size

def take (null prev cur used ptr : Nat) : Area :=
  let out := (h.unlink null prev cur).split cur (h.blockSize cur) used
  out.1.commit cur out.2 ptr

/-- The search for a block in `alloc`: the first one that is large enough. `pad` is what a block has
to leave out before the payload. -/
def allocLoop (null : Nat) (pad : Nat → Nat) (payload : Nat) :
    Nat → Nat → Nat → Except Fault (Area × Option Nat)
  | 0, _, _ => .error .spins
  | fuel + 1, prev, cur =>
    if cur = null then .ok (h, none)
    else
      let used := usedSize (pad cur) payload
      if used ≤ h.blockSize cur then
        let ptr := cur + header + pad cur
        .ok (h.take null prev cur used ptr, some ptr)
      else allocLoop null pad payload fuel cur (h.blockNext cur)

end Area

/-- The walk over the free list in `dealloc`: nodes that are in the merged block are left out. The
result is the heap, the first node that is kept and the last one. -/
def relink (null lo hi : Nat) : Nat → Area → Nat → Nat → Nat → Except Fault (Area × Nat × Nat)
  | 0, _, _, _, _ => .error .spins
  | fuel + 1, h, newHead, lastKept, cur =>
    if cur = null then .ok (h, newHead, lastKept)
    else
      let next := h.blockNext cur
      if cur < lo ∨ hi ≤ cur then
        if lastKept ≠ null then relink null lo hi fuel (h.writeNext lastKept cur) newHead cur next
        else relink null lo hi fuel h cur cur next
      else relink null lo hi fuel h newHead lastKept next

/-- The end of `dealloc`: the merged block takes the place of the free blocks in it. -/
def Area.release (null mergedStart mergedSize fuel : Nat) (h : Area) : Except Fault Area := do
  let (h, newHead, lastKept) ←
    relink null mergedStart (mergedStart + mergedSize) fuel h null null h.head
  let h := if lastKept ≠ null then h.writeNext lastKept null else h
  return (({ h.writeHeader mergedStart mergedSize newHead with head := mergedStart }).writeFooter
    mergedStart mergedSize)

/-! ## Arithmetic -/

lemma land_two_pow_sub {x k : Nat} (hk : k ≤ 64) (hx : x < 2 ^ 64) :
    x &&& (2 ^ 64 - 2 ^ k) = x / 2 ^ k * 2 ^ k := by
  have hm : 2 ^ 64 - 2 ^ k = 2 ^ k * (2 ^ (64 - k) - 1) := by rw [Nat.mul_sub_one, ← pow_add, Nat.add_sub_cancel' hk]
  apply Nat.eq_of_testBit_eq
  intro i
  rw [hm, mul_comm (x / 2 ^ k), testBit_and, testBit_two_pow_mul,
    testBit_two_pow_mul, testBit_two_pow_sub_one, testBit_div_two_pow]
  by_cases hki : k ≤ i
  · by_cases hi : i < 64
    · have hsub : i - k < 64 - k := by omega
      simp [hki, hsub]
    · have hz : x.testBit i = false := Nat.testBit_lt_two_pow (hx.trans_le (Nat.pow_le_pow_right (by omega) (by omega)))
      simp [hki, hz]
  · simp [hki]

lemma addUsize_eq (h : a + b < 2 ^ 64) : addUsize a b = a + b := Nat.mod_eq_of_lt h

lemma subUsize_eq (hle : b ≤ a) (ha : a < 2 ^ 64) : subUsize a b = a - b := by
  unfold subUsize
  omega

lemma alignUp_spec {value align : Nat} (hw : ∃ k, align = 2 ^ k) (hlt : value + align ≤ 2 ^ 64) :
    value ≤ alignUp value align ∧ alignUp value align < value + align ∧ alignUp value align % align = 0 := by
  obtain ⟨k, rfl⟩ := hw
  have hp : 0 < 2 ^ k := Nat.two_pow_pos k
  have hk : k ≤ 64 := (Nat.pow_le_pow_iff_right (by omega)).mp ((Nat.le_add_left ..).trans hlt)
  unfold alignUp
  rw [Nat.mod_eq_of_lt (by omega), land_two_pow_sub hk (by omega)]
  have hdiv := div_add_mod (value + 2 ^ k - 1) (2 ^ k)
  have hmod := mod_lt (value + 2 ^ k - 1) hp
  rw [mul_comm] at hdiv
  exact ⟨by omega, by omega, mul_mod_left ..⟩

lemma usedSize_spec (h : 16 + pad + payload + 8 + 16 ≤ 2 ^ 64) :
    16 + pad + payload + 8 ≤ usedSize pad payload ∧ usedSize pad payload % 16 = 0 := by
  have hs : addUsize (addUsize (addUsize header pad) payload) footer = 16 + pad + payload + 8 := by
    simp only [addUsize, header, footer]
    omega
  obtain ⟨hle, -, hmod⟩ := @alignUp_spec (16 + pad + payload + 8) heapAlign ⟨4, rfl⟩ h
  rw [usedSize, hs]
  exact ⟨hle, hmod⟩

lemma Layout.exists_align (layout : Layout) :
    ∃ j, 4 ≤ j ∧ max layout.align heapAlign = 2 ^ j ∧ layout.align ∣ 2 ^ j ∧ (layout.align = 2 ^ j ∨ j = 4) := by
  obtain ⟨k, hk⟩ := layout.isPow
  by_cases hle : 4 ≤ k
  · have hp : heapAlign ≤ layout.align := hk ▸ Nat.pow_le_pow_right (by omega : 0 < 2) hle
    exact ⟨k, hle, by rw [max_eq_left hp, hk], hk.dvd, .inl hk⟩
  · have hd : layout.align ∣ 2 ^ 4 := hk ▸ pow_dvd_pow 2 (by omega)
    exact ⟨4, le_rfl, max_eq_right (le_of_dvd (by decide) hd), hd, .inr rfl⟩

def tag (free : Bool) (size : Nat) : Nat := if free then size ||| freeFlag else size

lemma tag_eq (h : size % 2 = 0) : tag free size = size + free.toNat := by
  have hs : size = 2 ^ 1 * (size / 2) := by omega
  have ho : size ||| 1 = size + 1 := by
    rw [hs]
    exact (two_pow_add_eq_or_of_lt (by omega) _).symm
  cases free <;> simp [tag, freeFlag, ho]

lemma isFree_tag {free : Bool} {size : Nat} (h : size % 2 = 0) : isFree (tag free size) = free := by
  rw [tag_eq h, isFree, freeFlag, and_one_is_mod]
  cases free <;> simp <;> omega

lemma isFree_even (h : size % 2 = 0) : isFree size = false := @isFree_tag false _ h

lemma sizeBits_tag (h : size % 2 = 0) (hlt : size < 2 ^ 64) :
    sizeBits (tag free size) = size := by
  have hb : free.toNat ≤ 1 := Bool.toNat_le free
  have hm : sizeBits (size + free.toNat) = (size + free.toNat) / 2 * 2 := @land_two_pow_sub _ 1 (by omega) (by omega)
  rw [tag_eq h, hm]
  omega

/-! ## The invariant -/

/-- A pointer that was handed out, and what for. -/
structure Use where
  ptr : Nat
  layout : Layout

structure Block where
  addr : Nat
  size : Nat
  use : Option Use

namespace Block

variable (b : Block)

def word : Nat := tag b.use.isNone b.size

def stop : Nat := b.addr + b.size

/-- What the memory holds of a block, other than the link of a free one. -/
structure Held (base : Nat) (m : Mem) : Prop where
  addr_mod : b.addr % 16 = 0
  size_mod : b.size % 16 = 0
  size_min : 48 ≤ b.size
  header : m b.addr = b.word
  footer : m (b.addr + b.size - 8) = b.word
  use : ∀ u ∈ b.use, ∃ off, u.ptr = base + off ∧ off % 16 = 0 ∧ b.addr + 16 ≤ off ∧
    off + u.layout.size + 8 ≤ b.addr + b.size ∧ u.ptr % u.layout.align = 0 ∧ m (off - 8) = b.addr

end Block

def uses (bs : List Block) : List Use := bs.filterMap Block.use

def frees (bs : List Block) : List Nat := (bs.filter (·.use.isNone)).map Block.addr

/-- An area for blocks. `null` is no address in it. -/
structure Region where
  lo : Nat
  hi : Nat
  null : Nat
  base : Nat
  base_mod : base % 16 = 0
  top : base + hi ≤ 2 ^ 63
  null_out : null < lo ∨ hi ≤ null

/-- The area is cut into `bs`, and the free list is `fl`. -/
structure Shape (r : Region) (h : Area) (bs : List Block) (fl : List Nat) : Prop where
  tiles : Tiles Block.addr Block.size r.lo bs r.hi
  held : ∀ b ∈ bs, b.Held r.base h.mem
  list : Listed (fun n => h.mem (n + 8)) r.null h.head fl
  free : fl.Perm (frees bs)
  apart : bs.IsChain fun b c => b.use.isSome ∨ c.use.isSome

@[simp] lemma uses_append (bs cs : List Block) : uses (bs ++ cs) = uses bs ++ uses cs := filterMap_append ..

lemma uses_cons (b : Block) (bs : List Block) : uses (b :: bs) = b.use.toList ++ uses bs := by
  cases hb : b.use <;> simp [uses, hb]

@[simp] lemma uses_nil : uses [] = [] := rfl

@[simp] lemma frees_nil : frees [] = [] := rfl

@[simp] lemma frees_append (bs cs : List Block) : frees (bs ++ cs) = frees bs ++ frees cs := by
  simp [frees]

lemma frees_cons (b : Block) (bs : List Block) :
    frees (b :: bs) = (if b.use.isNone then [b.addr] else []) ++ frees bs := by
  cases hb : b.use <;> simp [frees, hb]

lemma mem_frees :
    n ∈ frees bs ↔ ∃ b ∈ bs, b.use = none ∧ b.addr = n := by
  simp [frees, and_assoc]

def Area.OnList (h : Area) (null n : Nat) : Prop := ∃ fl, Listed (fun k => h.mem (k + 8)) null h.head fl ∧ n ∈ fl

/-- The `s` bytes from `b` on lie in a free block. -/
def Area.InFree (h : Area) (null b s : Nat) : Prop := ∃ n, h.OnList null n ∧ n ≤ b ∧ b + s ≤ n + h.blockSize n

/-- Inside of the blocks that are free in `k` nothing has been written since `h`. -/
def Area.Quiet (h k : Area) (null : Nat) : Prop :=
  ∀ n a, k.OnList null n → n + 16 ≤ a → a + 8 < n + k.blockSize n → k.mem a = h.mem a

section

variable {r : Region} {h k : Area} {m' : Mem} {b c : Block} {bs l₁ l₂ mid mid' : List Block}
  {fl fl' f₁ f₂ : List Nat} {i j n null prev : Nat} {size : Nat}

lemma Block.Held.congr (hb : b.Held base m)
    (heq : ∀ a, b.addr ≤ a → a < b.addr + b.size → (b.use = none → a ≠ b.addr + 8) → m' a = m a) :
    b.Held base m' := by
  have hm := hb.size_min
  refine ⟨hb.addr_mod, hb.size_mod, hm, ?_, ?_, fun u hu => ?_⟩
  · rw [heq b.addr le_rfl (by omega) (by omega), hb.header]
  · rw [heq _ (by omega) (by omega) (by omega), hb.footer]
  · obtain ⟨off, hp, hmod, hl, hh, ha, hc⟩ := hb.use u hu
    refine ⟨off, hp, hmod, hl, hh, ha, ?_⟩
    rw [heq _ (by omega) (by omega) fun hn => by simp [hn] at hu, hc]

variable {u : Use}

lemma Block.Held.header_used (hb : b.Held base m) (hu : b.use = some u) :
    m b.addr = b.size := by
  rw [hb.header, Block.word, hu]
  rfl

section

variable (S : Shape r h bs fl)
include S

lemma Shape.pos : ∀ b ∈ bs, 0 < b.size := fun b hb => (by omega : 0 < 48).trans_le (S.held b hb).size_min

lemma Shape.nodup : fl.Nodup := by
  rw [S.free.nodup_iff]
  exact (S.tiles.nodup S.pos).sublist (filter_sublist.map _)

lemma Shape.length_lt (hlt : r.lo < r.hi) : fl.length < r.hi - r.lo := by
  have hmul := S.tiles.length_mul_le fun b hb => (S.held b hb).size_min
  have hle : fl.length ≤ bs.length := by
    rw [S.free.length_eq, frees, length_map]
    exact length_filter_le ..
  omega

lemma Shape.blockSize (hb : b ∈ bs) : h.blockSize b.addr = b.size := by
  have hh := S.held b hb
  have ht := r.top
  have hhi := (S.tiles.bounds hb).2
  have hmod := hh.size_mod
  rw [Area.blockSize, hh.header, Block.word, sizeBits_tag (by omega) (by omega)]

lemma Shape.onList : h.OnList r.null n ↔ n ∈ fl := by
  constructor
  · rintro ⟨fl', hl, hn⟩
    rwa [S.list.unique hl]
  · exact fun hn => ⟨fl, S.list, hn⟩

end

lemma Shape.quiet (S : Shape r k bs fl) (hin : ∀ f ∈ bs, f.use = none → ∀ a, f.addr + 16 ≤ a →
    a + 8 < f.addr + f.size → k.mem a = h.mem a) : h.Quiet k r.null := by
  intro n a hn hl hh
  obtain ⟨f, hf, hr, rfl⟩ := mem_frees.mp (S.free.subset (S.onList.mp hn))
  rw [S.blockSize hf] at hh
  exact hin f hf hr a hl hh

lemma Shape.replace (S : Shape r h (l₁ ++ (mid ++ l₂)) fl) (hne : mid ≠ [])
    (hm : Tiles Block.addr Block.size i mid j) (hm' : Tiles Block.addr Block.size i mid' j)
    (he : ∀ a, a < i ∨ j ≤ a → (∀ n ∈ fl, a ≠ n + 8) → k.mem a = h.mem a)
    (hhl : ∀ b ∈ mid', b.Held r.base k.mem)
    (hin : ∀ f ∈ mid', f.use = none → ∀ a, f.addr + 16 ≤ a → a + 8 < f.addr + f.size → k.mem a = h.mem a)
    (hs : Listed (fun n => k.mem (n + 8)) r.null k.head fl')
    (hr : fl'.Perm (frees (l₁ ++ (mid' ++ l₂))))
    (ha : (l₁ ++ (mid' ++ l₂)).IsChain fun b c => b.use.isSome ∨ c.use.isSome) :
    Shape r k (l₁ ++ (mid' ++ l₂)) fl' ∧ h.Quiet k r.null := by
  have hk : ∀ b ∈ l₁ ++ (mid' ++ l₂), b ∉ mid' → b ∈ l₁ ++ (mid ++ l₂) ∧
      ∀ a, b.addr ≤ a → a < b.addr + b.size → (b.use = none → a ≠ b.addr + 8) → k.mem a = h.mem a := by
    intro b hb hb'
    have ho : b ∈ l₁ ++ l₂ := by
      simp only [mem_append] at hb ⊢
      tauto
    have hmem_bs : b ∈ l₁ ++ (mid ++ l₂) := by
      simp only [mem_append] at ho ⊢
      tauto
    refine ⟨hmem_bs, fun a hl hh hln => he a ?_ fun n hn heq => ?_⟩
    · rcases S.tiles.outside hm hne ho with hle | hle <;> omega
    · obtain ⟨c, hc, hcf, rfl⟩ := mem_frees.mp (S.free.subset hn)
      have hmn := (S.held c hc).size_min
      by_cases hbc : b = c
      · subst hbc
        exact hln hcf heq
      · rcases S.tiles.disjoint hmem_bs hc hbc with hle | hle <;> omega
  have S' : Shape r k (l₁ ++ (mid' ++ l₂)) fl' := by
    refine ⟨S.tiles.replace hm hne hm', fun b hb => ?_, hs, hr, ha⟩
    by_cases hb' : b ∈ mid'
    · exact hhl b hb'
    · exact (S.held b (hk b hb hb').1).congr (hk b hb hb').2
  refine ⟨S', S'.quiet fun f hf hno a hl hh => ?_⟩
  by_cases hf' : f ∈ mid'
  · exact hin f hf' hno a hl hh
  · exact (hk f hf hf').2 a (by omega) (by omega) fun _ => by omega

lemma Shape.link_outside (S : Shape r h (l₁ ++ (mid ++ l₂)) fl) (hne : mid ≠ [])
    (hm : Tiles Block.addr Block.size i mid j) (hn : n ∈ frees (l₁ ++ l₂)) :
    n + 8 < i ∨ j ≤ n := by
  obtain ⟨c, hc, -, rfl⟩ := mem_frees.mp hn
  have hmn := (S.held c (by simp only [mem_append] at hc ⊢; tauto)).size_min
  rcases S.tiles.outside hm hne hc with hle | hle <;> omega

/-! ### Allocation -/

lemma Shape.unlink_list (S : Shape r h bs (f₁ ++ n :: f₂)) (hp : prev = f₁.getLast?.getD r.null) :
    Listed (fun k => (h.unlink r.null prev n).mem (k + 8)) r.null (h.unlink r.null prev n).head
      (f₁ ++ f₂) := by
  have hn := S.nodup
  have hl := S.list
  rcases eq_nil_or_concat' f₁ with rfl | ⟨f, p, rfl⟩
  · subst hp
    simpa [Area.unlink, Area.blockNext] using hl.unlink_head
  · have hp : prev = p := by simpa using hp
    subst hp
    have hnl : prev ≠ r.null := by
      rintro rfl
      exact hl.null (by simp)
    have ho := hl.unlink hn
    simp only [Area.unlink, hnl, if_false, Area.writeNext, Area.blockNext]
    exact ho.congr fun k _ => by simp [update_apply]

lemma mem_of_eq_getLast? {l : List Nat} (hn : n = l.getLast?.getD null) (hnl : n ≠ null) : n ∈ l := by
  cases hl : l.getLast? with
  | none => exact absurd (by simpa [hl] using hn) hnl
  | some p =>
    obtain rfl : n = p := by simpa [hl] using hn
    exact mem_of_getLast? hl

lemma Area.unlink_mem (hp : prev = f₁.getLast?.getD null)
    (ha : ∀ k ∈ f₁, a ≠ k + 8) : (h.unlink null prev n).mem a = h.mem a := by
  unfold Area.unlink
  split
  · rfl
  next hn => exact update_of_ne (ha prev (mem_of_eq_getLast? hp hn)) ..

lemma Shape.frees_remove (S : Shape r h (l₁ ++ b :: l₂) (f₁ ++ b.addr :: f₂)) (hr : b.use = none) :
    (f₁ ++ f₂).Perm (frees (l₁ ++ l₂)) := by
  have hf := S.free
  rw [frees_append, frees_cons] at hf
  simp only [hr, isNone_none, if_true, singleton_append] at hf
  rw [frees_append]
  exact ((perm_middle.symm.trans hf).trans perm_middle).cons_inv

lemma commit_held (hc : cur % 16 = 0) (hs : size % 16 = 0) (hm : 48 ≤ size)
    (hp : u.ptr = base + off) (ho : off % 16 = 0) (hl : cur + 16 ≤ off)
    (hh : off + u.layout.size + 8 ≤ cur + size) (hlt : off + 8 < cur + size) (ha : u.ptr % u.layout.align = 0) :
    Block.Held ⟨cur, size, some u⟩ base (k.commit cur size off).mem := by
  refine ⟨hc, hs, hm, ?_, ?_, fun v hv => ?_⟩
  · simp only [Area.commit, Area.writeHeaderUsed, Area.writeBack, Area.writeFooterUsed, footer]
    rw [update_of_ne (by omega), update_of_ne (by omega), update_self]
    rfl
  · simp only [Area.commit, Area.writeHeaderUsed, Area.writeBack, Area.writeFooterUsed, footer]
    rw [update_self]
    rfl
  · cases hv
    refine ⟨off, hp, ho, hl, hh, ha, ?_⟩
    simp only [Area.commit, Area.writeHeaderUsed, Area.writeBack, Area.writeFooterUsed, footer]
    rw [update_of_ne (by omega), update_self]

lemma commit_mem (hm : 8 ≤ size) (hl : cur + 8 ≤ off) (hh : off < cur + size)
    (ha : a < cur ∨ cur + size ≤ a) : (k.commit cur size off).mem a = k.mem a := by
  simp only [Area.commit, Area.writeHeaderUsed, Area.writeBack, Area.writeFooterUsed, footer]
  rw [update_of_ne (by omega), update_of_ne (by omega), update_of_ne (by omega)]

lemma free_held {base cur size next : Nat} (hc : cur % 16 = 0) (hs : size % 16 = 0) (hm : 48 ≤ size) :
    Block.Held ⟨cur, size, none⟩ base ((k.writeHeader cur size next).writeFooter cur size).mem := by
  refine ⟨hc, hs, hm, ?_, ?_, by simp⟩
  · simp only [Area.writeHeader, Area.writeFooter, footer]
    rw [update_of_ne (by omega), update_of_ne (by omega), update_self]
    rfl
  · simp only [Area.writeHeader, Area.writeFooter, footer]
    rw [update_self]
    rfl

lemma free_link {cur next : Nat} (hm : 48 ≤ size) :
    ((k.writeHeader cur size next).writeFooter cur size).mem (cur + 8) = next := by
  simp only [Area.writeHeader, Area.writeFooter, footer]
  rw [update_of_ne (by omega), update_self]

lemma free_mem {cur next a : Nat} (hm : 48 ≤ size) (ha : a ≠ cur ∧ a ≠ cur + 8 ∧ a ≠ cur + size - 8) :
    ((k.writeHeader cur size next).writeFooter cur size).mem a = k.mem a := by
  simp only [Area.writeHeader, Area.writeFooter, footer]
  rw [update_of_ne (by omega), update_of_ne (by omega), update_of_ne (by omega)]

lemma Shape.used_around (S : Shape r h (l₁ ++ b :: l₂) fl) (hf : b.use = none) :
    (∀ c ∈ l₁.getLast?, c.use.isSome) ∧ ∀ c ∈ l₂.head?, c.use.isSome := by
  obtain ⟨-, hr, hl⟩ := isChain_append.mp S.apart
  constructor
  · intro c hc
    simpa [hf] using hl c hc b (by simp)
  · intro c hc
    simpa [hf] using (isChain_cons.mp hr).1 c hc

lemma split_chain {u : Use} {addr size : Nat} {post : List Block} {R : Block → Block → Prop}
    (hR : ∀ b c, R b c ↔ (b.use.isSome ∨ c.use.isSome)) (h₁ : l₁.IsChain R) (h₂ : (post ++ l₂).IsChain R) :
    (l₁ ++ ⟨addr, size, some u⟩ :: (post ++ l₂)).IsChain R :=
  isChain_append.mpr ⟨h₁, isChain_cons.mpr ⟨fun c _ => (hR ..).mpr (by simp), h₂⟩,
    fun c _ d hd => (hR ..).mpr (by simp at hd; simp [← hd])⟩

lemma Shape.take {u : Use} {pad payload used : Nat} (S : Shape r h (l₁ ++ b :: l₂) (f₁ ++ b.addr :: f₂)) (hfr : b.use = none)
    (hp : prev = f₁.getLast?.getD r.null) (hpd : pad % 16 = 0)
    (ht : u.ptr = r.base + (b.addr + 16 + pad)) (han : u.ptr % u.layout.align = 0)
    (hz : u.layout.size ≤ payload) (hy : 16 ≤ payload)
    (hud : 16 + pad + payload + 8 ≤ used) (hmod : used % 16 = 0) (hft : used ≤ b.size) :
    ∃ bs' fl', (Shape r (h.take r.null prev b.addr used (b.addr + 16 + pad)) bs' fl' ∧
      h.Quiet (h.take r.null prev b.addr used (b.addr + 16 + pad)) r.null) ∧
      (uses bs').Perm (u :: uses (l₁ ++ b :: l₂)) := by
  have hb : b ∈ l₁ ++ b :: l₂ := by simp
  have hh := S.held b hb
  have hd := hh.addr_mod
  have hbm := hh.size_mod
  have hrs := S.frees_remove hfr
  obtain ⟨hch₁, hch₂, -⟩ := isChain_append.mp S.apart
  obtain ⟨hg, hch₂⟩ := isChain_cons.mp hch₂
  have S' : Shape r h (l₁ ++ ([b] ++ l₂)) (f₁ ++ b.addr :: f₂) := S
  have hm : Tiles Block.addr Block.size b.addr [b] (b.addr + b.size) := ⟨rfl, rfl⟩
  have hl : ∀ n ∈ f₁ ++ f₂, n + 8 < b.addr ∨ b.addr + b.size ≤ n + 8 := fun n hn => by
    have := S'.link_outside (by simp) hm (hrs.subset hn)
    omega
  have hus : (uses l₁ ++ u :: uses l₂).Perm (u :: uses (l₁ ++ b :: l₂)) := by simp [uses_cons, hfr]
  -- What follows needs of the area without the block only where it differs and what is linked.
  have hls := S.unlink_list hp
  have hu : ∀ a, (∀ n ∈ f₁ ++ b.addr :: f₂, a ≠ n + 8) → (h.unlink r.null prev b.addr).mem a = h.mem a := fun a ha =>
    Area.unlink_mem hp fun n hn => ha n (by simp [hn])
  unfold Area.take
  rw [S.blockSize hb]
  generalize h.unlink r.null prev b.addr = k at hls hu ⊢
  rw [frees_append] at hrs
  have hmn : minFree = 40 := rfl
  by_cases hs : minFree ≤ b.size - used
  · have hr : 48 ≤ b.size - used := by omega
    simp only [Area.split, if_pos hs]
    refine ⟨l₁ ++ ([⟨b.addr, used, some u⟩, ⟨b.addr + used, b.size - used, none⟩] ++ l₂),
      (b.addr + used) :: (f₁ ++ f₂), S'.replace (by simp) hm ?_ (fun a ha hf => ?_) (fun c hc => ?_)
        (fun c hc hno a ho hhi => ?_) (listed_cons.mpr ⟨rfl, ?_, ?_⟩) ?_ ?_, ?_⟩
    · simp only [tiles_cons, tiles_nil, true_and]
      omega
    · rw [commit_mem (by omega) (by omega) (by omega) (by omega), free_mem hr (by omega), hu a hf]
    · rcases mem_pair.mp hc with rfl | rfl
      · exact commit_held hd hmod (by omega) ht (by omega) (by omega) (by omega) (by omega) han
      · have hfs := @free_held k r.base (b.addr + used) (b.size - used) k.head (by omega) (by omega)
          hr
        refine hfs.congr fun a ho _ _ => ?_
        exact commit_mem (by omega) (by omega) (by omega) (.inr ho)
    · rcases mem_pair.mp hc with rfl | rfl
      · cases hno
      · simp only at ho hhi
        rw [commit_mem (by omega) (by omega) (by omega) (by omega), free_mem hr (by omega)]
        refine hu a fun n hn => ?_
        rcases mem_append.mp hn with hn | hn
        · have := hl n (by simp [hn])
          omega
        · rcases mem_cons.mp hn with rfl | hn
          · omega
          · have := hl n (by simp [hn])
            omega
    · have := r.null_out
      have := S.tiles.bounds hb
      omega
    · rw [commit_mem (by omega) (by omega) (by omega) (by omega), free_link hr]
      refine hls.congr fun n hn => ?_
      have := hl n hn
      rw [commit_mem (by omega) (by omega) (by omega) (by omega), free_mem hr (by omega)]
    · simp only [frees_append, frees_cons, frees_nil, isNone_some, isNone_none,
        Bool.false_eq_true, if_true, if_false, nil_append, append_nil,
        singleton_append]
      exact (hrs.cons _).trans perm_middle.symm
    · exact split_chain (fun _ _ => Iff.rfl) hch₁ (isChain_cons.mpr ⟨fun c hc => by
        simpa [hfr] using hg c hc, hch₂⟩)
    · simpa [uses_cons] using hus
  · simp only [Area.split, if_neg hs]
    refine ⟨l₁ ++ ([⟨b.addr, b.size, some u⟩] ++ l₂), f₁ ++ f₂, S'.replace (by simp) hm ?_
      (fun a ha hf => ?_) (fun c hc => ?_) (fun c hc hno => ?_) (hls.congr fun n hn => ?_) ?_ ?_, ?_⟩
    · exact ⟨rfl, rfl⟩
    · rw [commit_mem (by omega) (by omega) (by omega) (by omega), hu a hf]
    · obtain rfl := mem_singleton.mp hc
      exact commit_held hd hbm (by omega) ht (by omega) (by omega) (by omega) (by omega) han
    · obtain rfl := mem_singleton.mp hc
      cases hno
    · have := hl n hn
      rw [commit_mem (by omega) (by omega) (by omega) (by omega)]
    · simpa [frees_cons] using hrs
    · exact @split_chain l₁ l₂ u b.addr b.size [] _ (fun _ _ => Iff.rfl) hch₁ hch₂
    · simpa [uses_cons] using hus

lemma Shape.allocLoop {layout : Layout} {pad : Nat → Nat} {payload cur fuel : Nat} (S : Shape r h bs (f₁ ++ f₂))
    (hp : ∀ a, r.lo ≤ a → a < r.hi → a % 16 = 0 → pad a % 16 = 0 ∧
      (r.base + (a + 16 + pad a)) % layout.align = 0 ∧ 16 + pad a + payload + 8 + 16 ≤ 2 ^ 64)
    (hsi : layout.size ≤ payload) (hy : 16 ≤ payload)
    (hl : Listed (fun n => h.mem (n + 8)) r.null cur f₂)
    (hpr : prev = f₁.getLast?.getD r.null) (hfl : f₂.length < fuel) :
    h.allocLoop r.null pad payload fuel prev cur = .ok (h, none) ∨
      ∃ k off bs' fl', h.allocLoop r.null pad payload fuel prev cur = .ok (k, some off) ∧
        (Shape r k bs' fl' ∧ h.Quiet k r.null) ∧ (uses bs').Perm (⟨r.base + off, layout⟩ :: uses bs) := by
  induction f₂ generalizing f₁ prev cur fuel with
  | nil =>
    obtain ⟨fuel, rfl⟩ : ∃ f, fuel = f + 1 := ⟨fuel - 1, by simp at hfl; omega⟩
    obtain rfl := Listed.nil_iff.mp hl
    exact .inl (by simp [Area.allocLoop])
  | cons n f₂ ih =>
    obtain ⟨fuel, rfl⟩ : ∃ f, fuel = f + 1 := ⟨fuel - 1, by simp at hfl; omega⟩
    obtain ⟨rfl, hn, hl⟩ := listed_cons.mp hl
    obtain ⟨b, hb, hr, rfl⟩ := mem_frees.mp (S.free.subset (by simp : cur ∈ f₁ ++ cur :: f₂))
    have hh := S.held b hb
    have hm := hh.size_min
    obtain ⟨ho, hhi⟩ := S.tiles.bounds hb
    obtain ⟨hd, ha, hlt⟩ := hp b.addr ho (by omega) hh.addr_mod
    obtain ⟨hu, hmod⟩ := usedSize_spec hlt
    have hs := S.blockSize hb
    by_cases hf : usedSize (pad b.addr) payload ≤ b.size
    · obtain ⟨l₁, l₂, rfl⟩ := append_of_mem hb
      obtain ⟨bs', fl', S', hus⟩ := @Shape.take r h b l₁ l₂ f₁ f₂ prev
        ⟨r.base + (b.addr + 16 + pad b.addr), layout⟩ _ _ _ S hr hpr hd rfl ha hsi
        hy hu hmod hf
      refine .inr ⟨_, _, bs', fl', ?_, S', hus⟩
      simp only [Area.allocLoop, hn, if_false, hs, hf, if_true]
      rfl
    · have hrun : h.allocLoop r.null pad payload (fuel + 1) prev b.addr =
          h.allocLoop r.null pad payload fuel b.addr (h.mem (b.addr + 8)) := by
        simp only [Area.allocLoop, hn, if_false, hs, hf, Area.blockNext]
      rw [hrun]
      exact @ih (f₁ ++ [b.addr]) _ _ fuel (by simpa using S) hl (by simp) (by simpa using hfl)

/-! ### Deallocation -/

lemma writeNext_links : (fun n => (h.writeNext p x).mem (n + 8)) = update (fun n => h.mem (n + 8)) p x := by
  funext n
  simp [Area.writeNext, update_apply]

/-- What is outside of the merged block. -/
def outside (lo hi n : Nat) : Bool := decide (n < lo ∨ hi ≤ n)

/-- The walk keeps what is outside. So far it has kept `done`, and the link of the last node of it
is open. -/
lemma relink_spec {lo hi cur newHead lastKept fuel : Nat} {done rest : List Nat}
    (hr : Listed (fun n => h.mem (n + 8)) null cur rest) (hn : (done ++ rest).Nodup)
    (hnl : null ∉ done) (hl : lastKept = done.getLast?.getD null)
    (hni : done = [] → newHead = null) (hd : ∃ x, Seg (fun n => h.mem (n + 8)) newHead done x)
    (hf : rest.length < fuel) :
    ∃ k newHead' lastKept', relink null lo hi fuel h newHead lastKept cur = .ok (k, newHead', lastKept') ∧
      lastKept' = (done ++ rest.filter (outside lo hi)).getLast?.getD null ∧
      (done ++ rest.filter (outside lo hi) = [] → newHead' = null) ∧
      (∃ x, Seg (fun n => k.mem (n + 8)) newHead' (done ++ rest.filter (outside lo hi)) x) ∧
      ∀ a, (∀ n ∈ done ++ rest.filter (outside lo hi), a ≠ n + 8) → k.mem a = h.mem a := by
  induction rest generalizing h cur newHead lastKept fuel done with
  | nil =>
    obtain ⟨fuel, rfl⟩ : ∃ f, fuel = f + 1 := ⟨fuel - 1, by simp at hf; omega⟩
    obtain rfl := Listed.nil_iff.mp hr
    exact ⟨h, newHead, lastKept, by simp [relink], by simpa using hl, by simpa using hni,
      by simpa using hd, fun _ _ => rfl⟩
  | cons n rest ih =>
    obtain ⟨fuel, rfl⟩ : ∃ f, fuel = f + 1 := ⟨fuel - 1, by simp at hf; omega⟩
    obtain ⟨rfl, hc, hr⟩ := listed_cons.mp hr
    have hf : rest.length < fuel := by simpa using hf
    have hac : done ++ cur :: rest = done ++ [cur] ++ rest := by simp
    by_cases ho : cur < lo ∨ hi ≤ cur
    · have ht : done ++ (cur :: rest).filter (outside lo hi) =
          done ++ [cur] ++ rest.filter (outside lo hi) := by simp [outside, ho]
      have hnl' : null ∉ done ++ [cur] := by simp [hnl, Ne.symm hc]
      rw [ht]
      rcases eq_nil_or_concat' done with rfl | ⟨d, p, rfl⟩
      · -- the first node that is kept
        have hl : lastKept = null := by simpa using hl
        obtain ⟨k, newHead', lastKept', hrun, hsp⟩ :=
          @ih h (h.mem (cur + 8)) cur cur fuel [cur] hr hn hnl' rfl (by simp) ⟨_, rfl, rfl⟩ hf
        refine ⟨k, newHead', lastKept', ?_, hsp⟩
        simp [relink, hc, ho, hl, hrun, Area.blockNext]
      · obtain rfl : lastKept = p := by simpa using hl
        have hp : lastKept ≠ null := fun heq => hnl (by simp [heq])
        have hpc : cur ≠ lastKept := by
          rintro rfl
          simp [nodup_append] at hn
        have hpr : lastKept ∉ rest := fun hm => by
          simp [nodup_append] at hn
          tauto
        obtain ⟨x, hs⟩ := hd
        obtain ⟨k, newHead', lastKept', hrun, hl', hni', hs', hm⟩ :=
          @ih (h.writeNext lastKept cur) (h.mem (cur + 8)) newHead cur fuel (d ++ [lastKept] ++ [cur])
            (by
              rw [writeNext_links]
              exact ⟨hr.seg.update_of_notMem hpr, hr.null⟩)
            (hac ▸ hn) hnl' (by simp) (by simp)
            ⟨h.mem (cur + 8), by
              rw [writeNext_links]
              exact seg_snoc.mpr ⟨hs.update_last hn.of_append_left, update_of_ne hpc ..⟩⟩ hf
        refine ⟨k, newHead', lastKept', ?_, hl', hni', hs', fun a ha => ?_⟩
        · simp [relink, hc, ho, hp, hrun, Area.blockNext]
        · rw [hm a ha]
          exact update_of_ne (ha lastKept (by simp)) ..
    · have ht : done ++ (cur :: rest).filter (outside lo hi) =
          done ++ rest.filter (outside lo hi) := by simp [outside, ho]
      rw [ht]
      obtain ⟨k, newHead', lastKept', hrun, hsp⟩ := ih hr (hn.sublist (by simp)) hnl hl hni hd hf
      refine ⟨k, newHead', lastKept', ?_, hsp⟩
      simp [relink, hc, ho, hrun, Area.blockNext]

lemma Shape.filter_frees (S : Shape r h (l₁ ++ (mid ++ l₂)) fl) (hne : mid ≠ []) (hm : Tiles Block.addr Block.size i mid j) :
    (fl.filter (outside i j)).Perm (frees (l₁ ++ l₂)) := by
  have hf := S.free.filter (outside i j)
  rw [frees_append, frees_append, filter_append, filter_append] at hf
  have ho : ∀ l, l ⊆ l₁ ++ l₂ → (frees l).filter (outside i j) = frees l := fun l hl => by
    refine filter_eq_self.mpr fun n hn => ?_
    obtain ⟨c, hc, hno, rfl⟩ := mem_frees.mp hn
    have := S.link_outside hne hm (mem_frees.mpr ⟨c, hl hc, hno, rfl⟩)
    simp only [outside, decide_eq_true_eq]
    omega
  have hin : (frees mid).filter (outside i j) = [] := by
    refine filter_eq_nil_iff.mpr fun n hn => ?_
    obtain ⟨c, hc, -, rfl⟩ := mem_frees.mp hn
    have hb := hm.bounds hc
    have hp := S.pos c (by simp [hc])
    simp only [outside, decide_eq_true_eq]
    omega
  rw [ho l₁ (subset_append_left ..), ho l₂ (subset_append_right ..), hin, nil_append] at hf
  rwa [frees_append]

lemma listed_of_seg (hs : Seg (fun n => k.mem (n + 8)) a l x)
    (hd : l.Nodup) (hn : null ∉ l) (hl : lastKept = l.getLast?.getD null)
    (hni : l = [] → a = null) :
    Listed (fun n => (if lastKept ≠ null then k.writeNext lastKept null else k).mem (n + 8)) null a l := by
  rcases eq_nil_or_concat' l with rfl | ⟨d, p, rfl⟩
  · exact Listed.nil_iff.mpr (hni rfl)
  · obtain rfl : lastKept = p := by simpa using hl
    have hp : lastKept ≠ null := fun heq => hn (by simp [heq])
    rw [if_pos hp, writeNext_links]
    exact ⟨hs.update_last hd, hn⟩

lemma Shape.release (S : Shape r h (l₁ ++ (mid ++ l₂)) fl) (hne : mid ≠ [])
    (hm : Tiles Block.addr Block.size i mid (i + size)) (hlf : ∀ c ∈ l₁.getLast?, c.use.isSome)
    (hr : ∀ c ∈ l₂.head?, c.use.isSome) (hu : fl.length < fuel) :
    ∃ k fl', h.release r.null i size fuel = .ok k ∧ Shape r k (l₁ ++ ([⟨i, size, none⟩] ++ l₂)) fl' ∧ h.Quiet k r.null := by
  obtain ⟨k, newHead, lastKept, hrun, hl, hni, ⟨x, hs⟩, he⟩ :=
    @relink_spec h r.null i (i + size) h.head r.null r.null fuel [] fl S.list S.nodup (by simp) rfl
      (fun _ => rfl) ⟨r.null, rfl⟩ hu
  simp only [nil_append] at hl hni hs he
  have hk := S.filter_frees hne hm
  have hnl : r.null ∉ fl.filter (outside i (i + size)) := fun h => S.list.null (mem_of_mem_filter h)
  have hli := listed_of_seg hs (S.nodup.filter _) hnl hl hni
  have he' : ∀ a, (∀ n ∈ fl.filter (outside i (i + size)), a ≠ n + 8) →
      (if lastKept ≠ r.null then k.writeNext lastKept r.null else k).mem a = h.mem a := by
    intro a ha
    split
    next hp =>
      rw [← he a ha]
      exact update_of_ne (ha _ (mem_of_eq_getLast? hl hp)) ..
    · exact he a ha
  unfold Area.release
  rw [hrun]
  refine ⟨_, i :: fl.filter (outside i (i + size)), rfl, ?_⟩
  generalize (if lastKept ≠ r.null then k.writeNext lastKept r.null else k) = k' at hli he' ⊢
  obtain ⟨c, rest, rfl⟩ := exists_cons_of_ne_nil hne
  have hc := S.held c (by simp)
  have had : c.addr = i := hm.1
  have hmod : i % 16 = 0 := had ▸ hc.addr_mod
  have hmn : 48 ≤ size := by
    have := hm.bounds mem_cons_self
    have := hc.size_min
    omega
  have hz : size % 16 = 0 := by
    obtain ⟨d, hd⟩ := hm.exists_mul fun b hb =>
      dvd_of_mod_eq_zero (S.held b (by simp only [mem_append]; tauto)).size_mod
    omega
  have hln : ∀ n ∈ fl.filter (outside i (i + size)), n + 8 < i ∨ i + size ≤ n + 8 := fun n hn => by
    have := S.link_outside hne hm (hk.subset hn)
    omega
  refine S.replace hne hm ?_ (fun a ha hf => ?_) (fun b hb => ?_) (fun b hb _ a ho hh => ?_)
    (listed_cons.mpr ⟨rfl, ?_, ?_⟩) ?_ ?_
  · exact ⟨rfl, rfl⟩
  · exact (free_mem hmn (by omega)).trans (he' a fun n hn => hf n (mem_of_mem_filter hn))
  · obtain rfl := mem_singleton.mp hb
    exact free_held hmod hz hmn
  · obtain rfl := mem_singleton.mp hb
    simp only at ho hh
    refine (free_mem hmn (by omega)).trans (he' a fun n hn => ?_)
    have := hln n hn
    omega
  · have := r.null_out
    have := S.tiles.bounds (b := c) (by simp)
    have := hc.size_min
    omega
  · have hx : (({ k'.writeHeader i size newHead with head := i }).writeFooter i size).mem (i + 8) = newHead := free_link hmn
    rw [hx]
    refine hli.congr fun n hn => free_mem hmn ?_
    have := hln n hn
    omega
  · rw [frees_append, frees_append, frees_cons]
    rw [frees_append] at hk
    exact (hk.cons _).trans perm_middle.symm
  · obtain ⟨hch₁, hrs, -⟩ := isChain_append.mp S.apart
    obtain ⟨-, hch₂, -⟩ := isChain_append.mp hrs
    refine isChain_append.mpr ⟨hch₁, isChain_cons.mpr ⟨fun d hd => ?_, hch₂⟩,
      fun d hd _ _ => .inl (hlf d hd)⟩
    exact .inr (hr d hd)

/-- What a neighbour adds to a block that becomes free. -/
def freeSize : Option Block → Nat
  | some b => if b.use.isNone then b.size else 0
  | none => 0

@[simp] lemma freeSize_none : freeSize none = 0 := rfl

lemma freeSize_some (p : Block) : freeSize (some p) = if p.use.isNone then p.size else 0 := rfl

lemma freeSize_some_le (p : Block) : freeSize (some p) ≤ p.size := by
  rw [freeSize_some]
  split <;> simp

section

variable (S : Shape r h (l₁ ++ b :: l₂) fl)
include S

lemma Shape.before :
    l₁ = [] ∧ b.addr = r.lo ∨ ∃ l p, l₁ = l ++ [p] ∧ p.Held r.base h.mem ∧ r.lo ≤ p.addr ∧
      b.addr = p.addr + p.size ∧ h.mem (b.addr - 8) = p.word := by
  obtain ⟨hr, -⟩ := S.tiles.split
  rcases eq_nil_or_concat' l₁ with rfl | ⟨l, p, rfl⟩
  · exact .inl ⟨rfl, hr.symm⟩
  · have hp := S.held p (by simp)
    obtain ⟨-, he⟩ := hr.split
    refine .inr ⟨l, p, rfl, hp, (hr.bounds (by simp)).1, he.symm, ?_⟩
    rw [← hp.footer, ← tiles_nil.mp he]

lemma Shape.freeSize_le : freeSize l₁.getLast? ≤ b.addr := by
  rcases S.before with ⟨rfl, -⟩ | ⟨l, p, rfl, -, -, ha, -⟩
  · simp
  · have := freeSize_some_le p
    rw [getLast?_concat]
    omega

lemma Shape.after :
    l₂ = [] ∧ b.addr + b.size = r.hi ∨ ∃ n l, l₂ = n :: l ∧ n.Held r.base h.mem ∧
      n.addr = b.addr + b.size ∧ n.addr + n.size ≤ r.hi ∧ h.mem (b.addr + b.size) = n.word := by
  obtain ⟨-, hp⟩ := S.tiles.split
  cases l₂ with
  | nil => exact .inl ⟨rfl, hp⟩
  | cons n l =>
    have hn := S.held n (by simp)
    refine .inr ⟨n, l, rfl, hn, hp.1, (hp.bounds mem_cons_self).2, ?_⟩
    rw [← hp.1, hn.header]

lemma Shape.around : ∃ k₁ mid k₂, l₁ ++ b :: l₂ = k₁ ++ (mid ++ k₂) ∧ mid ≠ [] ∧
      Tiles Block.addr Block.size (b.addr - freeSize l₁.getLast?) mid
        (b.addr + b.size + freeSize l₂.head?) ∧
      (∀ c ∈ k₁.getLast?, c.use.isSome) ∧ (∀ c ∈ k₂.head?, c.use.isSome) ∧
      uses k₁ ++ uses k₂ = uses l₁ ++ uses l₂ := by
  have hl : ∃ k₁ pre, l₁ = k₁ ++ pre ∧ Tiles Block.addr Block.size (b.addr - freeSize l₁.getLast?) pre b.addr ∧
      (∀ c ∈ k₁.getLast?, c.use.isSome) ∧ uses k₁ = uses l₁ := by
    rcases S.before with ⟨rfl, -⟩ | ⟨l, p, rfl, -, -, ha, -⟩
    · exact ⟨[], [], rfl, rfl, by simp, rfl⟩
    · by_cases hp : p.use = none
      · have S' : Shape r h (l ++ p :: b :: l₂) fl := by simpa using S
        refine ⟨l, [p], rfl, ⟨?_, ?_⟩, (S'.used_around hp).1, by simp [uses_cons, hp]⟩
        · simp [freeSize, hp, ha]
        · simp [freeSize, hp, ha, tiles_nil]
      · refine ⟨l ++ [p], [], by simp, ?_, ?_, rfl⟩
        · simp [freeSize, hp, tiles_nil]
        · simpa using isSome_iff_ne_none.mpr hp
  have hr : ∃ post k₂, l₂ = post ++ k₂ ∧
      Tiles Block.addr Block.size (b.addr + b.size) post (b.addr + b.size + freeSize l₂.head?) ∧
      (∀ c ∈ k₂.head?, c.use.isSome) ∧ uses k₂ = uses l₂ := by
    rcases S.after with ⟨rfl, -⟩ | ⟨n, l, rfl, -, ha, -, -⟩
    · exact ⟨[], [], rfl, rfl, by simp, rfl⟩
    · by_cases hn : n.use = none
      · have S' : Shape r h ((l₁ ++ [b]) ++ n :: l) fl := by simpa using S
        refine ⟨[n], l, rfl, ⟨ha, ?_⟩, (S'.used_around hn).2, by simp [uses_cons, hn]⟩
        simp [freeSize, hn, tiles_nil]
      · refine ⟨[], n :: l, rfl, ?_, ?_, rfl⟩
        · simp [freeSize, hn, tiles_nil]
        · simpa using isSome_iff_ne_none.mpr hn
  obtain ⟨k₁, pre, rfl, hpr, hk₁, hu₁⟩ := hl
  obtain ⟨post, k₂, rfl, hs, hk₂, hu₂⟩ := hr
  refine ⟨k₁, pre ++ b :: post, k₂, by simp, by simp, ?_, hk₁, hk₂, by rw [hu₁, hu₂]⟩
  exact tiles_append.mpr ⟨b.addr, hpr, rfl, hs⟩

lemma Shape.free_block (hue : b.use = some u) (hb : mergedStart = b.addr - freeSize l₁.getLast?)
    (hz : mergedSize = freeSize l₁.getLast? + b.size + freeSize l₂.head?) (hf : fl.length < fuel) :
    ∃ k bs' fl', h.release r.null mergedStart mergedSize fuel = .ok k ∧
      (Shape r k bs' fl' ∧ h.Quiet k r.null ∧ k.InFree r.null b.addr b.size) ∧
      (u :: uses bs').Perm (uses (l₁ ++ b :: l₂)) := by
  obtain ⟨k₁, mid, k₂, hs, hne, hm, hk₁, hk₂, hu⟩ := S.around
  have he : b.addr + b.size + freeSize l₂.head? = mergedStart + mergedSize := by
    have := S.freeSize_le
    omega
  rw [hs] at S
  rw [← hb, he] at hm
  obtain ⟨k, fl', hrun, S', hq⟩ := S.release hne hm hk₁ hk₂ hf
  refine ⟨k, _, fl', hrun, ⟨S', hq, mergedStart, S'.onList.mpr (S'.free.symm.subset ?_), by omega, ?_⟩, ?_⟩
  · exact mem_frees.mpr ⟨⟨mergedStart, mergedSize, none⟩, by simp, rfl, rfl⟩
  · rw [show k.blockSize mergedStart = mergedSize from
      @Shape.blockSize _ _ ⟨mergedStart, mergedSize, none⟩ _ _ S' (by simp)]
    omega
  simp only [uses_append, uses_cons, hue, toList_none, toList_some, nil_append, singleton_append]
  rw [hu]
  exact perm_middle.symm

end

/-! ### The whole area -/

lemma Shape.fresh (hl : r.lo % 16 = 0) (hs : (r.hi - r.lo) % 16 = 0) (hm : 48 ≤ r.hi - r.lo) (hh : k.head = r.lo)
    (he : k.mem = ((h.writeHeader r.lo (r.hi - r.lo) r.null).writeFooter r.lo (r.hi - r.lo)).mem) :
    Shape r k [⟨r.lo, r.hi - r.lo, none⟩] [r.lo] := by
  refine ⟨⟨rfl, ?_⟩, fun b hb => ?_, listed_cons.mpr ⟨hh, ?_, ?_⟩, .refl _, .singleton _⟩
  · simp only [tiles_nil]
    omega
  · obtain rfl := mem_singleton.mp hb
    rw [he]
    exact free_held hl hs hm
  · have := r.null_out
    omega
  · rw [he]
    exact Listed.nil_iff.mpr (free_link hm)

lemma Shape.eq_single (S : Shape r h bs fl) (hus : uses bs = []) (hlt : r.lo < r.hi) :
    bs = [⟨r.lo, r.hi - r.lo, none⟩] ∧ fl = [r.lo] := by
  have hn : ∀ b ∈ bs, b.use = none := fun b hb => by
    rw [eq_none_iff_forall_not_mem]
    intro u hu
    have : u ∈ uses bs := mem_filterMap.mpr ⟨b, hb, hu⟩
    simp [hus] at this
  have hs : bs = [⟨r.lo, r.hi - r.lo, none⟩] := by
    match bs, S, hn with
    | [], S, _ => exact absurd S.tiles (Nat.ne_of_lt hlt)
    | [⟨addr, size, use⟩], S, hn =>
      obtain ⟨ha, he⟩ := S.tiles
      have hue : use = none := hn _ mem_cons_self
      simp only [tiles_nil] at he
      simp only at ha
      simp only [hue, ha, List.cons.injEq, Block.mk.injEq, and_true, true_and]
      omega
    | b :: c :: l, S, hn =>
      have := (isChain_cons_cons.mp S.apart).1
      simp [hn b (by simp), hn c (by simp)] at this
  refine ⟨hs, ?_⟩
  have hf := S.free
  rw [hs] at hf
  exact perm_singleton.mp hf

lemma Shape.exists_block (hu : u ∈ uses bs) : ∃ l₁ b l₂, bs = l₁ ++ b :: l₂ ∧ b.use = some u := by
  obtain ⟨b, hb, hs⟩ := mem_filterMap.mp hu
  obtain ⟨l₁, l₂, rfl⟩ := append_of_mem hb
  exact ⟨l₁, b, l₂, rfl, hs⟩

lemma Shape.lt_ptr (S : Shape r h bs fl) (hu : u ∈ uses bs) : r.base + r.lo < u.ptr := by
  obtain ⟨b, hb, hs⟩ := mem_filterMap.mp hu
  obtain ⟨off, hp, -, hl, -, -, -⟩ := (S.held b hb).use u hs
  have := (S.tiles.bounds hb).1
  omega

lemma Shape.store {u : Use} {off word value : Nat} (S : Shape r h bs fl) (hu : u ∈ uses bs)
    (hp : u.ptr = r.base + off) (hw : 8 * word < u.layout.size) :
    Shape r { h with mem := update h.mem (off + 8 * word) value } bs fl ∧
      h.Quiet { h with mem := update h.mem (off + 8 * word) value } r.null := by
  obtain ⟨b, hb, hs⟩ := mem_filterMap.mp hu
  obtain ⟨off', hp', hmod, hl, hh, -, -⟩ := (S.held b hb).use u hs
  obtain rfl : off' = off := by omega
  have he : ∀ c ∈ bs, ∀ a, c.addr ≤ a → a < c.addr + c.size → c ≠ b → a ≠ off' + 8 * word :=
    fun c hc a hle hlt hne => by
      rcases S.tiles.disjoint hc hb hne with h | h <;> omega
  have hr : ∀ c ∈ bs, c.use = none → c ≠ b := by
    rintro c - hno rfl
    exact absurd (hno.symm.trans hs) (by simp)
  have S' : Shape r { h with mem := update h.mem (off' + 8 * word) value } bs fl := by
    refine ⟨S.tiles, fun c hc => ?_, S.list.congr fun n hn => ?_, S.free, S.apart⟩
    · by_cases hcb : c = b
      · subst hcb
        have hm := (S.held c hc).size_min
        refine ⟨(S.held c hc).addr_mod, (S.held c hc).size_mod, hm, ?_, ?_, fun v hv => ?_⟩
        · rw [← (S.held c hc).header]
          exact update_of_ne (by omega) ..
        · rw [← (S.held c hc).footer]
          exact update_of_ne (by omega) ..
        · obtain rfl := mem_unique hs hv
          obtain ⟨o, ho, hom, hoo, hoh, hol, hbc⟩ := (S.held c hc).use u hv
          refine ⟨o, ho, hom, hoo, hoh, hol, ?_⟩
          rw [← hbc]
          exact update_of_ne (by omega) ..
      · exact (S.held c hc).congr fun a hle hlt _ => update_of_ne (he c hc a hle hlt hcb) ..
    · obtain ⟨c, hc, hno, rfl⟩ := mem_frees.mp (S.free.subset hn)
      have hm := (S.held c hc).size_min
      exact update_of_ne (he c hc _ (by omega) (by omega) (hr c hc hno)) ..
  refine ⟨S', S'.quiet fun f hf hno a hl hh => ?_⟩
  exact update_of_ne (he f hf a (by omega) (by omega) (hr f hf hno)) ..

/-! ## What the shape is for -/

/-- The blocks `bs` and the free list `fl` account for the whole area, and the pointers `live` are
good to use. -/
structure Sound (r : Region) (h : Area) (live : List Use) (bs : List Block) (fl : List Nat) : Prop where
  tiles : Tiles Block.addr Block.size r.lo bs r.hi
  tags : ∀ b ∈ bs, h.mem b.addr = b.word ∧ h.mem (b.addr + b.size - 8) = b.word
  list : Listed (fun n => h.mem (n + 8)) r.null h.head fl
  nodup : fl.Nodup
  free : ∀ a, a ∈ fl ↔ ∃ b ∈ bs, b.use = none ∧ b.addr = a
  apart : bs.IsChain fun b c => b.use.isSome ∨ c.use.isSome
  owned : (uses bs).Perm live
  /-- A payload is aligned, and it is in the area. -/
  aligned : ∀ u ∈ live, u.ptr % u.layout.align = 0
  inside : ∀ u ∈ live, r.base + r.lo ≤ u.ptr ∧ u.ptr + u.layout.size ≤ r.base + r.hi
  /-- Two payloads do not overlap. -/
  disjoint : live.Pairwise fun u v => u.ptr + u.layout.size < v.ptr ∨ v.ptr + v.layout.size < u.ptr
  /-- A payload overlaps no header, no link and no footer. -/
  untagged : ∀ u ∈ live, ∀ b ∈ bs, (u.ptr + u.layout.size ≤ r.base + b.addr ∨ r.base + b.addr + 16 ≤ u.ptr) ∧
      (u.ptr + u.layout.size + 8 ≤ r.base + b.addr + b.size ∨ r.base + b.addr + b.size ≤ u.ptr)

lemma Shape.sound (S : Shape r h bs fl) (hl : (uses bs).Perm live) :
    Sound r h live bs fl := by
  have hp : ∀ u ∈ live, ∃ b ∈ bs, b.use = some u ∧ u.ptr % u.layout.align = 0 ∧
      r.base + b.addr + 16 ≤ u.ptr ∧ u.ptr + u.layout.size + 8 ≤ r.base + b.addr + b.size := by
    intro u hu
    obtain ⟨b, hb, hs⟩ := mem_filterMap.mp (hl.symm.subset hu)
    obtain ⟨off, ht, -, hlo, hh, ha, -⟩ := (S.held b hb).use u hs
    exact ⟨b, hb, hs, ha, by omega, by omega⟩
  refine ⟨S.tiles, fun b hb => ⟨(S.held b hb).header, (S.held b hb).footer⟩, S.list, S.nodup,
    fun a => (S.free.mem_iff).trans mem_frees, S.apart, hl, ?_, ?_, ?_, ?_⟩
  · intro u hu
    obtain ⟨b, hb, -, ha, -, -⟩ := hp u hu
    exact ha
  · intro u hu
    obtain ⟨b, hb, -, -, hlo, hh⟩ := hp u hu
    have := S.tiles.bounds hb
    omega
  · rw [← hl.pairwise_iff (fun h => Or.symm h)]
    refine List.Pairwise.filterMap _ (fun b c hbc u hu v hv => ?_)
      (List.Pairwise.and_mem.mp S.tiles.pairwise)
    obtain ⟨hb, hc, hle⟩ := hbc
    obtain ⟨o, ho, -, -, hoh, -, -⟩ := (S.held b hb).use u hu
    obtain ⟨o', ho', -, hol', -, -, -⟩ := (S.held c hc).use v hv
    omega
  · intro u hu c hc
    obtain ⟨b, hb, hs, -, hlo, hh⟩ := hp u hu
    have hm := (S.held c hc).size_min
    by_cases hbc : b = c
    · subst hbc
      omega
    · rcases S.tiles.disjoint hb hc hbc with h | h <;> omega

end

end ZeroOS.Heap
