import ZeroOS.Memory.PhysBitmap

/-!
# Page descriptors

A leaf of a page table is one word: a physical page, what user code may do with it, and three bits
the hardware leaves to software. `DESC_SW_COW` marks a page that is shared until somebody writes to
it, `DESC_SW_DEVICE` and `DESC_SW_BORROWED` one that does not belong to the page allocator.

Everything the kernel does to a leaf clears some bits and sets others. What the allocator is
concerned with is `charge`: the page a leaf holds a reference to, if any.
-/

namespace ZeroOS.Memory

open BitVec

variable {leaf : BitVec 64}

/-! ## The bits -/

def physAddrMask : BitVec 64 := 0x0000fffffffff000#64
def descValid : BitVec 64 := 1#64 <<< 0
def descTypeTable : BitVec 64 := 1#64 <<< 1
def descAf : BitVec 64 := 1#64 <<< 10
def descShInner : BitVec 64 := 3#64 <<< 8
def descAttridxNormal : BitVec 64 := 0#64 <<< 2
def descUxn : BitVec 64 := 1#64 <<< 54
def descSwCow : BitVec 64 := 1#64 <<< 11
def descSwDevice : BitVec 64 := 1#64 <<< 55
def descSwBorrowed : BitVec 64 := 1#64 <<< 56
def apShift : Nat := 6
def apMask : BitVec 64 := 0b11#64 <<< apShift

/-- What user code may do with a page: nothing, in two encodings, or read and write, or read. -/
def apEl1RwEl0None : BitVec 64 := 0b00#64

@[inherit_doc apEl1RwEl0None]
def userApRx : BitVec 64 := 0b11#64

@[inherit_doc apEl1RwEl0None]
def userApRw : BitVec 64 := 0b01#64

def isValid (desc : BitVec 64) : Bool := desc &&& descValid != 0#64

def isTable (desc : BitVec 64) : Bool := desc &&& descTypeTable != 0#64

def apOf (leaf : BitVec 64) : BitVec 64 := (leaf >>> apShift) &&& 0b11#64

def physOf (leaf : BitVec 64) : Nat := (leaf &&& physAddrMask).toNat

def makeLeafDescriptor (phys : Nat) (ap : BitVec 64) (executable : Bool) : BitVec 64 :=
  let desc := (BitVec.ofNat 64 phys &&& physAddrMask) ||| descValid ||| descTypeTable ||| descAf |||
    descShInner ||| descAttridxNormal ||| (ap <<< apShift)
  if executable then desc else desc ||| descUxn

/-- `LeafShareClass`: what a fork does with a leaf. -/
inductive LeafShareClass
  | borrowedDirect
  | readOnlyDirect
  | cowShare
  | eagerCopy
  | skipDevice
  deriving DecidableEq, Repr

/-- `classify_leaf`, with `COW_SHARED_FORK` set. -/
def classifyLeaf (leaf : BitVec 64) : LeafShareClass :=
  if leaf &&& descSwBorrowed ≠ 0#64 then .borrowedDirect
  else if leaf &&& descSwDevice ≠ 0#64 then .skipDevice
  else if leaf &&& descSwCow ≠ 0#64 then .cowShare
  else if apOf leaf = userApRw then .cowShare
  else if apOf leaf = userApRx then .readOnlyDirect
  else .eagerCopy

def isCowLeaf (desc : BitVec 64) : Bool := desc &&& descValid != 0#64 && desc &&& descSwCow != 0#64

def cowShareLeaf (leaf : BitVec 64) : BitVec 64 := (leaf &&& ~~~apMask) ||| (userApRx <<< apShift) ||| descSwCow

def cowBreakLeaf (cowLeaf : BitVec 64) (newPa : Nat) : BitVec 64 := (cowLeaf &&& ~~~(apMask ||| descSwCow ||| physAddrMask)) |||
    (BitVec.ofNat 64 newPa &&& physAddrMask) ||| (userApRw <<< apShift)

/-! ## Fields -/

section

variable {d clear set mask : BitVec 64}

lemma rewrite_and_of_disjoint (hc : clear &&& mask = 0#64) (hs : set &&& mask = 0#64) :
    ((d &&& ~~~clear) ||| set) &&& mask = d &&& mask := by
  have hk : ~~~clear &&& mask = mask := by
    ext i hi
    have hb := congrArg (BitVec.getLsbD · i) hc
    simp only [getLsbD_and, getLsbD_zero] at hb
    simp only [getElem_and, getElem_not]
    rw [BitVec.getLsbD_eq_getElem hi, BitVec.getLsbD_eq_getElem hi] at hb
    cases hm : mask[i] <;> simp_all
  rw [BitVec.and_or_distrib_right, hs, BitVec.or_zero, BitVec.and_assoc, hk]

lemma rewrite_and_of_subset (hc : ~~~clear &&& mask = 0#64) : ((d &&& ~~~clear) ||| set) &&& mask = set &&& mask := by
  rw [BitVec.and_or_distrib_right, BitVec.and_assoc, hc, BitVec.and_zero, BitVec.zero_or]

lemma apOf_eq (d : BitVec 64) : apOf d = (d &&& apMask) >>> apShift := by
  rw [ushiftRight_and_distrib]
  rfl

end

/-- A physical address the allocator hands out: page aligned, and inside the address field. -/
structure IsFrame (p : Nat) : Prop where
  aligned : p % pageSize = 0
  fits : p < 2 ^ 48

lemma IsFrame.and_mask (h : IsFrame p) :
    BitVec.ofNat 64 p &&& physAddrMask = BitVec.ofNat 64 p := by
  obtain ⟨k, rfl⟩ : ∃ k, p = k <<< 12 := by
    refine ⟨p / 4096, ?_⟩
    have := h.aligned
    rw [Nat.shiftLeft_eq]
    simp only [pageSize] at this
    omega
  have hk : k < 2 ^ 36 := by
    have := h.fits
    rw [Nat.shiftLeft_eq] at this
    omega
  have hf : k <<< 12 < 2 ^ 64 := lt_trans h.fits (by decide)
  apply eq_of_toNat_eq
  rw [toNat_and, toNat_ofNat, Nat.mod_eq_of_lt hf]
  have hm : physAddrMask.toNat = (2 ^ 36 - 1) <<< 12 := by decide
  rw [hm, ← Nat.shiftLeft_and_distrib, Nat.and_two_pow_sub_one_of_lt_two_pow hk]

lemma IsFrame.physOf_ofNat (h : IsFrame p) : physOf (BitVec.ofNat 64 p) = p := by
  rw [physOf, h.and_mask, toNat_ofNat, Nat.mod_eq_of_lt (lt_trans h.fits (by decide))]

/-! ## The page a leaf holds -/

/-- The page a leaf holds a reference to. -/
def charge (leaf : BitVec 64) : Option Nat :=
  if isValid leaf ∧ leaf &&& (descSwDevice ||| descSwBorrowed) = 0#64 then some (physOf leaf)
  else none

/-- A leaf whose page is not one of the allocator. -/
def isForeign (leaf : BitVec 64) : Bool := isValid leaf && leaf &&& (descSwDevice ||| descSwBorrowed) != 0#64

lemma charge_zero : charge 0#64 = none := by decide

lemma charge_eq_some :
    charge leaf = some p ↔ isValid leaf ∧ leaf &&& (descSwDevice ||| descSwBorrowed) = 0#64 ∧ physOf leaf = p := by
  unfold charge
  split <;> simp_all

lemma charge_of_not_isValid (h : isValid leaf = false) :
    charge leaf = none := by
  simp [charge, h]

lemma charge_of_isForeign (h : isForeign leaf = true) : charge leaf = none := by
  simp only [isForeign, Bool.and_eq_true, bne_iff_ne, ne_eq] at h
  simp [charge, h.2]

lemma charge_of_isValid (h : isValid leaf = true) :
    charge leaf = some (physOf leaf) ∨ isForeign leaf = true := by
  by_cases hf : leaf &&& (descSwDevice ||| descSwBorrowed) = 0#64
  · exact .inl (by simp [charge, h, hf])
  · exact .inr (by simp [isForeign, h, hf])

lemma and_device_or_borrowed :
    leaf &&& (descSwDevice ||| descSwBorrowed) = 0#64 ↔ leaf &&& descSwBorrowed = 0#64 ∧ leaf &&& descSwDevice = 0#64 := by
  constructor
  · intro h
    constructor
    · calc leaf &&& descSwBorrowed
          = leaf &&& (descSwDevice ||| descSwBorrowed) &&& descSwBorrowed := by
            rw [BitVec.and_assoc]
            rfl
        _ = 0#64 := by rw [h, BitVec.zero_and]
    · calc leaf &&& descSwDevice
          = leaf &&& (descSwDevice ||| descSwBorrowed) &&& descSwDevice := by
            rw [BitVec.and_assoc]
            rfl
        _ = 0#64 := by rw [h, BitVec.zero_and]
  · rintro ⟨hb, hd⟩
    rw [and_or_distrib_left, hb, hd]
    rfl

lemma charge_of_classify (hv : isValid leaf = true) (hb : classifyLeaf leaf ≠ .borrowedDirect)
    (hd : classifyLeaf leaf ≠ .skipDevice) :
    charge leaf = some (physOf leaf) := by
  have hr : leaf &&& descSwBorrowed = 0#64 := by
    by_contra h
    exact hb (if_pos h)
  have hdv : leaf &&& descSwDevice = 0#64 := by
    by_contra h
    exact hd (by rw [classifyLeaf, if_neg (by simpa using hr), if_pos h])
  exact charge_eq_some.mpr ⟨hv, and_device_or_borrowed.mpr ⟨hr, hdv⟩, rfl⟩

/-! ## What the rewrites do -/

section

variable {p : Nat} {ap : BitVec 64} {x : Bool}

lemma cowShareLeaf_and {mask : BitVec 64} (hap : apMask &&& mask = 0#64)
    (hs : ((userApRx <<< apShift) ||| descSwCow) &&& mask = 0#64) :
    cowShareLeaf leaf &&& mask = leaf &&& mask := by
  rw [cowShareLeaf, BitVec.or_assoc]
  exact rewrite_and_of_disjoint hap hs

@[simp] lemma isValid_cowShareLeaf : isValid (cowShareLeaf leaf) = isValid leaf := by
  rw [isValid, cowShareLeaf_and (by decide) (by decide)]
  rfl

@[simp] lemma physOf_cowShareLeaf : physOf (cowShareLeaf leaf) = physOf leaf := by
  rw [physOf, cowShareLeaf_and (by decide) (by decide)]
  rfl

@[simp] lemma charge_cowShareLeaf : charge (cowShareLeaf leaf) = charge leaf := by
  simp only [charge, isValid_cowShareLeaf, physOf_cowShareLeaf,
    @cowShareLeaf_and leaf (descSwDevice ||| descSwBorrowed) (by decide) (by decide)]

lemma cow_cowShareLeaf : cowShareLeaf leaf &&& descSwCow = descSwCow := by
  rw [cowShareLeaf, BitVec.and_or_distrib_right, BitVec.and_or_distrib_right, BitVec.and_assoc]
  have hs : descSwCow &&& descSwCow = descSwCow := by decide
  have hap : (userApRx <<< apShift) &&& descSwCow = 0#64 := by decide
  have hm : ~~~apMask &&& descSwCow = descSwCow := by decide
  rw [hs, hap, hm, or_zero]
  ext i hi
  simp

lemma cowBreakLeaf_and (hc : (apMask ||| descSwCow ||| physAddrMask) &&& mask = 0#64) :
    cowBreakLeaf leaf p &&& mask = leaf &&& mask := by
  have hp : physAddrMask &&& mask = 0#64 := by
    rw [BitVec.and_or_distrib_right] at hc
    exact (or_eq_zero_iff.mp hc).2
  have hap : apMask &&& mask = 0#64 := by
    rw [and_or_distrib_right, and_or_distrib_right] at hc
    exact (or_eq_zero_iff.mp (or_eq_zero_iff.mp hc).1).1
  have hs : ((BitVec.ofNat 64 p &&& physAddrMask) ||| (userApRw <<< apShift)) &&& mask = 0#64 := by
    have hr : (userApRw <<< apShift) &&& mask = 0#64 := by
      have hsub : userApRw <<< apShift = (userApRw <<< apShift) &&& apMask := by decide
      rw [hsub, BitVec.and_assoc, hap, BitVec.and_zero]
    rw [BitVec.and_or_distrib_right, BitVec.and_assoc, hp, BitVec.and_zero, hr, BitVec.or_zero]
  rw [cowBreakLeaf, BitVec.or_assoc]
  exact rewrite_and_of_disjoint hc hs

@[simp] lemma isValid_cowBreakLeaf : isValid (cowBreakLeaf leaf p) = isValid leaf := by
  rw [isValid, cowBreakLeaf_and (by decide)]
  rfl

lemma physOf_cowBreakLeaf (h : IsFrame p) : physOf (cowBreakLeaf leaf p) = p := by
  have hsub : ~~~(apMask ||| descSwCow ||| physAddrMask) &&& physAddrMask = 0#64 := by decide
  have hr : (userApRw <<< apShift) &&& physAddrMask = 0#64 := by decide
  rw [physOf, cowBreakLeaf, BitVec.or_assoc, rewrite_and_of_subset hsub, BitVec.and_or_distrib_right,
    hr, BitVec.or_zero, h.and_mask]
  exact h.physOf_ofNat

lemma charge_cowBreakLeaf (hl : charge leaf = some q) (h : IsFrame p) :
    charge (cowBreakLeaf leaf p) = some p := by
  obtain ⟨hv, hf, -⟩ := charge_eq_some.mp hl
  exact charge_eq_some.mpr ⟨by rwa [isValid_cowBreakLeaf],
    by rwa [cowBreakLeaf_and (by decide)], physOf_cowBreakLeaf h⟩

lemma apOf_cowBreakLeaf : apOf (cowBreakLeaf leaf p) = userApRw := by
  have hsub : ~~~(apMask ||| descSwCow ||| physAddrMask) &&& apMask = 0#64 := by decide
  have hp : physAddrMask &&& apMask = 0#64 := by decide
  rw [apOf_eq, cowBreakLeaf, BitVec.or_assoc, rewrite_and_of_subset hsub, BitVec.and_or_distrib_right,
    BitVec.and_assoc, hp, BitVec.and_zero, BitVec.zero_or]
  decide

def leafAttrs (ap : BitVec 64) (executable : Bool) : BitVec 64 :=
  descValid ||| descTypeTable ||| descAf ||| descShInner ||| descAttridxNormal ||| (ap <<< apShift) |||
    if executable then 0#64 else descUxn

lemma makeLeafDescriptor_eq (p : Nat) (ap : BitVec 64) (x : Bool) :
    makeLeafDescriptor p ap x = (BitVec.ofNat 64 p &&& physAddrMask) ||| leafAttrs ap x := by
  cases x
  · simp only [makeLeafDescriptor, leafAttrs, Bool.false_eq_true, if_false, BitVec.or_assoc]
  · simp only [makeLeafDescriptor, leafAttrs, if_true, BitVec.or_assoc, BitVec.or_zero]

lemma makeLeafDescriptor_and (h : physAddrMask &&& mask = 0#64) :
    makeLeafDescriptor p ap x &&& mask = leafAttrs ap x &&& mask := by
  rw [makeLeafDescriptor_eq, BitVec.and_or_distrib_right, BitVec.and_assoc, h, BitVec.and_zero, BitVec.zero_or]

section

variable (hap : ap.toNat < 4)
include hap

lemma ap_cases : ap = 0#64 ∨ ap = 1#64 ∨ ap = 2#64 ∨ ap = 3#64 := by
  have h : ap = BitVec.ofNat 64 ap.toNat := by simp
  generalize ap.toNat = n at h hap
  interval_cases n <;> simp [h]

lemma leafAttrs_fields :
    leafAttrs ap x &&& descValid = descValid ∧ leafAttrs ap x &&& physAddrMask = 0#64 ∧
      leafAttrs ap x &&& (descSwDevice ||| descSwBorrowed) = 0#64 ∧
      leafAttrs ap x &&& descSwCow = 0#64 ∧ leafAttrs ap x &&& apMask = ap <<< apShift := by
  obtain rfl | rfl | rfl | rfl := ap_cases hap <;> cases x <;> decide

lemma isValid_makeLeafDescriptor :
    isValid (makeLeafDescriptor p ap x) = true := by
  rw [isValid, makeLeafDescriptor_and (by decide), (leafAttrs_fields hap).1]
  rfl

lemma physOf_makeLeafDescriptor (h : IsFrame p) :
    physOf (makeLeafDescriptor p ap x) = p := by
  rw [physOf, makeLeafDescriptor_eq, and_or_distrib_right, (leafAttrs_fields hap).2.1, BitVec.or_zero, h.and_mask]
  exact h.physOf_ofNat

lemma charge_makeLeafDescriptor (h : IsFrame p) :
    charge (makeLeafDescriptor p ap x) = some p := by
  refine charge_eq_some.mpr ⟨isValid_makeLeafDescriptor hap, ?_, physOf_makeLeafDescriptor hap h⟩
  rw [makeLeafDescriptor_and (by decide), (leafAttrs_fields hap).2.2.1]

end

end

end ZeroOS.Memory
