import Mathlib

/-!
# The physical page bitmap

`PhysBitmap` keeps one bit and one reference count for every page from `base` on. A set bit is a
page that is not available, because it is handed out or because it never was. The word a page was
last found in is remembered in `cursor`, and only decides where a search begins.

`WellFormed` ties the counters to the bits. It is stated with `clearPages`, the set of the pages the
bitmap calls free, and every operation has one lemma that says what it does to that set and to the
reference counts.
-/

namespace ZeroOS.Memory

open Function Nat Finset

def pageSize : Nat := 4096

/-- The largest count a `u16` holds. -/
def maxRefs : Nat := 65535

inductive PhysPanic
  | notReady
  | exceedsBitmap
  | exceedsRefs
  | belowBase
  | misaligned
  | outOfRange
  | reservedPage
  | doubleFree
  | underflow
  | notAllocated
  | overflow
  deriving DecidableEq, Repr

structure PhysBitmap where
  words : Nat → BitVec 64
  nwords : Nat
  refs : Nat → Nat
  nrefs : Nat
  base : Nat
  total : Nat
  reserved : Nat
  free : Nat
  cursor : Nat

namespace PhysBitmap

variable (b : PhysBitmap) {addr n : Nat}

def pageBusy (page : Nat) : Bool := b.words (page / 64) &&& (1#64 <<< (page % 64)) != 0#64

def setBit (page : Nat) : PhysBitmap :=
  { b with words := update b.words (page / 64) (b.words (page / 64) ||| (1#64 <<< (page % 64))) }

def clearBit (page : Nat) : PhysBitmap :=
  { b with words := update b.words (page / 64) (b.words (page / 64) &&& ~~~(1#64 <<< (page % 64))) }

def setRefs (page value : Nat) : PhysBitmap :=
  { b with refs := update b.refs page value }

/-- `init`, over whatever the two arrays hold. -/
def init (words : Nat → BitVec 64) (nwords : Nat) (refs : Nat → Nat) (nrefs base total reserved : Nat) :
    Except PhysPanic PhysBitmap :=
  if nwords * 64 < total then .error .exceedsBitmap
  else if nrefs < total then .error .exceedsRefs
  else
    let reserve := min total (max reserved 1)
    let b : PhysBitmap :=
      { b with
        words := fun i => if i < nwords then 0#64 else words i
        nwords := nwords
        refs := fun i => if i < total then 0 else refs i
        nrefs := nrefs
        base := base
        total := total }
    let b := (List.range reserve).foldl setBit b
    .ok { b with reserved := reserve, free := total - reserve }

def tryAllocInWord (index : Nat) : Option (Nat × PhysBitmap) :=
  let slot := b.words index
  if slot = BitVec.allOnes 64 then none
  else
    let usable := fun bit =>
      !(decide (index * 64 + bit < b.reserved) || decide (b.total ≤ index * 64 + bit)) && slot &&& (1#64 <<< bit) == 0#64
    ((List.range 64).find? usable).map fun bit =>
      let page := index * 64 + bit
      let b := { b with words := update b.words index (slot ||| (1#64 <<< bit)) }
      (b.base + page * pageSize, { b.setRefs page 1 with free := b.free - 1, cursor := index })

def assertReady : Except PhysPanic Unit :=
  if b.total = 0 then .error .notReady else .ok ()

/-- The first word of a list in which a page can be allocated. -/
def allocFrom : List Nat → Option (Nat × PhysBitmap)
  | [] => none
  | index :: rest =>
    match b.tryAllocInWord index with
    | some out => some out
    | none => allocFrom rest

/-- `alloc_page`: the word the cursor is at, then all of them. -/
def allocPage : Except PhysPanic (Option Nat × PhysBitmap) := do
  b.assertReady
  let hinted := if b.cursor < b.nwords then b.tryAllocInWord b.cursor else none
  match hinted with
  | some (addr, b') => return (some addr, b')
  | none =>
    match b.allocFrom (List.range b.nwords) with
    | some (addr, b') => return (some addr, b')
    | none => return (none, b)

/-- The search of `alloc_contiguous`: the first page of a run of `count` clear ones. -/
def scanRun (count : Nat) : List Nat → Nat → Nat → Option Nat
  | [], _, _ => none
  | page :: rest, run, start =>
    if b.pageBusy page then scanRun count rest 0 start
    else
      let start := if run = 0 then page else start
      if run + 1 = count then some start else scanRun count rest (run + 1) start

def takePage (page : Nat) : PhysBitmap := (b.setBit page).setRefs page 1

def allocContiguous (count : Nat) : Except PhysPanic (Option Nat × PhysBitmap) := do
  b.assertReady
  if count = 0 then return (none, b)
  match b.scanRun count (List.range' 1 (b.total - 1)) 0 0 with
  | none => return (none, b)
  | some start =>
    let b' := (List.range' start count).foldl takePage b
    return (some (b.base + start * pageSize), { b' with free := b.free - count })

def locatePage (addr : Nat) : Except PhysPanic Nat :=
  if addr < b.base then .error .belowBase
  else if (addr - b.base) % pageSize ≠ 0 then .error .misaligned
  else
    let page := (addr - b.base) / pageSize
    if b.total ≤ page then .error .outOfRange
    else if page < b.reserved then .error .reservedPage
    else .ok page

/-- `free_page`: one reference less; the page is free when none is left. -/
def freePage (addr : Nat) : Except PhysPanic PhysBitmap := do
  b.assertReady
  let page ← b.locatePage addr
  if !b.pageBusy page then throw .doubleFree
  let old := b.refs page
  if old = 0 then throw .underflow
  if old = 1 then
    let b' := (b.setRefs page 0).clearBit page
    return { b' with free := b'.free + 1 }
  else return b.setRefs page (old - 1)

def retainPage (addr : Nat) : Except PhysPanic PhysBitmap := do
  b.assertReady
  let page ← b.locatePage addr
  if !b.pageBusy page then throw .notAllocated
  if b.refs page = maxRefs then throw .overflow
  return b.setRefs page (b.refs page + 1)

def refCount (addr : Nat) : Nat :=
  if b.total = 0 ∨ addr < b.base then 0
  else if (addr - b.base) % pageSize ≠ 0 then 0
  else if b.total ≤ (addr - b.base) / pageSize then 0
  else b.refs ((addr - b.base) / pageSize)

def pageIsFree (addr : Nat) : Bool :=
  if addr < b.base then false
  else if (addr - b.base) % pageSize ≠ 0 then false
  else decide ((addr - b.base) / pageSize < b.total) && !b.pageBusy ((addr - b.base) / pageSize)

def markBusy (page : Nat) : PhysBitmap :=
  if b.total ≤ page ∨ b.pageBusy page then b
  else { (b.setBit page).setRefs page 0 with free := b.free - 1 }

/-! ## Bits -/

lemma and_bit_ne_zero (w : BitVec 64) (hi : i < 64) : (w &&& (1#64 <<< i) != 0#64) = w.getLsbD i := by
  have ht : (1#64 <<< i) = BitVec.twoPow 64 i := rfl
  rw [ht, BitVec.and_twoPow]
  cases w.getLsbD i with
  | false => simp
  | true =>
    have hne : BitVec.twoPow 64 i ≠ 0#64 := by
      intro h
      have := congrArg (BitVec.getLsbD · i) h
      simp [hi] at this
    simpa using hne

lemma pageBusy_eq (page : Nat) : b.pageBusy page = (b.words (page / 64)).getLsbD (page % 64) :=
  and_bit_ne_zero _ (mod_lt _ (by decide))

lemma getLsbD_one_shiftLeft (i j : Nat) : (1#64 <<< i).getLsbD j = (decide (j < 64) && decide (i = j)) := by
  have ht : (1#64 <<< i) = BitVec.twoPow 64 i := rfl
  rw [ht, BitVec.getLsbD_twoPow]
  by_cases hj : i = j
  · subst hj
    simp
  · simp [hj]

lemma pageBusy_setBit (p q : Nat) : (b.setBit p).pageBusy q = (b.pageBusy q || decide (q = p)) := by
  have hq : q % 64 < 64 := mod_lt _ (by decide)
  simp only [pageBusy_eq, setBit]
  by_cases hw : q / 64 = p / 64
  · have hf : p % 64 = q % 64 ↔ q = p := by omega
    rw [hw, update_self, BitVec.getLsbD_or, getLsbD_one_shiftLeft]
    simp only [hq, hf, decide_true, Bool.true_and]
  · have hne : q ≠ p := fun h => hw (h ▸ rfl)
    simp [update_of_ne hw, hne]

lemma pageBusy_clearBit (p q : Nat) : (b.clearBit p).pageBusy q = (b.pageBusy q && decide (q ≠ p)) := by
  have hq : q % 64 < 64 := mod_lt _ (by decide)
  simp only [pageBusy_eq, clearBit]
  by_cases hw : q / 64 = p / 64
  · have hf : p % 64 = q % 64 ↔ q = p := by omega
    rw [hw, update_self, BitVec.getLsbD_and, BitVec.getLsbD_not, getLsbD_one_shiftLeft]
    simp [hq, hf]
  · have hne : q ≠ p := fun h => hw (h ▸ rfl)
    simp [update_of_ne hw, hne]

/-! ## The free pages -/

def clearPages : Finset Nat := (Finset.range b.total).filter fun p => b.pageBusy p = false

def addrOf (page : Nat) : Nat := b.base + page * pageSize

variable {b} {p q : Nat}

lemma mem_clearPages : p ∈ b.clearPages ↔ p < b.total ∧ b.pageBusy p = false := by
  simp [clearPages]

/-- The counters agree with the bits, and what is free has no references. -/
structure WellFormed (b : PhysBitmap) : Prop where
  ready : 0 < b.total
  fits : b.total ≤ b.nwords * 64
  reserved_pos : 0 < b.reserved
  clear_ge : ∀ {p}, p ∈ b.clearPages → b.reserved ≤ p
  clear_refs : ∀ {p}, p ∈ b.clearPages → b.refs p = 0
  free_eq : b.free = b.clearPages.card

/-- The pages `S` are handed out, each with one reference. -/
structure Took (b b' : PhysBitmap) (S : Finset Nat) : Prop where
  nwords : b'.nwords = b.nwords
  base : b'.base = b.base
  total : b'.total = b.total
  reserved : b'.reserved = b.reserved
  clear : b'.clearPages = b.clearPages \ S
  refs : ∀ p, b'.refs p = if p ∈ S then 1 else b.refs p
  free : b'.free = b.free - S.card

lemma Took.wellFormed (h : Took b b' S) (hb : b.WellFormed) (hS : S ⊆ b.clearPages) :
    b'.WellFormed where
  ready := h.total ▸ hb.ready
  fits := h.total ▸ h.nwords ▸ hb.fits
  reserved_pos := h.reserved ▸ hb.reserved_pos
  clear_ge hp := by
    rw [h.clear, mem_sdiff] at hp
    exact h.reserved ▸ hb.clear_ge hp.1
  clear_refs hp := by
    rw [h.clear, mem_sdiff] at hp
    rw [h.refs, if_neg hp.2, hb.clear_refs hp.1]
  free_eq := by rw [h.free, h.clear, card_sdiff_of_subset hS, hb.free_eq]

lemma Took.addrOf (h : Took b b' S) (p : Nat) : b'.addrOf p = b.addrOf p := by
  simp [PhysBitmap.addrOf, h.base]

/-! ## One page -/

lemma assertReady_ok (hb : b.WellFormed) : b.assertReady = .ok () := if_neg (ne_of_gt hb.ready)

lemma index_of_page (index : Nat) {bit : Nat} (hb : bit < 64) :
    (index * 64 + bit) / 64 = index ∧ (index * 64 + bit) % 64 = bit := by
  omega

lemma tryAllocInWord_some (h : b.tryAllocInWord index = some (addr, b')) :
    ∃ p ∈ b.clearPages, addr = b.addrOf p ∧ Took b b' {p} := by
  simp only [tryAllocInWord] at h
  split at h
  · cases h
  · obtain ⟨bit, hf, heq⟩ := Option.map_eq_some_iff.mp h
    cases heq
    have hb : bit < 64 := List.mem_range.mp (List.mem_of_find?_eq_some hf)
    obtain ⟨hw, hp⟩ := index_of_page index hb
    have hu := List.find?_some hf
    simp only [Bool.and_eq_true, Bool.not_eq_true', Bool.or_eq_false_iff, decide_eq_false_iff_not,
      not_lt, not_le, beq_iff_eq] at hu
    have hc : b.pageBusy (index * 64 + bit) = false := by simp [pageBusy, hw, hp, hu.2]
    have hs (q : Nat) : b.pageBusy q = false ∧ q ≠ index * 64 + bit ↔ (b.setBit (index * 64 + bit)).pageBusy q = false := by
      rw [pageBusy_setBit]
      simp
    refine ⟨index * 64 + bit, mem_clearPages.mpr ⟨hu.1.2, hc⟩, rfl, rfl, rfl, rfl, rfl, ?_,
      fun p => ?_, by simp⟩
    · ext q
      rw [mem_sdiff, mem_singleton, mem_clearPages, mem_clearPages, and_assoc, hs]
      simp [setRefs, setBit, pageBusy, hw, hp]
    · simp [setRefs, update_apply]

lemma tryAllocInWord_none (hb : b.WellFormed) (h : b.tryAllocInWord index = none)
    (hp : p ∈ b.clearPages) : p / 64 ≠ index := by
  rintro rfl
  obtain ⟨hlt, hc⟩ := mem_clearPages.mp hp
  have hpg : p / 64 * 64 + p % 64 = p := div_add_mod' p 64
  simp only [tryAllocInWord] at h
  split at h
  next hf =>
    rw [pageBusy_eq, hf, BitVec.getLsbD_allOnes] at hc
    simp [mod_lt] at hc
  · have hn := List.find?_eq_none.mp (Option.map_eq_none_iff.mp h) (p % 64)
      (List.mem_range.mpr (mod_lt _ (by decide)))
    simp only [hpg] at hn
    have hg := hb.clear_ge hp
    simp only [pageBusy, bne_eq_false_iff_eq] at hc
    simp [hc, not_lt.mpr hg, not_le.mpr hlt] at hn

lemma allocFrom_some (h : b.allocFrom l = some (addr, b')) : ∃ p ∈ b.clearPages, addr = b.addrOf p ∧ Took b b' {p} := by
  induction l with
  | nil => cases h
  | cons index rest ih =>
    simp only [allocFrom] at h
    split at h
    next hs => exact tryAllocInWord_some (hs.trans h)
    · exact ih h

lemma allocFrom_none (hb : b.WellFormed) (h : b.allocFrom l = none) (hp : p ∈ b.clearPages) : p / 64 ∉ l := by
  induction l with
  | nil => simp
  | cons index rest ih =>
    simp only [allocFrom] at h
    split at h
    · cases h
    next hn => simpa using ⟨tryAllocInWord_none hb hn hp, ih h⟩

lemma allocPage_spec (hb : b.WellFormed) : (b.clearPages = ∅ ∧ b.allocPage = .ok (none, b)) ∨
      ∃ p b', p ∈ b.clearPages ∧ b.allocPage = .ok (some (b.addrOf p), b') ∧ Took b b' {p} := by
  simp only [allocPage, assertReady_ok hb, bind, Except.bind, pure, Except.pure]
  split
  next addr b' hh =>
    split at hh
    · obtain ⟨p, hp, rfl, ht⟩ := tryAllocInWord_some hh
      exact .inr ⟨p, b', hp, rfl, ht⟩
    · cases hh
  · split
    next addr b' hs =>
      obtain ⟨p, hp, rfl, ht⟩ := allocFrom_some hs
      exact .inr ⟨p, b', hp, rfl, ht⟩
    next hn =>
      refine .inl ⟨eq_empty_of_forall_notMem fun p hp => ?_, rfl⟩
      have hlt := (mem_clearPages.mp hp).1
      have hf := hb.fits
      exact allocFrom_none hb hn hp (List.mem_range.mpr (by omega))

/-! ## Runs of pages -/

/-- What the search finds is a run of clear pages. The accumulators describe the clear pages right
before the list. -/
lemma scanRun_some {count s : Nat} : ∀ {a run start : Nat}, b.scanRun count (List.range' a n) run start = some s →
    (run = 0 ∨ start + run = a ∧ ∀ i < run, b.pageBusy (start + i) = false) →
    s + count ≤ a + n ∧ ∀ i < count, b.pageBusy (s + i) = false := by
  induction n with
  | zero => intro a run start h; cases h
  | succ n ih =>
    intro a run start h hrun
    simp only [List.range'_succ, scanRun] at h
    split at h
    · obtain ⟨hle, hc⟩ := ih h (.inl rfl)
      exact ⟨by omega, hc⟩
    next hb =>
      -- the run grows by the page `a`
      have hg : (if run = 0 then a else start) + (run + 1) = a + 1 ∧
          ∀ i < run + 1, b.pageBusy ((if run = 0 then a else start) + i) = false := by
        rcases hrun with rfl | ⟨hbg, hc⟩
        · refine ⟨by simp, fun i hi => ?_⟩
          obtain rfl : i = 0 := by omega
          simpa using hb
        · by_cases hz : run = 0
          · subst hz
            refine ⟨by simp, fun i hi => ?_⟩
            obtain rfl : i = 0 := by omega
            simpa using hb
          · rw [if_neg hz]
            refine ⟨by omega, fun i hi => ?_⟩
            by_cases hl : i = run
            · subst hl
              simpa [hbg] using hb
            · exact hc i (by omega)
      split at h
      next hn =>
        cases h
        subst hn
        exact ⟨by omega, hg.2⟩
      · obtain ⟨hle, hc⟩ := ih h (.inr hg)
        exact ⟨by omega, hc⟩

lemma scanRun_none {count : Nat} : ∀ {a run start s : Nat},
    b.scanRun count (List.range' a n) run start = none → run < count → a - run ≤ s →
    s + count ≤ a + n → ∃ i < count, b.pageBusy (s + i) = true := by
  induction n with
  | zero => intro a run start s _ hrun hs hle; omega
  | succ n ih =>
    intro a run start s h hrun hs hle
    simp only [List.range'_succ, scanRun] at h
    split at h
    next hb =>
      by_cases hp : a < s
      · exact ih h (by omega) (by omega) (by omega)
      · refine ⟨a - s, by omega, ?_⟩
        rwa [Nat.add_sub_cancel' (not_lt.mp hp)]
    · split at h
      · cases h
      · exact ih h (by omega) (by omega) (by omega)

lemma takePages (l : List Nat) : ∀ b : PhysBitmap,
    let b' := l.foldl takePage b
    b'.nwords = b.nwords ∧ b'.base = b.base ∧ b'.total = b.total ∧ b'.reserved = b.reserved ∧
      (∀ q, b'.pageBusy q = (b.pageBusy q || decide (q ∈ l))) ∧
      ∀ q, b'.refs q = if q ∈ l then 1 else b.refs q := by
  induction l with
  | nil => intro b; simp
  | cons p rest ih =>
    intro b
    obtain ⟨hn, hb, ht, hr, hu, hf⟩ := ih (b.takePage p)
    refine ⟨hn, hb, ht, hr, fun q => ?_, fun q => ?_⟩
    · have ho : (b.takePage p).pageBusy q = (b.pageBusy q || decide (q = p)) := pageBusy_setBit b p q
      rw [List.foldl_cons, hu, ho]
      simp [Bool.or_assoc]
    · rw [List.foldl_cons, hf]
      by_cases hq : q = p
      · simp [takePage, setRefs, hq]
      · simp [takePage, setRefs, setBit, hq]

lemma allocContiguous_spec (hb : b.WellFormed) (count : Nat) :
    ((count = 0 ∨ ∀ s, ∃ i < count, s + i ∉ b.clearPages) ∧ b.allocContiguous count = .ok (none, b)) ∨
    ∃ s b', 0 < count ∧ (∀ i < count, s + i ∈ b.clearPages) ∧ b.allocContiguous count = .ok (some (b.addrOf s), b') ∧
      Took b b' (Finset.Ico s (s + count)) := by
  simp only [allocContiguous, assertReady_ok hb, bind, Except.bind, pure, Except.pure]
  by_cases hz : count = 0
  · exact .inl ⟨.inl hz, if_pos hz⟩
  have hp : 0 < count := Nat.pos_of_ne_zero hz
  rw [if_neg hz]
  have hd := hb.ready
  split
  next ho =>
    refine .inl ⟨.inr fun s => ?_, rfl⟩
    by_contra ha
    push Not at ha
    -- page 0 is reserved, so the run begins past it
    have hs : 1 ≤ s := le_trans hb.reserved_pos (hb.clear_ge (ha 0 hp))
    have hl := (mem_clearPages.mp (ha (count - 1) (by omega))).1
    obtain ⟨i, hi, hu⟩ := scanRun_none (s := s) ho hp (by omega) (by omega)
    simp [(mem_clearPages.mp (ha i hi)).2] at hu
  next s hsm =>
    obtain ⟨hle, hc⟩ := scanRun_some hsm (.inl rfl)
    have hm (i : Nat) (hi : i < count) : s + i ∈ b.clearPages := mem_clearPages.mpr ⟨by omega, hc i hi⟩
    obtain ⟨hn, hbs, ht, hr, hu, hf⟩ := takePages (List.range' s count) b
    refine .inr ⟨s, _, hp, hm, rfl, hn, hbs, ht, hr, ?_, fun q => ?_, by simp⟩
    · ext q
      simp only [mem_sdiff, mem_clearPages, mem_Ico]
      have hq := hu q
      simp only [pageBusy, List.mem_range'_1] at hq ⊢
      rw [hq, ht]
      simp [and_assoc]
    · simp [hf q, List.mem_range'_1]

/-! ## References -/

/-- The page `p` is left with `n` references, and is free if that is none. -/
structure Recounted (b b' : PhysBitmap) (p n : Nat) : Prop where
  nwords : b'.nwords = b.nwords
  base : b'.base = b.base
  total : b'.total = b.total
  reserved : b'.reserved = b.reserved
  clear : b'.clearPages = if n = 0 then insert p b.clearPages else b.clearPages
  refs : b'.refs = update b.refs p n
  free : b'.free = if n = 0 then b.free + 1 else b.free

lemma Recounted.addrOf (h : Recounted b b' p n) (q : Nat) :
    b'.addrOf q = b.addrOf q := by
  simp [PhysBitmap.addrOf, h.base]

lemma Recounted.wellFormed (h : Recounted b b' p n) (hb : b.WellFormed) (hg : b.reserved ≤ p)
    (hp : p ∉ b.clearPages) : b'.WellFormed where
  ready := h.total ▸ hb.ready
  fits := h.total ▸ h.nwords ▸ hb.fits
  reserved_pos := h.reserved ▸ hb.reserved_pos
  clear_ge {q} hq := by
    rw [h.clear] at hq
    rw [h.reserved]
    split at hq
    · rcases mem_insert.mp hq with rfl | hq
      · exact hg
      · exact hb.clear_ge hq
    · exact hb.clear_ge hq
  clear_refs {q} hq := by
    rw [h.clear] at hq
    rw [h.refs]
    by_cases hqp : q = p
    · subst hqp
      split at hq
      next hn => rw [update_self, hn]
      · exact absurd hq hp
    · rw [update_of_ne hqp]
      split at hq
      · exact hb.clear_refs ((mem_insert.mp hq).resolve_left hqp)
      · exact hb.clear_refs hq
  free_eq := by
    rw [h.free, h.clear, hb.free_eq]
    split
    · rw [card_insert_of_notMem hp]
    · rfl

lemma locatePage_ok :
    b.locatePage addr = .ok p ↔ addr = b.addrOf p ∧ b.reserved ≤ p ∧ p < b.total := by
  simp only [locatePage, addrOf]
  constructor
  · intro h
    split at h
    · cases h
    split at h
    · cases h
    next hg ha =>
      split at h
      · cases h
      split at h
      · cases h
      · cases h
        refine ⟨?_, by omega, by omega⟩
        simp only [pageSize] at ha ⊢
        omega
  · rintro ⟨rfl, hg, hlt⟩
    have hdiv : (b.base + p * pageSize - b.base) / pageSize = p := by simp [pageSize]
    rw [if_neg (by omega), if_neg (by simp), hdiv, if_neg (by omega), if_neg (by omega)]

lemma freePage_spec (hb : b.WellFormed) (h : b.freePage addr = .ok b') :
    ∃ p, addr = b.addrOf p ∧ b.reserved ≤ p ∧ p < b.total ∧ p ∉ b.clearPages ∧ 0 < b.refs p ∧
      Recounted b b' p (b.refs p - 1) := by
  simp only [freePage, assertReady_ok hb, bind, Except.bind, pure, Except.pure, throw, throwThe, MonadExceptOf.throw] at h
  split at h
  · cases h
  next page hl =>
    obtain ⟨rfl, hg, hlt⟩ := locatePage_ok.mp hl
    split at h
    · cases h
    next hs =>
      have hs : b.pageBusy page = true := by simpa using hs
      have hm : page ∉ b.clearPages := by simp [mem_clearPages, hs]
      split at h
      · cases h
      next hz =>
        refine ⟨page, rfl, hg, hlt, hm, Nat.pos_of_ne_zero hz, ?_⟩
        split at h
        next ho =>
          cases h
          refine ⟨rfl, rfl, rfl, rfl, ?_, by simp [ho, setRefs, clearBit], by simp [ho, setRefs, clearBit]⟩
          ext q
          have hq := pageBusy_clearBit b page q
          simp only [ho, if_true, mem_insert, mem_clearPages]
          simp only [pageBusy, clearBit, setRefs] at hq ⊢
          rw [hq]
          by_cases hp : q = page
          · simp [hp, hlt]
          · simp [hp]
        next hne =>
          cases h
          refine ⟨rfl, rfl, rfl, rfl, ?_, rfl, ?_⟩
          · rw [if_neg (by omega)]
            rfl
          · rw [if_neg (by omega)]
            rfl

lemma retainPage_spec (hb : b.WellFormed) (h : b.retainPage addr = .ok b') :
    ∃ p, addr = b.addrOf p ∧ b.reserved ≤ p ∧ p < b.total ∧ p ∉ b.clearPages ∧ Recounted b b' p (b.refs p + 1) := by
  simp only [retainPage, assertReady_ok hb, bind, Except.bind, pure, Except.pure, throw, throwThe, MonadExceptOf.throw] at h
  split at h
  · cases h
  next page hl =>
    obtain ⟨rfl, hg, hlt⟩ := locatePage_ok.mp hl
    split at h
    · cases h
    next hs =>
      have hs : b.pageBusy page = true := by simpa using hs
      split at h
      · cases h
      · cases h
        exact ⟨page, rfl, hg, hlt, by simp [mem_clearPages, hs], rfl, rfl, rfl, rfl, rfl, rfl, rfl⟩

/-! ## The first state -/

lemma setBits (l : List Nat) : ∀ b : PhysBitmap,
    let b' := l.foldl setBit b
    b'.nwords = b.nwords ∧ b'.base = b.base ∧ b'.total = b.total ∧ b'.refs = b.refs ∧
      ∀ q, b'.pageBusy q = (b.pageBusy q || decide (q ∈ l)) := by
  induction l with
  | nil => intro b; simp
  | cons p rest ih =>
    intro b
    obtain ⟨hn, hb, ht, hr, hu⟩ := ih (b.setBit p)
    refine ⟨hn, hb, ht, hr, fun q => ?_⟩
    rw [List.foldl_cons, hu, pageBusy_setBit]
    simp [Bool.or_assoc]

lemma init_spec {words : Nat → BitVec 64} {refs : Nat → Nat} {nwords nrefs base total reserved : Nat}
    (hps : 0 < total) (h : b.init words nwords refs nrefs base total reserved = .ok b') :
    b'.WellFormed ∧ b'.base = base ∧ b'.total = total ∧ b'.reserved = min total (max reserved 1) ∧
      b'.clearPages = Finset.Ico (min total (max reserved 1)) total ∧
      ∀ p < total, b'.refs p = 0 := by
  simp only [init] at h
  split at h
  · cases h
  split at h
  · cases h
  next hd _ =>
    cases h
    obtain ⟨hn, hs, ht, hr, hu⟩ := setBits (List.range (min total (max reserved 1)))
      { b with words := fun i => if i < nwords then 0#64 else words i, nwords := nwords,
               refs := fun i => if i < total then 0 else refs i, nrefs := nrefs, base := base,
               total := total }
    set b₀ := (List.range (min total (max reserved 1))).foldl setBit
      { b with words := fun i => if i < nwords then 0#64 else words i, nwords := nwords,
               refs := fun i => if i < total then 0 else refs i, nrefs := nrefs, base := base,
               total := total }
    have hb (p : Nat) (hp : p < total) : b₀.pageBusy p = decide (p < min total (max reserved 1)) := by
      rw [hu p]
      have hw : p / 64 < nwords := by omega
      simp [pageBusy, hw]
    have ht : b₀.total = total := ht
    have hc : b₀.clearPages = Finset.Ico (min total (max reserved 1)) total := by
      ext p
      rw [mem_clearPages, ht, mem_Ico]
      constructor
      · rintro ⟨hp, hf⟩
        rw [hb p hp] at hf
        simp at hf
        omega
      · rintro ⟨hg, hp⟩
        refine ⟨hp, ?_⟩
        rw [hb p hp]
        simp
        omega
    have hz (p : Nat) (hp : p < total) : b₀.refs p = 0 := by simp [hr, hp]
    refine ⟨⟨?_, ?_, ?_, ?_, ?_, ?_⟩, hs, ht, rfl, hc, hz⟩
    · exact ht ▸ hps
    · change b₀.total ≤ b₀.nwords * 64
      rw [ht, hn]
      exact not_lt.mp hd
    · show 0 < min total (max reserved 1)
      omega
    · intro p hp
      change p ∈ b₀.clearPages at hp
      rw [hc, mem_Ico] at hp
      exact hp.1
    · intro p hp
      change p ∈ b₀.clearPages at hp
      rw [hc, mem_Ico] at hp
      exact hz p hp.2
    · change total - min total (max reserved 1) = b₀.clearPages.card
      rw [hc, card_Ico]

lemma markBusy_spec (hb : b.WellFormed) (page : Nat) :
    (b.markBusy page).WellFormed ∧ (b.markBusy page).base = b.base ∧ (b.markBusy page).total = b.total ∧
      (b.markBusy page).clearPages = b.clearPages.erase page ∧
      ∀ p, b.refs p = 0 → (b.markBusy page).refs p = 0 := by
  unfold markBusy
  split
  next hs =>
    have hm : page ∉ b.clearPages := by
      rw [mem_clearPages]
      rintro ⟨hlt, hc⟩
      rcases hs with hg | hbs
      · omega
      · simp [hc] at hbs
    exact ⟨hb, rfl, rfl, (erase_eq_of_notMem hm).symm, fun _ h => h⟩
  next hf =>
    push Not at hf
    have hm : page ∈ b.clearPages := mem_clearPages.mpr ⟨hf.1, by simpa using hf.2⟩
    have hc : ({ (b.setBit page).setRefs page 0 with free := b.free - 1 } :
        PhysBitmap).clearPages = b.clearPages.erase page := by
      ext q
      have hq := pageBusy_setBit b page q
      rw [mem_erase, mem_clearPages, mem_clearPages]
      simp only [pageBusy, setBit, setRefs] at hq ⊢
      rw [hq]
      simp only [Bool.or_eq_false_iff, bne_eq_false_iff_eq, decide_eq_false_iff_not]
      tauto
    have hr (p : Nat) (hp : b.refs p = 0) : (update b.refs page 0) p = 0 := by
      by_cases hpp : p = page <;> simp [hpp, hp]
    refine ⟨⟨hb.ready, hb.fits, hb.reserved_pos, fun hp => ?_, fun {p} hp => ?_, ?_⟩, rfl, rfl, hc, hr⟩
    · rw [hc] at hp
      exact hb.clear_ge (mem_of_mem_erase hp)
    · rw [hc] at hp
      exact hr p (hb.clear_refs (mem_of_mem_erase hp))
    · rw [hc, card_erase_of_mem hm, hb.free_eq]

end PhysBitmap

end ZeroOS.Memory
