import ZeroOS.Lib.Run
import ZeroOS.Memory.PhysBitmap

/-!
# The physical allocator

The bitmap is set up from the memory map of the boot loader: everything up to the highest usable
page is managed, and the kernel image, the crash log window and whatever lies between the usable
regions is marked busy for good. After that pages are handed out, shared and given back.

The results are about whole runs, with the events as the ledger. `granted`, `retained` and `freed`
count in the trace what was done with a page, and the reference count is what is outstanding.

`retain_page` checks that the bit of the page is set, and that is also true of a page that was marked
busy. Retaining such a page and freeing it once makes it free, and the allocator then hands out
memory it never managed. `Shared` leaves that out: only pages that are handed out are retained.
-/

namespace ZeroOS.Memory

open Except Function List Transition

variable {b : PhysBitmap}

def ramBase : Nat := 0x40000000

def maxPages : Nat := 1024 * 1024

/-- `PSTORE_BASE` and `PSTORE_SIZE`: the window of the crash log. -/
def pstoreBase : Nat := 0x42000000

@[inherit_doc pstoreBase]
def pstoreSize : Nat := 0x10000

/-- `saturating_add` of `usize`. -/
def satAdd (x y : Nat) : Nat := min (x + y) (2 ^ 64 - 1)

/-- `+` of `usize`. -/
def wrapAdd (x y : Nat) : Nat := (x + y) % 2 ^ 64

namespace PhysBitmap

variable {b : PhysBitmap}

def empty : PhysBitmap := ⟨fun _ => 0#64, 0, fun _ => 0, 0, 0, 0, 0, 0, 0⟩

/-- The pages from `first` up to `last` are marked busy. -/
def markRange (b : PhysBitmap) (first last : Nat) : PhysBitmap := (List.range' first (last - first)).foldl markBusy b

def markAbsoluteRangeBusy (b : PhysBitmap) (start stop : Nat) : PhysBitmap :=
  if stop ≤ start ∨ stop ≤ ramBase then b
  else
    let ramEnd := satAdd ramBase (min (b.total * pageSize) (2 ^ 64 - 1))
    let s := max start ramBase
    let e := min stop ramEnd
    if e ≤ s then b
    else b.markRange ((s - ramBase) / pageSize) (min ((e - ramBase + pageSize - 1) / pageSize) b.total)

def markPstoreBusy (b : PhysBitmap) : PhysBitmap :=
  let first := (pstoreBase - ramBase) / pageSize
  b.markRange first (first + pstoreSize / pageSize)

/-- How far the usable regions reach, from `RAM_BASE` on. -/
def topRel (regions : List (Nat × Nat)) : Nat := regions.foldl (fun top (r : Nat × Nat) =>
    if ramBase ≤ r.1 then max top (min (satAdd (r.1 - ramBase) r.2) (maxPages * pageSize)) else top) 0

/-- One round of the search for holes: the gap before the region is marked busy. -/
def scanRegion (top : Nat) (s : PhysBitmap × Nat) (r : Nat × Nat) : PhysBitmap × Nat :=
  if wrapAdd r.1 r.2 ≤ ramBase ∨ ramBase + top ≤ r.1 then s
  else
    let first := max r.1 ramBase
    let last := min (satAdd r.1 r.2) (ramBase + top)
    if last ≤ first then s
    else
      let startPage := (first - ramBase + pageSize - 1) / pageSize
      let endPage := (last - ramBase) / pageSize
      (s.1.markRange s.2 (min startPage s.1.total), max s.2 endPage)

def initFromRegionsExact (regions : List (Nat × Nat)) (kernelStart kernelEnd : Nat) :
    Except PhysPanic PhysBitmap := do
  let top := topRel regions
  let total := max (top / pageSize) 1
  let b ← empty.init (fun _ => 0#64) (maxPages / 64) (fun _ => 0) maxPages ramBase total 0
  let b := (b.markAbsoluteRangeBusy kernelStart kernelEnd).markPstoreBusy
  let s := regions.foldl (scanRegion top) (b, 0)
  return s.1.markRange s.2 total

/-! ## The first state -/

def Managed (regions : List (Nat × Nat)) (p : Nat) : Prop :=
  ∃ r ∈ regions, r.1 ≤ ramBase + p * pageSize ∧ ramBase + (p + 1) * pageSize ≤ r.1 + r.2

/-- Pages have been marked busy, and nothing else has happened. -/
structure Marked (b b' : PhysBitmap) : Prop where
  wf : b'.WellFormed
  base : b'.base = b.base
  total : b'.total = b.total
  clear : b'.clearPages ⊆ b.clearPages
  refs : ∀ p, b.refs p = 0 → b'.refs p = 0

lemma Marked.refl (hb : b.WellFormed) : Marked b b := ⟨hb, rfl, rfl, Finset.Subset.refl _, fun _ h => h⟩

lemma Marked.trans (h : Marked b b') (h' : Marked b' b'') : Marked b b'' :=
  ⟨h'.wf, h'.base.trans h.base, h'.total.trans h.total, h'.clear.trans h.clear,
    fun p hp => h'.refs p (h.refs p hp)⟩

lemma markAll {l : List Nat} : ∀ {b : PhysBitmap}, b.WellFormed →
    Marked b (l.foldl markBusy b) ∧ ∀ p ∈ l, p ∉ (l.foldl markBusy b).clearPages := by
  induction l with
  | nil => exact fun hb => ⟨.refl hb, nofun⟩
  | cons q rest ih =>
    intro b hb
    obtain ⟨hw, hs, ht, hc, hf⟩ := markBusy_spec hb q
    have ho : Marked b (b.markBusy q) := ⟨hw, hs, ht, hc ▸ Finset.erase_subset .., hf⟩
    obtain ⟨hr, hg⟩ := ih hw
    refine ⟨ho.trans hr, fun p hp => ?_⟩
    rcases mem_cons.mp hp with rfl | hp
    · intro hm
      have := hr.clear hm
      simp [hc] at this
    · exact hg p hp

lemma markRange_spec (hb : b.WellFormed) (first last : Nat) :
    Marked b (b.markRange first last) ∧ ∀ p, first ≤ p → p < last → p ∉ (b.markRange first last).clearPages := by
  obtain ⟨hm, hg⟩ := markAll (l := List.range' first (last - first)) hb
  refine ⟨hm, fun p he hlt => hg p ?_⟩
  rw [mem_range'_1]
  omega

lemma markAbsoluteRangeBusy_spec (hb : b.WellFormed) (start stop : Nat) :
    Marked b (b.markAbsoluteRangeBusy start stop) := by
  unfold markAbsoluteRangeBusy
  split
  · exact .refl hb
  · dsimp only
    split
    · exact .refl hb
    · exact (markRange_spec hb _ _).1

lemma managed_of_mem (top : Nat) (hr : r ∈ regions) (hb : (max r.1 ramBase - ramBase + pageSize - 1) / pageSize ≤ p)
    (he : p < (min (satAdd r.1 r.2) (ramBase + top) - ramBase) / pageSize) : Managed regions p := by
  refine ⟨r, hr, ?_⟩
  simp only [satAdd, ramBase, pageSize] at *
  omega

lemma scanRegions_spec {regions rest : List (Nat × Nat)} (top : Nat) :
    ∀ {b : PhysBitmap} {cursor : Nat}, b.WellFormed → rest ⊆ regions →
    (∀ p ∈ b.clearPages, p < cursor → Managed regions p) →
    Marked b (rest.foldl (scanRegion top) (b, cursor)).1 ∧ ∀ p ∈ (rest.foldl (scanRegion top) (b, cursor)).1.clearPages,
        p < (rest.foldl (scanRegion top) (b, cursor)).2 → Managed regions p := by
  induction rest with
  | nil => exact fun hb _ hp => ⟨.refl hb, hp⟩
  | cons r rest ih =>
    intro b cursor hb hsub hm
    have hr : r ∈ regions := hsub (mem_cons_self ..)
    have hs : rest ⊆ regions := fun q hq => hsub (mem_cons_of_mem _ hq)
    rw [foldl_cons]
    unfold scanRegion
    split
    · exact ih hb hs hm
    · dsimp only
      split
      · exact ih hb hs hm
      · have hn (p : Nat) := managed_of_mem (p := p) top hr
        generalize (max r.1 ramBase - ramBase + pageSize - 1) / pageSize = startPage at hn ⊢
        generalize (min (satAdd r.1 r.2) (ramBase + top) - ramBase) / pageSize = endPage at hn ⊢
        obtain ⟨hmr, hg⟩ := markRange_spec hb cursor (min startPage b.total)
        have hm' : ∀ p ∈ (b.markRange cursor (min startPage b.total)).clearPages,
            p < max cursor endPage → Managed regions p := by
          intro p hp hlt
          by_cases ho : p < cursor
          · exact hm p (hmr.clear hp) ho
          · have hbn : p < b.total := hmr.total ▸ (mem_clearPages.mp hp).1
            refine hn p ?_ (by omega)
            by_contra hf
            exact hg p (by omega) (by omega) hp
        obtain ⟨ha, hc⟩ := ih hmr.wf hs hm'
        exact ⟨hmr.trans ha, hc⟩

lemma topRel_le (regions : List (Nat × Nat)) : topRel regions ≤ maxPages * pageSize := by
  unfold topRel
  generalize maxPages * pageSize = bound
  refine List.foldlRecOn regions _ (motive := (· ≤ bound)) (Nat.zero_le bound) fun top ht r _ => ?_
  split
  · exact Nat.max_le.mpr ⟨ht, Nat.min_le_right ..⟩
  · exact ht

lemma initFromRegionsExact_spec (regions : List (Nat × Nat)) (kernelStart kernelEnd : Nat) :
    ∃ b, initFromRegionsExact regions kernelStart kernelEnd = .ok b ∧ b.WellFormed ∧
      b.base = ramBase ∧ (∀ p ∈ b.clearPages, Managed regions p) ∧ (∀ p < b.total, b.refs p = 0) ∧
      b.total ≤ maxPages := by
  have hpg : max (topRel regions / pageSize) 1 ≤ maxPages := by
    have := topRel_le regions
    simp only [pageSize, maxPages] at *
    omega
  cases hn : empty.init (fun _ => 0#64) (maxPages / 64) (fun _ => 0) maxPages ramBase
      (max (topRel regions / pageSize) 1) 0 with
  | error e =>
    simp only [init] at hn
    rw [if_neg, if_neg (by omega)] at hn
    · cases hn
    · simp only [maxPages] at *
      omega
  | ok b₀ =>
    obtain ⟨hw, hbs, hl, -, -, hz⟩ := init_spec (by omega) hn
    have hk := markAbsoluteRangeBusy_spec hw kernelStart kernelEnd
    have hps := (markRange_spec hk.wf ((pstoreBase - ramBase) / pageSize)
      ((pstoreBase - ramBase) / pageSize + pstoreSize / pageSize)).1
    have hf := hk.trans hps
    obtain ⟨hs, hc⟩ := scanRegions_spec (topRel regions) hf.wf
      (List.Subset.refl regions) (fun p _ hp => absurd hp (Nat.not_lt_zero p))
    obtain ⟨ht, hg⟩ := markRange_spec hs.wf
      (regions.foldl (scanRegion (topRel regions)) (_, 0)).2 (max (topRel regions / pageSize) 1)
    have ha := (hf.trans hs).trans ht
    refine ⟨_, by simp only [initFromRegionsExact, hn, bind, bind]; rfl, ht.wf,
      ha.base.trans hbs, fun p hp => ?_, fun p hp => ?_, ?_⟩
    · by_cases hlt : p < (regions.foldl (scanRegion (topRel regions))
          ((b₀.markAbsoluteRangeBusy kernelStart kernelEnd).markPstoreBusy, 0)).2
      · exact hc p (ht.clear hp) hlt
      · have hb : p < max (topRel regions / pageSize) 1 := hl ▸ ha.total ▸ (mem_clearPages.mp hp).1
        exact absurd hp (hg p (not_lt.mp hlt) hb)
    · have hb : p < max (topRel regions / pageSize) 1 := hl ▸ ha.total ▸ hp
      exact ha.refs p (hz p hb)
    · exact (ha.total.trans hl).trans_le hpg

lemma addrOf_inj (h : b.addrOf p = b.addrOf q) : p = q := by
  simp only [addrOf, pageSize] at h
  omega

end PhysBitmap

/-! ## Runs -/

open PhysBitmap

inductive PhysOp
  | allocPage
  | allocContiguous (count : Nat)
  | freePage (addr : Nat)
  | retainPage (addr : Nat)
  deriving DecidableEq

structure PhysEvent where
  op : PhysOp
  out : Option Nat := none
  deriving DecidableEq

def PhysBitmap.call (b : PhysBitmap) : PhysOp → Except PhysPanic (Option Nat × PhysBitmap)
  | .allocPage => b.allocPage
  | .allocContiguous count => b.allocContiguous count
  | .freePage addr => (b.freePage addr).map (none, ·)
  | .retainPage addr => (b.retainPage addr).map (none, ·)

def PhysStep (b : PhysBitmap) (e : PhysEvent) (b' : PhysBitmap) : Prop := b.call e.op = .ok (e.out, b')

/-- Only pages that are handed out are retained. -/
def shared (b : PhysBitmap) (e : PhysEvent) : Bool :=
  match e.op with
  | .retainPage addr => decide (0 < b.refCount addr)
  | _ => true

/-- The addresses of the pages a call handed out. -/
def PhysEvent.granted (e : PhysEvent) : List Nat :=
  match e.op, e.out with
  | .allocPage, some addr => [addr]
  | .allocContiguous count, some addr => (List.range count).map (addr + · * pageSize)
  | _, _ => []

def granted (es : List PhysEvent) (addr : Nat) : Nat := (es.flatMap PhysEvent.granted).count addr

def retained (es : List PhysEvent) (addr : Nat) : Nat := es.countP (·.op == .retainPage addr)

def freed (es : List PhysEvent) (addr : Nat) : Nat := es.countP (·.op == .freePage addr)

section

variable (es fs : List PhysEvent) (e : PhysEvent) (addr : Nat)

lemma granted_append : granted (es ++ fs) addr = granted es addr + granted fs addr := by
  simp [granted, flatMap_append]

lemma retained_append : retained (es ++ fs) addr = retained es addr + retained fs addr := countP_append

lemma freed_append : freed (es ++ fs) addr = freed es addr + freed fs addr := countP_append

lemma granted_single : granted [e] addr = e.granted.count addr := by
  simp [granted]

lemma granted_eq_zero (h : ∀ e ∈ es, addr ∉ e.granted) : granted es addr = 0 := by
  rw [granted, count_eq_zero, mem_flatMap]
  rintro ⟨e, he, hm⟩
  exact h e he hm

end

inductive Effect (b b' : PhysBitmap) (e : PhysEvent) : Prop
  | took {S : Finset Nat} (hS : S ⊆ b.clearPages) (htook : Took b b' S)
      (hret : ∀ addr, retained [e] addr = 0) (hfree : ∀ addr, freed [e] addr = 0)
      (hnodup : e.granted.Nodup) (hmem : ∀ addr, addr ∈ e.granted ↔ ∃ p ∈ S, addr = b.addrOf p)
  | freed {p : Nat} (hge : b.reserved ≤ p) (hp : p < b.total) (hbusy : p ∉ b.clearPages)
      (hpos : 0 < b.refs p) (hcount : Recounted b b' p (b.refs p - 1)) (he : e = ⟨.freePage (b.addrOf p), none⟩)
  | retained {p : Nat} (hge : b.reserved ≤ p) (hp : p < b.total) (hbusy : p ∉ b.clearPages)
      (hcount : Recounted b b' p (b.refs p + 1)) (he : e = ⟨.retainPage (b.addrOf p), none⟩)

lemma PhysStep.effect {b b' : PhysBitmap} {e : PhysEvent} (hb : b.WellFormed) (h : PhysStep b e b') : Effect b b' e := by
  obtain ⟨op, out⟩ := e
  have hs : Took b b ∅ := ⟨rfl, rfl, rfl, rfl, by simp, by simp, by simp⟩
  cases op with
  | allocPage =>
    have h : b.allocPage = .ok (out, b') := h
    obtain ⟨-, heq⟩ | ⟨p, b₁, hp, heq, ht⟩ := allocPage_spec hb
    · obtain ⟨rfl, rfl⟩ := Prod.mk.inj (ok.inj (heq.symm.trans h))
      exact .took (Finset.empty_subset _) hs (by simp [retained]) (by simp [freed])
        (by simp [PhysEvent.granted]) (by simp [PhysEvent.granted])
    · obtain ⟨rfl, rfl⟩ := Prod.mk.inj (ok.inj (heq.symm.trans h))
      exact .took (Finset.singleton_subset_iff.mpr hp) ht (by simp [retained])
        (by simp [freed]) (by simp [PhysEvent.granted]) (by simp [PhysEvent.granted])
  | allocContiguous count =>
    have h : b.allocContiguous count = .ok (out, b') := h
    obtain ⟨-, heq⟩ | ⟨s, b₁, -, hl, heq, ht⟩ := allocContiguous_spec hb count
    · obtain ⟨rfl, rfl⟩ := Prod.mk.inj (ok.inj (heq.symm.trans h))
      exact .took (Finset.empty_subset _) hs (by simp [retained]) (by simp [freed])
        (by simp [PhysEvent.granted]) (by simp [PhysEvent.granted])
    · obtain ⟨rfl, rfl⟩ := Prod.mk.inj (ok.inj (heq.symm.trans h))
      have ha (i : Nat) : b.addrOf s + i * pageSize = b.addrOf (s + i) := by
        simp only [addrOf, Nat.add_mul, Nat.add_assoc]
      refine .took (fun p hp => ?_) ht (by simp [retained]) (by simp [freed]) ?_ fun addr => ?_
      · obtain ⟨hg, hlt⟩ := Finset.mem_Ico.mp hp
        have := hl (p - s) (by omega)
        rwa [Nat.add_sub_cancel' hg] at this
      · simp only [PhysEvent.granted, ha]
        refine nodup_range.map fun i j hj => ?_
        have := addrOf_inj hj
        omega
      · simp only [PhysEvent.granted, ha, mem_map, mem_range, Finset.mem_Ico]
        constructor
        · rintro ⟨i, hi, rfl⟩
          exact ⟨s + i, by omega, rfl⟩
        · rintro ⟨p, ⟨hg, hlt⟩, rfl⟩
          exact ⟨p - s, by omega, by rw [Nat.add_sub_cancel' hg]⟩
  | freePage addr =>
    simp only [PhysStep, PhysBitmap.call] at h
    cases hf : b.freePage addr with
    | error _ => simp [hf, Except.map] at h
    | ok b₁ =>
      simp only [hf, Except.map, Except.ok.injEq, Prod.mk.injEq] at h
      obtain ⟨rfl, rfl⟩ := h
      obtain ⟨p, rfl, hg, hp, hbs, hps, hc⟩ := freePage_spec hb hf
      exact .freed hg hp hbs hps hc rfl
  | retainPage addr =>
    simp only [PhysStep, PhysBitmap.call] at h
    cases hr : b.retainPage addr with
    | error _ => simp [hr, Except.map] at h
    | ok b₁ =>
      simp only [hr, Except.map, Except.ok.injEq, Prod.mk.injEq] at h
      obtain ⟨rfl, rfl⟩ := h
      obtain ⟨p, rfl, hg, hp, hbs, hc⟩ := retainPage_spec hb hr
      exact .retained hg hp hbs hc rfl

lemma refCount_addrOf (hp : p < b.total) :
    b.refCount (b.addrOf p) = b.refs p := by
  have hdiv : (b.base + p * pageSize - b.base) / pageSize = p := by simp [pageSize]
  simp only [refCount, addrOf, hdiv]
  rw [if_neg (by omega), if_neg (by simp), if_neg (by omega)]

lemma pageIsFree_addrOf :
    b.pageIsFree (b.addrOf p) = true ↔ p ∈ b.clearPages := by
  have hdiv : (b.base + p * pageSize - b.base) / pageSize = p := by simp [pageSize]
  simp only [pageIsFree, addrOf, hdiv]
  rw [if_neg (by omega), if_neg (by simp), mem_clearPages]
  simp

/-- The reference counts are what the trace says is outstanding, and the pages that are free or
handed out are those that were free at the start. -/
structure Ledger (b₀ : PhysBitmap) (es : List PhysEvent) (b : PhysBitmap) : Prop where
  wf : b.WellFormed
  base : b.base = b₀.base
  total : b.total = b₀.total
  refs : ∀ p < b.total, b.refs p + freed es (b.addrOf p) = granted es (b.addrOf p) + retained es (b.addrOf p)
  pool : ∀ p < b.total, p ∈ b.clearPages ∨ 0 < b.refs p ↔ p ∈ b₀.clearPages
  known : ∀ addr, 0 < granted es addr + retained es addr → ∃ p < b.total, addr = b.addrOf p

lemma Ledger.recounted (h : Ledger b₀ es b) (he : b.reserved ≤ q) (hq : q < b.total) (hb : q ∉ b.clearPages)
    (hps : 0 < b.refs q) (hc : Recounted b b' q n) (hg : e.granted = [])
    (hs : n + freed [e] (b.addrOf q) = b.refs q + retained [e] (b.addrOf q))
    (ho : ∀ addr, b.addrOf q ≠ addr → freed [e] addr = 0 ∧ retained [e] addr = 0) :
    Ledger b₀ (es ++ [e]) b' := by
  have ha := hc.addrOf
  refine ⟨hc.wellFormed h.wf he hb, hc.base.trans h.base,
    hc.total.trans h.total, fun p hp => ?_, fun p hp => ?_, fun addr hk => ?_⟩
  · rw [hc.total] at hp
    have hl := h.refs p hp
    rw [ha, granted_append, retained_append, freed_append, granted_single, hg, count_nil, hc.refs]
    by_cases hpq : p = q
    · subst hpq
      rw [update_self]
      omega
    · obtain ⟨hf, hr⟩ := ho (b.addrOf p) fun heq => hpq (addrOf_inj heq).symm
      rw [update_of_ne hpq]
      omega
  · rw [hc.total] at hp
    rw [← h.pool p hp, hc.clear, hc.refs]
    by_cases hpq : p = q
    · subst hpq
      obtain rfl | hn := n.eq_zero_or_pos
      · simp [hps]
      · simp [hn, hn.ne', hps]
    · split <;> simp [hpq]
  · rw [granted_append, retained_append, granted_single, hg, count_nil] at hk
    rw [hc.total]
    simp only [ha]
    by_cases heq : b.addrOf q = addr
    · exact ⟨q, hq, heq.symm⟩
    · have hno := ho addr heq
      exact h.known addr (by omega)

lemma Ledger.step {b₀ b b' : PhysBitmap} {es : List PhysEvent} {e : PhysEvent}
    (h : Ledger b₀ es b) (hs : shared b e = true) (hst : PhysStep b e b') :
    Ledger b₀ (es ++ [e]) b' := by
  cases hst.effect h.wf with
  | @took S hS ht hr hf hd hm =>
    have ha := ht.addrOf
    refine ⟨ht.wellFormed h.wf hS, ht.base.trans h.base, ht.total.trans h.total,
      fun p hp => ?_, fun p hp => ?_, fun addr hps => ?_⟩
    · rw [ht.total] at hp
      rw [ha, granted_append, retained_append, freed_append, granted_single, hr, hf, ht.refs]
      have ho := h.refs p hp
      by_cases hpS : p ∈ S
      · have hon : e.granted.count (b.addrOf p) = 1 := count_eq_one_of_mem hd ((hm _).mpr ⟨p, hpS, rfl⟩)
        rw [h.wf.clear_refs (hS hpS)] at ho
        rw [if_pos hpS, hon]
        omega
      · have hno : e.granted.count (b.addrOf p) = 0 := by
          rw [count_eq_zero, hm]
          rintro ⟨q, hq, heq⟩
          exact hpS (addrOf_inj heq ▸ hq)
        rw [if_neg hpS, hno]
        omega
    · rw [ht.total] at hp
      rw [← h.pool p hp, ht.clear, ht.refs, Finset.mem_sdiff]
      by_cases hpS : p ∈ S
      · simp [hpS, hS hpS]
      · simp [hpS]
    · rw [granted_append, retained_append, granted_single, hr] at hps
      rw [ht.total]
      simp only [ha]
      by_cases hn : addr ∈ e.granted
      · obtain ⟨p, hp, rfl⟩ := (hm addr).mp hn
        exact ⟨p, (mem_clearPages.mp (hS hp)).1, rfl⟩
      · rw [count_eq_zero.mpr hn] at hps
        exact h.known addr (by omega)
  | @freed q hg hq hb hps hc he =>
    subst he
    refine h.recounted hg hq hb hps hc rfl ?_ fun addr hne => ?_
    · simp [Memory.freed, Memory.retained]
      omega
    · simp [Memory.freed, Memory.retained, hne]
  | @retained q hg hq hb hc he =>
    subst he
    have hps : 0 < b.refs q := by
      rw [← refCount_addrOf hq]
      simpa [shared] using hs
    refine h.recounted hg hq hb hps hc rfl ?_ fun addr hne => ?_
    · simp [Memory.freed, Memory.retained]
    · simp [Memory.freed, Memory.retained, hne]

/-- The runs in which only pages that are handed out are retained. -/
abbrev SharedRun := Run (Guarded (fun b e => shared b e) PhysStep)

lemma SharedRun.ledger (hb : b₀.WellFormed)
    (hz : ∀ p < b₀.total, b₀.refs p = 0) (h : SharedRun b₀ es b) : Ledger b₀ es b := by
  refine Run.traceInvariant (fun es s e t hs ht => Ledger.step hs ht.1 ht.2) h ?_
  refine ⟨hb, rfl, rfl, fun p hp => by simp [hz p hp, granted, retained, freed],
    fun p hp => by simp [hz p hp], fun addr hps => ?_⟩
  simp [granted, retained] at hps

lemma Ledger.page (h : Ledger b₀ es b) (hst : PhysStep b e b₁) (h₂ : Ledger b₀ (es ++ e :: fs) b₂) (ha : addr ∈ e.granted)
    (hfs : ∀ e' ∈ fs, addr ∉ e'.granted) :
    ∃ p < b₂.total, addr = b₂.addrOf p ∧ p ∈ b₀.clearPages ∧ b₂.refs p + freed fs addr = 1 + retained fs addr := by
  cases hst.effect h.wf with
  | @took S hS ht hr hf hn hm =>
    obtain ⟨p, hp, rfl⟩ := (hm addr).mp ha
    obtain ⟨hlt, -⟩ := mem_clearPages.mp (hS hp)
    have hlt₂ : p < b₂.total := h₂.total.trans h.total.symm ▸ hlt
    have hs : b₂.addrOf p = b.addrOf p := by simp [addrOf, h₂.base, h.base]
    refine ⟨p, hlt₂, hs.symm, (h.pool p hlt).mp (.inl (hS hp)), ?_⟩
    have hb := h.refs p hlt
    have haf := h₂.refs p hlt₂
    rw [h.wf.clear_refs (hS hp)] at hb
    have ho : e.granted.count (b.addrOf p) = 1 := count_eq_one_of_mem hn ha
    rw [show e :: fs = [e] ++ fs from rfl, hs, granted_append, granted_append, retained_append,
      retained_append, freed_append, freed_append, granted_single, hr, hf, ho,
      granted_eq_zero fs _ hfs] at haf
    omega
  | freed _ _ _ _ _ he | retained _ _ _ _ he =>
    subst he
    simp [PhysEvent.granted] at ha

/-- The allocator keeps its books. After a boot over any regions and any calls that retain only
pages that are handed out: the free count is the number of clear bits; what has a reference is busy;
what is outstanding lies in a region; a page is handed out only when nothing of it is outstanding,
and no page twice in one call; `alloc_page` succeeds exactly if the free count is positive and
`alloc_contiguous` exactly if there is a run that long, and none that is empty; and a page that was
handed out is free again exactly when it has been freed once more than it has been retained. -/
theorem allocator_keeps_books {regions : List (Nat × Nat)} {kernelStart kernelEnd : Nat}
    {b₀ b : PhysBitmap} {es : List PhysEvent}
    (hboot : initFromRegionsExact regions kernelStart kernelEnd = .ok b₀)
    (hrun : SharedRun b₀ es b) :
    b.free = b.clearPages.card ∧
    (∀ p < b.total, 0 < b.refs p → b.pageBusy p = true) ∧
    (∀ addr, freed es addr < granted es addr + retained es addr → ∃ r ∈ regions, r.1 ≤ addr ∧ addr + pageSize ≤ r.1 + r.2) ∧
    (∀ e b', PhysStep b e b' → e.granted.Nodup ∧ ∀ addr ∈ e.granted, granted es addr + retained es addr = freed es addr) ∧
    (∃ out b', b.allocPage = .ok (out, b') ∧ (out.isSome ↔ 0 < b.free)) ∧
    (∀ n, ∃ out b', b.allocContiguous n = .ok (out, b') ∧ (out.isSome ↔ 0 < n ∧ ∃ s, ∀ i < n, s + i ∈ b.clearPages)) ∧
    ∀ e b₁ fs b₂ addr, shared b e = true → PhysStep b e b₁ → addr ∈ e.granted →
      SharedRun b₁ fs b₂ → (∀ e' ∈ fs, addr ∉ e'.granted) →
      freed fs addr ≤ retained fs addr + 1 ∧
      (b₂.pageIsFree addr = true ↔ freed fs addr = retained fs addr + 1) := by
  obtain ⟨b₀', hboot', hw, hbs, hm, hz, -⟩ := initFromRegionsExact_spec regions kernelStart kernelEnd
  obtain rfl := ok.inj (hboot'.symm.trans hboot)
  have hl := hrun.ledger hw hz
  have hb := hl.wf
  refine ⟨hb.free_eq, fun p hp hrf => ?_, fun addr ho => ?_, fun e b' ht => ?_, ?_, fun n => ?_,
    fun e b₁ fs b₂ addr hh ht ha hf hnw => ?_⟩
  · by_contra hc
    have hme : p ∈ b.clearPages := mem_clearPages.mpr ⟨hp, by simpa using hc⟩
    rw [hb.clear_refs hme] at hrf
    exact lt_irrefl 0 hrf
  · obtain ⟨p, hp, rfl⟩ := hl.known addr (by omega)
    have hrf := hl.refs p hp
    obtain ⟨r, hr, hft, hls⟩ := hm p ((hl.pool p hp).mp (.inr (by omega)))
    refine ⟨r, hr, ?_⟩
    rw [addrOf, hl.base, hbs]
    rw [Nat.add_mul, Nat.one_mul, ← Nat.add_assoc] at hls
    exact ⟨hft, hls⟩
  · cases ht.effect hb with
    | @took S hS _ _ _ hd hme =>
      refine ⟨hd, fun addr ha => ?_⟩
      obtain ⟨p, hp, rfl⟩ := (hme addr).mp ha
      have hrf := hl.refs p (mem_clearPages.mp (hS hp)).1
      rw [hb.clear_refs (hS hp)] at hrf
      omega
    | freed _ _ _ _ _ he | retained _ _ _ _ he =>
      subst he
      simp [PhysEvent.granted]
  · obtain ⟨hn, heq⟩ | ⟨p, b', hp, heq, -⟩ := allocPage_spec hb
    · exact ⟨none, b, heq, by simp [hb.free_eq, hn]⟩
    · exact ⟨_, b', heq, by simpa [hb.free_eq, Finset.card_pos] using ⟨p, hp⟩⟩
  · obtain ⟨hn, heq⟩ | ⟨s, b', hps, hc, heq, -⟩ := allocContiguous_spec hb n
    · refine ⟨none, b, heq, ?_⟩
      simp only [Option.isSome_none, Bool.false_eq_true, false_iff, not_and]
      rintro hps ⟨s, hs⟩
      rcases hn with rfl | hn
      · exact lt_irrefl 0 hps
      · obtain ⟨i, hi, hme⟩ := hn s
        exact hme (hs i hi)
    · exact ⟨_, b', heq, by simpa using ⟨hps, s, hc⟩⟩
  · have hrun₂ : SharedRun b₀' (es ++ e :: fs) b₂ := hrun.trans (.cons ⟨hh, ht⟩ hf)
    have hl₂ := hrun₂.ledger hw hz
    obtain ⟨p, hp, rfl, hpl, hrf⟩ := hl.page ht hl₂ ha hnw
    refine ⟨by omega, ?_⟩
    rw [pageIsFree_addrOf]
    constructor
    · intro hme
      rw [hl₂.wf.clear_refs hme] at hrf
      omega
    · intro heq
      exact ((hl₂.pool p hp).mpr hpl).resolve_right (by omega)

def adjoining : List (Nat × Nat) := [(ramBase, 0x2000), (ramBase + 0x2000, 0x2000)]

def adjoiningBoot : Except PhysPanic PhysBitmap := initFromRegionsExact adjoining ramBase (ramBase + 0x1000)

def physNext? (b : PhysBitmap) (e : PhysEvent) : Option PhysBitmap :=
  match b.call e.op with
  | .ok (out, b') => if shared b e && out == e.out then some b' else none
  | .error _ => none

lemma step_of_physNext? (h : physNext? b e = some b') :
    Guarded (fun b e => shared b e) PhysStep b e b' := by
  unfold physNext? at h
  split at h
  next out b₁ hc =>
    split at h
    next ho =>
      obtain ⟨hs, hu⟩ := Bool.and_eq_true_iff.mp ho
      cases h
      obtain rfl : out = e.out := by simpa using hu
      exact ⟨hs, hc⟩
    · cases h
  · cases h

/-- The first free page is handed out, retained, and freed once. -/
def allocRetainFree : List PhysEvent := [⟨.allocPage, some (ramBase + 0x1000)⟩, ⟨.retainPage (ramBase + 0x1000), none⟩,
    ⟨.freePage (ramBase + 0x1000), none⟩]

theorem allocator_keeps_books_adjoining : ∃ b₀ b, adjoiningBoot = .ok b₀ ∧ SharedRun b₀ allocRetainFree b ∧
      ∃ r ∈ adjoining, r.1 ≤ ramBase + 0x1000 ∧ ramBase + 0x1000 + pageSize ≤ r.1 + r.2 := by
  obtain ⟨b₀, ht, -⟩ := initFromRegionsExact_spec adjoining ramBase (ramBase + 0x1000)
  have hexec : (adjoiningBoot.toOption.bind (execute physNext? · allocRetainFree)).isSome := by decide
  rw [adjoiningBoot, ht] at hexec
  obtain ⟨b, hb⟩ := Option.isSome_iff_exists.mp hexec
  have hrun : SharedRun b₀ allocRetainFree b := run_of_execute step_of_physNext? hb
  exact ⟨b₀, b, ht, hrun, (allocator_keeps_books ht hrun).2.2.1 (ramBase + 0x1000) (by decide)⟩

/-- A run of pages may cross from one region into the next, and there is no run of no pages. -/
theorem contiguous_not_in_one_region : (¬∀ regions kernelStart kernelEnd b es b' n out b'',
      initFromRegionsExact regions kernelStart kernelEnd = .ok b → Run PhysStep b es b' →
      b'.allocContiguous n = .ok (out, b'') → 0 < n →
      (out.isSome ↔ ∃ r ∈ regions, ∃ s, ∀ i < n, s + i ∈ b'.clearPages ∧
        r.1 ≤ ramBase + (s + i) * pageSize ∧ ramBase + (s + i + 1) * pageSize ≤ r.1 + r.2)) ∧
    ¬∀ regions kernelStart kernelEnd b es b' n out b'',
      initFromRegionsExact regions kernelStart kernelEnd = .ok b → Run PhysStep b es b' →
      b'.allocContiguous n = .ok (out, b'') → (∃ s, ∀ i < n, s + i ∈ b'.clearPages) →
      out.isSome := by
  obtain ⟨b, hb, -⟩ := initFromRegionsExact_spec adjoining ramBase (ramBase + 0x1000)
  have ht : (adjoiningBoot.toOption.bind fun b => (b.allocContiguous 3).toOption.bind (·.1)).isSome := by decide
  have hz : (adjoiningBoot.toOption.bind fun b => (b.allocContiguous 0).toOption).any
      (·.1 == none) := by decide
  rw [adjoiningBoot, hb] at ht hz
  refine ⟨fun hall => ?_, fun hall => ?_⟩
  · cases ha : b.allocContiguous 3 with
    | error e => simp [ha, Except.toOption] at ht
    | ok r =>
      obtain ⟨out, b''⟩ := r
      have hm : out.isSome := by simpa [ha, Except.toOption] using ht
      obtain ⟨r, hr, s, hs⟩ := (hall adjoining _ _ b [] b 3 out b'' hb .nil ha
        (by decide)).mp hm
      have hf := (hs 0 (by decide)).2.1
      have hl := (hs 2 (by decide)).2.2
      simp only [adjoining, mem_cons, not_mem_nil, or_false] at hr
      rcases hr with rfl | rfl <;> simp only [ramBase, pageSize] at hf hl <;> omega
  · cases ha : b.allocContiguous 0 with
    | error e => simp [ha, Except.toOption] at hz
    | ok r =>
      obtain ⟨out, b''⟩ := r
      have hn : out = none := by simpa [ha, Except.toOption] using hz
      have hm := hall adjoining _ _ b [] b 0 out b'' hb .nil ha ⟨0, (by intros; contradiction)⟩
      simp [hn] at hm

end ZeroOS.Memory
