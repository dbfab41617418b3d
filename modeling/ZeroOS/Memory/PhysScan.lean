import ZeroOS.Memory.Phys

/-!
# Which page is handed out, and which never is

The cursor of the bitmap is the word of the last page that was found, and a search begins there. But it never
goes back: a page that is freed in an earlier word is not looked at as long as the word of the cursor has a free
page.

A page that was marked busy has no reference, and nothing else tells it from a page that was handed out. No call
but `retain_page` of that very page changes this.
-/

namespace ZeroOS.Memory

open Except Function List Option PhysBitmap Transition

variable {b b' : PhysBitmap}

/-- The calls of the bitmap after `init`. -/
inductive BitmapCall
  | op (op : PhysOp)
  | markBusy (page : Nat)
  deriving DecidableEq

structure BitmapEvent where
  call : BitmapCall
  out : Option Nat
  deriving DecidableEq

def PhysBitmap.exec (b : PhysBitmap) : BitmapCall → Except PhysPanic (Option Nat × PhysBitmap)
  | .op op => b.call op
  | .markBusy page => b.assertReady.map fun _ => (none, b.markBusy page)

def BitmapStep (b : PhysBitmap) (e : BitmapEvent) (b' : PhysBitmap) : Prop := b.exec e.call = .ok (e.out, b')

def BitmapEvent.granted (e : BitmapEvent) : List Nat :=
  match e.call with
  | .op op => PhysEvent.granted ⟨op, e.out⟩
  | .markBusy _ => []

lemma BitmapStep.cases (h : BitmapStep b e b') : (∃ op, e.call = .op op ∧ PhysStep b ⟨op, e.out⟩ b') ∨
      ∃ page, e = ⟨.markBusy page, none⟩ ∧ b.assertReady = .ok () ∧ b' = b.markBusy page := by
  obtain ⟨call, out⟩ := e
  cases call with
  | op op => exact .inl ⟨op, rfl, h⟩
  | markBusy page =>
    simp only [BitmapStep, PhysBitmap.exec] at h
    cases hr : b.assertReady with
    | error _ => simp [hr, Except.map] at h
    | ok =>
      simp only [hr, Except.map, Except.ok.injEq, Prod.mk.injEq] at h
      obtain ⟨rfl, rfl⟩ := h
      exact .inr ⟨page, rfl, rfl, rfl⟩

lemma BitmapStep.wellFormed (hb : b.WellFormed) (h : BitmapStep b e b') : b'.WellFormed := by
  obtain ⟨op, -, hs⟩ | ⟨page, -, -, rfl⟩ := h.cases
  · cases hs.effect hb with
    | took hS ht => exact ht.wellFormed hb hS
    | freed hg _ hbs _ hc | retained hg _ hbs hc => exact hc.wellFormed hb hg hbs
  · exact (markBusy_spec hb page).1

/-- The bitmap right after `init`, over arrays of any size and contents. -/
def Fresh (b₀ : PhysBitmap) : Prop :=
  ∃ (b : PhysBitmap) (words : Nat → BitVec 64) (nwords : Nat) (refs : Nat → Nat) (nrefs base total reserved : Nat),
    b.init words nwords refs nrefs base total reserved = .ok b₀

lemma BitmapStep.ready (h : BitmapStep b e b') : 0 < b.total := by
  by_contra hz
  have hn : b.assertReady = .error .notReady := if_pos (by omega)
  obtain ⟨call, out⟩ := e
  unfold BitmapStep at h
  rcases call with (_ | _ | _ | _) | _ <;>
    simp [PhysBitmap.exec, PhysBitmap.call, allocPage, allocContiguous, freePage, retainPage, hn, bind,
      Except.bind, Except.map] at h

lemma Fresh.wellFormed (h : Fresh b₀) : b₀.total = 0 ∨ b₀.WellFormed := by
  obtain ⟨b, words, nwords, refs, nrefs, base, total, reserved, hn⟩ := h
  rcases Nat.eq_zero_or_pos total with rfl | hp
  · simp only [init, Nat.zero_min, range_zero, foldl_nil] at hn
    split at hn
    · cases hn
    split at hn
    · cases hn
    · exact .inl (ok.inj hn ▸ rfl)
  · exact .inr (init_spec hp hn).1

lemma wellFormed_of_run (hn : Fresh b₀) (hrun : Run BitmapStep b₀ es b) (ht : BitmapStep b e b') : b.WellFormed := by
  have hv : b.total = 0 ∨ b.WellFormed := by
    clear ht
    induction hrun with
    | nil => exact hn.wellFormed
    | snoc _ hs ih => exact .inr (hs.wellFormed (ih.resolve_left (Nat.ne_of_gt hs.ready)))
  exact hv.resolve_left (Nat.ne_of_gt ht.ready)

/-! ## The first free page -/

def PhysBitmap.fullScan (b : PhysBitmap) : Option Nat := ((List.range b.total).find? fun p => !b.pageBusy p).map b.addrOf

/-- There is a free page in the word of the cursor, and one in a word before it. -/
def PhysBitmap.Behind (b : PhysBitmap) : Prop := ∃ p ∈ b.clearPages, ∃ q ∈ b.clearPages, p / 64 < b.cursor ∧ q / 64 = b.cursor

instance (b : PhysBitmap) : Decidable b.Behind := by
  unfold PhysBitmap.Behind
  infer_instance

namespace PhysBitmap

variable {b b' : PhysBitmap} {p : Nat}

def IsFirst (p : Nat) (S : Nat → Prop) : Prop := S p ∧ ∀ q, S q → p ≤ q

lemma fullScan_eq_some (h : IsFirst p (· ∈ b.clearPages)) : b.fullScan = some (b.addrOf p) := by
  obtain ⟨hlt, hc⟩ := mem_clearPages.mp h.1
  have hf : (List.range b.total).find? (fun p => !b.pageBusy p) = some p := by
    rw [find?_range_eq_some]
    refine ⟨by simp [hc], mem_range.mpr hlt, fun q hq => ?_⟩
    by_contra hr
    have := h.2 q (mem_clearPages.mpr ⟨by omega, by simpa using hr⟩)
    omega
  rw [fullScan, hf, map_some]

lemma fullScan_eq_none (h : b.clearPages = ∅) : b.fullScan = none := by
  rw [fullScan, map_eq_none_iff, find?_eq_none]
  intro p hp hf
  have hm : p ∈ b.clearPages := mem_clearPages.mpr ⟨mem_range.mp hp, by simpa using hf⟩
  rw [h] at hm
  cases hm

section

variable (hb : b.WellFormed)
include hb

lemma usable_iff (ht : bit < 64) : (!(decide (index * 64 + bit < b.reserved) || decide (b.total ≤ index * 64 + bit)) &&
      b.words index &&& (1#64 <<< bit) == 0#64) = true ↔ index * 64 + bit ∈ b.clearPages := by
  obtain ⟨hw, hp⟩ := index_of_page index ht
  have hs : b.pageBusy (index * 64 + bit) = false ↔ b.words index &&& (1#64 <<< bit) = 0#64 := by
    simp [pageBusy, hw, hp]
  rw [mem_clearPages, hs]
  simp only [Bool.and_eq_true, Bool.not_eq_true', Bool.or_eq_false_iff, decide_eq_false_iff_not, not_lt, not_le, beq_iff_eq]
  refine ⟨fun h => ⟨h.1.2, h.2⟩, fun h => ⟨⟨?_, h.1⟩, h.2⟩⟩
  exact hb.clear_ge (mem_clearPages.mpr ⟨h.1, hs.mpr h.2⟩)

lemma tryAllocInWord_first (h : b.tryAllocInWord index = some (addr, b')) :
    ∃ p, addr = b.addrOf p ∧ IsFirst p fun q => q ∈ b.clearPages ∧ q / 64 = index := by
  simp only [tryAllocInWord] at h
  split at h
  · cases h
  · obtain ⟨bit, hf, heq⟩ := map_eq_some_iff.mp h
    cases heq
    obtain ⟨hu, ht, hbf⟩ := find?_range_eq_some.mp hf
    have ht : bit < 64 := mem_range.mp ht
    refine ⟨index * 64 + bit, rfl, ⟨(usable_iff hb ht).mp hu, by omega⟩, ?_⟩
    rintro q ⟨hq, hw⟩
    by_contra hlt
    have hq' : index * 64 + q % 64 ∈ b.clearPages := by rwa [show index * 64 + q % 64 = q by omega]
    have hn := hbf (q % 64) (by omega)
    rw [(usable_iff hb (by omega)).mpr hq'] at hn
    cases hn

lemma allocFrom_first : ∀ {a : Nat}, b.allocFrom (List.range' a n) = some (addr, b') →
    ∃ p, addr = b.addrOf p ∧ IsFirst p fun q => q ∈ b.clearPages ∧ a ≤ q / 64 ∧ q / 64 < a + n := by
  induction n with
  | zero => intro a h; cases h
  | succ n ih =>
    intro a h
    simp only [List.range'_succ, allocFrom] at h
    split at h
    next hs =>
      obtain ⟨p, ha, ⟨hp, hw⟩, hf⟩ := tryAllocInWord_first hb (hs.trans h)
      refine ⟨p, ha, ⟨hp, by omega, by omega⟩, ?_⟩
      rintro q ⟨hq, hg, hlt⟩
      rcases Nat.eq_or_lt_of_le hg with heq | ht
      · exact hf q ⟨hq, heq.symm⟩
      · omega
    next hn =>
      obtain ⟨p, ha, ⟨hp, hg, hlt⟩, hf⟩ := ih h
      refine ⟨p, ha, ⟨hp, by omega, by omega⟩, ?_⟩
      rintro q ⟨hq, hgq, hl⟩
      refine hf q ⟨hq, ?_, by omega⟩
      have hne := tryAllocInWord_none hb hn hq
      omega

lemma allocPage_out (h : b.allocPage = .ok (out, b')) :
    out = b.fullScan ↔ ¬ b.Behind := by
  have ht := hb.fits
  have hinRange {q : Nat} (hq : q ∈ b.clearPages) : q / 64 < b.nwords := by
    have := (mem_clearPages.mp hq).1
    omega
  simp only [allocPage, assertReady_ok hb, bind, bind, pure, pure] at h
  split at h
  next addr b₁ hh =>
    cases h
    split at hh
    next hc =>
      obtain ⟨p, rfl, ⟨hp, hw⟩, hf⟩ := tryAllocInWord_first hb hh
      constructor
      · rintro ho ⟨q, hq, -, -, hbf, -⟩
        -- the scan finds a page before the cursor
        obtain ⟨r, hr⟩ : ∃ r, IsFirst r (· ∈ b.clearPages) :=
          ⟨Nat.find ⟨q, hq⟩, Nat.find_spec _, fun s hs => Nat.find_min' _ hs⟩
        rw [fullScan_eq_some hr] at ho
        have hpr := addrOf_inj (some.inj ho)
        have hle := hr.2 q hq
        omega
      · intro hn
        refine (fullScan_eq_some ⟨hp, fun q hq => ?_⟩).symm
        by_contra hlt
        have hl : ¬ q / 64 < b.cursor := fun hl => hn ⟨q, hq, p, hp, hl, hw⟩
        exact hlt (hf q ⟨hq, by omega⟩)
    · cases hh
  next hh =>
    -- nothing in the word of the cursor, so that all words are searched
    have he (q : Nat) (hq : q ∈ b.clearPages) : q / 64 ≠ b.cursor := by
      intro hw
      have hc : b.cursor < b.nwords := hw ▸ hinRange hq
      rw [if_pos hc] at hh
      exact tryAllocInWord_none hb hh hq hw
    have hn : ¬ b.Behind := by
      rintro ⟨_, _, q, hq, _, hw⟩
      exact he q hq hw
    refine iff_of_true ?_ hn
    rw [range_eq_range'] at h
    split at h
    next addr b₁ hm =>
      cases h
      obtain ⟨p, rfl, ⟨hp, -⟩, hf⟩ := allocFrom_first hb hm
      exact (fullScan_eq_some ⟨hp, fun q hq => hf q ⟨hq, by omega, by simpa using hinRange hq⟩⟩).symm
    next hno =>
      cases h
      refine (fullScan_eq_none (Finset.eq_empty_of_forall_notMem fun p hp => ?_)).symm
      refine allocFrom_none hb hno hp ?_
      rw [mem_range'_1]
      exact ⟨by omega, by simpa using hinRange hp⟩

end

end PhysBitmap

/-- The cursor only saves time, exactly as long as no page behind it is free while its own word has one: after
`init` and any calls, `alloc_page` hands out the page that a scan of all pages finds. -/
theorem alloc_page_is_full_scan {b₀ b b' : PhysBitmap} {es : List BitmapEvent} {out : Option Nat}
    (hinit : Fresh b₀) (hrun : Run BitmapStep b₀ es b) (hstep : BitmapStep b ⟨.op .allocPage, out⟩ b') :
    out = b.fullScan ↔ ¬ b.Behind :=
  allocPage_out (wellFormed_of_run hinit hrun hstep) hstep

def bitmapNext? (b : PhysBitmap) (e : BitmapEvent) : Option PhysBitmap :=
  match b.exec e.call with
  | .ok (out, b') => if out = e.out then some b' else none
  | .error _ => none

lemma step_of_bitmapNext? (h : bitmapNext? b e = some b') :
    BitmapStep b e b' := by
  unfold bitmapNext? at h
  split at h
  next out b₁ hc =>
    split at h
    next ho =>
      cases h
      rw [BitmapStep, ← ho, hc]
    · cases h
  · cases h

/-- A bitmap of 130 pages, of which 63 are reserved. -/
def crossing : PhysBitmap := ((PhysBitmap.empty.init (fun _ => 0#64) 3 (fun _ => 0) 130 ramBase 130 63).toOption).getD .empty

lemma fresh_crossing : Fresh crossing := ⟨.empty, fun _ => 0#64, 3, fun _ => 0, 130, ramBase, 130, 63, rfl⟩

/-- The last page of the first word and the first one of the second word are handed out, and the first of the two
is freed. -/
def allocTwoFreeFirst : List BitmapEvent :=
  [⟨.op .allocPage, some (ramBase + 63 * pageSize)⟩, ⟨.op .allocPage, some (ramBase + 64 * pageSize)⟩,
    ⟨.op (.freePage (ramBase + 63 * pageSize)), none⟩]

theorem alloc_page_is_full_scan_crossing :
    ∃ b b', Run BitmapStep crossing [⟨.op .allocPage, some (ramBase + 63 * pageSize)⟩] b ∧
      BitmapStep b ⟨.op .allocPage, some (ramBase + 64 * pageSize)⟩ b' ∧
      b.fullScan = some (ramBase + 64 * pageSize) := by
  have hc : (execute bitmapNext? crossing [⟨.op .allocPage, some (ramBase + 63 * pageSize)⟩]).any
      (fun b => (bitmapNext? b ⟨.op .allocPage, some (ramBase + 64 * pageSize)⟩).isSome && decide (¬ b.Behind)) = true := by
    decide +kernel
  obtain ⟨b, hrun, hb⟩ := exists_run_of_execute step_of_bitmapNext? hc
  obtain ⟨hm, hn⟩ := Bool.and_eq_true_iff.mp hb
  obtain ⟨b', hb'⟩ := isSome_iff_exists.mp hm
  have hs := step_of_bitmapNext? hb'
  exact ⟨b, b', hrun, hs, ((alloc_page_is_full_scan fresh_crossing hrun hs).mpr (of_decide_eq_true hn)).symm⟩

/-- The cursor is in the second word, which has a free page: the page that was freed in the first word is not
found. -/
theorem freed_page_behind_cursor : ∃ b b', Fresh crossing ∧ Run BitmapStep crossing allocTwoFreeFirst b ∧
      BitmapStep b ⟨.op .allocPage, some (ramBase + 65 * pageSize)⟩ b' ∧
      b.fullScan = some (ramBase + 63 * pageSize) := by
  have hc : (execute bitmapNext? crossing allocTwoFreeFirst).any
      (fun b => (bitmapNext? b ⟨.op .allocPage, some (ramBase + 65 * pageSize)⟩).isSome &&
        decide (b.fullScan = some (ramBase + 63 * pageSize))) = true := by
    decide +kernel
  obtain ⟨b, hrun, hb⟩ := exists_run_of_execute step_of_bitmapNext? hc
  obtain ⟨hm, hs⟩ := Bool.and_eq_true_iff.mp hb
  obtain ⟨b', hb'⟩ := isSome_iff_exists.mp hm
  exact ⟨b, b', fresh_crossing, hrun, step_of_bitmapNext? hb', of_decide_eq_true hs⟩

/-! ## Reserved pages -/

/-- The page is neither free nor handed out. -/
structure Reserved (b : PhysBitmap) (p : Nat) : Prop where
  busy : p ∉ b.clearPages
  refs : p < b.total → b.refs p = 0

lemma Reserved.step {b b' : PhysBitmap} {e : BitmapEvent} {p : Nat} (h : Reserved b p) (hb : b.WellFormed)
    (hsp : e.call ≠ .op (.retainPage (b.addrOf p))) (hs : BitmapStep b e b') :
    Reserved b' p ∧ b'.base = b.base ∧ b.addrOf p ∉ e.granted := by
  obtain ⟨op, hl, hs⟩ | ⟨page, rfl, -, rfl⟩ := hs.cases
  · have hgr : e.granted = PhysEvent.granted ⟨op, e.out⟩ := by rw [BitmapEvent.granted, hl]
    rw [hgr]
    cases hs.effect hb with
    | @took S hS ht _ _ _ hm =>
      have hp : p ∉ S := fun hp => h.busy (hS hp)
      refine ⟨⟨?_, fun hlt => ?_⟩, ht.base, fun hn => ?_⟩
      · rw [ht.clear]
        exact fun hm => h.busy (Finset.mem_sdiff.mp hm).1
      · rw [ht.refs, if_neg hp]
        exact h.refs (ht.total ▸ hlt)
      · obtain ⟨q, hq, heq⟩ := (hm _).mp hn
        exact hp (addrOf_inj heq ▸ hq)
    | @freed q hg hlt hu hps hc he =>
      have hne : p ≠ q := by
        rintro rfl
        exact absurd (h.refs hlt) (Nat.ne_of_gt hps)
      obtain ⟨rfl, -⟩ := PhysEvent.mk.inj he
      refine ⟨⟨?_, fun hlt' => ?_⟩, hc.base, by simp [PhysEvent.granted]⟩
      · rw [hc.clear]
        split
        · simpa [hne] using h.busy
        · exact h.busy
      · rw [hc.refs, update_of_ne hne]
        exact h.refs (hc.total ▸ hlt')
    | @retained q hg hlt hu hc he =>
      obtain ⟨rfl, -⟩ := PhysEvent.mk.inj he
      have hne : p ≠ q := by
        rintro rfl
        exact hsp hl
      refine ⟨⟨?_, fun hlt' => ?_⟩, hc.base, by simp [PhysEvent.granted]⟩
      · rw [hc.clear, if_neg (by omega)]
        exact h.busy
      · rw [hc.refs, update_of_ne hne]
        exact h.refs (hc.total ▸ hlt')
  · obtain ⟨-, hbs, htl, hcr, hr⟩ := markBusy_spec hb page
    refine ⟨⟨?_, fun hlt => hr p (h.refs (htl ▸ hlt))⟩, hbs, by simp [BitmapEvent.granted]⟩
    rw [hcr]
    exact fun hm => h.busy (Finset.mem_of_mem_erase hm)

lemma reserved_markBusy (hb : b.WellFormed) (h : b.refCount (b.addrOf p) = 0) :
    Reserved (b.markBusy p) p := by
  obtain ⟨-, -, ht, hc, hr⟩ := markBusy_spec hb p
  refine ⟨by simp [hc], fun hlt => hr p ?_⟩
  rwa [refCount_addrOf (ht ▸ hlt)] at h

def Spares (addr : Nat) (_ : PhysBitmap) (e : BitmapEvent) : Prop := e.call ≠ .op (.retainPage addr)

/-- Reservations are permanent, as long as nobody retains the page: a page that was not handed out when it was
marked busy is not handed out by any later call. -/
theorem marked_page_never_allocated {b₀ b b₁ b₂ : PhysBitmap} {es fs : List BitmapEvent} {p : Nat}
    (hinit : Fresh b₀) (hrun : Run BitmapStep b₀ es b) (hfree : b.refCount (b.addrOf p) = 0)
    (hmark : BitmapStep b ⟨.markBusy p, none⟩ b₁)
    (hlater : Run (Guarded (Spares (b.addrOf p)) BitmapStep) b₁ fs b₂) :
    ∀ e ∈ fs, b.addrOf p ∉ e.granted := by
  have hw := wellFormed_of_run hinit hrun hmark
  obtain ⟨op, hl, -⟩ | ⟨page, he, -, rfl⟩ := hmark.cases
  · cases hl
  obtain rfl : p = page := by simpa using he
  have hbs := (markBusy_spec hw p).2.1
  suffices hin : b₂.WellFormed ∧ Reserved b₂ p ∧ b₂.base = b.base ∧ ∀ e ∈ fs, b.addrOf p ∉ e.granted from
    hin.2.2.2
  induction hlater with
  | nil => exact ⟨(markBusy_spec hw p).1, reserved_markBusy hw hfree, hbs, nofun⟩
  | snoc _ hs ih =>
    obtain ⟨hw₂, hr, hbs₂, hn⟩ := ih
    have ha {c : PhysBitmap} (hc : c.base = b.base) : c.addrOf p = b.addrOf p := by simp [addrOf, hc]
    have hp := hs.1
    rw [Spares, ← ha hbs₂] at hp
    obtain ⟨hr', hbs', hg⟩ := hr.step hw₂ hp hs.2
    rw [ha hbs₂] at hg
    refine ⟨hs.2.wellFormed hw₂, hr', hbs'.trans hbs₂, fun e he => ?_⟩
    rcases mem_append.mp he with he | he
    · exact hn e he
    · rw [mem_singleton.mp he]
      exact hg

theorem marked_page_never_allocated_crossing : ∃ b₁ b₂, BitmapStep crossing ⟨.markBusy 63, none⟩ b₁ ∧
      BitmapStep b₁ ⟨.op .allocPage, some (ramBase + 64 * pageSize)⟩ b₂ ∧
      crossing.addrOf 63 ∉ BitmapEvent.granted ⟨.op .allocPage, some (ramBase + 64 * pageSize)⟩ := by
  have hc : ((bitmapNext? crossing ⟨.markBusy 63, none⟩).bind
      (bitmapNext? · ⟨.op .allocPage, some (ramBase + 64 * pageSize)⟩)).isSome = true := by
    decide +kernel
  obtain ⟨b₂, hb₂⟩ := isSome_iff_exists.mp hc
  obtain ⟨b₁, hb₁, hb₂⟩ := bind_eq_some_iff.mp hb₂
  have hm := step_of_bitmapNext? hb₁
  have hs := step_of_bitmapNext? hb₂
  have hl : Run (Guarded (Spares (crossing.addrOf 63)) BitmapStep) b₁
      [⟨.op .allocPage, some (ramBase + 64 * pageSize)⟩] b₂ := .single ⟨nofun, hs⟩
  exact ⟨b₁, b₂, hm, hs, marked_page_never_allocated fresh_crossing .nil (by decide +kernel) hm hl _ (mem_singleton_self _)⟩

/-- A page that was marked busy is retained, freed, and handed out. -/
def retainMarked : List BitmapEvent :=
  [⟨.op (.retainPage (ramBase + 63 * pageSize)), none⟩, ⟨.op (.freePage (ramBase + 63 * pageSize)), none⟩,
    ⟨.op .allocPage, some (ramBase + 63 * pageSize)⟩]

/-- `retain_page` and `free_page` turn a reserved page into a free one. -/
theorem marked_page_retained_and_freed : ∃ b₁ b₂, Fresh crossing ∧ crossing.refCount (crossing.addrOf 63) = 0 ∧
      BitmapStep crossing ⟨.markBusy 63, none⟩ b₁ ∧ Run BitmapStep b₁ retainMarked b₂ ∧
      ∃ e ∈ retainMarked, crossing.addrOf 63 ∈ e.granted := by
  have hc : decide (crossing.refCount (crossing.addrOf 63) = 0) = true ∧
      ((bitmapNext? crossing ⟨.markBusy 63, none⟩).bind (execute bitmapNext? · retainMarked)).isSome = true := by
    decide +kernel
  obtain ⟨b₂, hb₂⟩ := isSome_iff_exists.mp hc.2
  obtain ⟨b₁, hb₁, hb₂⟩ := bind_eq_some_iff.mp hb₂
  exact ⟨b₁, b₂, fresh_crossing, of_decide_eq_true hc.1, step_of_bitmapNext? hb₁,
    run_of_execute step_of_bitmapNext? hb₂, _, mem_of_getElem? (i := 2) rfl, mem_singleton_self _⟩

end ZeroOS.Memory
