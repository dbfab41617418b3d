import ZeroOS.Memory.Paging

/-!
# Who holds which page

The paging code moves references around: it gets one from the allocator, puts it into a table, takes
it out of one, gives it back. A `Hand` is what an execution has at a moment that no table shows: the
references it carries, the spaces only it knows, the leaf it has read and means to replace. The rules
say what each action needs of the hand and leaves in it, and `Accounts` ties the hand to the tables
and the counts: no reference is lost and none is invented.

Copying on write gives back the reference of the old page while the leaf still shows it. The
execution then *owes* the leaf until it writes the new one.
-/

namespace ZeroOS.Memory

open Atomic Atomic.Prog Finset Function Option Tally Prod

/-! ## Hands -/

/-- A leaf that was read. -/
structure Look where
  root : Nat
  v : Nat
  desc : BitVec 64

/-- A leaf a fork shares, and a write to it breaks out of sharing. -/
def shares (leaf : BitVec 64) : Prop := isValid leaf = true ∧ classifyLeaf leaf = .cowShare

instance (leaf : BitVec 64) : Decidable (shares leaf) := inferInstanceAs (Decidable (_ ∧ _))

structure Hand where
  /-- References that are in no table. -/
  pages : Nat → Nat
  /-- Pages nobody else has a reference to. -/
  fresh : Finset Nat
  /-- Spaces nobody else knows. -/
  own : Finset Nat
  /-- Spaces of others the execution works on. -/
  guest : Finset Nat
  /-- The leaf that was read last in a space of our own. -/
  peek : Option Look
  /-- The leaf that was read last in any other space. -/
  look : Option Look
  /-- The reference of that leaf was given back already. -/
  owes : Bool
  /-- The execution replaces the page of a leaf. -/
  excl : Bool

namespace Hand

/-- The hand of an execution that begins with the references `pages`. -/
def start (pages : Nat → Nat) (excl : Bool) (own guest : Finset Nat) : Hand := ⟨pages, ∅, own, guest, none, none, false, excl⟩

/-- The number of references to one page becomes `n`. -/
def put (g : Hand) (p n : Nat) : Hand :=
  { g with
    pages := update g.pages p n
    fresh := g.fresh.erase p }

def seen (g : Hand) : Option Nat := g.look.bind fun l => charge l.desc

/-- The leaf that was read holds the page `p`, and still has its reference. -/
def sees (g : Hand) (p : Nat) : Prop := g.owes = false ∧ g.seen = some p

/-- The references that were given back before their leaf was written. -/
def debt (g : Hand) (p : Nat) : Nat := if g.owes then hit g.seen p else 0

/-- What is in hand after a store of `desc` to a leaf of the space `root`. -/
def store (g : Hand) (root : Nat) (desc : BitVec 64) : Hand :=
  if root ∈ g.own then
    { g with
      pages := fun p => g.pages p + hit (g.peek.bind fun l => charge l.desc) p - hit (charge desc) p
      fresh := ∅
      peek := none }
  else if g.owes then
    { g with
      pages := fun p => g.pages p - hit (charge desc) p
      fresh := ∅
      look := none
      owes := false }
  else
    { g with look := none }

/-- A store to a leaf. In a space of our own the new page must be in hand. Elsewhere the leaf that
was read is replaced: by one with the same page, or with the copy of a page that was given back. -/
def CanStore (g : Hand) (root v : Nat) (desc : BitVec 64) : Prop :=
  if root ∈ g.own then
    (∃ l, g.peek = some l ∧ l.root = root ∧ l.v = v) ∧
      (∀ q, charge desc = some q → 0 < g.pages q) ∧ (isForeign desc = true → Outside desc)
  else
    shares desc ∧ ∃ l, g.look = some l ∧ l.root = root ∧ l.v = v ∧ shares l.desc ∧
      if g.owes then ∃ q, charge desc = some q ∧ 0 < g.pages q
      else charge desc = charge l.desc

/-- A space with no page of the allocator behind its leaves. -/
structure Bare (s : Space) : Prop where
  charge : ∀ v, charge (s.pte v) = none
  outside : ∀ v, isForeign (s.pte v) = true → Outside (s.pte v)
  rootSlot : ∀ i, i ≠ 0 → s.table (.l1 i) = none

end Hand

/-- What an action needs, and what it leaves. -/
def handRules : Rules Act Resp Hand where
  can
    | .freePage p, g => p < ramBase ∨ 0 < g.pages p ∨ g.excl = true ∧ g.sees p ∧ ∃ l, g.look = some l ∧ shares l.desc
    | .retainPage p, g => 0 < g.pages p ∨ g.sees p
    | .writePage p _, g => p ∈ g.fresh
    | .copyPage _ dst, g => dst ∈ g.fresh
    | .setTable root sl t, g => root ∈ g.own ∧ 0 < g.pages t ∧ ∀ i, sl = .l1 i → i = 0
    | .readPte root _, g => root ∈ g.own ∨ root ∈ g.guest ∧ g.owes = false
    | .setPte root v desc, g => g.CanStore root v desc
    | .bbmUpdatePage root v desc, g => g.CanStore root v desc
    | .newSpace root s, g => (∀ p, hit (some root) p + s.uses p ≤ g.pages p) ∧ Hand.Bare s
    | .takeSpace root, g => root ∈ g.own
    | _, _ => True
  does
    | .allocPage, g, x, g' =>
      match (x : Option Nat) with
      | none => g' = g
      | some p => IsFrame p ∧ g.pages p = 0 ∧ ¬ g.sees p ∧ g' = { g with
            pages := update g.pages p 1
            fresh := insert p g.fresh }
    | .freePage p, g, _, g' => ramBase ≤ p ∧ g' = if 0 < g.pages p then g.put p (g.pages p - 1) else { g with owes := true }
    | .retainPage p, g, _, g' => IsFrame p ∧ g' = g.put p (g.pages p + 1)
    | .writePage _ _, g, _, g' => g' = g
    | .copyPage _ _, g, _, g' => g' = g
    | .setTable _ _ t, g, _, g' => g' = g.put t (g.pages t - 1)
    | .readPte root v, g, d, g' => (isForeign (d : BitVec 64) = true → Outside d) ∧
        g' = if root ∈ g.own then { g with peek := some ⟨root, v, d⟩ }
          else { g with look := some ⟨root, v, d⟩ }
    | .setPte root _ desc, g, _, g' => g' = g.store root desc
    | .bbmUpdatePage root _ desc, g, _, g' => g' = g.store root desc
    | .newSpace root s, g, _, g' => root ∉ g.guest ∧ g' = { g with
          pages := fun p => g.pages p - (hit (some root) p + s.uses p)
          fresh := ∅
          own := insert root g.own }
    | .takeSpace root, g, s, g' => (∀ i, i ≠ 0 → Space.table s (.l1 i) = none) ∧ g' = { g with
          pages := fun p => g.pages p + (hit (some root) p + Space.uses s p)
          fresh := ∅
          own := g.own.erase root
          peek := none }
    | .assert holds, g, _, g' => holds = true ∧ g' = g
    | .refCount _, g, _, g' => g' = g
    | .readTable _ _, g, _, g' => g' = g

/-! ## Accounts -/

namespace Mm

variable {m : Mm} {root : Nat}

/-- The entries of all spaces that hold the page `p`. Every space holds its root. -/
noncomputable def uses (m : Mm) (p : Nat) : Nat := ∑ r ∈ m.live, (hit (some r) p + (m.space r).uses p)

lemma uses_withSpace (h : root ∈ m.live) (s : Space) (p : Nat) :
    (m.withSpace root s).uses p + (m.space root).uses p = m.uses p + s.uses p := by
  have hs (f : Nat → Space) : ∑ r ∈ m.live, (hit (some r) p + (f r).uses p) =
      ∑ r ∈ m.live, hit (some r) p + ∑ r ∈ m.live, (f r).uses p := sum_add_distrib
  have hu := sum_update m.live (fun s : Space => s.uses p) m.space h s
  simp only [uses, withSpace, hs]
  omega

lemma uses_newSpace (h : root ∉ m.live) (s : Space) (p : Nat) :
    ({ m.withSpace root s with live := insert root m.live } : Mm).uses p = m.uses p + (hit (some root) p + s.uses p) := by
  have hs : ∑ r ∈ m.live, (hit (some r) p + (update m.space root s r).uses p) = m.uses p :=
    sum_congr rfl fun r hr => by rw [update_of_ne (ne_of_mem_of_not_mem hr h)]
  simp only [uses, withSpace]
  rw [sum_insert h, update_self, hs, Nat.add_comm]
  rfl

lemma uses_takeSpace (h : root ∈ m.live) (p : Nat) :
    ({ m with live := m.live.erase root } : Mm).uses p + (hit (some root) p + (m.space root).uses p) = m.uses p := by
  have hs := add_sum_erase m.live (fun r => hit (some r) p + (m.space r).uses p) h
  simp only [uses]
  omega

end Mm

/-- The accounts. The references of a page are the entries that hold it and those in hand, with
`ext` for what is held elsewhere; and what the hand remembers of the tables is so. -/
structure Accounts (ext : Nat → Nat) (m : Mm) (g : Hand) : Prop where
  wf : m.phys.WellFormed
  framed : m.phys.Framed
  base : m.phys.base = ramBase
  books : ∀ p, m.phys.refCount p + g.debt p = m.uses p + g.pages p + ext p
  foreign : ∀ r ∈ m.live, ∀ v, isForeign ((m.space r).pte v) = true → Outside ((m.space r).pte v)
  rootSlot : ∀ r ∈ m.live, ∀ i, i ≠ 0 → (m.space r).table (.l1 i) = none
  own : ∀ r ∈ g.own, r ∈ m.live
  guest : ∀ r ∈ g.guest, r ∈ m.live ∧ r ∉ g.own
  peek : ∀ l, g.peek = some l → l.root ∈ g.own ∧ (m.space l.root).pte l.v = l.desc
  look : ∀ l, g.look = some l → l.root ∈ g.guest ∧ (m.space l.root).pte l.v = l.desc
  owes : g.owes = true → ∃ l, g.look = some l ∧ shares l.desc
  fresh : ∀ p ∈ g.fresh, m.phys.refCount p = 1 ∧ g.pages p = 1

namespace Accounts

variable {ext : Nat → Nat} {m m' : Mm} {p q r v root : Nat} {g g' : Hand} {desc : BitVec 64}

/-! ## Counts -/

lemma uses_pos (hr : r ∈ m.live) (hp : (m.space r).charge pl = some p) :
    0 < m.uses p := by
  have hs := single_le_sum (f := fun r => hit (some r) p + (m.space r).uses p)
    (fun _ _ => Nat.zero_le _) hr
  have hm : pl ∈ Space.places.filter fun pl => (m.space r).charge pl = some p :=
    mem_filter.mpr ⟨Space.mem_places.mpr (Space.inRange_of_charge hp), hp⟩
  have hps : 0 < (m.space r).uses p := card_pos.mpr ⟨pl, hm⟩
  simp only [Mm.uses]
  omega

lemma uses_pos_of_seen (h : Accounts ext m g) (hp : g.seen = some p) : 0 < m.uses p := by
  obtain ⟨l, hl, hp⟩ := bind_eq_some_iff.mp hp
  obtain ⟨hg, ht⟩ := h.look l hl
  have hpl : (m.space l.root).charge (.leaf l.v) = some p := by
    rw [← hp, ← ht]
    rfl
  exact uses_pos (h.guest _ hg).1 hpl

lemma pages_le (h : Accounts ext m g) : g.pages p + ext p ≤ m.phys.refCount p := by
  have hb := h.books p
  have hd : g.debt p ≤ m.uses p := by
    unfold Hand.debt hit
    split
    · split
      next hp => exact h.uses_pos_of_seen hp
      · exact Nat.zero_le _
    · exact Nat.zero_le _
  omega

lemma sees_lt (h : Accounts ext m g) (hs : g.sees p) : g.pages p + ext p < m.phys.refCount p := by
  have hb := h.books p
  have hp := h.uses_pos_of_seen hs.2
  simp only [Hand.debt, hs.1, Bool.false_eq_true, if_false] at hb
  omega

/-! ## One action -/

lemma books_update (h : Accounts ext m g)
    (hc : PhysBitmap.Counted m.phys b a c) (hn : c + g.pages a = m.phys.refCount a + n) (q : Nat) :
    b.refCount q + g.debt q = m.uses q + update g.pages a n q + ext q := by
  have hb := h.books q
  rw [hc.refs]
  by_cases hq : q = a
  · subst hq
    simp only [update_self]
    omega
  · simp only [update_of_ne hq]
    exact hb

lemma step_allocPage (h : Accounts ext m g) {x : Option Nat} (hexec : m.exec .allocPage = some (x, m')) :
    ∃ g', handRules.does .allocPage g x g' ∧ Accounts ext m' g' := by
  simp only [Mm.exec] at hexec
  split at hexec
  next x₁ b hb =>
    cases hexec
    obtain ⟨rfl, rfl⟩ | ⟨p, hp, rfl, hf, hc⟩ := PhysBitmap.allocPage_cases h.wf hb
    · exact ⟨g, rfl, h⟩
    · have hz := h.wf.refCount_of_pageIsFree hf
      have hle := h.pages_le (p := m.phys.addrOf p)
      have hu : ¬ g.sees (m.phys.addrOf p) := fun hs => by
        have := h.sees_lt hs
        omega
      refine ⟨_, ⟨h.framed.isFrame hp, by omega, hu, rfl⟩, { h with
        wf := hc.wf
        framed := hc.framed h.framed
        base := hc.base.trans h.base
        books := h.books_update hc (by omega)
        fresh := fun q hq => ?_ }⟩
      simp only [hc.refs]
      by_cases hqp : q = m.phys.addrOf p
      · subst hqp
        simp
      · simp only [update_of_ne hqp]
        exact h.fresh q (mem_of_mem_insert_of_ne hq hqp)
  · cases hexec

lemma put (h : Accounts ext m g) (hc : PhysBitmap.Counted m.phys b a c) (hn : c + g.pages a = m.phys.refCount a + n) :
    Accounts ext { m with phys := b } (g.put a n) :=
  { h with
    wf := hc.wf
    framed := hc.framed h.framed
    base := hc.base.trans h.base
    books := h.books_update hc hn
    fresh := fun q hq => by
      obtain ⟨hne, hq⟩ := mem_erase.mp hq
      simp only [hc.refs, Hand.put, update_of_ne hne]
      exact h.fresh q hq }

lemma step_freePage (h : Accounts ext m g) (hn : handRules.can (.freePage a) g)
    (hexec : m.exec (.freePage a) = some ((), m')) :
    ∃ g', handRules.does (.freePage a) g () g' ∧ Accounts ext m' g' := by
  simp only [Mm.exec] at hexec
  split at hexec
  next b hb =>
    cases hexec
    obtain ⟨hbs, hps, hc⟩ := PhysBitmap.freePage_counted h.wf hb
    have hw : ramBase ≤ a := h.base ▸ hbs
    by_cases hp : 0 < g.pages a
    · exact ⟨g.put a (g.pages a - 1), ⟨hw, (if_pos hp).symm⟩, h.put hc (by omega)⟩
    · -- The reference of the leaf that was read is given back before the leaf is written.
      obtain hlt | hin | ⟨-, hs, l, hl, hh⟩ := hn
      · omega
      · exact absurd hin hp
      refine ⟨{ g with owes := true }, ⟨hw, (if_neg hp).symm⟩, { h with
        wf := hc.wf
        framed := hc.framed h.framed
        base := hc.base.trans h.base
        books := fun q => ?_
        owes := fun _ => ⟨l, hl, hh⟩
        fresh := fun q hq => ?_ }⟩
      · have hk := h.books q
        rw [Hand.debt, hs.1] at hk
        change b.refCount q + hit g.seen q = m.uses q + g.pages q + ext q
        rw [hc.refs, hs.2]
        by_cases hq : q = a
        · subst hq
          simp only [update_self, hit_self, Bool.false_eq_true, if_false] at hk ⊢
          omega
        · simpa [update_of_ne hq, hit, Ne.symm hq] using hk
      · have hne : q ≠ a := by
          rintro rfl
          have := (h.fresh q hq).2
          omega
        simp only [hc.refs, update_of_ne hne]
        exact h.fresh q hq
  · cases hexec

lemma step_retainPage (h : Accounts ext m g) (hexec : m.exec (.retainPage a) = some ((), m')) :
    ∃ g', handRules.does (.retainPage a) g () g' ∧ Accounts ext m' g' := by
  simp only [Mm.exec] at hexec
  split at hexec
  next b hb =>
    cases hexec
    have hc := PhysBitmap.retainPage_counted h.wf hb
    have hf : IsFrame a := by
      refine (hc.framed h.framed).isFrame_of_refCount ?_
      rw [hc.refs, update_self]
      omega
    exact ⟨g.put a (g.pages a + 1), ⟨hf, rfl⟩, h.put hc (by omega)⟩
  · cases hexec

lemma step_readPte (h : Accounts ext m g) {d : BitVec 64} (hc : handRules.can (.readPte root v) g)
    (hexec : m.exec (.readPte root v) = some (d, m')) :
    ∃ g', handRules.does (.readPte root v) g d g' ∧ Accounts ext m' g' := by
  simp only [Mm.exec] at hexec
  split at hexec
  next hv =>
    cases hexec
    by_cases hn : root ∈ g.own
    · refine ⟨_, ⟨h.foreign root hv v, (if_pos hn).symm⟩, { h with peek := fun l hl => ?_ }⟩
      cases hl
      exact ⟨hn, rfl⟩
    · obtain ⟨hg, hs⟩ := hc.resolve_left hn
      refine ⟨_, ⟨h.foreign root hv v, (if_neg hn).symm⟩, { h with
        books := fun p => ?_
        look := fun l hl => ?_
        owes := fun ho => ?_ }⟩
      · have hb := h.books p
        simpa [Hand.debt, hs] using hb
      · cases hl
        exact ⟨hg, rfl⟩
      · rw [show _ = false from hs] at ho
        cases ho
  · cases hexec

lemma withSpace_self (m : Mm) (root : Nat) (s : Space) : (m.withSpace root s).space root = s := update_self ..

lemma withSpace_of_ne (m : Mm) (s : Space) (hr : r ≠ root) : (m.withSpace root s).space r = m.space r := update_of_ne hr ..

lemma step_setTable (h : Accounts ext m g)
    (hc : handRules.can (.setTable root sl t) g) (hexec : m.exec (.setTable root sl t) = some ((), m')) :
    ∃ g', handRules.does (.setTable root sl t) g () g' ∧ Accounts ext m' g' := by
  obtain ⟨ho, hg, hsl⟩ := hc
  simp only [Mm.exec] at hexec
  split at hexec
  next ha =>
    cases hexec
    have ht (r v : Nat) : ((m.withSpace root ((m.space root).setTable sl t ha.2)).space r).pte v = (m.space r).pte v := by
      by_cases hr : r = root
      · subst hr
        rw [withSpace_self]
        rfl
      · rw [withSpace_of_ne m _ hr]
    refine ⟨_, rfl, { h with
      books := fun p => ?_
      foreign := fun r hr v hf => ?_
      rootSlot := fun r hr i hi => ?_
      peek := fun l hl => ?_
      look := fun l hl => ?_
      fresh := fun q hq => ?_ }⟩
    · have hu := Mm.uses_withSpace ha.1 ((m.space root).setTable sl t ha.2) p
      have hs := (m.space root).uses_setTable (t := t) ha.2 p
      have hb := h.books p
      change m.phys.refCount p + g.debt p = _ + update g.pages t (g.pages t - 1) p + ext p
      by_cases hp : p = t
      · subst hp
        simp only [update_self, hit_self] at hs ⊢
        omega
      · have hh : hit (some t) p = 0 := if_neg (by simpa using Ne.symm hp)
        simp only [update_of_ne hp]
        omega
    · rw [ht] at hf ⊢
      exact h.foreign r hr v hf
    · by_cases hrr : r = root
      · subst hrr
        rw [withSpace_self]
        change update (m.space r).table sl (some t) (.l1 i) = none
        rw [update_of_ne, h.rootSlot r hr i hi]
        rintro rfl
        exact hi (hsl i rfl)
      · rw [withSpace_of_ne m _ hrr]
        exact h.rootSlot r hr i hi
    · rw [ht]
      exact h.peek l hl
    · rw [ht]
      exact h.look l hl
    · obtain ⟨hne, hq⟩ := mem_erase.mp hq
      simp only [Hand.put, update_of_ne hne]
      exact h.fresh q hq
  · cases hexec

lemma storePte_eq_some (h : m.storePte root v desc = some m') :
    root ∈ m.live ∧ ∃ ht : (m.space root).table (.l3 (v / 512)) ≠ none,
      m' = m.withSpace root ((m.space root).setPte v desc ht) := by
  unfold Mm.storePte at h
  split at h
  next hc => exact ⟨hc.1, hc.2, (some.inj h).symm⟩
  · cases h

lemma pte_setPte (ht : (m.space root).table (.l3 (v / 512)) ≠ none) (hne : r ≠ root ∨ u ≠ v) :
    ((m.withSpace root ((m.space root).setPte v desc ht)).space r).pte u = (m.space r).pte u := by
  by_cases hr : r = root
  · subst hr
    rw [withSpace_self]
    exact update_of_ne (hne.resolve_left (· rfl)) ..
  · rw [withSpace_of_ne m _ hr]

lemma pte_setPte_self (ht : (m.space root).table (.l3 (v / 512)) ≠ none) :
    ((m.withSpace root ((m.space root).setPte v desc ht)).space root).pte v = desc := by
  rw [withSpace_self]
  exact update_self ..

section

variable (h : Accounts ext m g)
include h

lemma stored (hv : root ∈ m.live) (ht : (m.space root).table (.l3 (v / 512)) ≠ none)
    (hd : isForeign desc = true → Outside desc)
    (hb : ∀ p, g'.pages p + hit (charge desc) p + g.debt p = g.pages p + hit (charge ((m.space root).pte v)) p + g'.debt p)
    (hon : g'.own = g.own) (hg : g'.guest = g.guest)
    (hpk : ∀ l, g'.peek = some l → g.peek = some l ∧ l.root ≠ root)
    (hk : ∀ l, g'.look = some l → g.look = some l ∧ l.root ≠ root)
    (hos : g'.owes = true → g.owes = true ∧ g'.look = g.look)
    (hf : ∀ p ∈ g'.fresh, p ∈ g.fresh ∧ g'.pages p = g.pages p) :
    Accounts ext (m.withSpace root ((m.space root).setPte v desc ht)) g' where
  wf := h.wf
  framed := h.framed
  base := h.base
  books p := by
    have hu := Mm.uses_withSpace hv ((m.space root).setPte v desc ht) p
    have hs := (m.space root).uses_setPte (d := desc) ht p
    have hol := h.books p
    have hn := hb p
    change m.phys.refCount p + g'.debt p = _
    omega
  foreign r hr u := by
    by_cases hru : r ≠ root ∨ u ≠ v
    · rw [pte_setPte ht hru]
      exact h.foreign r hr u
    · push Not at hru
      obtain ⟨rfl, rfl⟩ := hru
      rw [pte_setPte_self]
      exact hd
  rootSlot r hr i hi := by
    by_cases hrr : r = root
    · subst hrr
      rw [withSpace_self]
      exact h.rootSlot r hr i hi
    · rw [withSpace_of_ne m _ hrr]
      exact h.rootSlot r hr i hi
  own := hon ▸ h.own
  guest := hon ▸ hg ▸ h.guest
  peek l hl := by
    obtain ⟨hl, hne⟩ := hpk l hl
    rw [pte_setPte ht (.inl hne), hon]
    exact h.peek l hl
  look l hl := by
    obtain ⟨hl, hne⟩ := hk l hl
    rw [pte_setPte ht (.inl hne), hg]
    exact h.look l hl
  owes ho := by
    obtain ⟨ho, heq⟩ := hos ho
    rw [heq]
    exact h.owes ho
  fresh p hp := by
    obtain ⟨hp, heq⟩ := hf p hp
    rw [heq]
    exact h.fresh p hp

lemma step_store (hn : g.CanStore root v desc) (hst : m.storePte root v desc = some m') :
    Accounts ext m' (g.store root desc) := by
  obtain ⟨hv, ht, rfl⟩ := storePte_eq_some hst
  have hh {p : Nat} (hg : ∀ q, charge desc = some q → 0 < g.pages q) :
      hit (charge desc) p ≤ g.pages p := by
    unfold hit
    split
    next hc => exact hg p hc
    · exact Nat.zero_le _
  unfold Hand.CanStore at hn
  unfold Hand.store
  by_cases hon : root ∈ g.own
  · rw [if_pos hon] at hn ⊢
    obtain ⟨⟨l, hl, rfl, rfl⟩, hg, hd⟩ := hn
    refine h.stored hv ht hd (fun p => ?_) rfl rfl (by intros; contradiction) (fun l' hl' => ⟨hl', fun hr => ?_⟩)
      (fun ho => ⟨ho, rfl⟩) (fun _ hp => absurd hp (notMem_empty _))
    · have := hh (p := p) hg
      rw [(h.peek l hl).2]
      change g.pages p + hit (g.peek.bind fun l => charge l.desc) p - hit (charge desc) p + _ + g.debt p =
        _ + _ + g.debt p
      rw [hl, bind_some]
      omega
    · exact (h.guest _ (h.look l' hl').1).2 (hr ▸ hon)
  · rw [if_neg hon] at hn ⊢
    obtain ⟨hs, l, hl, rfl, rfl, -, hn⟩ := hn
    have hd : isForeign desc = true → Outside desc := fun hf => by
      have hm := charge_of_classify hs.1 (by rw [hs.2]; decide) (by rw [hs.2]; decide)
      rw [charge_of_isForeign hf] at hm
      cases hm
    have hk (l' : Look) (hl' : g.peek = some l') : l'.root ≠ l.root := fun hr => hon (hr ▸ (h.peek l' hl').1)
    have hol : charge ((m.space l.root).pte l.v) = charge l.desc := by rw [(h.look l hl).2]
    by_cases hos : g.owes = true
    · -- The page of the leaf was given back, and its copy takes its place.
      rw [if_pos hos] at hn ⊢
      obtain ⟨q, hq, hg⟩ := hn
      refine h.stored hv ht hd (fun p => ?_) rfl rfl (fun l' hl' => ⟨hl', hk l' hl'⟩) (by intros; contradiction) (by intros; contradiction)
        (fun _ hp => absurd hp (notMem_empty _))
      have := hh (p := p) fun q' hq' => mem_unique hq hq' ▸ hg
      have hb : g.debt p = hit (charge l.desc) p := by simp [Hand.debt, Hand.seen, hos, hl]
      rw [hol, hb]
      change g.pages p - hit (charge desc) p + _ + _ = _ + _ + 0
      omega
    · rw [if_neg hos] at hn ⊢
      refine h.stored hv ht hd (fun p => ?_) rfl rfl (fun l' hl' => ⟨hl', hk l' hl'⟩) (by intros; contradiction)
        (fun ho => absurd ho hos) (fun p hp => ⟨hp, rfl⟩)
      rw [hol, hn, Hand.debt, Hand.debt, if_neg hos]
      exact congrArg _ (if_neg hos).symm

lemma step_newSpace (hc : handRules.can (.newSpace root s) g) (hexec : m.exec (.newSpace root s) = some ((), m')) :
    ∃ g', handRules.does (.newSpace root s) g () g' ∧ Accounts ext m' g' := by
  obtain ⟨hpg, hb⟩ := hc
  simp only [Mm.exec] at hexec
  split at hexec
  · cases hexec
  next hd =>
    cases hexec
    have hs {r : Nat} (hr : r ∈ m.live) : update m.space root s r = m.space r := update_of_ne (ne_of_mem_of_not_mem hr hd) ..
    have hg : root ∉ g.guest := fun hm => hd (h.guest root hm).1
    refine ⟨_, ⟨hg, rfl⟩, { h with
      books := fun p => ?_
      foreign := fun r hr v => ?_
      rootSlot := fun r hr => ?_
      own := insert_subset_insert root h.own
      guest := fun r hr => ⟨mem_insert_of_mem (h.guest r hr).1, fun hm => ?_⟩
      peek := fun l hl => ?_
      look := fun l hl => ?_
      fresh := fun _ hp => absurd hp (notMem_empty _) }⟩
    · have hu := Mm.uses_newSpace hd s p
      have := hpg p
      have := h.books p
      change m.phys.refCount p + g.debt p = ({ m.withSpace root s with live := insert root m.live } : Mm).uses p +
        (g.pages p - (hit (some root) p + s.uses p)) + ext p
      rw [hu]
      omega
    · change isForeign ((update m.space root s r).pte v) = true → Outside ((update m.space root s r).pte v)
      rcases mem_insert.mp hr with rfl | hr
      · rw [update_self]
        exact hb.outside v
      · rw [hs hr]
        exact h.foreign r hr v
    · change ∀ i, i ≠ 0 → (update m.space root s r).table (.l1 i) = none
      rcases mem_insert.mp hr with rfl | hr
      · rw [update_self]
        exact hb.rootSlot
      · rw [hs hr]
        exact h.rootSlot r hr
    · rcases mem_insert.mp hm with rfl | hm
      · exact hg hr
      · exact (h.guest r hr).2 hm
    · obtain ⟨hm, ht⟩ := h.peek l hl
      exact ⟨mem_insert_of_mem hm, by rw [← ht]; exact congrArg (Space.pte · _) (hs (h.own _ hm))⟩
    · obtain ⟨hm, ht⟩ := h.look l hl
      exact ⟨hm, by rw [← ht]; exact congrArg (Space.pte · _) (hs (h.guest _ hm).1)⟩

lemma step_takeSpace {s : Space} (hc : handRules.can (.takeSpace root) g) (hexec : m.exec (.takeSpace root) = some (s, m')) :
    ∃ g', handRules.does (.takeSpace root) g s g' ∧ Accounts ext m' g' := by
  have ho : root ∈ g.own := hc
  simp only [Mm.exec] at hexec
  split at hexec
  next hv =>
    cases hexec
    refine ⟨_, ⟨h.rootSlot root hv, rfl⟩, { h with
      books := fun p => ?_
      foreign := fun r hr => h.foreign r (mem_of_mem_erase hr)
      rootSlot := fun r hr => h.rootSlot r (mem_of_mem_erase hr)
      own := erase_subset_erase root h.own
      guest := fun r hr => ?_
      peek := nofun
      fresh := fun _ hp => absurd hp (notMem_empty _) }⟩
    · have hu := Mm.uses_takeSpace hv p
      have := h.books p
      change m.phys.refCount p + g.debt p = _ + (g.pages p + (hit (some root) p + (m.space root).uses p)) + ext p
      omega
    · obtain ⟨hl, hf⟩ := h.guest r hr
      exact ⟨mem_erase.mpr ⟨fun heq => hf (heq ▸ ho), hl⟩,
        fun hm => hf (mem_of_mem_erase hm)⟩
  · cases hexec

lemma step {a : Act} {x : Resp a} (hc : handRules.can a g) (hexec : m.exec a = some (x, m')) :
    ∃ g', handRules.does a g x g' ∧ Accounts ext m' g' := by
  cases a with
  | allocPage => exact h.step_allocPage hexec
  | freePage pa => exact h.step_freePage hc hexec
  | retainPage pa => exact h.step_retainPage hexec
  | refCount pa =>
    cases hexec
    exact ⟨g, rfl, h⟩
  | writePage pa f | copyPage src dst =>
    cases hexec
    exact ⟨g, rfl, { h with }⟩
  | readTable root sl =>
    simp only [Mm.exec] at hexec
    split at hexec
    · cases hexec
      exact ⟨g, rfl, h⟩
    · cases hexec
  | setTable root sl t => exact h.step_setTable hc hexec
  | readPte root v => exact h.step_readPte hc hexec
  | setPte root v desc =>
    obtain ⟨m₁, hs, heq⟩ := map_eq_some_iff.mp hexec
    cases heq
    exact ⟨_, rfl, h.step_store hc hs⟩
  | bbmUpdatePage root v desc =>
    simp only [Mm.exec] at hexec
    split at hexec
    · obtain ⟨m₁, hs, heq⟩ := map_eq_some_iff.mp hexec
      cases heq
      exact ⟨_, rfl, h.step_store hc hs⟩
    · cases hexec
  | newSpace root s => exact h.step_newSpace hc hexec
  | takeSpace root => exact h.step_takeSpace hc hexec
  | assert holds =>
    simp only [Mm.exec] at hexec
    split at hexec
    next hh =>
      cases hexec
      exact ⟨g, ⟨hh, rfl⟩, h⟩
    · cases hexec

end

end Accounts

end ZeroOS.Memory
