import ZeroOS.Memory.Forking

/-!
# The references of all pages, over whole runs

All address spaces over one allocator, and whoever else holds pages: regions of shared memory, the
cache of library pages, a caller that is about to map one. Each call runs to its end before the next
one begins.

After every call, the count of a page is the number of entries that hold it and of references that
are held elsewhere. One call breaks this: `map_zero_region` forgets the page it could not map.
-/

namespace ZeroOS.Memory

open Atomic Atomic.Prog Finset Function Hand Option Tally Transition Prod

/-! ## A call that runs alone -/

namespace Accounts

variable {ext : Nat → Nat} {m m' : Mm} {α : Type}

def nobody : Hand := Hand.start (fun _ => 0) false ∅ ∅

@[simp] lemma debt_nobody (p : Nat) : nobody.debt p = 0 := rfl

@[simp] lemma pages_nobody (p : Nat) : nobody.pages p = 0 := rfl

lemma start {c : Nat → Nat} {excl : Bool} {own guest : Finset Nat}
    (h : Accounts (fun p => ext p + c p) m nobody) (ho : ∀ r ∈ own, r ∈ m.live)
    (hg : ∀ r ∈ guest, r ∈ m.live ∧ r ∉ own) : Accounts ext m (Hand.start c excl own guest) :=
  { h with
    books := fun p => by
      have hb := h.books p
      change m.phys.refCount p + 0 = m.uses p + c p + ext p
      rw [debt_nobody, pages_nobody] at hb
      omega
    own := ho
    guest := hg
    peek := nofun
    look := nofun
    owes := nofun
    fresh := fun _ hp => absurd hp (notMem_empty _) }

lemma stop (h : Accounts ext m g) (ho : g.owes = false) :
    Accounts (fun p => ext p + g.pages p) m nobody :=
  { h with
    books := fun p => by
      have hb := h.books p
      rw [Hand.debt, ho, if_neg Bool.false_ne_true] at hb
      rw [debt_nobody, pages_nobody]
      omega
    own := fun _ hr => absurd hr (notMem_empty _)
    guest := fun _ hr => absurd hr (notMem_empty _)
    peek := nofun
    look := nofun
    owes := nofun
    fresh := fun _ hp => absurd hp (notMem_empty _) }

lemma exec_idle (hw : m.phys.WellFormed) (h : m.exec a = some (x, m')) (he : m'.phys.Idle q) : m.phys.Idle q := by
  have hf (heq : m'.phys = m.phys) : m.phys.Idle q := heq ▸ he
  cases a with try simp only [Mm.exec] at h
  | allocPage =>
    split at h
    next x₁ b hb =>
      cases h
      obtain ⟨-, rfl⟩ | ⟨p, -, -, -, hc⟩ := PhysBitmap.allocPage_cases hw hb
      · exact he
      · exact hc.idle he
    · cases h
  | freePage pa =>
    split at h
    next b hb =>
      cases h
      exact (PhysBitmap.freePage_counted hw hb).2.2.idle he
    · cases h
  | retainPage pa =>
    split at h
    next b hb =>
      cases h
      exact (PhysBitmap.retainPage_counted hw hb).idle he
    · cases h
  | refCount pa | writePage pa f | copyPage src dst =>
    cases h
    exact he
  | readTable root sl | readPte root v | takeSpace root | assert holds | setTable root sl t =>
    split at h
    · cases h
      exact he
    · cases h
  | newSpace root s =>
    split at h
    · cases h
    · cases h
      exact he
  | setPte root v desc =>
    obtain ⟨m₁, hs, heq⟩ := map_eq_some_iff.mp h
    cases heq
    obtain ⟨-, ht, rfl⟩ := storePte_eq_some hs
    exact he
  | bbmUpdatePage root v desc =>
    split at h
    · obtain ⟨m₁, hs, heq⟩ := map_eq_some_iff.mp h
      cases heq
      obtain ⟨-, ht, rfl⟩ := storePte_eq_some hs
      exact he
    · cases h

lemma run {c : Nat → Nat} {excl : Bool} {own guest : Finset Nat} {p : Code α} {Q : α → Hand → Prop}
    {a : α} (h : Accounts (fun p => ext p + c p) m nobody) (hn : ∀ r ∈ own, r ∈ m.live)
    (hg : ∀ r ∈ guest, r ∈ m.live ∧ r ∉ own)
    (hp : p.wp handRules Q (Hand.start c excl own guest)) (ho : ∀ g, Q a g → g.owes = false)
    (hrun : p.run Mm.exec m = some (a, m')) :
    (∃ g, Q a g ∧ Accounts (fun p => ext p + g.pages p) m' nobody) ∧ ∀ q, m'.phys.Idle q → m.phys.Idle q := by
  let I (m₁ : Mm) (g : Hand) : Prop := Accounts ext m₁ g ∧ ∀ q, m₁.phys.Idle q → m.phys.Idle q
  have hs : ∀ {b : Act} {m₁ : Mm} {g : Hand} {x : Resp b} {m₂ : Mm}, I m₁ g → handRules.can b g →
      m₁.exec b = some (x, m₂) → ∃ g', handRules.does b g x g' ∧ I m₂ g' := by
    rintro b m₁ g x m₂ ⟨ha, he⟩ hc hexec
    obtain ⟨g', hd, ha'⟩ := ha.step hc hexec
    exact ⟨g', hd, ha', fun q hq => he q (exec_idle ha.wf hexec hq)⟩
  have hb : I m (Hand.start c excl own guest) := ⟨h.start hn hg, fun _ hq => hq⟩
  obtain ⟨g, hQ, ha, he⟩ := run_sound hs hb hp hrun
  exact ⟨⟨g, hQ, ha.stop (ho _ hQ)⟩, he⟩

end Accounts

/-! ## The machine -/

/-- Physical memory with all spaces, and the references that are held elsewhere. -/
structure World where
  mm : Mm
  held : Nat → Nat

inductive MmEvent
  | create
  | /-- Somebody allocates a page. -/
    acquire
  | /-- A holder adds a reference. -/
    share (p : Nat)
  | /-- A holder gives a reference back. -/
    release (p : Nat)
  | /-- A holder maps a page, and its reference goes to the leaf. -/
    mapPage (root virt p : Nat) (writable executable : Bool)
  | mapZero (root base size : Nat) (ap : BitVec 64)
  | clone (root : Nat)
  | fault (root va : Nat)
  | unmap (root start stop : Nat)
  | destroy (root : Nat)

instance (base size : Nat) : Decidable (InSlot0 base size) := inferInstanceAs (Decidable (∀ i < pagesOf size, _))

namespace World

variable (K : Kernel) {root : Nat}

def after {α : Type} (w : World) (p : Code α) (held : α → Nat → Nat) : Option World :=
  (p.run Mm.exec w.mm).map fun out => ⟨out.2, held out.1⟩

/-- One call, from its beginning to its end. There is none on a space that is not there, with a page
the caller does not hold, or to an address outside the first entry of the root. -/
def next (w : World) : MmEvent → Option World
  | .create => w.after (createUserAddressSpace K) fun _ => w.held
  | .acquire => w.after allocPage fun
      | some p => update w.held p (w.held p + 1)
      | none => w.held
  | .share p => if 0 < w.held p then w.after (retainPage p) fun _ => update w.held p (w.held p + 1) else none
  | .release p => if 0 < w.held p then w.after (freePage p) fun _ => update w.held p (w.held p - 1) else none
  | .mapPage root virt p writable executable =>
    if root ∈ w.mm.live ∧ 0 < w.held p ∧ vpn virt < 512 ^ 3 then
      w.after (mapPagePhys root virt p writable executable) fun
        | .ok () => update w.held p (w.held p - 1)
        | .error _ => w.held
    else none
  | .mapZero root base size ap =>
    if root ∈ w.mm.live ∧ ap.toNat < 4 ∧ InSlot0 base size then
      w.after (mapZeroRegion root base size ap) fun _ => w.held
    else none
  | .clone root => if root ∈ w.mm.live then w.after (cloneUserAddressSpace K root) fun _ => w.held else none
  | .fault root va => if root ∈ w.mm.live then w.after (handleCowFault root va) fun _ => w.held else none
  | .unmap root start stop =>
    if root ∈ w.mm.live then w.after (unmapUserRange root start stop) fun _ => w.held else none
  | .destroy root => if root ∈ w.mm.live then w.after (destroyUserAddressSpace root) fun _ => w.held else none

def Step (w : World) (e : MmEvent) (w' : World) : Prop := w.next K e = some w'

/-- The call does not end with a page it has allocated and not mapped. -/
def mapsAll (w : World) : MmEvent → Bool
  | .mapZero root base size ap =>
    match (mapZeroPages root base size ap).run Mm.exec w.mm with
    | some (.error (_, some _), _) => false
    | _ => true
  | _ => true

variable {K} {w w' : World}

/-- The books of a world that is at rest. -/
def Balanced (w : World) : Prop := Accounts w.held w.mm Accounts.nobody

/-- What one call leaves: the books are balanced, and no page became idle. -/
def Kept (w w' : World) : Prop := w'.Balanced ∧ ∀ q, w'.mm.phys.Idle q → w.mm.phys.Idle q

lemma Balanced.after {α : Type} {p : Code α} {held : α → Nat → Nat} {Q : α → Hand → Prop}
    (ext c : Nat → Nat) (excl : Bool) (own guest : Finset Nat) (h : w.Balanced)
    (hs : w.after p held = some w') (hh : ∀ q, w.held q = ext q + c q)
    (ho : ∀ r ∈ own, r ∈ w.mm.live) (hgs : ∀ r ∈ guest, r ∈ w.mm.live ∧ r ∉ own)
    (hp : p.wp handRules Q (Hand.start c excl own guest))
    (hQ : ∀ a m g, p.run Mm.exec w.mm = some (a, m) → Q a g → g.owes = false ∧ ∀ q, held a q = ext q + g.pages q) :
    Kept w w' := by
  obtain ⟨⟨a, m⟩, hrun, rfl⟩ := map_eq_some_iff.mp hs
  have hb : Accounts (fun q => ext q + c q) w.mm Accounts.nobody := by
    rw [← funext hh]
    exact h
  obtain ⟨⟨g, hg, ha⟩, he⟩ := hb.run ho hgs hp (fun g hg => (hQ a m g hrun hg).1) hrun
  refine ⟨?_, he⟩
  rw [← funext (hQ a m g hrun hg).2] at ha
  exact ha

lemma Balanced.after_even {α : Type} {p : Code α} {Q : α → Hand → Prop} (excl : Bool)
    (own guest : Finset Nat) (h : w.Balanced) (hs : w.after p (fun _ => w.held) = some w')
    (ho : ∀ r ∈ own, r ∈ w.mm.live) (hgs : ∀ r ∈ guest, r ∈ w.mm.live ∧ r ∉ own)
    (hp : p.wp handRules Q (Hand.start (fun _ => 0) excl own guest))
    (hQ : ∀ a g, Q a g → g.owes = false ∧ g.pages = fun _ => 0) : Kept w w' :=
  h.after w.held (fun _ => 0) excl own guest hs (fun _ => rfl) ho hgs hp fun a _ g _ hg =>
    ⟨(hQ a g hg).1, fun q => by rw [(hQ a g hg).2]; rfl⟩

section

variable (h : w.Balanced)
include h

lemma kept_create (hs : w.next K .create = some w') : Kept w w' := by
  refine h.after_even false ∅ ∅ hs nofun nofun wp_createUserAddressSpace fun r g hg => ?_
  match r, hg with
  | .ok root, hg => exact ⟨hg.2.owes, hg.2.pages⟩
  | .error e, hg => exact ⟨hg.owes, hg.pages⟩

lemma kept_acquire (hs : w.next K .acquire = some w') : Kept w w' := by
  have hp : allocPage.wp handRules (fun x g => g.owes = false ∧ ∀ q, g.pages q = hit x q)
      (Hand.start (fun _ => 0) false ∅ ∅) := by
    refine @wp_allocPage _ _ _ .ret ⟨rfl, fun _ => rfl⟩ fun p _ hz _ => ⟨rfl, fun q => ?_⟩
    simp only [update_eq_add hz]
    exact Nat.zero_add _
  simp only [next] at hs
  refine h.after w.held (fun _ => 0) false ∅ ∅ hs (fun _ => rfl) (by intros; contradiction) (by intros; contradiction) hp fun x m g _ hg => ?_
  refine ⟨hg.1, fun q => ?_⟩
  rw [hg.2 q]
  cases x with
  | none => rfl
  | some p => exact update_add_one w.held p q

lemma kept_page {p n : Nat} {code : Code Unit}
    (hp : code.wp handRules (fun _ g => g.owes = false ∧ g.pages = update w.held p n) (Hand.start w.held false ∅ ∅))
    (hs : w.after code (fun _ => update w.held p n) = some w') : Kept w w' :=
  h.after (fun _ => 0) w.held false ∅ ∅ hs (fun q => (Nat.zero_add _).symm) nofun nofun hp
    fun _ m g _ hg => ⟨hg.1, fun q => by rw [hg.2, Nat.zero_add]⟩

lemma kept_share (hs : w.next K (.share p) = some w') : Kept w w' := by
  simp only [next, ite_none_right_eq_some] at hs
  obtain ⟨hh, hs⟩ := hs
  exact kept_page h (@wp_retainPage _ _ _ p .ret (.inl hh) fun _ => ⟨rfl, rfl⟩) hs

lemma kept_release (hs : w.next K (.release p) = some w') :
    Kept w w' := by
  simp only [next, ite_none_right_eq_some] at hs
  obtain ⟨hh, hs⟩ := hs
  exact kept_page h (@wp_freePage _ _ _ p .ret hh ⟨rfl, rfl⟩) hs

lemma kept_mapPage (hs : w.next K (.mapPage root virt p writable executable) = some w') : Kept w w' := by
  simp only [next, ite_none_right_eq_some] at hs
  obtain ⟨⟨ht, hh, hl⟩, hs⟩ := hs
  have hfr : IsFrame p := by
    refine h.framed.isFrame_of_refCount fun hz => ?_
    have := h.pages_le (p := p)
    omega
  have hc : charge (makeLeafDescriptor p (if writable then userApRw else userApRx) executable) =
      some p := charge_makeLeafDescriptor (by cases writable <;> decide) hfr
  have hp := @wp_installLeafDescriptor (Hand.start w.held false {root} ∅) root
    (makeLeafDescriptor p (if writable then userApRw else userApRx) executable) virt
    (mem_singleton_self root) hl
    (fun q hq => by rw [hc] at hq; exact some.inj hq ▸ hh)
    (fun hf => by rw [charge_of_isForeign hf] at hc; cases hc)
  refine h.after (fun _ => 0) w.held false {root} ∅ hs (fun q => (Nat.zero_add _).symm)
    (fun r hr => mem_singleton.mp hr ▸ ht) nofun hp fun r m g _ hg => ?_
  match r, hg with
  | .ok (), hg =>
    refine ⟨hg.owes, fun q => ?_⟩
    have hq (q : Nat) : w.held q = g.pages q + hit (some p) q := by
      rw [← hc]
      exact (hg.pages q).symm
    rw [Nat.zero_add, ← update_sub_one hq]
  | .error e, hg => exact ⟨hg.owes, fun q => by rw [Nat.zero_add, hg.pages]; rfl⟩

lemma kept_mapZero (ha : w.mapsAll (.mapZero root base size ap) = true)
    (hs : w.next K (.mapZero root base size ap) = some w') : Kept w w' := by
  simp only [next, ite_none_right_eq_some] at hs
  obtain ⟨⟨ht, hap, hsl⟩, hs⟩ := hs
  obtain ⟨⟨r, m⟩, hrun, rfl⟩ := map_eq_some_iff.mp hs
  unfold mapZeroRegion at hrun
  split at hrun
  · cases hrun
    exact ⟨h, fun _ hq => hq⟩
  obtain ⟨r', m', hl, hrs⟩ := run_bind_eq_some hrun
  have heq : m' = m := by
    match r', hrs with
    | .ok (), hrs => exact (Prod.mk.inj (some.inj hrs)).2
    | .error (e, x), hrs => exact (Prod.mk.inj (some.inj hrs)).2
  subst heq
  have hp := @wp_mapZeroPages (Hand.start (fun _ => 0) false {root} ∅) root base size ap
    (mem_singleton_self root) hap hsl
  have hf : w.after (mapZeroPages root base size ap) (fun _ => w.held) = some ⟨m', w.held⟩ := by simp [World.after, hl]
  refine h.after w.held (fun _ => 0) false {root} ∅ hf (fun _ => rfl)
    (fun r hr => mem_singleton.mp hr ▸ ht) nofun hp fun r₁ m₁ g hrun₁ hg => ?_
  match r₁, hg with
  | .ok (), hg => exact ⟨hg.owes, fun q => by rw [hg.pages]; rfl⟩
  | .error (e, none), hg => exact ⟨hg.owes, fun q => by rw [hg.pages]; rfl⟩
  | .error (e, some p), hg =>
    simp only [mapsAll, hrun₁] at ha
    cases ha

lemma kept_clone (hs : w.next K (.clone root) = some w') :
    Kept w w' := by
  simp only [next, ite_none_right_eq_some] at hs
  obtain ⟨ht, hs⟩ := hs
  refine h.after_even false ∅ {root} hs nofun
    (fun r hr => ⟨mem_singleton.mp hr ▸ ht, notMem_empty r⟩)
    (wp_cloneUserAddressSpace (mem_singleton_self root) rfl rfl) fun r g hg => ?_
  match r, hg with
  | .ok child, hg => exact ⟨hg.owes, hg.pages⟩
  | .error e, hg => exact ⟨hg.owes, hg.pages⟩

lemma kept_fault (hs : w.next K (.fault root va) = some w') :
    Kept w w' := by
  simp only [next, ite_none_right_eq_some] at hs
  obtain ⟨ht, hs⟩ := hs
  exact h.after_even true ∅ {root} hs nofun
    (fun r hr => ⟨mem_singleton.mp hr ▸ ht, notMem_empty r⟩)
    (wp_handleCowFault (notMem_empty root) (mem_singleton_self root) rfl rfl fun _ => rfl)
    fun _ g hg => ⟨hg.owes, hg.pages⟩

lemma kept_unmap {start stop : Nat} (hs : w.next K (.unmap root start stop) = some w') :
    Kept w w' := by
  simp only [next, ite_none_right_eq_some] at hs
  obtain ⟨ht, hs⟩ := hs
  exact h.after_even false {root} ∅ hs (fun r hr => mem_singleton.mp hr ▸ ht) nofun
    (wp_unmapUserRange (mem_singleton_self root)) fun _ g hg => ⟨hg.owes, hg.pages⟩

lemma kept_destroy (hs : w.next K (.destroy root) = some w') :
    Kept w w' := by
  simp only [next, ite_none_right_eq_some] at hs
  obtain ⟨ht, hs⟩ := hs
  exact h.after_even false {root} ∅ hs (fun r hr => mem_singleton.mp hr ▸ ht) nofun
    (wp_destroyUserAddressSpace (mem_singleton_self root)) fun _ g hg => ⟨hg.owes, hg.pages⟩

lemma Balanced.step {e : MmEvent} (ha : w.mapsAll e = true) (hs : w.next K e = some w') : Kept w w' := by
  cases e with
  | create => exact kept_create h hs
  | acquire => exact kept_acquire h hs
  | share p => exact kept_share h hs
  | release p => exact kept_release h hs
  | mapPage root virt p writable executable => exact kept_mapPage h hs
  | mapZero root base size ap => exact kept_mapZero h ha hs
  | clone root => exact kept_clone h hs
  | fault root va => exact kept_fault h hs
  | unmap root start stop => exact kept_unmap h hs
  | destroy root => exact kept_destroy h hs

end

/-- A run of calls, none of which forgets a page. -/
abbrev TidyRun (K : Kernel) (w : World) (es : List MmEvent) (w' : World) : Prop :=
  Run (Guarded (fun w e => w.mapsAll e = true) (Step K)) w es w'

lemma Balanced.run (h : w.Balanced) (hrun : TidyRun K w es w') : Kept w w' := by
  have hk : ∀ v e v', Kept w v → Guarded (fun w e => w.mapsAll e = true) (Step K) v e v' → Kept w v' := by
    rintro v e v' ⟨hv, he⟩ ⟨ha, hs⟩
    obtain ⟨hv', he'⟩ := hv.step ha hs
    exact ⟨hv', fun q hq => he q (he' q hq)⟩
  exact hrun.invariant hk ⟨h, fun _ hq => hq⟩

end World

/-! ## Counts -/

namespace Mm

/-- The leaves of live spaces that hold the page `p`. -/
noncomputable def leaves (m : Mm) (p : Nat) : Nat := ∑ r ∈ m.live, (m.space r).leaves p

/-- The tables of live spaces, with their roots, in the page `p`. -/
noncomputable def tables (m : Mm) (p : Nat) : Nat := ∑ r ∈ m.live, (hit (some r) p + (m.space r).tables p)

lemma uses_eq_tables_add_leaves (m : Mm) (p : Nat) : m.uses p = m.tables p + m.leaves p := by
  rw [tables, leaves, ← sum_add_distrib]
  refine sum_congr rfl fun r _ => ?_
  rw [Space.uses_eq, Nat.add_assoc]

end Mm

namespace World

variable {w w' : World}

lemma Balanced.refCount (h : w.Balanced) (p : Nat) :
    w.mm.phys.refCount p = w.mm.tables p + w.mm.leaves p + w.held p := by
  have := h.books p
  rw [Mm.uses_eq_tables_add_leaves] at this
  simpa using this

lemma Kept.free (h : Kept w w') (hp : w.mm.phys.refCount p ≠ 0)
    (hz : w'.mm.phys.refCount p = 0) : w'.mm.phys.pageIsFree p = true := by
  by_contra hb
  exact hp (h.2 p ⟨by simpa using hb, hz⟩).2

end World

open World

end ZeroOS.Memory
