import ZeroOS.Lib.Tally
import ZeroOS.Memory.Phys
import ZeroOS.Memory.TableWalk

/-!
# Page tables of a user address space

The tables of a space form a tree of four levels. Pointers are replaced by paths: the table of level
one below the entry `i` of the root is `Slot.l1 i`, the entries of all tables of one level are
numbered through, and a leaf is known by the number of its virtual page. What is kept of a table page
is its address, because the allocator is asked for it and gets it back.

A space cannot be built wrongly: a table hangs below a table, a leaf is zero unless its table is
there, and nothing hangs below the two entries that are shared with the kernel.
-/

namespace ZeroOS.Memory

open Function List Option Tally

/-- `is_kernel_shared_l1`: the entries of level one that point into the kernel's own tables. -/
def isKernelSharedL1 (index : Nat) : Bool := index == 1 || index == 510

/-- The number of the virtual page of an address, from the four indices of `page_table_indices`. -/
def vpn (va : Nat) : Nat := va / pageSize % 512 ^ 4

/-- `page_table_indices`, of a page number. -/
def l0Idx (v : Nat) : Nat := v / 512 ^ 3 % 512

@[inherit_doc l0Idx]
def l1Idx (v : Nat) : Nat := v / 512 ^ 2 % 512

/-- An entry that can point to a table of the next level. -/
inductive Slot
  | l1 (i : Nat)
  | l2 (k : Nat)
  | l3 (k : Nat)
  deriving DecidableEq, Repr

structure Space where
  table : Slot → Option Nat
  pte : Nat → BitVec 64
  bounded : ∀ i, 512 ≤ i → table (.l1 i) = none
  rooted_l2 : ∀ k, table (.l1 (k / 512)) = none → table (.l2 k) = none
  rooted_l3 : ∀ k, table (.l2 (k / 512)) = none → table (.l3 k) = none
  rooted_pte : ∀ v, table (.l3 (v / 512)) = none → pte v = 0#64
  unshared : ∀ i, isKernelSharedL1 i = true → table (.l2 i) = none

namespace Space

def empty : Space where
  table _ := none
  pte _ := 0#64
  bounded _ _ := rfl
  rooted_l2 _ _ := rfl
  rooted_l3 _ _ := rfl
  rooted_pte _ _ := rfl
  unshared _ _ := rfl

instance : Inhabited Space := ⟨empty⟩

/-- A table can be hung into the slot: it is empty, and there is a table it is an entry of. -/
def Accepts (s : Space) : Slot → Prop
  | .l1 i => s.table (.l1 i) = none ∧ i < 512
  | .l2 k => s.table (.l2 k) = none ∧ s.table (.l1 (k / 512)) ≠ none ∧ isKernelSharedL1 k = false
  | .l3 k => s.table (.l3 k) = none ∧ s.table (.l2 (k / 512)) ≠ none

instance (s : Space) : (sl : Slot) → Decidable (s.Accepts sl)
  | .l1 _ => inferInstanceAs (Decidable (_ ∧ _))
  | .l2 _ => inferInstanceAs (Decidable (_ ∧ _))
  | .l3 _ => inferInstanceAs (Decidable (_ ∧ _))

variable {s : Space} {sl : Slot} {t v : Nat} {d : BitVec 64}

lemma Accepts.absent (h : s.Accepts sl) : s.table sl = none := by
  cases sl <;> exact h.1

lemma update_eq_none (h : update s.table sl (some t) sl' = none) :
    s.table sl' = none ∧ sl' ≠ sl := by
  by_cases hs : sl' = sl
  · subst hs
    simp at h
  · rw [update_of_ne hs] at h
    exact ⟨h, hs⟩

def setTable (s : Space) (sl : Slot) (t : Nat) (h : s.Accepts sl) : Space where
  table := update s.table sl (some t)
  pte := s.pte
  bounded i hi := by
    rw [update_of_ne, s.bounded i hi]
    rintro rfl
    exact absurd h.2 (not_lt.mpr hi)
  rooted_l2 k hk := by
    obtain ⟨hk, -⟩ := update_eq_none hk
    rw [update_of_ne, s.rooted_l2 k hk]
    rintro rfl
    exact h.2.1 hk
  rooted_l3 k hk := by
    obtain ⟨hk, -⟩ := update_eq_none hk
    rw [update_of_ne, s.rooted_l3 k hk]
    rintro rfl
    exact h.2 hk
  rooted_pte v hv := s.rooted_pte v (update_eq_none hv).1
  unshared i hi := by
    rw [update_of_ne, s.unshared i hi]
    rintro rfl
    exact Bool.false_ne_true (h.2.2.symm.trans hi)

def setPte (s : Space) (v : Nat) (d : BitVec 64) (h : s.table (.l3 (v / 512)) ≠ none) : Space where
  table := s.table
  pte := update s.pte v d
  bounded := s.bounded
  rooted_l2 := s.rooted_l2
  rooted_l3 := s.rooted_l3
  rooted_pte u hu := by
    rw [update_of_ne, s.rooted_pte u hu]
    rintro rfl
    exact h hu
  unshared := s.unshared

lemma tables_of_l3 (h : s.table (.l3 k) = some t) :
    k < 512 ^ 3 ∧ ∃ t₁ t₂, s.table (.l1 (k / 512 ^ 2)) = some t₁ ∧ s.table (.l2 (k / 512)) = some t₂ := by
  have hl2 : s.table (.l2 (k / 512)) ≠ none := fun hn => by simp [s.rooted_l3 k hn] at h
  have hl1 : s.table (.l1 (k / 512 / 512)) ≠ none := fun hn => hl2 (s.rooted_l2 _ hn)
  have hk : k / 512 / 512 < 512 := by
    by_contra hg
    exact hl1 (s.bounded _ (not_lt.mp hg))
  obtain ⟨t₁, ht₁⟩ := ne_none_iff_exists'.mp hl1
  obtain ⟨t₂, ht₂⟩ := ne_none_iff_exists'.mp hl2
  refine ⟨by omega, t₁, t₂, ?_, ht₂⟩
  rw [show k / 512 ^ 2 = k / 512 / 512 by omega]
  exact ht₁

lemma table_of_pte (h : s.pte v ≠ 0#64) : ∃ t, s.table (.l3 (v / 512)) = some t :=
  ne_none_iff_exists'.mp fun hn => h (s.rooted_pte v hn)

/-! ## What a space holds -/

/-- Whatever can hold a reference to a page: an entry that points to a table, or a leaf. -/
inductive Place
  | table (sl : Slot)
  | leaf (v : Nat)
  deriving DecidableEq

/-- The page an entry of the space holds. -/
def charge (s : Space) : Place → Option Nat
  | .table sl => s.table sl
  | .leaf v => Memory.charge (s.pte v)

/-- The entries of a tree of four levels. -/
def Place.InRange : Place → Prop
  | .table (.l1 i) => i < 512
  | .table (.l2 k) => k < 512 ^ 2
  | .table (.l3 k) => k < 512 ^ 3
  | .leaf v => v < 512 ^ 4

lemma finite_inRange : {pl : Place | pl.InRange}.Finite := by
  have hsub : {pl : Place | pl.InRange} ⊆
      (fun i => .table (.l1 i)) '' {i | i < 512} ∪ (fun k => .table (.l2 k)) '' {k | k < 512 ^ 2} ∪
        (fun k => .table (.l3 k)) '' {k | k < 512 ^ 3} ∪ Place.leaf '' {v | v < 512 ^ 4} := by
    rintro ((i | k | k) | v) h
    · exact .inl (.inl (.inl ⟨i, h, rfl⟩))
    · exact .inl (.inl (.inr ⟨k, h, rfl⟩))
    · exact .inl (.inr ⟨k, h, rfl⟩)
    · exact .inr ⟨v, h, rfl⟩
  have hlt (n : Nat) : {i | i < n}.Finite := Set.finite_lt_nat n
  exact ((((hlt _).image _).union ((hlt _).image _)).union ((hlt _).image _)).union
    ((hlt _).image _) |>.subset hsub

noncomputable def places : Finset Place := finite_inRange.toFinset

lemma mem_places : pl ∈ places ↔ pl.InRange := by
  simp [places]

/-- Leaves hold data pages, the other entries hold tables. -/
def Place.isLeaf : Place → Bool
  | .table _ => false
  | .leaf _ => true

/-- The entries of a space that hold the page `p`. -/
noncomputable def uses (s : Space) (p : Nat) : Nat := tally places s.charge p

/-- The leaves of a space that hold the page `p`. -/
noncomputable def leaves (s : Space) (p : Nat) : Nat := tally (places.filter fun pl => pl.isLeaf = true) s.charge p

/-- The entries of a space that hold the page `p` as a table. -/
noncomputable def tables (s : Space) (p : Nat) : Nat := tally (places.filter fun pl => ¬ pl.isLeaf = true) s.charge p

lemma uses_eq (s : Space) (p : Nat) : s.uses p = s.tables p + s.leaves p := by
  unfold uses tables leaves tally
  rw [Nat.add_comm, Finset.filter_comm]
  conv_rhs => rw [Nat.add_comm, Finset.filter_comm, Nat.add_comm]
  exact (Finset.card_filter_add_card_filter_not _).symm

lemma inRange_of_charge (h : s.charge pl = some p) : pl.InRange := by
  match pl, h with
  | .table (.l1 i), h =>
    refine Nat.lt_of_not_le fun hg => ?_
    rw [charge, s.bounded i hg] at h
    cases h
  | .table (.l2 k), h =>
    refine Nat.lt_of_not_le fun hg => ?_
    rw [charge, s.rooted_l2 k (s.bounded _ (by omega))] at h
    cases h
  | .table (.l3 k), h => exact (tables_of_l3 h).1
  | .leaf v, h =>
    have hne : s.pte v ≠ 0#64 := fun h0 => by
      rw [charge, h0, charge_zero] at h
      cases h
    obtain ⟨t, ht⟩ := table_of_pte hne
    have := (tables_of_l3 ht).1
    exact (by omega : v < 512 ^ 4)

lemma charge_setTable (h : s.Accepts sl) : (s.setTable sl t h).charge = update s.charge (.table sl) (some t) := by
  funext pl
  match pl with
  | .table sl' =>
    by_cases hs : sl' = sl
    · subst hs
      simp [charge, setTable]
    · rw [update_of_ne (by simpa using hs)]
      exact update_of_ne hs ..
  | .leaf u => rfl

lemma charge_setPte (h : s.table (.l3 (v / 512)) ≠ none) :
    (s.setPte v d h).charge = update s.charge (.leaf v) (Memory.charge d) := by
  funext pl
  match pl with
  | .table sl => rfl
  | .leaf u =>
    by_cases hu : u = v
    · subst hu
      simp [charge, setPte]
    · rw [update_of_ne (by simpa using hu)]
      exact congrArg Memory.charge (update_of_ne hu ..)

lemma Accepts.inRange (h : s.Accepts sl) : (Place.table sl).InRange := by
  match sl, h with
  | .l1 i, h => exact h.2
  | .l2 k, h =>
    obtain ⟨t, ht⟩ := ne_none_iff_exists'.mp h.2.1
    have : (Place.table (.l1 (k / 512))).InRange := inRange_of_charge ht
    exact (by simp only [Place.InRange] at this; omega : k < 512 ^ 2)
  | .l3 k, h =>
    obtain ⟨t, ht⟩ := ne_none_iff_exists'.mp h.2
    have : (Place.table (.l2 (k / 512))).InRange := inRange_of_charge ht
    exact (by simp only [Place.InRange] at this; omega : k < 512 ^ 3)

lemma uses_setTable (h : s.Accepts sl) (p : Nat) : (s.setTable sl t h).uses p = s.uses p + hit (some t) p := by
  have hu := tally_update (f := s.charge) (p := p) (mem_places.mpr h.inRange) (some t)
  rw [uses, uses, charge_setTable, ← hu]
  simp [charge, h.absent]

lemma lt_of_table (h : s.table (.l3 (v / 512)) ≠ none) : v < 512 ^ 4 := by
  obtain ⟨t, ht⟩ := ne_none_iff_exists'.mp h
  have := (tables_of_l3 ht).1
  omega

lemma uses_setPte (h : s.table (.l3 (v / 512)) ≠ none) (p : Nat) :
    (s.setPte v d h).uses p + hit (Memory.charge (s.pte v)) p = s.uses p + hit (Memory.charge d) p := by
  rw [uses, charge_setPte]
  exact tally_update (mem_places.mpr (show (Place.leaf v).InRange from lt_of_table h)) _

end Space

/-! ## The tables every space begins with -/

/-- An entry of the kernel's table of the first gigabyte: a word that is copied, or a table. -/
inductive KernelEntry
  | word (desc : BitVec 64)
  | pages (leaf : Nat → BitVec 64)

/-- A leaf below the memory the allocator manages. It is never marked for copying. -/
structure Outside (leaf : BitVec 64) : Prop where
  low : physOf leaf < ramBase
  plain : leaf &&& descSwCow = 0#64

/-- The kernel's table of the first gigabyte, which is below the memory the allocator manages. -/
structure Kernel where
  l2 : Nat → KernelEntry
  outside : ∀ i leaf j, l2 i = .pages leaf → isValid (leaf j) = true → Outside (leaf j)

namespace Space

/-- A leaf of the kernel as a space has it: it is marked as borrowed. -/
def borrow (leaf : BitVec 64) : BitVec 64 :=
  if isValid leaf then leaf ||| descSwBorrowed else 0#64

/-- The address of the private copy of a table of the kernel. -/
def copyOf (l3s : List (Nat × Nat)) (k : Nat) : Option Nat :=
  if k < 512 then l3s.lookup k else none

/-- The tables of a new space, in the pages `l1`, `l2` and, for the entries the kernel has a table
at, `l3s`. -/
def snapshot (K : Kernel) (l1 l2 : Nat) (l3s : List (Nat × Nat)) : Space where
  table
    | .l1 i => if i = 0 then some l1 else none
    | .l2 k => if k = 0 then some l2 else none
    | .l3 k => copyOf l3s k
  pte v := match copyOf l3s (v / 512), K.l2 (v / 512) with
    | some _, .pages leaf => borrow (leaf (v % 512))
    | _, _ => 0#64
  bounded i hi := if_neg fun (h : i = 0) => Nat.not_succ_le_zero 511 (h ▸ hi)
  rooted_l2 k hk := if_neg fun h => by simp [h] at hk
  rooted_l3 k hk := if_neg fun h => by simp [h] at hk
  rooted_pte v hv := by
    simp only at hv
    rw [hv]
  unshared i hi := by
    refine if_neg ?_
    rintro rfl
    cases hi

lemma charge_borrow (leaf : BitVec 64) : Memory.charge (borrow leaf) = none := by
  unfold borrow
  split
  next hv =>
    have hs : (leaf ||| descSwBorrowed) &&& descSwBorrowed = descSwBorrowed := by
      rw [BitVec.and_or_distrib_right, BitVec.and_self]
      ext i hi
      simp
    refine if_neg fun h => ?_
    have hz := (and_device_or_borrowed.mp h.2).1
    rw [hs] at hz
    exact absurd hz (by decide)
  · exact charge_zero

lemma borrow_and {leaf mask : BitVec 64} (h : isValid (borrow leaf) = true) (hm : descSwBorrowed &&& mask = 0#64) :
    isValid leaf = true ∧ borrow leaf &&& mask = leaf &&& mask := by
  unfold borrow at h ⊢
  split at h
  next hv =>
    refine ⟨hv, ?_⟩
    rw [if_pos hv, BitVec.and_or_distrib_right, hm, BitVec.or_zero]
  · cases h

lemma pte_snapshot (v : Nat) : (snapshot K l1 l2 l3s).pte v = 0#64 ∨
      ∃ leaf, K.l2 (v / 512) = .pages leaf ∧ (snapshot K l1 l2 l3s).pte v = borrow (leaf (v % 512)) := by
  simp only [snapshot]
  split
  next leaf _ hk => exact .inr ⟨leaf, hk, rfl⟩
  · exact .inl rfl

lemma charge_pte_snapshot (v : Nat) : Memory.charge ((snapshot K l1 l2 l3s).pte v) = none := by
  obtain h | ⟨leaf, -, h⟩ := @pte_snapshot K l1 l2 l3s v <;> rw [h]
  · exact charge_zero
  · exact charge_borrow _

lemma outside_pte_snapshot (h : isValid ((snapshot K l1 l2 l3s).pte v) = true) :
    Outside ((snapshot K l1 l2 l3s).pte v) := by
  obtain h' | ⟨leaf, hk, h'⟩ := @pte_snapshot K l1 l2 l3s v <;> rw [h'] at h ⊢
  · cases h
  · obtain ⟨hv, hp⟩ := @borrow_and _ physAddrMask h (by decide)
    have ho := K.outside _ leaf _ hk hv
    refine ⟨?_, (borrow_and h (by decide)).2.trans ho.plain⟩
    rw [physOf, hp]
    exact ho.low

def copies (l : List (Nat × Nat)) : Place → Option Nat
  | .table (.l3 k) => copyOf l k
  | _ => none

lemma copies_cons (l : List (Nat × Nat)) (hk : k < 512) :
    copies ((k, t) :: l) = update (copies l) (.table (.l3 k)) (some t) := by
  funext pl
  match pl with
  | .table (.l3 k') =>
    by_cases hkk : k' = k
    · subst hkk
      simp [copies, copyOf, hk]
    · have hb : (k' == k) = false := by simpa using hkk
      rw [update_of_ne (by simpa using hkk)]
      simp [copies, copyOf, lookup_cons, hb]
  | .table (.l1 _) | .table (.l2 _) | .leaf _ => rfl

lemma tally_copies (l : List (Nat × Nat)) (hn : (l.map Prod.fst).Nodup) (hlt : ∀ e ∈ l, e.1 < 512) (p : Nat) :
    tally places (copies l) p = (l.map Prod.snd).count p := by
  induction l with
  | nil =>
    refine tally_eq_zero fun pl _ => ?_
    match pl with
    | .table (.l3 k) => simp [copies, copyOf]
    | .table (.l1 _) | .table (.l2 _) | .leaf _ => simp [copies]
  | cons e l ih =>
    obtain ⟨k, t⟩ := e
    obtain ⟨hk, hn⟩ := nodup_cons.mp hn
    have hk512 : k < 512 := hlt (k, t) mem_cons_self
    have ho : copies l (.table (.l3 k)) = none := by
      simp only [copies, copyOf, hk512, if_true]
      exact lookup_eq_none_iff.mpr fun e he => by
        simpa using fun h : k = e.1 => hk (h ▸ mem_map.mpr ⟨e, he, rfl⟩)
    have hm : Place.table (.l3 k) ∈ places := mem_places.mpr (lt_trans hk512 (by decide : 512 < 512 ^ 3))
    have hu := tally_update (f := copies l) (p := p) hm (some t)
    rw [ho, hit_none, Nat.add_zero] at hu
    rw [copies_cons l hk512, hu, ih hn fun e he => hlt e (mem_cons_of_mem _ he)]
    simp [count_cons, hit]

lemma uses_snapshot (hn : (l3s.map Prod.fst).Nodup) (hlt : ∀ e ∈ l3s, e.1 < 512) (p : Nat) :
    (snapshot K l1 l2 l3s).uses p = hit (some l1) p + hit (some l2) p + (l3s.map Prod.snd).count p := by
  have hf : (snapshot K l1 l2 l3s).charge =
      update (update (copies l3s) (.table (.l1 0)) (some l1)) (.table (.l2 0)) (some l2) := by
    funext pl
    match pl with
    | .table (.l1 i) =>
      rw [update_of_ne (by simp)]
      by_cases hi : i = 0
      · subst hi
        simp [charge, snapshot]
      · rw [update_of_ne (by simpa using hi)]
        exact if_neg hi
    | .table (.l2 k) =>
      by_cases hk : k = 0
      · subst hk
        simp [charge, snapshot]
      · rw [update_of_ne (by simpa using hk), update_of_ne (by simp)]
        exact if_neg hk
    | .table (.l3 k) =>
      rw [update_of_ne (by simp), update_of_ne (by simp)]
      rfl
    | .leaf v =>
      rw [update_of_ne (by simp), update_of_ne (by simp)]
      exact charge_pte_snapshot v
  have h1 : Place.table (.l1 0) ∈ places := mem_places.mpr (by decide : 0 < 512)
  have h2 : Place.table (.l2 0) ∈ places := mem_places.mpr (by decide : 0 < 512 ^ 2)
  have hu1 := tally_update (f := copies l3s) (p := p) h1 (some l1)
  have hu2 := tally_update (f := update (copies l3s) (.table (.l1 0)) (some l1)) (p := p) h2 (some l2)
  rw [update_of_ne (by simp)] at hu2
  simp only [copies, hit_none, Nat.add_zero] at hu1 hu2
  rw [uses, hf, hu2, hu1, tally_copies l3s hn hlt]
  omega

end Space

end ZeroOS.Memory
