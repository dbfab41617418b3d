import ZeroOS.Memory.Hands

/-!
# The paging code gives back what it takes

Each piece of the paging code, by the rules for hands: what it has in hand when it returns is what it
had before, except for the page it was given to put into a leaf. All ways out are covered, those on
which memory runs out included. One way out is not even: `map_zero_region` returns with the page it
could not map.
-/

namespace ZeroOS.Memory

open Atomic Atomic.Prog Function List Tally

variable {α : Type} {Q : α → Hand → Prop} {g : Hand}

/-! ## The actions -/

lemma wp_allocPage {f : Option Nat → Code α} (hn : (f none).wp handRules Q g)
    (hs : ∀ p, IsFrame p → g.pages p = 0 → ¬ g.sees p → (f (some p)).wp handRules Q
      { g with
        pages := update g.pages p 1
        fresh := insert p g.fresh }) : (allocPage >>= f).wp handRules Q g := by
  refine ⟨trivial, fun x g' hd => ?_⟩
  match x, hd with
  | none, hd =>
    obtain rfl : g' = g := hd
    exact hn
  | some p, hd =>
    obtain ⟨hf, hz, hu, rfl⟩ := hd
    exact hs p hf hz hu

lemma wp_freePage {p : Nat} {f : Unit → Code α} (hp : 0 < g.pages p)
    (h : (f ()).wp handRules Q (g.put p (g.pages p - 1))) : (freePage p >>= f).wp handRules Q g := by
  refine ⟨.inr (.inl hp), fun _ g' hd => ?_⟩
  obtain ⟨-, rfl⟩ := hd
  rw [if_pos hp]
  exact h

lemma wp_retainPage {p : Nat} {f : Unit → Code α} (hs : 0 < g.pages p ∨ g.sees p)
    (h : IsFrame p → (f ()).wp handRules Q (g.put p (g.pages p + 1))) :
    (retainPage p >>= f).wp handRules Q g := by
  refine ⟨hs, fun _ g' hd => ?_⟩
  obtain ⟨hf, rfl⟩ := hd
  exact h hf

lemma wp_readTable {sl : Slot} {f : Option Nat → Code α} (h : ∀ x, (f x).wp handRules Q g) :
    (readTable root sl >>= f).wp handRules Q g := by
  refine ⟨trivial, fun x g' hd => ?_⟩
  obtain rfl : g' = g := hd
  exact h x

lemma wp_readPte_own {f : BitVec 64 → Code α} (hr : root ∈ g.own) (h : ∀ d, (isForeign d = true → Outside d) →
      (f d).wp handRules Q { g with peek := some ⟨root, v, d⟩ }) :
    (readPte root v >>= f).wp handRules Q g := by
  refine ⟨.inl hr, fun d g' hd => ?_⟩
  obtain ⟨ho, rfl⟩ := hd
  rw [if_pos hr]
  exact h d ho

lemma wp_setPte (hc : g.CanStore root v d) (h : (f ()).wp handRules Q (g.store root d)) :
    (setPte root v d >>= f).wp handRules Q g := by
  refine ⟨hc, fun _ g' hd => ?_⟩
  obtain rfl : g' = _ := hd
  exact h

lemma wp_bbmUpdatePage (hc : g.CanStore root v d) (h : (f ()).wp handRules Q (g.store root d)) :
    (bbmUpdatePage root v d >>= f).wp handRules Q g := by
  refine ⟨hc, fun _ g' hd => ?_⟩
  obtain rfl : g' = _ := hd
  exact h

lemma wp_takeSpace {f : Space → Code α} (hr : root ∈ g.own)
    (h : ∀ s : Space, (∀ i, i ≠ 0 → s.table (.l1 i) = none) → (f s).wp handRules Q
      { g with
        pages := fun p => g.pages p + (hit (some root) p + s.uses p)
        fresh := ∅
        own := g.own.erase root
        peek := none }) : (takeSpace root >>= f).wp handRules Q g := by
  refine ⟨hr, fun s g' hd => ?_⟩
  obtain ⟨ht, rfl⟩ := hd
  exact h s ht

lemma wp_assert (h : holds = true → (f ()).wp handRules Q g) : (assert holds >>= f).wp handRules Q g := by
  refine ⟨trivial, fun _ g' hd => ?_⟩
  obtain ⟨hh, rfl⟩ := hd
  exact h hh

/-! ## Mapping -/

namespace Hand

/-- What mapping does not change. -/
structure Same (g g' : Hand) : Prop where
  own : g'.own = g.own
  guest : g'.guest = g.guest
  look : g'.look = g.look
  owes : g'.owes = g.owes
  excl : g'.excl = g.excl

lemma Same.refl (g : Hand) : g.Same g := ⟨rfl, rfl, rfl, rfl, rfl⟩

lemma Same.trans {g₁ g₂ g₃ : Hand} (h : g₁.Same g₂) (h' : g₂.Same g₃) : g₁.Same g₃ :=
  ⟨h'.own.trans h.own, h'.guest.trans h.guest, h'.look.trans h.look, h'.owes.trans h.owes, h'.excl.trans h.excl⟩

structure Even (g g' : Hand) : Prop extends g.Same g' where
  pages : g'.pages = g.pages

/-- The same, and a reference to the page of a leaf less in hand. -/
structure Spent (desc : BitVec 64) (g g' : Hand) : Prop extends g.Same g' where
  pages : ∀ p, g'.pages p + hit (charge desc) p = g.pages p

lemma Even.refl (g : Hand) : g.Even g := ⟨Same.refl g, rfl⟩

lemma Even.trans {g₁ g₂ g₃ : Hand} (h : g₁.Even g₂) (h' : g₂.Even g₃) : g₁.Even g₃ :=
  ⟨h.toSame.trans h'.toSame, h'.pages.trans h.pages⟩

lemma Even.spent (h : g₁.Even g₂) (h' : Spent d g₂ g₃) : Spent d g₁ g₃ :=
  ⟨h.toSame.trans h'.toSame, fun p => (h'.pages p).trans (congrFun h.pages p)⟩

/-- What an attempt to map the leaf `desc` leaves. -/
def Mapped (desc : BitVec 64) (g : Hand) (r : Except MapError Unit) (g' : Hand) : Prop :=
  match r with
  | .ok () => Spent desc g g'
  | .error _ => g.Even g'

end Hand

open Hand

lemma wp_ensureTable (hr : root ∈ g.own) (hs : ∀ i, sl = .l1 i → i = 0) :
    (ensureTable root sl).wp handRules (fun _ g' => g.Even g') g := by
  refine wp_readTable fun x => ?_
  match x with
  | some t => exact Even.refl g
  | none =>
    refine wp_allocPage (Even.refl g) fun p _ hz _ => ?_
    refine ⟨⟨hr, by simp, hs⟩, fun _ g' hd => ?_⟩
    obtain rfl : g' = _ := hd
    refine ⟨⟨rfl, rfl, rfl, rfl, rfl⟩, ?_⟩
    simp only [put, update_self, update_idem, Nat.sub_self]
    rw [← hz, update_eq_self]

lemma Hand.spent_store (hr : root ∈ g.own) (ho : charge l.desc = none) (hp : ∀ q, charge d = some q → 0 < g.pages q) :
    Spent d g (({ g with peek := some l } : Hand).store root d) := by
  rw [store, if_pos hr]
  refine ⟨⟨rfl, rfl, rfl, rfl, rfl⟩, fun p => ?_⟩
  have hle : hit (charge d) p ≤ g.pages p := by
    unfold hit
    split
    next hc => exact hp p hc
    · exact Nat.zero_le _
  simp only [Option.bind_some, ho, hit_none]
  omega

lemma wp_installLeaf (hr : root ∈ g.own) (hp : ∀ q, charge d = some q → 0 < g.pages q) (ho : isForeign d = true → Outside d) :
    (installLeaf root v d).wp handRules (Mapped d g) g := by
  refine wp_readPte_own hr fun old _ => ?_
  have hc : ({ g with peek := some ⟨root, v, old⟩ } : Hand).CanStore root v d := by
    rw [CanStore, if_pos hr]
    exact ⟨⟨_, rfl, rfl, rfl⟩, hp, ho⟩
  split
  next hv =>
    split
    · exact ⟨⟨rfl, rfl, rfl, rfl, rfl⟩, rfl⟩
    next hb =>
      refine wp_bbmUpdatePage hc (spent_store hr (charge_of_isForeign ?_) hp)
      simp only [isForeign, hv, Bool.true_and, bne_iff_ne, ne_eq]
      exact fun h => hb (and_device_or_borrowed.mp h).1
  next hn =>
    exact wp_setPte hc
      (spent_store hr (charge_of_not_isValid (by simpa using hn)) hp)

lemma wp_installLeafDescriptor {virt : Nat} (hr : root ∈ g.own) (hv : vpn virt < 512 ^ 3)
    (hp : ∀ q, charge d = some q → 0 < g.pages q) (ho : isForeign d = true → Outside d) :
    (installLeafDescriptor root virt d).wp handRules (Mapped d g) g := by
  refine wp_assert fun _ => ?_
  simp only
  split
  · exact Even.refl g
  have hs (i : Nat) (hi : Slot.l1 (vpn virt / 512 ^ 3) = .l1 i) : i = 0 := by
    rw [Nat.div_eq_of_lt hv] at hi
    exact (Slot.l1.inj hi).symm
  -- Three tables are made on the way, each with an even hand.
  refine wp_tryBind (wp_mono (fun r₁ g₁ h₁ => ⟨fun _ _ => ?_, fun e _ => h₁⟩)
    (wp_ensureTable hr hs))
  refine wp_tryBind (wp_mono (fun r₂ g₂ h₂ => ⟨fun _ _ => ?_, fun e _ => h₁.trans h₂⟩)
    (wp_ensureTable (h₁.own ▸ hr) nofun))
  refine wp_tryBind (wp_mono (fun r₃ g₃ h₃ => ⟨fun _ _ => ?_, fun e _ => (h₁.trans h₂).trans h₃⟩)
    (wp_ensureTable (h₂.own ▸ h₁.own ▸ hr) nofun))
  have he := (h₁.trans h₂).trans h₃
  refine wp_mono (fun r g' h => ?_)
    (wp_installLeaf (he.own ▸ hr) (fun q hq => he.pages ▸ hp q hq) ho)
  match r, h with
  | .ok (), h => exact he.spent h
  | .error e, h => exact he.trans h

/-! ## Giving pages back -/

lemma wp_each_freePage {β : Type} {f : β → Option Nat} {c : Nat → Nat} {l : List β}
    (h : ∀ q, g.pages q = c q + (l.filterMap f).count q) :
    (each (fun e => match f e with
      | some p => freePage p
      | none => return ()) l).wp handRules (fun _ g' => g.Same g' ∧ g'.pages = c) g := by
  refine wp_each (I := fun l g' => g.Same g' ∧ ∀ q, g'.pages q = c q + (l.filterMap f).count q) ?_
    (fun g' hg' => ⟨hg'.1, funext fun q => by simpa using hg'.2 q⟩) ⟨Same.refl g, h⟩
  rintro e l g' ⟨hs, hpg⟩
  match he : f e with
  | none => exact ⟨hs, by simpa [he] using hpg⟩
  | some p =>
    have hp := hpg p
    simp only [filterMap_cons, he, count_cons_self] at hp
    refine @wp_freePage _ _ _ p (fun _ => .ret ()) (by omega) ⟨hs.trans ⟨rfl, rfl, rfl, rfl, rfl⟩, fun q => ?_⟩
    have hq := hpg q
    by_cases hpq : q = p
    · subst hpq
      simp only [put, update_self]
      omega
    · simp only [filterMap_cons, he, count_cons_of_ne (Ne.symm hpq)] at hq
      simp only [put, update_of_ne hpq]
      exact hq

/-! ## Creating a space -/

lemma update_eq_add {f : Nat → Nat} {p : Nat} (h : f p = 0) :
    update f p 1 = fun q => f q + hit (some p) q := by
  funext q
  by_cases hq : q = p
  · subst hq
    simp [h]
  · rw [update_of_ne hq]
    simp [hit, Ne.symm hq]

lemma update_sub_one {f c : Nat → Nat} {p : Nat} (h : ∀ q, f q = c q + hit (some p) q) :
    update f p (f p - 1) = c := by
  funext q
  have hq := h q
  by_cases hp : q = p
  · subst hp
    rw [hit_self] at hq
    rw [update_self]
    omega
  · rw [update_of_ne hp]
    simpa [hit, Ne.symm hp] using hq

/-- What the copies of the kernel's tables leave in hand, if `c` was in hand without `dst`. -/
def Copied (c : Nat → Nat) (dst : Nat) (g : Hand) (r : Except MapError (List (Nat × Nat))) (g' : Hand) :
    Prop :=
  g.Same g' ∧
    match r with
    | .ok l3s => (l3s.map Prod.fst).Nodup ∧ (∀ e ∈ l3s, e.1 < 512) ∧
        ∀ q, g'.pages q = c q + hit (some dst) q + (l3s.map Prod.snd).count q
    | .error _ => g'.pages = c

lemma wp_copyKernelTables : ∀ {todo : List Nat}
    {l3s : List (Nat × Nat)} {g : Hand}, (l3s.map Prod.fst ++ todo).Nodup → (∀ i ∈ todo, i < 512) →
    (∀ e ∈ l3s, e.1 < 512) → (∀ q, g.pages q = c q + hit (some dst) q + (l3s.map Prod.snd).count q) →
    (copyKernelTables K dst todo l3s).wp handRules (Copied c dst g) g := by
  intro todo
  induction todo with
  | nil =>
    intro l3s g hn _ hlt hp
    rw [append_nil] at hn
    exact ⟨Same.refl g, hn, hlt, hp⟩
  | cons i todo ih =>
    intro l3s g hn ht hlt hp
    have ht' : ∀ j ∈ todo, j < 512 := fun j hj => ht j (mem_cons_of_mem _ hj)
    unfold copyKernelTables
    split
    · refine ih (hn.sublist ?_) ht' hlt hp
      exact (List.Sublist.refl _).append (sublist_cons_self _ _)
    · refine wp_allocPage ?_ fun t _ hz _ => ?_
      · -- No page is left: the copies so far and the table they belong to are given back.
        refine wp_bind.mpr (wp_mono (fun _ g' h => ?_)
          (@wp_each_freePage g _ (fun e : Nat × Nat => some e.2) (fun q => c q + hit (some dst) q) l3s
            fun q => by rw [hp q, ← filterMap_eq_map]; rfl))
        obtain ⟨hs, hp'⟩ := h
        refine wp_freePage (by simp [hp']) ⟨hs.trans ⟨rfl, rfl, rfl, rfl, rfl⟩, ?_⟩
        exact update_sub_one fun q => congrFun hp' q
      · have hn' : ((l3s ++ [(i, t)]).map Prod.fst ++ todo).Nodup := by simpa using hn
        refine wp_mono (fun r g' h => ⟨⟨h.1.own, h.1.guest, h.1.look, h.1.owes, h.1.excl⟩, h.2⟩)
          (ih hn' ht' ?_ fun q => ?_)
        · intro e he
          obtain he | he := mem_append.mp he
          · exact hlt e he
          · obtain rfl := mem_singleton.mp he
            exact ht i mem_cons_self
        · simp only [update_eq_add hz, map_append, count_append, hp q]
          simp only [map_cons, map_nil, count_singleton, hit, Option.some.injEq, beq_iff_eq]
          omega

lemma wp_cloneKernelL20Snapshot : (cloneKernelL20Snapshot K).wp handRules (fun r g' => g.Same g' ∧
      match r with
      | .ok (l2, l3s) => (l3s.map Prod.fst).Nodup ∧ (∀ e ∈ l3s, e.1 < 512) ∧
          ∀ q, g'.pages q = g.pages q + hit (some l2) q + (l3s.map Prod.snd).count q
      | .error _ => g'.pages = g.pages) g := by
  refine wp_allocPage ⟨Same.refl g, rfl⟩ fun dst _ hz _ => ?_
  have hp (q : Nat) :
      update g.pages dst 1 q = g.pages q + hit (some dst) q + (([] : List (Nat × Nat)).map Prod.snd).count q := by
    rw [update_eq_add hz]
    rfl
  have hn : (List.range 512).Nodup := nodup_range
  have hr : ∀ i ∈ List.range 512, i < 512 := fun i => mem_range.mp
  generalize List.range 512 = todo at hn hr ⊢
  refine wp_tryBind (wp_mono ?_ (wp_copyKernelTables hn hr nofun hp))
  intro r g' h
  have hs : g.Same g' := ⟨h.1.own, h.1.guest, h.1.look, h.1.owes, h.1.excl⟩
  refine ⟨?_, ?_⟩
  · rintro l3s rfl
    exact ⟨hs, h.2⟩
  · rintro e rfl
    exact ⟨hs, h.2⟩

/-- What an attempt to create a space leaves. -/
def Hand.Created (g : Hand) (r : Except MapError Nat) (g' : Hand) : Prop :=
  match r with
  | .ok root => root ∉ g.guest ∧ ({ g with own := insert root g.own } : Hand).Even g'
  | .error _ => g.Even g'

lemma wp_createUserAddressSpace : (createUserAddressSpace K).wp handRules (Created g) g := by
  refine wp_allocPage (Even.refl g) fun l0 _ hl0 _ => ?_
  refine wp_allocPage ?_ fun l1 _ hl1 _ => ?_
  · refine wp_freePage (by simp) ⟨⟨rfl, rfl, rfl, rfl, rfl⟩, ?_⟩
    exact update_sub_one fun q => by rw [update_eq_add hl0]
  refine wp_bind.mpr (wp_mono (fun r g' h => ?_) wp_cloneKernelL20Snapshot)
  obtain ⟨hs, hr⟩ := h
  have hs : g.Same g' := ⟨hs.own, hs.guest, hs.look, hs.owes, hs.excl⟩
  -- What is in hand with the two tables.
  have hb : update (update g.pages l0 1) l1 1 = fun q => g.pages q + hit (some l0) q + hit (some l1) q := by
    rw [update_eq_add hl1, update_eq_add hl0]
  simp only [hb] at hr
  cases r with
  | error e =>
    have hf : update g'.pages l1 (g'.pages l1 - 1) = fun q => g.pages q + hit (some l0) q :=
      update_sub_one fun q => congrFun hr q
    refine wp_freePage (by simp [hr]) (wp_freePage (by simp [put, hf]) ?_)
    refine ⟨hs.trans ⟨rfl, rfl, rfl, rfl, rfl⟩, ?_⟩
    simp only [put, hf]
    exact update_sub_one fun q => rfl
  | ok x =>
    obtain ⟨l2, l3s⟩ := x
    obtain ⟨hn, hlt, hp⟩ := hr
    have hu (q : Nat) : g'.pages q = g.pages q + (hit (some l0) q + (Space.snapshot K l1 l2 l3s).uses q) := by
      rw [Space.uses_snapshot hn hlt, hp q]
      omega
    refine ⟨⟨fun q => by rw [hu q]; omega, ?_⟩, fun _ g'' hd => ?_⟩
    · refine ⟨Space.charge_pte_snapshot, fun v hv => ?_, fun i hi => if_neg hi⟩
      exact Space.outside_pte_snapshot (by simp only [isForeign, Bool.and_eq_true] at hv; exact hv.1)
    · obtain ⟨hw, rfl⟩ := hd
      refine ⟨hs.guest ▸ hw, ⟨congrArg (insert l0) hs.own, hs.guest, hs.look, hs.owes, hs.excl⟩, funext fun q => ?_⟩
      simp only [hu q]
      omega

/-! ## Taking a space apart -/

namespace Space

/-- The entries `destroy_user_address_space` visits below an entry of level two, in order. -/
def visitL2 (s : Space) (k : Nat) : List Place :=
  match s.table (.l3 k) with
  | none => []
  | some _ => (List.range 512).map (fun i3 => .leaf (k * 512 + i3)) ++ [.table (.l3 k)]

@[inherit_doc visitL2]
def visitL1 (s : Space) (i1 : Nat) : List Place :=
  if isKernelSharedL1 i1 then []
  else
    match s.table (.l2 i1) with
    | none => []
    | some _ => (List.range 512).flatMap (fun i2 => s.visitL2 (i1 * 512 + i2)) ++ [.table (.l2 i1)]

@[inherit_doc visitL2]
def visit (s : Space) : List Place :=
  match s.table (.l1 0) with
  | none => []
  | some _ => (List.range 512).flatMap s.visitL1 ++ [.table (.l1 0)]

/-- The entry of level two, or one, that an entry is at or below. -/
def Place.at2 : Place → Nat
  | .table (.l3 k) => k
  | .leaf v => v / 512
  | _ => 0

@[inherit_doc Place.at2]
def Place.at1 : Place → Nat
  | .table (.l2 k) => k
  | .table (.l3 k) => k / 512
  | .leaf v => v / 512 ^ 2
  | _ => 0

variable {s : Space} {pl : Place}

lemma mem_visitL2 : pl ∈ s.visitL2 k ↔ s.table (.l3 k) ≠ none ∧
    (pl = .table (.l3 k) ∨ ∃ i3 < 512, pl = .leaf (k * 512 + i3)) := by
  unfold visitL2
  split
  next h => simp [h]
  next h => simp [h, or_comm, eq_comm]

lemma mem_visitL1 : pl ∈ s.visitL1 i1 ↔ isKernelSharedL1 i1 = false ∧ s.table (.l2 i1) ≠ none ∧
      (pl = .table (.l2 i1) ∨ ∃ i2 < 512, pl ∈ s.visitL2 (i1 * 512 + i2)) := by
  unfold visitL1
  split
  next h => simp [h]
  next hs =>
    split
    next h => simp [h]
    next h => simp [hs, h, or_comm]

lemma at2_of_mem (h : pl ∈ s.visitL2 k) : pl.at2 = k ∧ pl.at1 = k / 512 := by
  obtain ⟨-, rfl | ⟨i3, hi, rfl⟩⟩ := mem_visitL2.mp h
  · exact ⟨rfl, rfl⟩
  · simp only [Place.at2, Place.at1]
    omega

lemma at1_of_mem (h : pl ∈ s.visitL1 i1) : pl.at1 = i1 := by
  obtain ⟨-, -, rfl | ⟨i2, hi, hm⟩⟩ := mem_visitL1.mp h
  · rfl
  · have := (at2_of_mem hm).2
    omega

lemma nodup_visitL2 (k : Nat) : (s.visitL2 k).Nodup := by
  unfold visitL2
  split
  · exact nodup_nil
  · refine nodup_append'.mpr ⟨List.Nodup.map ?_ nodup_range, by simp, ?_⟩
    · intro i j hj
      simpa using hj
    · simp

lemma nodup_loop {visit : Nat → List Place} {entry : Place → Nat} {f : Nat → Nat} {last : Place}
    (hin : ∀ i j, f i = f j → i = j) (hn : ∀ i, (visit i).Nodup)
    (he : ∀ i, ∀ pl ∈ visit i, entry pl = f i) (hl : ∀ i, last ∉ visit i) :
    ((List.range 512).flatMap visit ++ [last]).Nodup := by
  refine nodup_append'.mpr ⟨nodup_flatMap.mpr ⟨fun i _ => hn i, ?_⟩, by simp, ?_⟩
  · refine List.Pairwise.imp ?_ (nodup_range : (List.range 512).Nodup)
    intro i j hij pl hi hj
    exact hij (hin i j ((he i pl hi).symm.trans (he j pl hj)))
  · intro pl hp hm
    obtain rfl := mem_singleton.mp hm
    obtain ⟨i, -, hi⟩ := mem_flatMap.mp hp
    exact hl i hi

lemma nodup_visitL1 (i1 : Nat) : (s.visitL1 i1).Nodup := by
  unfold visitL1
  split
  · exact nodup_nil
  · split
    · exact nodup_nil
    · refine nodup_loop (f := fun i2 => i1 * 512 + i2) (by simp) (fun i2 => nodup_visitL2 _)
        (fun i2 pl h => (at2_of_mem h).1) fun i2 h => ?_
      simpa using (mem_visitL2.mp h).2

lemma nodup_visit : s.visit.Nodup := by
  unfold visit
  split
  · exact nodup_nil
  · refine nodup_loop (f := id) (fun _ _ h => h) nodup_visitL1 (fun i1 pl h => at1_of_mem h)
      fun i1 h => ?_
    obtain ⟨-, -, h | ⟨i2, -, h⟩⟩ := mem_visitL1.mp h
    · cases h
    · simpa using (mem_visitL2.mp h).2

lemma mem_visit_of_charge (hr : ∀ i, i ≠ 0 → s.table (.l1 i) = none) (h : s.charge pl = some p) : pl ∈ s.visit := by
  have hl1 (i : Nat) (hi : s.table (.l1 i) ≠ none) : i = 0 := by
    by_contra hne
    exact hi (hr i hne)
  have hl2 (k : Nat) (hk : s.table (.l2 k) ≠ none) :
      k < 512 ∧ isKernelSharedL1 k = false ∧ s.table (.l1 0) ≠ none := by
    have htp : s.table (.l1 (k / 512)) ≠ none := fun hn => hk (s.rooted_l2 k hn)
    have hz := hl1 _ htp
    refine ⟨by omega, ?_, hz ▸ htp⟩
    by_contra hh
    exact hk (s.unshared k (by simpa using hh))
  have hv (k : Nat) (hk : s.table (.l2 k) ≠ none) (hp : pl ∈ s.visitL1 k) : pl ∈ s.visit := by
    obtain ⟨hlt, -, htp⟩ := hl2 k hk
    obtain ⟨t, ht⟩ := Option.ne_none_iff_exists'.mp htp
    simp only [visit, ht]
    exact mem_append_left _ (mem_flatMap.mpr ⟨k, mem_range.mpr hlt, hp⟩)
  have hl3 (k : Nat) (hk : s.table (.l3 k) ≠ none) (hp : pl ∈ s.visitL2 k) : pl ∈ s.visit := by
    have hu : s.table (.l2 (k / 512)) ≠ none := fun hn => hk (s.rooted_l3 k hn)
    refine hv (k / 512) hu (mem_visitL1.mpr ⟨(hl2 _ hu).2.1, hu, .inr ⟨k % 512, by omega, ?_⟩⟩)
    rw [Nat.div_add_mod']
    exact hp
  match pl, h with
  | .table (.l1 i), h =>
    have hs : s.table (.l1 i) ≠ none := fun hn => by simp [charge, hn] at h
    obtain rfl := hl1 i hs
    rw [charge] at h
    simp [visit, h]
  | .table (.l2 k), h =>
    have hs : s.table (.l2 k) ≠ none := fun hn => by simp [charge, hn] at h
    exact hv k hs (mem_visitL1.mpr ⟨(hl2 k hs).2.1, hs, .inl rfl⟩)
  | .table (.l3 k), h =>
    have hs : s.table (.l3 k) ≠ none := fun hn => by simp [charge, hn] at h
    exact hl3 k hs (mem_visitL2.mpr ⟨hs, .inl rfl⟩)
  | .leaf v, h =>
    have hne : s.pte v ≠ 0#64 := fun h0 => by simp [charge, h0, charge_zero] at h
    obtain ⟨t, ht⟩ := table_of_pte hne
    have hs : s.table (.l3 (v / 512)) ≠ none := by simp [ht]
    refine hl3 (v / 512) hs (mem_visitL2.mpr ⟨hs, .inr ⟨v % 512, by omega, ?_⟩⟩)
    rw [Nat.div_add_mod']

/-- What the walk gives back is what the space holds. -/
lemma count_visit (hr : ∀ i, i ≠ 0 → s.table (.l1 i) = none) (p : Nat) : (s.visit.filterMap s.charge).count p = s.uses p :=
  count_filterMap nodup_visit fun _ h =>
    ⟨fun _ => mem_places.mpr (inRange_of_charge h), fun _ => mem_visit_of_charge hr h⟩

def free (s : Space) (pl : Place) : Code Unit :=
  match s.charge pl with
  | some p => freePage p
  | none => return ()

lemma freeLeaves_eq (k : Nat) :
    freeLeaves s k = each s.free ((List.range 512).map fun i3 => .leaf (k * 512 + i3)) := by
  rw [each_map]
  refine congrArg (each · (List.range 512)) (funext fun i3 => ?_)
  simp only [free, charge, Memory.charge]
  split <;> rfl

lemma visitL2_eq (k : Nat) : each s.free (s.visitL2 k) = (match s.table (.l3 k) with
      | none => return ()
      | some l3 => do
          freeLeaves s k
          freePage l3) := by
  unfold visitL2
  split
  · rfl
  next h =>
    rw [each_append, freeLeaves_eq]
    refine bind_congr fun _ => ?_
    simp only [each, free, charge, h]
    rfl

lemma visitL1_eq (i1 : Nat) : each s.free (s.visitL1 i1) = (if isKernelSharedL1 i1 then return ()
      else
        match s.table (.l2 i1) with
        | none => return ()
        | some l2 => do
            each (fun i2 => each s.free (s.visitL2 (i1 * 512 + i2))) (List.range 512)
            freePage l2) := by
  unfold visitL1
  split
  · rfl
  · split
    · rfl
    next h =>
      rw [each_append, each_flatMap]
      refine bind_congr fun _ => ?_
      simp only [each, free, charge, h]
      rfl

end Space

lemma destroyUserAddressSpace_eq (root : Nat) : destroyUserAddressSpace root = (do
    let s ← takeSpace root
    each s.free s.visit
    freePage root) := by
  refine bind_congr fun s => ?_
  unfold Space.visit
  match h : s.table (.l1 0) with
  | none => rfl
  | some l1 =>
    simp only
    rw [each_append, ← each_flatMap, bind_bind]
    simp only [Space.visitL1_eq, Space.visitL2_eq]
    refine bind_congr fun _ => ?_
    simp only [each, Space.free, Space.charge, h]
    rfl

lemma wp_destroyUserAddressSpace (hr : root ∈ g.own) : (destroyUserAddressSpace root).wp handRules
      (fun _ g' => ({ g with own := g.own.erase root } : Hand).Even g') g := by
  rw [destroyUserAddressSpace_eq]
  refine wp_takeSpace hr fun s ht => ?_
  refine wp_bind.mpr (wp_mono (fun _ g' h => ?_)
    (@wp_each_freePage _ _ s.charge (fun q => g.pages q + hit (some root) q) s.visit fun q => ?_))
  · obtain ⟨hs, hp⟩ := h
    refine @wp_freePage _ _ _ root (fun _ => .ret ()) (by simp [hp]) ⟨⟨hs.own, hs.guest, hs.look, hs.owes, hs.excl⟩, ?_⟩
    exact update_sub_one fun q => congrFun hp q
  · rw [Space.count_visit ht]
    exact (Nat.add_assoc _ _ _).symm

end ZeroOS.Memory
