import ZeroOS.Memory.Balance

/-!
# Fork, faults and unmapping give back what they take

The code that works on leaves somebody else may look at: fork, and the fault that ends sharing. The
leaf that was read is what connects its actions. A fork adds a reference while the leaf is there to
vouch for the page; a fault gives the reference of the leaf back and then owes the leaf until it has
written the new one.
-/

namespace ZeroOS.Memory

open Function Atomic Atomic.Prog Tally Hand Nat Finset

variable {α : Type} {Q : α → Hand → Prop} {g : Hand}
  {f : Unit → Code α}

/-! ## Leaves that are shared -/

lemma charge_of_shares (h : shares d) : charge d = some (physOf d) :=
  charge_of_classify h.1 (by rw [h.2]; decide) (by rw [h.2]; decide)

lemma shares_of {q : Nat} (hc : charge d = some q) (h : d &&& descSwCow ≠ 0#64 ∨ apOf d = userApRw) : shares d := by
  obtain ⟨hv, hf, -⟩ := charge_eq_some.mp hc
  obtain ⟨hb, hd⟩ := and_device_or_borrowed.mp hf
  refine ⟨hv, ?_⟩
  rw [classifyLeaf, if_neg (not_not.mpr hb), if_neg (not_not.mpr hd)]
  split
  · rfl
  next hw => rw [if_pos (h.resolve_left hw)]

lemma isForeign_of_borrowed (hv : isValid d = true) (h : classifyLeaf d = .borrowedDirect) :
    isForeign d = true := by
  refine (charge_of_isValid hv).resolve_left fun hc => ?_
  have hb := (and_device_or_borrowed.mp (charge_eq_some.mp hc).2.1).1
  rw [classifyLeaf, if_neg (not_not.mpr hb)] at h
  split at h
  · cases h
  split at h
  · cases h
  split at h
  · cases h
  split at h <;> cases h

lemma shares_cowShareLeaf (h : shares d) : shares (cowShareLeaf d) := by
  refine @shares_of _ (physOf d) ?_ (.inl ?_)
  · rw [charge_cowShareLeaf, charge_of_shares h]
  · rw [cow_cowShareLeaf]
    decide

lemma shares_cowBreakLeaf (h : shares d) (hp : IsFrame p) : shares (cowBreakLeaf d p) :=
  shares_of (charge_cowBreakLeaf (charge_of_shares h) hp) (.inr apOf_cowBreakLeaf)

lemma isFrame_physOf (d : BitVec 64) : IsFrame (physOf d) := by
  have hm : physAddrMask.toNat = (2 ^ 36 - 1) <<< 12 := by decide
  have hp : physOf d = (d.toNat >>> 12 &&& (2 ^ 36 - 1)) <<< 12 := by
    rw [physOf, BitVec.toNat_and, hm]
    refine eq_of_testBit_eq fun i => ?_
    simp only [testBit_and, testBit_shiftLeft, testBit_shiftRight]
    by_cases hi : 12 ≤ i
    · simp [hi]
    · simp [hi]
  have hlt : d.toNat >>> 12 &&& (2 ^ 36 - 1) < 2 ^ 36 := by
    rw [and_two_pow_sub_one_eq_mod]
    exact mod_lt _ (by decide)
  rw [hp, shiftLeft_eq]
  constructor
  · simp [pageSize]
  · omega

/-! ## Actions on leaves of others -/

lemma wp_readPte_other {f : BitVec 64 → Code α} (hr : root ∉ g.own) (hg : root ∈ g.guest)
    (hs : g.owes = false) (h : ∀ d, (isForeign d = true → Outside d) → (f d).wp handRules Q
      { g with
        look := some ⟨root, v, d⟩ }) : (readPte root v >>= f).wp handRules Q g := by
  refine ⟨.inr ⟨hg, hs⟩, fun d g' hd => ?_⟩
  obtain ⟨ho, rfl⟩ := hd
  rw [if_neg hr]
  exact h d ho

lemma wp_refCount {f : Nat → Code α} (h : ∀ n, (f n).wp handRules Q g) : (refCount p >>= f).wp handRules Q g := by
  refine ⟨trivial, fun n g' hd => ?_⟩
  obtain rfl : g' = g := hd
  exact h n

lemma wp_writePage (hf : p ∈ g.fresh) (h : (f ()).wp handRules Q g) : (writePage p w >>= f).wp handRules Q g := by
  refine ⟨hf, fun _ g' hd => ?_⟩
  obtain rfl : g' = g := hd
  exact h

lemma wp_copyPage (hf : dst ∈ g.fresh) (h : (f ()).wp handRules Q g) : (copyPage src dst >>= f).wp handRules Q g := by
  refine ⟨hf, fun _ g' hd => ?_⟩
  obtain rfl : g' = g := hd
  exact h

lemma wp_freePage_seen (he : g.excl = true) (hs : g.sees p) (hh : ∃ l, g.look = some l ∧ shares l.desc)
    (hp : g.pages p = 0) (h : (f ()).wp handRules Q { g with owes := true }) :
    (freePage p >>= f).wp handRules Q g := by
  refine ⟨.inr (.inr ⟨he, hs, hh⟩), fun _ g' hd => ?_⟩
  obtain ⟨-, rfl⟩ := hd
  rw [if_neg (by omega)]
  exact h

/-! ## Fork -/

/-- What is as before when work on leaves of others is done. -/
structure Hand.Done (g g' : Hand) : Prop where
  own : g'.own = g.own
  guest : g'.guest = g.guest
  owes : g'.owes = g.owes
  excl : g'.excl = g.excl
  pages : g'.pages = g.pages

lemma Hand.Done.refl (g : Hand) : g.Done g := ⟨rfl, rfl, rfl, rfl, rfl⟩

lemma Hand.Done.trans {g₁ g₂ g₃ : Hand} (h : g₁.Done g₂) (h' : g₂.Done g₃) : g₁.Done g₃ :=
  ⟨h'.own.trans h.own, h'.guest.trans h.guest, h'.owes.trans h.owes, h'.excl.trans h.excl, h'.pages.trans h.pages⟩

lemma Hand.Even.done (h : g.Even g') : g.Done g' := ⟨h.own, h.guest, h.owes, h.excl, h.pages⟩

lemma vpn_mul_pageSize (h : v < 512 ^ 4) : vpn (v * pageSize) = v := by
  simp only [vpn, pageSize]
  omega

lemma wp_mapOrFree {va : Nat} {c : Nat → Nat} {f : Code (Except MapError Unit)}
    {R : Except MapError Unit → Hand → Prop} (hd : child ∈ g.own) (hv : vpn va < 512 ^ 3)
    (hh : charge d = some p) (hc : ∀ q, g.pages q = c q + hit (some p) q)
    (he : ∀ g' e, g.Same g' → g'.pages = c → R (.error e) g')
    (ho : ∀ g', g.Same g' → g'.pages = c → f.wp handRules R g') :
    (do match ← installLeafDescriptor child va d with
        | .error e =>
          freePage p
          return .error e
        | .ok () => f : Code (Except MapError Unit)).wp handRules R g := by
  have hp : 0 < g.pages p := by
    rw [hc p, hit_self]
    omega
  have hg : ∀ q, charge d = some q → 0 < g.pages q := by
    intro q hq
    obtain rfl := Option.mem_unique hh hq
    exact hp
  have hu (hf : isForeign d = true) : Outside d := by
    rw [charge_of_isForeign hf] at hh
    cases hh
  refine wp_bind.mpr (wp_mono (fun r g' h => ?_) (wp_installLeafDescriptor hd hv hg hu))
  match r, h with
  | .ok (), h =>
    refine ho g' h.toSame (funext fun q => ?_)
    have hq := h.pages q
    rw [hh, hc q] at hq
    omega
  | .error e, h =>
    refine wp_freePage (by rw [h.pages]; exact hp) ?_
    refine he _ e (h.toSame.trans ⟨rfl, rfl, rfl, rfl, rfl⟩) ?_
    exact update_sub_one fun q => by rw [h.pages, hc q]

lemma update_add_one (f : Nat → Nat) (p q : Nat) :
    update f p (f p + 1) q = f q + hit (some p) q := by
  by_cases hq : q = p
  · subst hq
    simp
  · rw [update_of_ne hq]
    simp [hit, Ne.symm hq]

lemma wp_replace_same {l : Look} {f : Unit → Code α} (hr : l.root ∉ g.own) (ho : g.owes = false)
    (hl : g.look = some l) (hol : shares l.desc) (hn : shares d) (hc : charge d = charge l.desc)
    (h : (f ()).wp handRules Q
      { g with
        look := none }) : (bbmUpdatePage l.root l.v d >>= f).wp handRules Q g := by
  refine wp_bbmUpdatePage ?_ ?_
  · rw [CanStore, if_neg hr, ho]
    exact ⟨hn, l, hl, rfl, rfl, hol, hc⟩
  · rw [store, if_neg hr, ho, if_neg Bool.false_ne_true]
    rwa [ho] at h

lemma apOf_lt (d : BitVec 64) : (apOf d).toNat < 4 := by
  rw [apOf, BitVec.toNat_and]
  exact lt_of_le_of_lt and_le_right (by decide : (0b11#64).toNat < 4)

lemma wp_cloneLeaf (hr : parent ∉ g.own) (hg : parent ∈ g.guest) (hd : child ∈ g.own)
    (ho : g.owes = false) (hv : v < 512 ^ 3) :
    (cloneLeaf parent child v).wp handRules (fun _ g' => g.Done g') g := by
  refine wp_readPte_other hr hg ho fun d hu => ?_
  have ha : vpn (v * pageSize) < 512 ^ 3 := by
    rw [vpn_mul_pageSize (lt_trans hv (by decide))]
    exact hv
  split
  · exact ⟨rfl, rfl, rfl, rfl, rfl⟩
  next hl =>
    have hl : isValid d = true := by simpa using hl
    simp only
    split
    next hc =>
      have hfr := isForeign_of_borrowed hl hc
      have hn := charge_of_isForeign hfr
      refine wp_mono (fun r g' h => ?_) (wp_installLeafDescriptor hd ha (by simp [hn]) hu)
      match r, h with
      | .ok (), h =>
        refine ⟨h.own, h.guest, h.owes, h.excl, funext fun q => ?_⟩
        have hq := h.pages q
        rwa [hn, hit_none, add_zero] at hq
      | .error e, h => exact ⟨h.own, h.guest, h.owes, h.excl, h.pages⟩
    next hc =>
      -- The leaf vouches for its page, also for the one more reference.
      have hh := charge_of_shares ⟨hl, hc⟩
      refine wp_retainPage (.inr ⟨ho, hh⟩) fun _ => ?_
      refine wp_mapOrFree hd ha (charge_cowShareLeaf.trans hh)
        (fun q => update_add_one _ _ q) ?_ ?_
      · intro g' e hs hp
        exact ⟨hs.own, hs.guest, hs.owes, hs.excl, hp⟩
      · intro g' hs hp
        refine @wp_replace_same _ _ g' _ ⟨parent, v, d⟩ _ (hs.own ▸ hr)
          (hs.owes.trans ho) hs.look ⟨hl, hc⟩ (shares_cowShareLeaf ⟨hl, hc⟩)
          charge_cowShareLeaf ?_
        exact ⟨hs.own, hs.guest, hs.owes, hs.excl, hp⟩
    next hc =>
      have hh := charge_of_classify hl (by rw [hc]; decide) (by rw [hc]; decide)
      refine wp_retainPage (.inr ⟨ho, hh⟩) fun hf => ?_
      refine wp_mapOrFree hd ha (charge_makeLeafDescriptor (by decide) hf)
        (fun q => update_add_one _ _ q) ?_ ?_
      · intro g' e hs hp
        exact ⟨hs.own, hs.guest, hs.owes, hs.excl, hp⟩
      · intro g' hs hp
        exact ⟨hs.own, hs.guest, hs.owes, hs.excl, hp⟩
    · exact ⟨rfl, rfl, rfl, rfl, rfl⟩
    next hc =>
      have hh := charge_of_classify hl (by rw [hc]; decide) (by rw [hc]; decide)
      refine wp_allocPage ⟨rfl, rfl, rfl, rfl, rfl⟩ fun dst hf hz _ => ?_
      refine wp_copyPage (mem_insert_self ..) ?_
      refine wp_mapOrFree hd ha (charge_makeLeafDescriptor (apOf_lt d) hf)
        (fun q => congrFun (update_eq_add hz) q) ?_ ?_
      · intro g' e hs hp
        exact ⟨hs.own, hs.guest, hs.owes, hs.excl, hp⟩
      · intro g' hs hp
        exact ⟨hs.own, hs.guest, hs.owes, hs.excl, hp⟩

lemma wp_forEach_done {β ε : Type} {f : β → Code (Except ε Unit)} {xs : List β}
    (hb : ∀ x ∈ xs, ∀ g', g.Done g' → (f x).wp handRules (fun _ g'' => g'.Done g'') g') :
    (forEach f xs).wp handRules (fun _ g' => g.Done g') g := by
  refine wp_forEach (I := fun ys g' => (∀ x ∈ ys, x ∈ xs) ∧ g.Done g') ?_ (fun g' h => h.2)
    ⟨fun _ h => h, Done.refl g⟩
  rintro x ys g' ⟨hs, hd⟩
  have hr : ∀ y ∈ ys, y ∈ xs := fun y hy => hs y (List.mem_cons_of_mem _ hy)
  exact wp_mono (fun r g'' h => ⟨fun _ => ⟨hr, hd.trans h⟩, fun _ _ => hd.trans h⟩)
    (hb x (hs x List.mem_cons_self) g' hd)

lemma wp_cloneLeaves (hp : parent ∉ g.own) (hg : parent ∈ g.guest) (hc : child ∈ g.own) (ho : g.owes = false) :
    (cloneLeaves parent child).wp handRules (fun _ g' => g.Done g') g := by
  unfold cloneLeaves
  have hr : ∀ i ∈ List.range 512, i < 512 := fun i => List.mem_range.mp
  generalize List.range 512 = entries at hr ⊢
  refine wp_forEach_done fun i1 hi1 g₁ h₁ => ?_
  split
  · exact Done.refl g₁
  refine wp_readTable fun x => ?_
  match x with
  | none => exact Done.refl g₁
  | some _ =>
    refine wp_forEach_done fun i2 hi2 g₂ h₂ => wp_readTable fun y => ?_
    match y with
    | none => exact Done.refl g₂
    | some _ =>
      refine wp_forEach_done fun i3 hi3 g₃ h₃ => ?_
      have hd := (h₁.trans h₂).trans h₃
      have hlt1 := hr i1 hi1
      have hlt2 := hr i2 hi2
      have hlt3 := hr i3 hi3
      exact wp_cloneLeaf (hd.own ▸ hp) (hd.guest ▸ hg) (hd.own ▸ hc)
        (hd.owes.trans ho) (by omega)

/-- What an attempt to fork leaves. -/
def Hand.Forked (g : Hand) (r : Except MapError Nat) (g' : Hand) : Prop :=
  match r with
  | .ok root => ({ g with own := insert root g.own } : Hand).Done g'
  | .error _ => g.Done g'

lemma wp_destroyChild (hc : child ∉ g.own) (h : ({ g with own := insert child g.own } : Hand).Done g₁) :
    (do destroyUserAddressSpace child
        return .error e : Code (Except MapError Nat)).wp handRules (Forked g) g₁ := by
  have hm : child ∈ g₁.own := by
    rw [h.own]
    exact mem_insert_self ..
  refine wp_bind.mpr (wp_mono (fun _ g' h' => ?_) (wp_destroyUserAddressSpace hm))
  have ho : g₁.own.erase child = g.own := by
    rw [h.own]
    exact erase_insert hc
  exact ⟨h'.own.trans ho, h'.guest.trans h.guest, h'.owes.trans h.owes, h'.excl.trans h.excl, h'.pages.trans h.pages⟩

lemma wp_cloneUserAddressSpace (hp : parent ∈ g.guest) (ho : g.own = ∅) (hs : g.owes = false) :
    (cloneUserAddressSpace K parent).wp handRules (Forked g) g := by
  refine wp_tryBind (wp_mono (fun r g₁ h => ⟨?_, ?_⟩) wp_createUserAddressSpace)
  · rintro child rfl
    obtain ⟨hn, he⟩ := h
    have hc : child ∉ g.own := by simp [ho]
    refine wp_readTable fun x => ?_
    match x with
    | none => exact wp_destroyChild hc he.done
    | some _ =>
      have hf : parent ∉ g₁.own := by
        rw [he.own, mem_insert, ho]
        rintro (rfl | hm)
        · exact hn hp
        · exact notMem_empty _ hm
      have hm : child ∈ g₁.own := by
        rw [he.own]
        exact mem_insert_self ..
      have hg : parent ∈ g₁.guest := by
        rw [he.guest]
        exact hp
      refine wp_bind.mpr (wp_mono (fun r g₂ h₂ => ?_)
        (wp_cloneLeaves hf hg hm (he.owes.trans hs)))
      have hd := he.done.trans h₂
      match r with
      | .error e => exact wp_destroyChild hc hd
      | .ok () => exact hd
  · rintro e rfl
    exact Even.done h

/-! ## The fault that ends sharing -/

lemma wp_replace_copy {l : Look} {dst : Nat} {f : Unit → Code α} (hr : l.root ∉ g.own)
    (ho : g.owes = true) (hl : g.look = some l) (hs : shares l.desc) (hf : IsFrame dst)
    (hp : 0 < g.pages dst)
    (h : (f ()).wp handRules Q
      { g with
        pages := fun p => g.pages p - hit (some dst) p
        fresh := ∅
        look := none
        owes := false }) :
    (bbmUpdatePage l.root l.v (cowBreakLeaf l.desc dst) >>= f).wp handRules Q g := by
  have hc := charge_cowBreakLeaf (charge_of_shares hs) hf
  refine wp_bbmUpdatePage ?_ ?_
  · rw [CanStore, if_neg hr, ho]
    exact ⟨shares_cowBreakLeaf hs hf, l, hl, rfl, rfl, hs, dst, hc, hp⟩
  · rw [store, if_neg hr, if_pos ho, hc]
    exact h

lemma wp_handleCowFault (hr : root ∉ g.own) (hg : root ∈ g.guest)
    (ho : g.owes = false) (he : g.excl = true) (hp : ∀ p, g.pages p = 0) :
    (handleCowFault root va).wp handRules (fun _ g' => g.Done g') g := by
  unfold handleCowFault
  simp only
  split
  · exact Done.refl g
  refine wp_readTable fun x₁ => ?_
  match x₁ with
  | none => exact Done.refl g
  | some _ =>
  refine wp_readTable fun x₂ => ?_
  match x₂ with
  | none => exact Done.refl g
  | some _ =>
  refine wp_readTable fun x₃ => ?_
  match x₃ with
  | none => exact Done.refl g
  | some _ =>
  refine wp_readPte_other hr hg ho fun d hou => ?_
  split
  · exact ⟨rfl, rfl, rfl, rfl, rfl⟩
  next hw =>
    push Not at hw
    have hv : isValid d = true := by simpa using hw.1
    have hm : d &&& descSwCow ≠ 0#64 := by
      have := hw.2
      simp only [isCowLeaf, ne_eq, Bool.and_eq_true, bne_iff_ne, Bool.not_eq_false] at this
      exact this.2
    have hc : charge d = some (physOf d) := (charge_of_isValid hv).resolve_right fun hf => hm (hou hf).plain
    have hs : shares d := shares_of hc (.inl hm)
    refine wp_refCount fun rc => ?_
    split
    · refine wp_allocPage ⟨rfl, rfl, rfl, rfl, rfl⟩ fun dst hfr hz hu => ?_
      have hne : physOf d ≠ dst := fun heq => hu ⟨ho, heq ▸ hc⟩
      refine wp_copyPage (mem_insert_self ..) ?_
      refine wp_freePage_seen he ⟨ho, hc⟩ ⟨_, rfl, hs⟩ ?_ ?_
      · exact (update_of_ne hne ..).trans (hp _)
      refine @wp_replace_copy _ _ _ ⟨root, vpn va, d⟩ dst _ hr rfl rfl hs hfr (by simp) ?_
      refine ⟨rfl, rfl, ho.symm, rfl, funext fun q => ?_⟩
      rw [update_eq_add hz]
      exact Nat.add_sub_cancel ..
    · have hfr := isFrame_physOf d
      refine @wp_replace_same _ _ _ _ ⟨root, vpn va, d⟩ _ hr ho rfl hs
        (shares_cowBreakLeaf hs hfr) ?_ ⟨rfl, rfl, rfl, rfl, rfl⟩
      rw [charge_cowBreakLeaf hc hfr, hc]

/-! ## Unmapping -/

lemma wp_clearUserLeaf (hr : root ∈ g.own) : (clearUserLeaf root va).wp handRules (fun _ g' => g.Even g') g := by
  unfold clearUserLeaf
  simp only
  split
  · exact Even.refl g
  refine wp_readTable fun x₁ => ?_
  match x₁ with
  | none => exact Even.refl g
  | some _ =>
  refine wp_readTable fun x₂ => ?_
  match x₂ with
  | none => exact Even.refl g
  | some _ =>
  refine wp_readTable fun x₃ => ?_
  match x₃ with
  | none => exact Even.refl g
  | some _ =>
  refine wp_readPte_own hr fun d ho => ?_
  split
  next hd =>
    refine wp_setPte ?_ ?_
    · rw [CanStore, if_pos hr]
      exact ⟨⟨_, rfl, rfl, rfl⟩, by simp [charge_zero], fun hf => by cases hf⟩
    rw [store, if_pos hr]
    simp only [Option.bind_some, charge_zero, hit_none]
    obtain hc | hfr := charge_of_isValid hd.1
    · simp only [hc]
      refine @wp_freePage _ _ _ _ (fun _ => .ret ()) (by simp) ⟨⟨rfl, rfl, rfl, rfl, rfl⟩, ?_⟩
      exact update_sub_one fun q => rfl
    · have hl := (ho hfr).low
      refine ⟨.inl hl, fun _ g' hdo => ?_⟩
      exact absurd hdo.1 (not_le.mpr hl)
  · exact ⟨⟨rfl, rfl, rfl, rfl, rfl⟩, rfl⟩

lemma wp_unmapUserRange {start stop : Nat} (hr : root ∈ g.own) :
    (unmapUserRange root start stop).wp handRules (fun _ g' => g.Even g') g := by
  refine wp_assert fun _ => ?_
  refine wp_each (I := fun _ g' => g.Even g') (fun i is g' h => ?_) (fun _ h => h) (Even.refl g)
  exact wp_mono (fun _ _ h' => h.trans h') (wp_clearUserLeaf (h.own ▸ hr))

/-! ## Zeroed memory -/

/-- What an attempt to map zeroed pages leaves: the page that could not be mapped stays in hand. -/
def Hand.Zeroed (g : Hand) (r : Except (MapError × Option Nat) Unit) (g' : Hand) : Prop :=
  match r with
  | .error (_, some p) => g.Same g' ∧ ∀ q, g'.pages q = g.pages q + hit (some p) q
  | _ => g.Even g'

lemma wp_mapZeroPage (hr : root ∈ g.own) (ha : ap.toNat < 4)
    (hv : vpn virt < 512 ^ 3) : (mapZeroPage root virt ap).wp handRules (Zeroed g) g := by
  refine wp_allocPage (Even.refl g) fun p hfr hz _ => ?_
  refine wp_writePage (mem_insert_self ..) ?_
  have hc : charge (makeLeafDescriptor p ap false) = some p := charge_makeLeafDescriptor ha hfr
  have ho (hf : isForeign (makeLeafDescriptor p ap false) = true) :
      Outside (makeLeafDescriptor p ap false) := by
    rw [charge_of_isForeign hf] at hc
    cases hc
  refine wp_bind.mpr (wp_mono (fun r g' h => ?_) (wp_installLeafDescriptor hr hv ?_ ho))
  · match r, h with
    | .ok (), h =>
      refine ⟨⟨h.own, h.guest, h.look, h.owes, h.excl⟩, funext fun q => ?_⟩
      have hq := h.pages q
      simp only [hc, update_eq_add hz] at hq
      omega
    | .error e, h =>
      refine ⟨⟨h.own, h.guest, h.look, h.owes, h.excl⟩, fun q => ?_⟩
      rw [h.pages, update_eq_add hz]
  · intro q hq
    obtain rfl := Option.mem_unique hc hq
    simp

/-- The region lies below the first entry of the root. -/
def InSlot0 (base size : Nat) : Prop := ∀ i < pagesOf size, vpn (base + i * pageSize) < 512 ^ 3

lemma wp_mapZeroPages {base size : Nat} {ap : BitVec 64} (hr : root ∈ g.own) (ha : ap.toNat < 4) (hs : InSlot0 base size) :
    (mapZeroPages root base size ap).wp handRules (Zeroed g) g := by
  refine wp_assert fun _ => ?_
  refine wp_forEach_range (I := fun _ g' => g.Even g') (fun i hi g₁ h₁ => ?_) (fun _ h => h) (Even.refl g)
  refine wp_mono (fun r g₂ h₂ => ⟨?_, ?_⟩) (wp_mapZeroPage (h₁.own ▸ hr) ha (hs i hi))
  · rintro rfl
    exact h₁.trans h₂
  · rintro ⟨e, p⟩ rfl
    match p, h₂ with
    | none, h₂ => exact h₁.trans h₂
    | some p, h₂ => exact ⟨h₁.toSame.trans h₂.1, fun q => by rw [h₂.2 q, h₁.pages]⟩

end ZeroOS.Memory
