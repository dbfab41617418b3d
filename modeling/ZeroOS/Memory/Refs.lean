import ZeroOS.Memory.Phys
import ZeroOS.Memory.TableWalk

/-!
# Reference counts by address

The paging code knows pages by their address. Here the allocator is seen that way: one call changes
the count of one address, and an address that had references and has none left is free. Nothing that
follows looks at the bitmap.

An address is *idle* if it has no references and still is not available: the pages that were marked
busy at boot, and whatever is no page at all. No call makes an address idle.
-/

namespace ZeroOS.Memory

open Function

namespace PhysBitmap

variable {b b' b'' : PhysBitmap} {a q : Nat}

/-- Neither available nor referenced. -/
def Idle (b : PhysBitmap) (a : Nat) : Prop := b.pageIsFree a = false ∧ b.refCount a = 0

/-- Every page is inside the address field of a descriptor. -/
structure Framed (b : PhysBitmap) : Prop where
  aligned : b.base % pageSize = 0
  fits : b.base + b.total * pageSize ≤ 2 ^ 48

/-- Only the count of `a` changes. -/
structure Counted (b b' : PhysBitmap) (a n : Nat) : Prop where
  wf : b'.WellFormed
  base : b'.base = b.base
  total : b'.total = b.total
  refs : b'.refCount = update b.refCount a n
  idle : ∀ {q}, b'.Idle q → b.Idle q

lemma Framed.isFrame (h : b.Framed) (hp : p < b.total) : IsFrame (b.addrOf p) := by
  have hf := h.fits
  have ha := h.aligned
  have hle : (p + 1) * pageSize ≤ b.total * pageSize := Nat.mul_le_mul_right _ hp
  simp only [pageSize] at hf ha hle
  constructor <;> simp only [addrOf, pageSize] <;> omega

lemma Counted.framed (h : Counted b b' a n) (hb : b.Framed) : b'.Framed :=
  ⟨h.base ▸ hb.aligned, by rw [h.base, h.total]; exact hb.fits⟩

lemma exists_page_of_refCount (h : b.refCount a ≠ 0) : ∃ p < b.total, a = b.addrOf p := by
  simp only [refCount] at h
  split at h
  · exact absurd rfl h
  split at h
  · exact absurd rfl h
  split at h
  · exact absurd rfl h
  next hb ha hlt =>
    refine ⟨(a - b.base) / pageSize, by omega, ?_⟩
    simp only [pageSize, addrOf] at ha ⊢
    omega

lemma Framed.isFrame_of_refCount (h : b.Framed) (ha : b.refCount a ≠ 0) : IsFrame a := by
  obtain ⟨p, hp, rfl⟩ := exists_page_of_refCount ha
  exact h.isFrame hp

lemma refCount_of_refs {p n : Nat} (hb : b'.base = b.base) (ht : b'.total = b.total)
    (hp : p < b.total) (hr : ∀ q, b'.refs q = if q = p then n else b.refs q) :
    b'.refCount = update b.refCount (b.addrOf p) n := by
  funext q
  by_cases hq : q = b.addrOf p
  · subst hq
    have ha : b.addrOf p = b'.addrOf p := by simp [addrOf, hb]
    rw [update_self, ha, refCount_addrOf (ht ▸ hp), hr, if_pos rfl]
  · rw [update_of_ne hq]
    simp only [refCount, hb, ht, hr]
    split
    · rfl
    split
    · rfl
    split
    · rfl
    next hl hn hlt =>
      rw [if_neg]
      rintro rfl
      apply hq
      simp only [pageSize, addrOf] at hn ⊢
      omega

lemma WellFormed.refCount_of_pageIsFree (hb : b.WellFormed) (h : b.pageIsFree a = true) :
    b.refCount a = 0 := by
  by_contra hne
  obtain ⟨p, hp, rfl⟩ := exists_page_of_refCount hne
  rw [refCount_addrOf hp] at hne
  exact hne (hb.clear_refs (pageIsFree_addrOf.mp h))

lemma pageIsFree_iff : b.pageIsFree a = true ↔ ∃ p ∈ b.clearPages, a = b.addrOf p := by
  constructor
  · intro h
    simp only [pageIsFree] at h
    split at h
    · cases h
    split at h
    · cases h
    next hl ha =>
      refine ⟨(a - b.base) / pageSize, mem_clearPages.mpr (by simpa using h), ?_⟩
      simp only [pageSize, addrOf] at ha ⊢
      omega
  · rintro ⟨p, hp, rfl⟩
    exact pageIsFree_addrOf.mpr hp

lemma idle_of_clear (hba : b'.base = b.base) (hr : b'.refCount = update b.refCount a n)
    (hc : ∀ q ∈ b.clearPages, q ∉ b'.clearPages → b.addrOf q = a ∧ n ≠ 0)
    (ha : n = 0 → b'.pageIsFree a = true) (h : b'.Idle q) : b.Idle q := by
  have hd (p : Nat) : b'.addrOf p = b.addrOf p := by simp [addrOf, hba]
  obtain ⟨hb, hz⟩ := h
  rw [hr] at hz
  by_cases hq : q = a
  · subst hq
    rw [update_self] at hz
    rw [ha hz] at hb
    cases hb
  · rw [update_of_ne hq] at hz
    refine ⟨?_, hz⟩
    rw [Bool.eq_false_iff] at hb ⊢
    intro hf
    obtain ⟨p, hp, rfl⟩ := pageIsFree_iff.mp hf
    by_cases hp' : p ∈ b'.clearPages
    · exact hb (pageIsFree_iff.mpr ⟨p, hp', (hd p).symm⟩)
    · exact hq (hc p hp hp').1

lemma Took.counted (h : Took b b' {p}) (hb : b.WellFormed) (hp : p ∈ b.clearPages) :
    Counted b b' (b.addrOf p) 1 := by
  have hr := refCount_of_refs h.base h.total (mem_clearPages.mp hp).1 (by simpa using h.refs)
  refine ⟨h.wellFormed hb (by simpa using hp), h.base, h.total, hr, fun he =>
    idle_of_clear h.base hr (fun q hq hq' => ?_) (fun h => by cases h) he⟩
  rw [h.clear, Finset.mem_sdiff, Finset.mem_singleton, not_and_not_right] at hq'
  exact ⟨by rw [hq' hq], by decide⟩

lemma Recounted.counted (h : Recounted b b' p n) (hb : b.WellFormed)
    (hg : b.reserved ≤ p) (hlt : p < b.total) (hp : p ∉ b.clearPages) :
    Counted b b' (b.addrOf p) n := by
  have hr := @refCount_of_refs b b' p n h.base h.total hlt
    (by simp [h.refs, update_apply])
  refine ⟨h.wellFormed hb hg hp, h.base, h.total, hr, fun he =>
    idle_of_clear h.base hr (fun q hq hq' => ?_) (fun hn => ?_) he⟩
  · rw [h.clear] at hq'
    split at hq'
    · exact absurd (Finset.mem_insert_of_mem hq) hq'
    · exact absurd hq hq'
  · refine pageIsFree_iff.mpr ⟨p, ?_, (h.addrOf p).symm⟩
    rw [h.clear, if_pos hn]
    exact Finset.mem_insert_self ..

lemma allocPage_cases (hb : b.WellFormed) (h : b.allocPage = .ok (x, b')) : (x = none ∧ b' = b) ∨
      ∃ p < b.total, x = some (b.addrOf p) ∧ b.pageIsFree (b.addrOf p) = true ∧ Counted b b' (b.addrOf p) 1 := by
  obtain ⟨-, hn⟩ | ⟨p, b₁, hp, hs, ht⟩ := allocPage_spec hb
  · rw [h] at hn
    cases hn
    exact .inl ⟨rfl, rfl⟩
  · rw [h] at hs
    cases hs
    exact .inr ⟨p, (mem_clearPages.mp hp).1, rfl, pageIsFree_iff.mpr ⟨p, hp, rfl⟩, ht.counted hb hp⟩

lemma freePage_counted (hb : b.WellFormed) (h : b.freePage a = .ok b') :
    b.base ≤ a ∧ 0 < b.refCount a ∧ Counted b b' a (b.refCount a - 1) := by
  obtain ⟨p, rfl, hg, hlt, hp, hs, hc⟩ := freePage_spec hb h
  rw [refCount_addrOf hlt]
  exact ⟨Nat.le_add_right .., hs, hc.counted hb hg hlt hp⟩

lemma retainPage_counted (hb : b.WellFormed) (h : b.retainPage a = .ok b') :
    Counted b b' a (b.refCount a + 1) := by
  obtain ⟨p, rfl, hg, hlt, hp, hc⟩ := retainPage_spec hb h
  rw [refCount_addrOf hlt]
  exact hc.counted hb hg hlt hp

end PhysBitmap

end ZeroOS.Memory
