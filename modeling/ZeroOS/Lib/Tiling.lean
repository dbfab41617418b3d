import Mathlib

/-!
# Tilings of an interval

`Tiles start size lo l hi` says that the pieces of `l`, one after the other and with nothing between
them, cover the numbers from `lo` up to `hi`. What is done to a tiling is done to some consecutive
pieces of it: they are replaced by others that cover the same.
-/

namespace Tiling

open List

variable {β : Type} (start size : β → Nat)

/-- The pieces `l` cover the numbers from `lo` up to `hi`. -/
def Tiles : Nat → List β → Nat → Prop
  | lo, [], hi => lo = hi
  | lo, b :: l, hi => start b = lo ∧ Tiles (lo + size b) l hi

variable {start size}

lemma tiles_append :
    Tiles start size lo (l₁ ++ l₂) hi ↔ ∃ mid, Tiles start size lo l₁ mid ∧ Tiles start size mid l₂ hi := by
  induction l₁ generalizing lo with
  | nil => simp [Tiles]
  | cons b l₁ ih =>
    simp only [cons_append, Tiles, ih]
    constructor
    · rintro ⟨hb, mid, h₁, h₂⟩
      exact ⟨mid, ⟨hb, h₁⟩, h₂⟩
    · rintro ⟨mid, ⟨hb, h₁⟩, h₂⟩
      exact ⟨hb, mid, h₁, h₂⟩

lemma tiles_nil : Tiles start size lo [] hi ↔ lo = hi := Iff.rfl

lemma tiles_cons : Tiles start size lo (b :: l) hi ↔ start b = lo ∧ Tiles start size (lo + size b) l hi := Iff.rfl

lemma Tiles.le (h : Tiles start size lo l hi) : lo ≤ hi := by
  induction l generalizing lo with
  | nil => exact Eq.le h
  | cons b l ih => exact (Nat.le_add_right ..).trans (ih h.2)

lemma Tiles.bounds (h : Tiles start size lo l hi) (hb : b ∈ l) :
    lo ≤ start b ∧ start b + size b ≤ hi := by
  induction l generalizing lo with
  | nil => cases hb
  | cons c l ih =>
    obtain ⟨hc, hl⟩ := h
    rcases mem_cons.mp hb with rfl | hb
    · exact ⟨hc.ge, hc ▸ hl.le⟩
    · obtain ⟨ho, hh⟩ := ih hl hb
      exact ⟨(Nat.le_add_right ..).trans ho, hh⟩

/-- What comes before a piece ends where it starts, and what comes after starts where it ends. -/
lemma Tiles.split (h : Tiles start size lo (l₁ ++ b :: l₂) hi) :
    Tiles start size lo l₁ (start b) ∧ Tiles start size (start b + size b) l₂ hi := by
  obtain ⟨mid, h₁, hb, h₂⟩ := tiles_append.mp h
  subst hb
  exact ⟨h₁, h₂⟩

lemma Tiles.ends (h : Tiles start size lo l hi) (h' : Tiles start size lo' l hi') (hne : l ≠ []) : lo = lo' ∧ hi = hi' := by
  induction l generalizing lo lo' with
  | nil => exact absurd rfl hne
  | cons b l ih =>
    obtain ⟨rfl, h⟩ := h
    obtain ⟨rfl, h'⟩ := h'
    cases l with
    | nil => exact ⟨rfl, h.symm.trans h'⟩
    | cons c l => exact ⟨rfl, (ih h h' (cons_ne_nil c l)).2⟩

/-- Some pieces are replaced by others that cover the same. -/
lemma Tiles.replace (h : Tiles start size lo (l₁ ++ (m ++ l₂)) hi)
    (hm : Tiles start size i m j) (hne : m ≠ []) (hm' : Tiles start size i m' j) :
    Tiles start size lo (l₁ ++ (m' ++ l₂)) hi := by
  obtain ⟨a, h₁, hr⟩ := tiles_append.mp h
  obtain ⟨c, hd, h₂⟩ := tiles_append.mp hr
  obtain ⟨rfl, rfl⟩ := hd.ends hm hne
  exact tiles_append.mpr ⟨_, h₁, tiles_append.mpr ⟨_, hm', h₂⟩⟩

lemma Tiles.outside (h : Tiles start size lo (l₁ ++ (m ++ l₂)) hi)
    (hm : Tiles start size i m j) (hne : m ≠ []) (hb : b ∈ l₁ ++ l₂) :
    start b + size b ≤ i ∨ j ≤ start b := by
  obtain ⟨a, h₁, hr⟩ := tiles_append.mp h
  obtain ⟨c, hd, h₂⟩ := tiles_append.mp hr
  obtain ⟨rfl, rfl⟩ := hd.ends hm hne
  rcases mem_append.mp hb with hb | hb
  · exact .inl (h₁.bounds hb).2
  · exact .inr (h₂.bounds hb).1

lemma Tiles.pairwise (h : Tiles start size lo l hi) :
    l.Pairwise fun b c => start b + size b ≤ start c := by
  induction l generalizing lo with
  | nil => exact .nil
  | cons b l ih =>
    refine pairwise_cons.mpr ⟨fun c hc => ?_, ih h.2⟩
    rw [h.1]
    exact (h.2.bounds hc).1

lemma Tiles.disjoint (h : Tiles start size lo l hi) (hb : b ∈ l) (hc : c ∈ l) (hne : b ≠ c) :
    start b + size b ≤ start c ∨ start c + size c ≤ start b := by
  induction l generalizing lo with
  | nil => cases hb
  | cons d l ih =>
    obtain ⟨hd, hl⟩ := pairwise_cons.mp h.pairwise
    rcases mem_cons.mp hb with rfl | hb' <;> rcases mem_cons.mp hc with rfl | hc'
    · exact absurd rfl hne
    · exact .inl (hd c hc')
    · exact .inr (hd b hb')
    · exact ih h.2 hb' hc'

lemma Tiles.nodup (hp : ∀ b ∈ l, 0 < size b) (h : Tiles start size lo l hi) : (l.map start).Nodup := by
  induction l generalizing lo with
  | nil => exact .nil
  | cons b l ih =>
    have hb := hp b mem_cons_self
    refine nodup_cons.mpr ⟨fun hm => ?_, ih (fun c hc => hp c (.tail _ hc)) h.2⟩
    obtain ⟨c, hc, heq⟩ := mem_map.mp hm
    have hl := (h.2.bounds hc).1
    have hg := h.1
    omega

lemma Tiles.length_mul_le (h : Tiles start size lo l hi) (hk : ∀ b ∈ l, k ≤ size b) :
    lo + l.length * k ≤ hi := by
  induction l generalizing lo with
  | nil => simpa using h.le
  | cons b l ih =>
    have hl := ih h.2 fun c hc => hk c (mem_cons_of_mem _ hc)
    have hb := hk b mem_cons_self
    rw [length_cons, Nat.succ_mul]
    omega

lemma Tiles.exists_mul (h : Tiles start size lo l hi) (hk : ∀ b ∈ l, k ∣ size b) : ∃ c, hi = lo + k * c := by
  induction l generalizing lo with
  | nil => exact ⟨0, h.symm⟩
  | cons b l ih =>
    obtain ⟨c, hc⟩ := ih h.2 fun d hd => hk d (mem_cons_of_mem _ hd)
    obtain ⟨d, hd⟩ := hk b mem_cons_self
    exact ⟨d + c, by rw [hc, hd, Nat.mul_add, Nat.add_assoc]⟩

end Tiling
