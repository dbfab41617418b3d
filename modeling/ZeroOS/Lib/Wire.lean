import Mathlib

/-!
# Bytes

Numbers as little endian bytes, and readers that take what they need from the front of their input.
A reader is complete for a format if it gets back what was written and leaves the rest.
-/

namespace Wire

open List

abbrev Bytes := List UInt8

/-- The `width` low bytes of a number, the lowest first. -/
def le : Nat → Nat → Bytes
  | 0, _ => []
  | width + 1, n => UInt8.ofNat n :: le width (n / 256)

/-- The number some bytes stand for. -/
def ofLe : Bytes → Nat
  | [] => 0
  | b :: bs => b.toNat + 256 * ofLe bs

@[simp] lemma length_le (width n : Nat) : (le width n).length = width := by
  induction width generalizing n with
  | zero => rfl
  | succ width ih => simp [le, ih]

lemma ofLe_le (h : n < 256 ^ width) : ofLe (le width n) = n := by
  induction width generalizing n with
  | zero =>
    have : n = 0 := by simpa using h
    simp [le, ofLe, this]
  | succ width ih =>
    have hdiv : n / 256 < 256 ^ width := by
      rw [Nat.div_lt_iff_lt_mul (by decide), ← pow_succ]
      exact h
    have hb : (UInt8.ofNat n).toNat = n % 256 := by simp [UInt8.toNat_ofNat']
    rw [le, ofLe, ih hdiv, hb]
    exact Nat.mod_add_div n 256

/-! ## Readers -/

section

variable {ε α β : Type} {e : ε} {as : List α}

/-- A reader takes what it needs, or fails. -/
abbrev Reader (ε α : Type) := StateT Bytes (Except ε) α

/-- On an input that begins with `w` the reader `r` takes `w` and returns `a`. -/
def Reads (r : Reader ε α) (w : Bytes) (a : α) : Prop := ∀ rest, r (w ++ rest) = .ok (a, rest)

/-- On an input that begins with `w` the reader `r` fails with `e`. -/
def Fails (r : Reader ε α) (w : Bytes) (e : ε) : Prop := ∀ rest, r (w ++ rest) = .error e

lemma reads_pure (a : α) : Reads (pure a : Reader ε α) [] a := fun _ => rfl

variable {r : Reader ε α} {f : α → Reader ε β}

lemma bind_eq_ok (h : (r >>= f) input = .ok (b, rest)) : ∃ a mid, r input = .ok (a, mid) ∧ f a mid = .ok (b, rest) := by
  change (r input).bind _ = _ at h
  cases hr : r input with
  | error e => rw [hr] at h; cases h
  | ok p =>
    rw [hr] at h
    exact ⟨p.1, p.2, rfl, h⟩

variable {w : Bytes}

/-- Readers compose as their formats do. -/
lemma Reads.bind (h : Reads r w a) (h' : Reads (f a) w' b) :
    Reads (r >>= f) (w ++ w') b := by
  intro rest
  change (r (w ++ w' ++ rest)).bind _ = _
  rw [append_assoc, h]
  exact h' rest

lemma Reads.bind_fails (h : Reads r w a) (h' : Fails (f a) w' e) :
    Fails (r >>= f) (w ++ w') e := by
  intro rest
  change (r (w ++ w' ++ rest)).bind _ = _
  rw [append_assoc, h]
  exact h' rest

lemma Fails.bind (h : Fails r w e) (w' : Bytes) :
    Fails (r >>= f) (w ++ w') e := by
  intro rest
  change (r (w ++ w' ++ rest)).bind _ = _
  rw [append_assoc, h]
  rfl

/-- The next `n` bytes. -/
def take (e : ε) (n : Nat) : Reader ε Bytes := fun input =>
  if n ≤ input.length then .ok (input.take n, input.drop n) else .error e

lemma reads_take (h : w.length = n) : Reads (take e n) w w := by
  intro rest
  unfold take
  rw [if_pos (by simp [← h]), take_left' h, drop_left' h]

lemma take_eq_ok (h : take e n input = .ok (w, rest)) :
    w.length = n ∧ input = w ++ rest := by
  unfold take at h
  split at h
  next hle =>
    cases h
    exact ⟨length_take_of_le hle, (take_append_drop n input).symm⟩
  · cases h

def number (e : ε) (width : Nat) : Reader ε Nat := ofLe <$> take e width

lemma reads_number_le (width n : Nat) : Reads (number e width) (le width n) (ofLe (le width n)) := by
  intro rest
  have ht := reads_take (e := e) (length_le width n) rest
  change (Except.map _ (take e width (le width n ++ rest))) = _
  rw [ht]
  rfl

lemma reads_number (h : n < 256 ^ width) : Reads (number e width) (le width n) n := by
  have hr := reads_number_le (e := e) width n
  rwa [ofLe_le h] at hr

/-- Read `n` times. -/
def times (r : Reader ε α) : Nat → Reader ε (List α)
  | 0 => pure []
  | n + 1 => do
      let a ← r
      let as ← times r n
      return a :: as

variable {write : α → Bytes}

lemma reads_times (h : ∀ a ∈ as, Reads r (write a) a) : Reads (times r as.length) (as.flatMap write) as := by
  induction as with
  | nil => exact reads_pure []
  | cons a as ih =>
    have ht := ih fun b hb => h b (mem_cons_of_mem _ hb)
    have hl : Reads (do let bs ← times r as.length; return a :: bs) (as.flatMap write ++ []) (a :: as) := ht.bind (reads_pure _)
    rw [append_nil] at hl
    exact (h a mem_cons_self).bind hl

/-- What is written one after the other and can be read back is determined by its bytes, also without
a count, if nothing is written as no bytes. -/
lemma flatMap_inj (has : ∀ a ∈ as, Reads r (write a) a) (hs : ∀ b ∈ bs, Reads r (write b) b)
    (hne : ∀ a, write a ≠ []) (h : as.flatMap write = bs.flatMap write) : as = bs := by
  induction as generalizing bs with
  | nil =>
    cases bs with
    | nil => rfl
    | cons b bs => simp [hne b] at h
  | cons a as ih =>
    cases bs with
    | nil => simp [hne a] at h
    | cons b bs =>
      rw [flatMap_cons, flatMap_cons] at h
      -- both readings are of the same bytes
      have ha := has a mem_cons_self (as.flatMap write)
      have hb := hs b mem_cons_self (bs.flatMap write)
      rw [h, hb] at ha
      obtain ⟨rfl, hr⟩ := Prod.mk.inj (Except.ok.inj ha)
      rw [ih (fun c hc => has c (mem_cons_of_mem _ hc))
        (fun c hc => hs c (mem_cons_of_mem _ hc)) hr.symm]

/-- The first element that is not read makes the whole list fail. -/
lemma fails_times (h : ∀ a ∈ as, Reads r (write a) a ∨ Fails r (write a) e) (hd : ∃ a ∈ as, Fails r (write a) e) :
    Fails (times r as.length) (as.flatMap write) e := by
  induction as with
  | nil =>
    obtain ⟨a, ha, -⟩ := hd
    cases ha
  | cons a as ih =>
    by_cases hf : Fails r (write a) e
    · exact hf.bind _
    · have hr := (h a mem_cons_self).resolve_right hf
      obtain ⟨b, hb, hd⟩ := hd
      have ht := ih (fun c hc => h c (mem_cons_of_mem _ hc)) <| by
        rcases mem_cons.mp hb with rfl | hb
        · exact absurd hd hf
        · exact ⟨b, hb, hd⟩
      have hl := ht.bind (f := fun bs => pure (a :: bs)) []
      rw [append_nil] at hl
      exact hr.bind_fails hl

end

end Wire
