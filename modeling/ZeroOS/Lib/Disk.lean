import ZeroOS.Lib.Wire

/-!
# Disks

A disk is a map from block numbers to blocks, and it changes by one block at a time. What a program
does to a disk is the list of its writes; a crash leaves some first part of them.

Data that is longer than a block is cut into pieces, the last one is filled up with zeros, and each
piece goes to a block of its own. Reading these blocks again, and no more bytes than were written,
gives the data back.
-/

namespace Disk

open Function List Wire

variable {β : Type}

/-- Some writes, one after the other. -/
def apply (d : Nat → β) : List (Nat × β) → Nat → β
  | [] => d
  | w :: ws => apply (update d w.1 w.2) ws

variable {d d' : Nat → β} {ws ws' : List (Nat × β)}

@[simp] lemma apply_nil : apply d [] = d := rfl

lemma apply_append : apply d (ws ++ ws') = apply (apply d ws) ws' := by
  induction ws generalizing d with
  | nil => rfl
  | cons w ws ih => exact ih

lemma apply_of_notMem (h : a ∉ ws.map Prod.fst) : apply d ws a = d a := by
  induction ws generalizing d with
  | nil => rfl
  | cons w ws ih =>
    simp only [map_cons, mem_cons, not_or] at h
    rw [apply, ih h.2, update_of_ne h.1]

lemma apply_of_idle (h : ∀ w ∈ ws, d w.1 = w.2) : apply d ws = d := by
  induction ws with
  | nil => rfl
  | cons w ws ih =>
    have hs : update d w.1 w.2 = d := by rw [← h w mem_cons_self, update_eq_self]
    rw [apply, hs]
    exact ih fun w' hw' => h w' (mem_cons_of_mem _ hw')

/-- If all writes but one are of what is there already, a crash leaves the disk from before or the one from
after all of them. -/
lemma apply_take_of_idle (hd : (ws.map Prod.fst).Nodup) {k : Nat}
    (h : ∀ j w, j ≠ k → ws[j]? = some w → d w.1 = w.2) (n : Nat) :
    apply d (ws.take n) = d ∨ apply d (ws.take n) = apply d ws := by
  by_cases hn : n ≤ k
  · refine .inl (apply_of_idle fun w hw => ?_)
    obtain ⟨j, hj, hg⟩ := mem_take_iff_getElem.mp hw
    refine h j w (by omega) ?_
    rw [getElem?_eq_getElem (by omega), hg]
  · refine .inr ?_
    have hs : apply d ws = apply (apply d (ws.take n)) (ws.drop n) := by rw [← apply_append, take_append_drop]
    rw [hs]
    refine (apply_of_idle fun w hw => ?_).symm
    obtain ⟨j, hj, hg⟩ := getElem_of_mem hw
    rw [getElem_drop] at hg
    have he : d w.1 = w.2 := h (n + j) w (by omega) (by rw [← hg, getElem?_eq_getElem])
    rw [← he]
    refine apply_of_notMem fun hm => ?_
    -- the writes go to different blocks
    rw [← take_append_drop n ws, map_append, nodup_append'] at hd
    exact hd.2.2 hm (mem_map_of_mem hw)

/-! ## Data on blocks -/

/-- A block with the data at its start. -/
def pad (size : Nat) (data : Bytes) : Bytes := data ++ List.replicate (size - data.length) 0

/-- How many blocks the data takes. -/
def blocksNeeded (size len : Nat) : Nat := if len = 0 then 0 else (len + size - 1) / size

lemma length_le_blocksNeeded (hs : 0 < size) (len : Nat) :
    len ≤ blocksNeeded size len * size := by
  unfold blocksNeeded
  split
  next h => omega
  next h =>
    have hdiv := Nat.div_add_mod (len + size - 1) size
    have hmod := Nat.mod_lt (len + size - 1) hs
    rw [Nat.mul_comm] at hdiv
    omega

lemma blocksNeeded_le (hs : 0 < size) (h : len ≤ n * size) :
    blocksNeeded size len ≤ n := by
  unfold blocksNeeded
  split
  · omega
  next hne =>
    rw [← Nat.lt_succ_iff, Nat.div_lt_iff_lt_mul hs, Nat.succ_mul]
    omega

/-- The data in pieces of one block. -/
def cut (size : Nat) : Nat → Bytes → List Bytes
  | 0, _ => []
  | n + 1, data => data.take size :: cut size n (data.drop size)

def writes (size : Nat) (blocks : List Nat) (data : Bytes) : List (Nat × Bytes) :=
  blocks.zip ((cut size blocks.length data).map (pad size))

/-- The first `len` bytes on some blocks. -/
def read (size : Nat) (d : Nat → Bytes) : List Nat → Nat → Bytes
  | [], _ => []
  | a :: as, len => (d a).take (min len size) ++ read size d as (len - size)

variable {size len : Nat} {disk disk' : Nat → Bytes} {blocks blocks' : List Nat} {data : Bytes}

@[simp] lemma length_cut (n : Nat) : (cut size n data).length = n := by
  induction n generalizing data with
  | zero => rfl
  | succ n ih => simp [cut, ih]

@[simp] lemma map_fst_writes : (writes size blocks data).map Prod.fst = blocks := by
  unfold writes
  rw [map_fst_zip]
  simp

@[simp] lemma length_writes : (writes size blocks data).length = blocks.length := by
  simp [writes]

lemma read_congr (h : ∀ a ∈ blocks, disk' a = disk a) :
    read size disk' blocks len = read size disk blocks len := by
  induction blocks generalizing len with
  | nil => rfl
  | cons a as ih => rw [read, read, h a mem_cons_self, ih fun b hb => h b (mem_cons_of_mem _ hb)]

@[simp] lemma read_zero : read size disk blocks 0 = [] := by
  induction blocks with
  | nil => rfl
  | cons a as ih => simp [read, ih]

lemma read_append (h : len ≤ blocks.length * size) :
    read size disk (blocks ++ blocks') len = read size disk blocks len := by
  induction blocks generalizing len with
  | nil =>
    have : len = 0 := by simpa using h
    simp [this, read]
  | cons a as ih =>
    rw [cons_append, read, read, ih]
    rw [length_cons, Nat.succ_mul] at h
    omega

lemma length_read_le : (read size disk blocks len).length ≤ len := by
  induction blocks generalizing len with
  | nil => exact Nat.zero_le _
  | cons a as ih =>
    have hr : (read size disk as (len - size)).length ≤ len - size := ih
    rw [read, length_append, length_take]
    omega

/-- A piece of what is read, if nothing is missing, is a piece of one block. -/
lemma read_piece (h : (read size disk blocks len).length = len) (hn : n ≤ size) (hp : 0 < n) (hi : i * size + n ≤ len) :
    ∃ b, blocks[i]? = some b ∧ (disk b).take n = ((read size disk blocks len).drop (i * size)).take n := by
  induction blocks generalizing i len with
  | nil =>
    rw [read, length_nil] at h
    omega
  | cons a as ih =>
    have hr : (read size disk as (len - size)).length ≤ len - size := length_read_le
    have hx := length_take_le (min len size) (disk a)
    rw [read, length_append] at h
    rw [read]
    cases i with
    | zero =>
      refine ⟨a, rfl, ?_⟩
      rw [Nat.zero_mul, drop_zero, take_append_of_le_length (by omega), take_take]
      congr 1
      omega
    | succ i =>
      rw [Nat.succ_mul] at hi ⊢
      have hl : (read size disk as (len - size)).length = len - size := by omega
      obtain ⟨b, hb, ht⟩ := @ih (len - size) i hl (by omega)
      refine ⟨b, hb, ?_⟩
      rw [ht, show i * size + size = ((disk a).take (min len size)).length + i * size by omega, drop_length_add_append]

lemma drop_take_append {l : List α} (hp : p ≤ q) (hl : p ≤ l.length) :
    (l.take p).drop o ++ ((l.drop p).take (q - p)).drop (o - p) = (l.take q).drop o := by
  have h : l.take q = l.take p ++ (l.drop p).take (q - p) := by
    rw [← take_add]
    congr 1
    omega
  rw [h, drop_append, length_take, min_eq_left hl]

lemma writes_cons (a : Nat) : writes size (a :: blocks) data =
    (a, pad size (data.take size)) :: writes size blocks (data.drop size) := by
  simp [writes, cut]

lemma take_writes (n : Nat) : (writes size blocks data).take n = writes size (blocks.take n) (data.take (n * size)) := by
  induction blocks generalizing n data with
  | nil => simp [writes]
  | cons a as ih =>
    cases n with
    | zero => simp [writes]
    | succ n =>
      rw [writes_cons, take_succ_cons, take_succ_cons, writes_cons, ih, take_take, drop_take,
        Nat.succ_mul, Nat.add_sub_cancel, min_eq_left (Nat.le_add_left _ _)]

lemma length_of_mem_writes (h : w ∈ writes size blocks data) : w.2.length = size := by
  induction blocks generalizing data with
  | nil => simp [writes] at h
  | cons a as ih =>
    rw [writes_cons] at h
    rcases mem_cons.mp h with rfl | h
    · simp only [pad, length_append, length_take, length_replicate]
      omega
    · exact ih h

lemma length_apply {ws : List (Nat × Bytes)} (hd : ∀ a, (disk a).length = size)
    (h : ∀ w ∈ ws, w.2.length = size) (a : Nat) : (apply disk ws a).length = size := by
  induction ws generalizing disk with
  | nil => exact hd a
  | cons w ws ih =>
    refine ih (fun b => ?_) fun w' hw' => h w' (mem_cons_of_mem _ hw')
    by_cases hb : b = w.1
    · rw [hb, update_self]
      exact h w mem_cons_self
    · rw [update_of_ne hb]
      exact hd b

lemma take_pad (h : n ≤ data.length) : (pad size data).take n = data.take n := by
  unfold pad
  rw [take_append_of_le_length h]

/-- Round trip. What was written to blocks of their own is read again. -/
lemma read_apply_writes (hn : blocks.Nodup) (hl : data.length ≤ blocks.length * size) :
    read size (apply disk (writes size blocks data)) blocks data.length = data := by
  induction blocks generalizing disk data with
  | nil =>
    have : data = [] := by simpa using hl
    simp [this, read]
  | cons a as ih =>
    obtain ⟨ha, hn⟩ := nodup_cons.mp hn
    have hd : (data.drop size).length ≤ as.length * size := by
      rw [length_cons, Nat.succ_mul] at hl
      rw [length_drop]
      omega
    have hr := @ih (update disk a (pad size (data.take size))) (data.drop size) hn hd
    have hf : apply (update disk a (pad size (data.take size))) (writes size as (data.drop size)) a =
        pad size (data.take size) := by
      rw [apply_of_notMem (by simpa using ha), update_self]
    rw [writes_cons, apply, read, hf, take_pad (by simp)]
    rw [length_drop] at hr
    rw [hr, take_take, take_eq_take_iff.mpr (by omega : min _ _ = min size data.length)]
    exact take_append_drop size data

/-- What is on the blocks after the data was written: the data, and zeros up to the end of the last block. -/
lemma flatMap_apply_writes (hn : blocks.Nodup) (hl : data.length ≤ blocks.length * size) :
    blocks.flatMap (apply disk (writes size blocks data)) = data ++ List.replicate (blocks.length * size - data.length) 0 := by
  induction blocks generalizing disk data with
  | nil =>
    have hnl : data = [] := by simpa using hl
    simp [hnl]
  | cons a as ih =>
    obtain ⟨ha, hn⟩ := nodup_cons.mp hn
    rw [length_cons, Nat.succ_mul] at hl
    have hd : (data.drop size).length ≤ as.length * size := by
      rw [length_drop]
      omega
    have hs : apply (update disk a (pad size (data.take size))) (writes size as (data.drop size)) a =
        pad size (data.take size) := by
      rw [apply_of_notMem (by simpa using ha), update_self]
    rw [writes_cons, apply, flatMap_cons, hs, ih hn hd, length_cons, Nat.succ_mul, pad]
    by_cases hf : size ≤ data.length
    · rw [length_take, min_eq_left hf, Nat.sub_self, replicate_zero, append_nil, ← append_assoc, take_append_drop, length_drop]
      congr 2
      omega
    · rw [take_of_length_le (by omega), drop_eq_nil_of_le (by omega), nil_append,
        length_nil, append_assoc, replicate_append_replicate]
      congr 2
      omega

end Disk
