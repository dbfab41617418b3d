import Mathlib

/-!
# The message queue of a channel

`MessageQueue` is a ring of `MAX_QUEUE` envelopes from which a receiver takes the first one it may
have, wherever it is. What is behind it moves up by one cell, so that the ring has no holes.
`toList` reads the ring from its head.
-/

namespace ZeroOS.Ipc

open Function List

variable {μ : Type}

def maxQueue : Nat := 16

inductive IpcError
  | notReady
  | channelBusy
  | invalid
  | empty
  | accessDenied
  | policyDenied
  deriving DecidableEq, Repr

/-- A message with its sender and the pid that may have it; `target = 0` is everybody. -/
structure Envelope (μ : Type) where
  sender : Nat
  target : Nat
  message : μ
  deriving DecidableEq

instance [Inhabited μ] : Inhabited (Envelope μ) := ⟨⟨0, 0, default⟩⟩

/-- May `caller` have the envelope? -/
def Envelope.eligible (caller : Nat) (e : Envelope μ) : Bool := e.target == 0 || (caller != 0 && e.target == caller)

lemma Envelope.eligible_iff {e : Envelope μ} :
    e.eligible caller = true ↔ e.target = 0 ∨ e.target = caller := by
  simp only [eligible, Bool.or_eq_true, beq_iff_eq, Bool.and_eq_true, bne_iff_ne]
  constructor
  · rintro (h | ⟨-, h⟩)
    · exact .inl h
    · exact .inr h
  · rintro (h | h)
    · exact .inl h
    · by_cases hz : caller = 0
      · exact .inl (h.trans hz)
      · exact .inr ⟨hz, h⟩

structure MessageQueue (μ : Type) where
  buf : Nat → Envelope μ
  head : Nat
  tail : Nat
  len : Nat

namespace MessageQueue

def new [Inhabited μ] : MessageQueue μ := ⟨fun _ => default, 0, 0, 0⟩

/-- `reset`: the envelopes stay in their cells. -/
def reset (q : MessageQueue μ) : MessageQueue μ := { q with head := 0, tail := 0, len := 0 }

def push (q : MessageQueue μ) (e : Envelope μ) (capacity : Nat) :
    Except IpcError Unit × MessageQueue μ :=
  if q.len = capacity then (.error .channelBusy, q)
  else (.ok (), { q with buf := update q.buf q.tail e, tail := (q.tail + 1) % maxQueue, len := q.len + 1 })

/-- One step of the compaction: cell `j` gets what is in the next one. -/
def moveUp (head : Nat) (buf : Nat → Envelope μ) (j : Nat) : Nat → Envelope μ :=
  update buf ((head + j) % maxQueue) (buf ((head + j + 1) % maxQueue))

def popFor (q : MessageQueue μ) (caller : Nat) : Except IpcError (Envelope μ) × MessageQueue μ :=
  if q.len = 0 then (.error .empty, q)
  else
    match (List.range q.len).find? fun off =>
        (q.buf ((q.head + off) % maxQueue)).eligible caller with
    | none => (.error .empty, q)
    | some off =>
      (.ok (q.buf ((q.head + off) % maxQueue)),
        { q with buf := (List.range' off (q.len - 1 - off)).foldl (moveUp q.head) q.buf
                 tail := (q.tail + maxQueue - 1) % maxQueue
                 len := q.len - 1 })

/-! ## The queue as a list -/

def toList (q : MessageQueue μ) : List (Envelope μ) := (List.range q.len).map fun i => q.buf ((q.head + i) % maxQueue)

/-- Head, tail and length agree. -/
structure Valid (q : MessageQueue μ) : Prop where
  head_lt : q.head < maxQueue
  len_le : q.len ≤ maxQueue
  tail_eq : q.tail = (q.head + q.len) % maxQueue

lemma length_toList (q : MessageQueue μ) : q.toList.length = q.len := by
  simp [toList]

lemma cell_inj (hi : i < maxQueue) (hj : j < maxQueue) (heq : (h + i) % maxQueue = (h + j) % maxQueue) : i = j := by
  simp only [maxQueue] at *
  omega

lemma Valid.reset (q : MessageQueue μ) : q.reset.Valid := ⟨Nat.zero_lt_succ 15, Nat.zero_le _, rfl⟩

lemma Valid.new [Inhabited μ] : (MessageQueue.new : MessageQueue μ).Valid := ⟨Nat.zero_lt_succ 15, Nat.zero_le _, rfl⟩

lemma push_spec {q q' : MessageQueue μ} {e : Envelope μ} {capacity : Nat}
    {r : Except IpcError Unit} (hq : q.Valid) (hc : capacity ≤ maxQueue)
    (hl : q.len ≤ capacity) (h : q.push e capacity = (r, q')) :
    (r = .error .channelBusy ∧ q' = q) ∨
    (r = .ok () ∧ q'.toList = q.toList ++ [e] ∧ q.len < capacity ∧ q'.Valid) := by
  unfold push at h
  split at h
  · exact .inl ⟨(Prod.mk.inj h).1.symm, (Prod.mk.inj h).2.symm⟩
  next hne =>
    cases h
    have hlt : q.len < maxQueue := by omega
    refine .inr ⟨rfl, ?_, by omega, hq.head_lt, by dsimp only; omega, ?_⟩
    · simp only [toList, range_succ, map_append, map_cons, map_nil, ← hq.tail_eq, update_self]
      congr 1
      refine map_congr_left fun i hi => update_of_ne (fun heq => ?_) ..
      rw [hq.tail_eq] at heq
      have hi := mem_range.mp hi
      exact absurd (cell_inj (by omega) hlt heq) (by omega)
    · dsimp only
      rw [hq.tail_eq, Nat.mod_add_mod, Nat.add_assoc]

lemma moveUp_fold {head : Nat} {n : Nat} : ∀ {off : Nat} {buf : Nat → Envelope μ} {i : Nat}, off + n < maxQueue → i < maxQueue →
    (List.range' off n).foldl (moveUp head) buf ((head + i) % maxQueue) =
      if off ≤ i ∧ i < off + n then buf ((head + i + 1) % maxQueue)
      else buf ((head + i) % maxQueue) := by
  induction n with
  | zero =>
    intro off buf i _ _
    rw [if_neg (by omega)]
    rfl
  | succ n ih =>
    intro off buf i ho hi
    rw [List.range'_succ, foldl_cons, ih (by omega) hi]
    by_cases hl : off + 1 ≤ i ∧ i < off + 1 + n
    · -- a later cell still has its neighbour's old value
      rw [if_pos hl, if_pos (by omega), moveUp, update_of_ne]
      intro heq
      rw [Nat.add_assoc] at heq
      exact absurd (cell_inj (by omega) (by omega) heq) (by omega)
    · rw [if_neg hl, moveUp]
      by_cases hf : i = off
      · subst hf
        rw [update_self, if_pos (by omega)]
      · rw [if_neg (by omega), update_of_ne]
        exact fun heq => hf (cell_inj hi (by omega) heq)

lemma getElem?_toList (q : MessageQueue μ) (i : Nat) :
    q.toList[i]? = if i < q.len then some (q.buf ((q.head + i) % maxQueue)) else none := by
  split
  next hi => simp [toList, hi]
  next hi => exact getElem?_eq_none (by rw [length_toList]; omega)

lemma popFor_spec {q q' : MessageQueue μ} {caller : Nat} {r : Except IpcError (Envelope μ)}
    (hq : q.Valid) (h : q.popFor caller = (r, q')) :
    (r = .error .empty ∧ q' = q ∧ q.toList.find? (Envelope.eligible caller) = none) ∨
    ∃ e, r = .ok e ∧ q.toList.find? (Envelope.eligible caller) = some e ∧
      q'.toList = q.toList.eraseP (Envelope.eligible caller) ∧ q'.Valid ∧ q'.len ≤ q.len := by
  have hf : q.toList.find? (Envelope.eligible caller) = ((List.range q.len).find? fun off =>
        (q.buf ((q.head + off) % maxQueue)).eligible caller).map
          fun off => q.buf ((q.head + off) % maxQueue) := by
    rw [toList, find?_map]
    rfl
  unfold popFor at h
  split at h
  next hz =>
    cases h
    exact .inl ⟨rfl, rfl, by simp [toList, hz]⟩
  split at h
  next hn =>
    cases h
    exact .inl ⟨rfl, rfl, by rw [hf, hn]; rfl⟩
  next off hs =>
    cases h
    have ho : off < q.len := mem_range.mp (mem_of_find?_eq_some hs)
    have hl := hq.len_le
    have hx : q.toList.findIdx? (Envelope.eligible caller) = some off := by
      rw [findIdx?_eq_some_iff_getElem]
      obtain ⟨he, -, hb⟩ := find?_range_eq_some.mp hs
      refine ⟨by rw [length_toList]; exact ho, by simpa [toList] using he, fun j hj => ?_⟩
      simpa [toList] using hb j hj
    refine .inr ⟨_, rfl, by rw [hf, hs]; rfl, ?_, ⟨hq.head_lt, by dsimp only; omega, ?_⟩, Nat.sub_le ..⟩
    · rw [eraseP_eq_eraseIdx, hx]
      refine ext_getElem? fun i => ?_
      rw [getElem?_toList, getElem?_eraseIdx, getElem?_toList, getElem?_toList]
      dsimp only
      by_cases hi : i < q.len - 1
      · rw [if_pos hi, moveUp_fold (by omega) (by omega)]
        by_cases hb : i < off
        · rw [if_neg (by omega), if_pos hb, if_pos (by omega)]
        · rw [if_pos (by omega), if_neg hb, if_pos (by omega), Nat.add_assoc]
      · rw [if_neg hi, if_neg (by omega), if_neg (by omega)]
    · dsimp only
      rw [hq.tail_eq]
      simp only [maxQueue] at *
      omega

end MessageQueue

end ZeroOS.Ipc
