import ZeroOS.Ipc.Channel

/-!
# The order of wake-ups

A waiter takes the first free slot of its channel, and a broadcast wakes the first slot that is
taken. As long as no waiter sits behind a free slot this is the order of registration. A waiter that
is installed in front of others overtakes them.
-/

namespace ZeroOS.Ipc

open List Transition

/-! ## The slots as a queue -/

def waiting (ws : List (Option Nat)) : List Nat := ws.filterMap id

/-- No waiter sits behind the first free slot. -/
def packed (ws : List (Option Nat)) : Bool := (ws.dropWhile (·.isSome)).all (·.isNone)

lemma mem_waiting : q ∈ waiting ws ↔ some q ∈ ws := by simp [waiting]

lemma waiting_set_none (h : ws.findIdx? (· == some q) = some i) :
    waiting (ws.set i none) = (waiting ws).erase q := by
  induction ws generalizing i with
  | nil => cases h
  | cons w ws ih =>
    rw [findIdx?_cons] at h
    split at h
    next hw =>
      cases h
      simp [waiting, beq_iff_eq.mp hw]
    next hw =>
      obtain ⟨j, hj, rfl⟩ := Option.map_eq_some_iff.mp h
      cases w with
      | none => simpa [waiting] using ih hj
      | some x =>
        have hne : x ≠ q := by simpa using hw
        simpa [waiting, erase_cons, hne] using ih hj

lemma waiting_wake (h : ws.findIdx? (·.isSome) = some i) :
    ∃ p, ws[i]? = some (some p) ∧ waiting ws = p :: waiting (ws.set i none) := by
  induction ws generalizing i with
  | nil => cases h
  | cons w ws ih =>
    cases w with
    | none =>
      obtain ⟨j, hj, rfl⟩ : ∃ j, ws.findIdx? (·.isSome) = some j ∧ j + 1 = i := by simpa [findIdx?_cons] using h
      obtain ⟨p, hp, hw⟩ := ih hj
      exact ⟨p, by simpa using hp, by simpa [waiting] using hw⟩
    | some x =>
      obtain rfl : 0 = i := by simpa [findIdx?_cons] using h
      exact ⟨x, rfl, by simp [waiting]⟩

lemma waiting_set_some (h : ws.findIdx? (·.isNone) = some i) (hp : packed ws = true) :
    waiting (ws.set i (some p)) = waiting ws ++ [p] := by
  induction ws generalizing i with
  | nil => cases h
  | cons w ws ih =>
    cases w with
    | none =>
      obtain rfl : 0 = i := by simpa [findIdx?_cons] using h
      have he : waiting ws = [] := by simpa [packed, waiting] using hp
      change p :: waiting ws = waiting ws ++ [p]
      rw [he]
      rfl
    | some x =>
      obtain ⟨j, hj, rfl⟩ : ∃ j, ws.findIdx? (·.isNone) = some j ∧ j + 1 = i := by simpa [findIdx?_cons] using h
      simpa [waiting] using ih hj (by simpa [packed] using hp)

/-! ## Runs of one channel -/

/-- What happens to the slots: a process registers, or a send looks for somebody to wake. -/
inductive SlotEvent
  | register (caller : Nat) (r : Except IpcError Unit)
  | wake (target woken : Option Nat)

/-- `register_waiter` and `receive_or_register_waiter` install their caller, and `send` wakes. -/
def SlotStep (ws : List (Option Nat)) : SlotEvent → List (Option Nat) → Prop
  | .register caller r, ws' => installWaiter caller ws = (r, ws')
  | .wake target woken, ws' => popWaiterFor target ws = (woken, ws')

/-- Who waits after an event, with the latest registration at the end. -/
def SlotEvent.enqueue (l : List Nat) : SlotEvent → List Nat
  | .register caller (.ok ()) => if caller ∈ l then l else l ++ [caller]
  | .wake _ (some p) => l.erase p
  | _ => l

/-- Who has registered and was not woken since, in the order of registration. -/
def registered (es : List SlotEvent) : List Nat := es.foldl SlotEvent.enqueue []

/-- Nobody is installed in front of a waiter. -/
def linesUp (ws : List (Option Nat)) : SlotEvent → Bool
  | .register caller (.ok ()) => ws.contains (some caller) || packed ws
  | _ => true

lemma waiting_popWaiterFor (h : popWaiterFor target ws = (woken, ws')) :
    waiting ws' = (SlotEvent.wake target woken).enqueue (waiting ws) ∧
      ∀ p, target = none → woken = some p → (waiting ws).head? = some p := by
  unfold popWaiterFor at h
  split at h
  next t =>
    split at h
    next i hi =>
      cases h
      exact ⟨waiting_set_none hi, nofun⟩
    · cases h
      exact ⟨rfl, nofun⟩
  · split at h
    next i hi =>
      cases h
      obtain ⟨q, hq, hw⟩ := waiting_wake hi
      simp [SlotEvent.enqueue, hq, hw]
    · cases h
      exact ⟨rfl, nofun⟩

lemma waiting_installWaiter (h : installWaiter q ws = (r, ws')) (hl : linesUp ws (.register q r) = true) :
    waiting ws' = (SlotEvent.register q r).enqueue (waiting ws) := by
  unfold installWaiter at h
  split at h
  next ha =>
    cases h
    exact (if_pos (mem_waiting.mpr (by simpa using ha))).symm
  next ha =>
    have hn : some q ∉ ws := by simpa using ha
    split at h
    next i hi =>
      cases h
      rw [waiting_set_some hi (by simpa [linesUp, hn] using hl)]
      exact (if_neg (mem_waiting.not.mpr hn)).symm
    · cases h
      rfl

/-- Runs from an empty channel in which nobody overtakes. -/
abbrev LinedUpRun : List SlotEvent → List (Option Nat) → Prop :=
  Run (Guarded (fun ws e => linesUp ws e = true) SlotStep) (replicate waitersPerChannel none)

/-- The slots keep the order of registration. -/
lemma LinedUpRun.waiting_eq (h : LinedUpRun es ws) : waiting ws = registered es := by
  induction h with
  | nil => rfl
  | @snoc es _ _ e _ hs ih =>
    rw [registered, foldl_append, ← registered, ← ih]
    obtain ⟨hl, hs⟩ := hs
    cases e with
    | register caller r => exact waiting_installWaiter hs hl
    | wake target woken => exact (waiting_popWaiterFor hs).1

/-- A broadcast wakes the waiter that registered first of those that are still registered. -/
theorem broadcast_wakes_first {es : List SlotEvent} (hrun : LinedUpRun es ws)
    (hsend : SlotStep ws (.wake none (some p)) ws') : (registered es).head? = some p :=
  hrun.waiting_eq ▸ (waiting_popWaiterFor hsend).2 p rfl rfl

theorem broadcast_wakes_first_of_two : ∃ ws ws', LinedUpRun [.register 7 (.ok ()), .register 8 (.ok ())] ws ∧
    SlotStep ws (.wake none (some 7)) ws' ∧
    (registered [.register 7 (.ok ()), .register 8 (.ok ())]).head? = some 7 := by
  have hrun : LinedUpRun [.register 7 (.ok ()), .register 8 (.ok ())] [some 7, some 8, none, none] :=
    .cons (t := [some 7, none, none, none]) ⟨rfl, rfl⟩ (.single ⟨rfl, rfl⟩)
  have hs : SlotStep [some 7, some 8, none, none] (.wake none (some 7)) [none, some 8, none, none] := rfl
  exact ⟨_, _, hrun, hs, broadcast_wakes_first hrun hs⟩

theorem broadcast_wakes_latest : ∃ es ws ws', Run SlotStep (replicate waitersPerChannel none) es ws ∧
    SlotStep ws (.wake none (some 9)) ws' ∧ registered es = [8, 9] := by
  have hrun : Run SlotStep [none, none, none, none] [.register 7 (.ok ()), .register 8 (.ok ()),
      .wake none (some 7), .register 9 (.ok ())] [some 9, some 8, none, none] :=
    .cons (t := [some 7, none, none, none]) rfl (.cons (t := [some 7, some 8, none, none]) rfl
      (.cons (t := [none, some 8, none, none]) rfl (.single rfl)))
  exact ⟨_, _, [none, some 8, none, none], hrun, rfl, by decide⟩

end ZeroOS.Ipc
