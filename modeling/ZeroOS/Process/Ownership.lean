import ZeroOS.Process.Table

/-!
# CPU ownership of a process

`PROCESS_OWNER` says which CPU executes on a slot's trap frame and kernel stack. Every transition
of a process between `Runnable`, `Running` and `Blocked` changes the record and the owner word in
one critical section of the table lock; the functions of this module are those critical sections.

An `assert!` of the kernel that fails is an `Except` error naming the assertion.
-/

namespace ZeroOS.Process

/-- The assertions and panics on the scheduling paths. -/
inductive Panic
  | /-- `claim_runnable`: a `Runnable` slot is still owned. -/
    claimOwned
  | /-- `release_running`: the releasing CPU is not the owner. -/
    releaseOwner
  | /-- `release_owner_for_exit`: no record at the slot. -/
    exitNoRecord
  | /-- `release_owner_for_exit`: the exiting process is not `Running`. -/
    exitNotRunning
  | /-- `release_owner_for_exit`: the exiting CPU is not the owner. -/
    exitOwner
  | /-- `request_wake`: a `Blocked` slot is still owned. -/
    wakeOwned
  | /-- `begin_block`: the blocking CPU is not the owner. -/
    beginOwner
  | /-- `finish_block`: the blocking CPU is not the owner. -/
    finishOwner
  | /-- `block_current`: the current process is not `Running`. -/
    blockNotRunning
  | /-- The block handoff got `BlockFinish::Invalid`. -/
    blockInvalid
  | /-- `detach_current`: the CPU's current slot is another one. -/
    detachMismatch
  | /-- `current_slot`: the CPU has no current slot. -/
    noCurrent
  | /-- `RunQueue::push`: the queue is full. -/
    runqueueFull
  | /-- `alloc_pid`: the pid does not fit 32 bits. -/
    pidSpace
  deriving DecidableEq, Repr

/-- `PROCESS_TABLE` and `PROCESS_OWNER`, both guarded by the table lock. -/
structure Procs where
  table : ProcessTable
  /-- The owning CPU of a slot; `none` is `PROCESS_OWNER_NONE`. -/
  owner : Nat → Option Nat

namespace ProcessRecord

/-- The record with its state set and the blocking handshake cleared. -/
@[simps state pid slot waitTarget]
def settle (r : ProcessRecord) (s : ProcessState) : ProcessRecord :=
  { r with state := s, blockIntent := false, wakePending := false }

end ProcessRecord

namespace Procs

/-- Change the record at a slot, leaving the owner words alone. -/
def modify (p : Procs) (slot : Nat) (f : ProcessRecord → ProcessRecord)
    (hf : ∀ r, (f r).slot = r.slot := by intro; rfl) : Procs :=
  { p with table := p.table.modify slot f hf }

def setOwner (p : Procs) (slot : Nat) (o : Option Nat) : Procs :=
  { p with owner := Function.update p.owner slot o }

/-- Settle the record at a slot into a state and store its owner word, in one critical section. -/
def settle (p : Procs) (slot : Nat) (s : ProcessState) (o : Option Nat) : Procs := (p.modify slot (·.settle s)).setOwner slot o

/-- Insert a record into a free slot, whose owner word is reset: `alloc_table_slot_locked` and the
assignment that follows it. -/
def insert (p : Procs) (mk : Nat → ProcessRecord) (hmk : ∀ i, (mk i).slot = i := by intro; rfl) : Option (Nat × Procs) :=
  (p.table.insert mk hmk).map fun (i, t) => (i, { table := t, owner := Function.update p.owner i none })

variable {p p' : Procs} {pid cpu slot : Nat} {r : ProcessRecord}

@[simp] lemma setOwner_table (o : Option Nat) : (p.setOwner slot o).table = p.table := rfl

lemma settle_get (s : ProcessState) (o : Option Nat) (i : Nat) : (p.settle slot s o).table.get i
      = if i = slot then (p.table.get i).map (·.settle s) else p.table.get i :=
  ProcessTable.get_modify _ _ _ (·.settle s) fun _ => rfl

lemma settle_owner (s : ProcessState) (o : Option Nat) (i : Nat) :
    (p.settle slot s o).owner i = if i = slot then o else p.owner i := by
  by_cases h : i = slot
  · subst h; simp [settle, setOwner]
  · simp [settle, setOwner, modify, h]

lemma modify_settle (h : p.owner slot = none) (s : ProcessState) :
    p.modify slot (·.settle s) = p.settle slot s none := by
  simp [settle, setOwner, modify, ← h]

/-! ## Claiming and releasing -/

/-- `claim_runnable`: `Runnable → Running` and the owner word, together. `none` when the pid is
gone or not runnable. -/
def claimRunnable (p : Procs) (pid cpu : Nat) : Except Panic (Option Nat × Procs) :=
  match p.table.lookup pid with
  | none => .ok (none, p)
  | some r =>
    if r.state ≠ .runnable then .ok (none, p)
    else if p.owner r.slot ≠ none then .error .claimOwned
    else .ok (some r.slot, p.settle r.slot .running (some cpu))

lemma claimRunnable_some (h : p.claimRunnable pid cpu = .ok (some slot, p')) :
    ∃ r, p.table.get slot = some r ∧ r.pid = pid ∧ r.state = .runnable ∧ p.owner slot = none ∧
      p' = p.settle slot .running (some cpu) := by
  unfold claimRunnable at h
  split at h
  · cases h
  next r hr =>
    obtain ⟨hg, hp⟩ := ProcessTable.lookup_eq_some hr
    split at h
    · cases h
    · split at h
      · cases h
      · cases h
        exact ⟨r, hg, hp, not_not.mp ‹_›, not_not.mp ‹_›, rfl⟩

/-- `release_running`: `Running → Runnable` and the owner word, together. -/
def releaseRunning (p : Procs) (slot cpu : Nat) : Except Panic (Option Nat × Procs) :=
  match p.table.get slot with
  | none => .ok (none, p)
  | some r =>
    if r.state ≠ .running then .ok (none, p)
    else if p.owner slot ≠ some cpu then .error .releaseOwner
    else .ok (some r.pid, p.settle slot .runnable none)

lemma releaseRunning_owned (hr : p.table.get slot = some r) (hs : r.state = .running) (ho : p.owner slot = some cpu) :
    p.releaseRunning slot cpu = .ok (some r.pid, p.settle slot .runnable none) := by
  simp [releaseRunning, hr, hs, ho]

lemma releaseRunning_some (h : p.releaseRunning slot cpu = .ok (some pid, p')) :
    ∃ r, p.table.get slot = some r ∧ r.pid = pid := by
  unfold releaseRunning at h
  split at h
  · cases h
  next r hr =>
    split at h
    · cases h
    · split at h
      · cases h
      · cases h
        exact ⟨r, hr, rfl⟩

/-- `release_owner_for_exit`: the owner word is dropped while the state stays `Running`, so that no
dispatcher claims the record before exit has turned it into a zombie or removed it. -/
def releaseOwnerForExit (p : Procs) (slot cpu : Nat) : Except Panic Procs :=
  match p.table.get slot with
  | none => .error .exitNoRecord
  | some r =>
    if r.state ≠ .running then .error .exitNotRunning
    else if p.owner slot ≠ some cpu then .error .exitOwner
    else .ok (p.setOwner slot none)

lemma releaseOwnerForExit_owned (hr : p.table.get slot = some r) (hs : r.state = .running) (ho : p.owner slot = some cpu) :
    p.releaseOwnerForExit slot cpu = .ok (p.setOwner slot none) := by
  simp [releaseOwnerForExit, hr, hs, ho]

/-! ## Blocking and waking -/

inductive WakeTransition
  | /-- `Blocked → Runnable`; the waker enqueues the pid. -/
    enqueue (pid slot : Nat)
  | /-- The target still runs; the wake is latched. -/
    pending
  | /-- Nothing to wake. -/
    ignore
  deriving DecidableEq, Repr

def requestWake (p : Procs) (pid : Nat) : Except Panic (WakeTransition × Procs) :=
  match p.table.lookup pid with
  | none => .ok (.ignore, p)
  | some r =>
    match r.state with
    | .blocked =>
      if p.owner r.slot ≠ none then .error .wakeOwned
      else .ok (.enqueue r.pid r.slot, p.modify r.slot (·.settle .runnable))
    | .running => .ok (.pending, p.modify r.slot fun r => { r with wakePending := true })
    | _ => .ok (.ignore, p)

lemma requestWake_cases (h : p.requestWake pid = .ok (w, p')) :
    (∃ r, p.table.get r.slot = some r ∧ r.pid = pid ∧ r.state = .blocked ∧ p.owner r.slot = none ∧ w = .enqueue pid r.slot ∧
      p' = p.modify r.slot (·.settle .runnable)) ∨
    (∃ r, p.table.get r.slot = some r ∧ r.pid = pid ∧ r.state = .running ∧ w = .pending ∧
      p' = p.modify r.slot fun r => { r with wakePending := true }) ∨
    (w = .ignore ∧ p' = p ∧ ∀ r, p.table.lookup pid = some r → r.state ≠ .blocked ∧ r.state ≠ .running) := by
  unfold requestWake at h
  split at h
  next hn =>
    cases h
    exact .inr (.inr ⟨rfl, rfl, fun r hr => by rw [hn] at hr; cases hr⟩)
  next r hr =>
    obtain ⟨hg, rfl⟩ := ProcessTable.lookup_eq_some hr
    split at h
    next hs =>
      split at h
      · cases h
      · cases h
        exact .inl ⟨r, hg, rfl, hs, not_not.mp ‹_›, rfl, rfl⟩
    next hs =>
      cases h
      exact .inr (.inl ⟨r, hg, rfl, hs, rfl, rfl⟩)
    next hb hr' =>
      cases h
      refine .inr (.inr ⟨rfl, rfl, fun r₂ hr₂ => ?_⟩)
      obtain rfl := Option.mem_unique hr hr₂
      exact ⟨hb, hr'⟩

/-- Phase 1 of a block: the intent is recorded, the state stays `Running`. -/
def beginBlock (p : Procs) (slot cpu : Nat) : Except Panic (Bool × Procs) :=
  match p.table.get slot with
  | none => .ok (false, p)
  | some r =>
    if r.state ≠ .running then .ok (false, p)
    else if p.owner slot ≠ some cpu then .error .beginOwner
    else .ok (true, p.modify slot fun r => { r with blockIntent := true })

lemma beginBlock_owned (hr : p.table.get slot = some r) (hs : r.state = .running) (ho : p.owner slot = some cpu) :
    p.beginBlock slot cpu = .ok (true, p.modify slot fun r => { r with blockIntent := true }) := by
  simp [beginBlock, hr, hs, ho]

/-- What phase 2 of a block published. -/
inductive BlockFinish
  | blocked
  | requeue (pid : Nat)
  | invalid
  deriving DecidableEq, Repr

/-- Phase 2 of a block: the owner word goes, and the process becomes `Blocked`, or `Runnable` when
a wake has been latched meanwhile. -/
def finishBlock (p : Procs) (slot cpu : Nat) : Except Panic (BlockFinish × Procs) :=
  match p.table.get slot with
  | none => .ok (.invalid, p)
  | some r =>
    if r.state ≠ .running ∨ r.blockIntent = false then .ok (.invalid, p)
    else if p.owner slot ≠ some cpu then .error .finishOwner
    else if r.wakePending then .ok (.requeue r.pid, p.settle slot .runnable none)
    else .ok (.blocked, p.settle slot .blocked none)

lemma finishBlock_owned (hr : p.table.get slot = some r) (hs : r.state = .running) (hi : r.blockIntent = true)
    (ho : p.owner slot = some cpu) :
    p.finishBlock slot cpu
      = if r.wakePending then .ok (.requeue r.pid, p.settle slot .runnable none)
        else .ok (.blocked, p.settle slot .blocked none) := by
  simp [finishBlock, hr, hs, hi, ho]

end Procs

end ZeroOS.Process
