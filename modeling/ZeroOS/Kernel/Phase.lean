import ZeroOS.Kernel.Machine

/-!
# Where a process is in the scheduling protocol

A process is at any time in one *phase*: queued, carried by a CPU that is about to queue or claim
it, running on a CPU, on its way into a block, blocked, leaving, dead. The phase is nowhere stored;
it is what the process table, the owner words, the run queues, the waiter registries and the tasks
of all CPUs have to agree on. `Agrees k pid φ` says that they do, for one pid, and the invariant of
the machine is that there is such a phase for every pid.

The parts of a task that concern the protocol are its `Duty`: the slot the CPU owns, the pid it
carries, the pids it has promised to wake. What a duty says about one process is compared with what
the phase expects of that CPU, so that a process in a known phase is mentioned by exactly the CPUs
and queues the phase names.
-/

namespace ZeroOS.Kernel

open List ZeroOS.Process ZeroOS.Scheduler

/-! ## Duties -/

/-- What a task commits its CPU to. -/
structure Duty where
  /-- The slot whose trap frame and stack this CPU uses. -/
  owns : Option Nat := none
  /-- The owned process has registered as a waiter and is about to block. -/
  parks : Bool := false
  /-- `begin_block` has been called for the owned process. -/
  intends : Bool := false
  /-- A runnable pid in this CPU's hands. -/
  carries : Option Nat := none
  /-- The carried pid was woken by this CPU. -/
  woken : Bool := false
  /-- A slot whose owner word the exit path has dropped. -/
  leaves : Option Nat := none
  /-- A pid allocated for a record that is not in the table yet. -/
  reserved : Option Nat := none
  /-- Pids whose registration is consumed and that this CPU will wake. -/
  flight : List Nat := []
  /-- The slot of a zombie whose result goes to a waiting parent, and that parent. -/
  serves : Option (Nat × Nat) := none
  /-- The slot and pid of a spawned record whose image is being built. -/
  builds : Option (Nat × Nat) := none

/-- A CPU that returns to a process still owns it. -/
def Back.duty : Back → Duty
  | .user slot => { owns := some slot }
  | _ => {}

def Task.duty : Task → Duty
  | .boot | .sched => {}
  | .dispatching pid | .requeue pid | .yieldPush pid _ => { carries := some pid }
  | .entering slot | .activating slot | .user slot | .yieldSwitch slot | .yieldRelease slot
  | .threadCheck slot _ | .execBuild slot | .execRebind slot _ | .execActivate slot _ _
  | .execDestroy slot _ | .waitDestroy slot _ | .exitSwitch slot _ | .exitRelease slot _ => { owns := some slot }
  | .registered slot => { owns := some slot, parks := true }
  | .blockSwitch slot | .blockFinish slot => { owns := some slot, parks := true, intends := true }
  | .waking pids back => { back.duty with flight := pids }
  | .wakePush pid _ pids back => { back.duty with carries := some pid, woken := true, flight := pids }
  | .enqueueing pid back | .spawnParent pid _ back => { back.duty with carries := some pid }
  | .spawnBuild slot pid _ back => { back.duty with carries := some pid, builds := some (slot, pid) }
  | .forkInsert slot _ pid _ | .threadInsert slot _ pid => { owns := some slot, reserved := some pid }
  | .exitDecide slot _ | .reapSeed slot => { leaves := some slot }
  | .zombieDestroy slot _ (some (_, parent)) _ | .deliver slot parent _ =>
    { serves := some (slot, parent), flight := [parent] }
  | .zombieDestroy _ _ none _ | .reapNext _ _ | .reapTransfer _ _ _ _ | .reapDestroy _ _ _ => {}

/-- What a duty says about the process `pid` at `slot`. -/
structure About where
  owns : Bool := false
  parks : Bool := false
  leaves : Bool := false
  carries : Bool := false
  woken : Bool := false
  serves : Bool := false
  flight : Nat := 0
  deriving DecidableEq

def Duty.about (d : Duty) (pid slot : Nat) : About where
  owns := d.owns == some slot
  parks := d.parks && d.owns == some slot
  leaves := d.leaves == some slot
  carries := d.carries == some pid
  woken := d.woken && d.carries == some pid
  serves := d.serves.any (·.1 == slot)
  flight := d.flight.count pid

/-! ## Phases -/

/-- Where the wake-up call of a parking or blocked process is. -/
inductive Place
  | /-- In a waiter registry. -/
    registry
  | /-- In the record's `wait_target`. -/
    target
  | /-- Consumed by a waker on this CPU that has yet to call `request_wake`. -/
    flight (cpu : Nat)
  | /-- Latched in the record's `wake_pending`. -/
    latch
  deriving DecidableEq

/-- A waker has taken the registration. -/
def Place.consumed : Place → Bool
  | .flight _ | .latch => true
  | _ => false

inductive Phase
  | /-- `Runnable` but in no queue: its image could not be built. -/
    loose
  | /-- In the hands of a CPU; `woken`: of the waker that took it out of its block. -/
    carried (cpu : Nat) (woken : Bool)
  | queued
  | running (cpu : Nat)
  | /-- Still running, on its way to `finish_block`. -/
    parking (cpu : Nat) (place : Place)
  | blocked (place : Place)
  | /-- Exiting: `Running` without an owner. -/
    leaving (cpu : Nat)
  | /-- Dead; perhaps a CPU is delivering its result. -/
    zombie (server : Option Nat)
  deriving DecidableEq

namespace Phase

def state : Phase → ProcessState
  | .loose | .carried _ _ | .queued => .runnable
  | .running _ | .parking _ _ | .leaving _ => .running
  | .blocked _ => .blocked
  | .zombie _ => .zombie

def owner : Phase → Option Nat
  | .running c | .parking c _ => some c
  | _ => none

def cpu : Phase → Option Nat
  | .carried c _ | .running c | .parking c _ | .leaving c => some c
  | .zombie server => server
  | _ => none

/-- Where the wake-up call is, if the process waits for one. -/
def place : Phase → Option Place
  | .parking _ p | .blocked p => some p
  | _ => none

/-- The same phase with the wake-up call elsewhere. -/
def withPlace (p : Place) : Phase → Phase
  | .parking c _ => .parking c p
  | .blocked _ => .blocked p
  | φ => φ

/-- What the phase expects the duty of a CPU to say. -/
def expects (φ : Phase) (c : Nat) : About where
  owns := φ.owner == some c
  parks := match φ with
    | .parking c' _ => c' == c
    | _ => false
  leaves := φ == .leaving c
  carries := match φ with
    | .carried c' _ => c' == c
    | _ => false
  woken := match φ with
    | .carried c' w => w && c' == c
    | _ => false
  serves := φ == .zombie (some c)
  flight := if φ.place = some (.flight c) then 1 else 0

/-- A registration of the process is consumed and the wake not yet done. -/
def owed : Phase → Bool
  | .carried _ woken => woken
  | .parking _ p | .blocked p => p.consumed
  | _ => false

/-- A blocked process cannot have its wake latched. -/
def wellPlaced : Phase → Prop
  | .blocked .latch => False
  | _ => True

end Phase

structure Fits (φ : Phase) (r : ProcessRecord) (owner : Option Nat) : Prop where
  state : r.state = φ.state
  owner_eq : owner = φ.owner
  latch : r.wakePending = decide (φ.place = some .latch)
  target : r.waitTarget.isSome = decide (φ.place = some .target)
  placed : φ.wellPlaced

def State.waiting (k : State) : List Nat := k.waiters.map (·.pid)

/-- The wakes of a process that are still owed according to the log: registrations consumed, less
wakes that enqueued it and blocks that were cancelled. -/
def balance (log : List Obs) (pid : Nat) : Int :=
  log.count (.consumed pid) - log.count (.enqueued pid) - log.count (.cancelled pid)

/-- Everything in the machine agrees that `pid` is in phase `φ`; `none`: there is no such process. -/
inductive Agrees (k : State) (pid : Nat) : Option Phase → Prop
  | /-- No record, and no task, queue or registry mentions the pid. -/
    gone (hrec : k.table.lookup pid = none)
      (hcarry : ∀ c, (k.task c).duty.carries ≠ some pid)
      (hflight : ∀ c, pid ∉ (k.task c).duty.flight)
      (hqueue : pid ∉ k.runqueue.pids) (hreg : pid ∉ k.waiting)
      (hlog : balance k.log pid = 0) : Agrees k pid none
  | /-- The record fits, and every CPU, the queues, the registries and the log say what the phase
    expects. -/
    here (φ : Phase) (r : ProcessRecord) (hrec : k.table.lookup pid = some r)
      (hfits : Fits φ r (k.procs.owner r.slot))
      (hduty : ∀ c, (k.task c).duty.about pid r.slot = φ.expects c)
      (hqueue : k.runqueue.pids.count pid = if φ = .queued then 1 else 0)
      (hreg : k.waiting.count pid = if φ.place = some .registry then 1 else 0)
      (hlog : balance k.log pid = if φ.owed then 1 else 0) :
      Agrees k pid (some φ)

section

variable (log : List Obs) (pid : Nat)

@[simp] lemma balance_consumed (q : Nat) :
    balance (.consumed q :: log) pid = balance log pid + if q = pid then 1 else 0 := by
  simp only [balance, count_cons, beq_iff_eq, Obs.consumed.injEq, reduceCtorEq, if_false]
  split <;> simp; omega

@[simp] lemma balance_enqueued (q : Nat) :
    balance (.enqueued q :: log) pid = balance log pid - if q = pid then 1 else 0 := by
  simp only [balance, count_cons, beq_iff_eq, Obs.enqueued.injEq, reduceCtorEq, if_false]
  split <;> simp; omega

@[simp] lemma balance_cancelled (q : Nat) :
    balance (.cancelled q :: log) pid = balance log pid - if q = pid then 1 else 0 := by
  simp only [balance, count_cons, beq_iff_eq, Obs.cancelled.injEq, reduceCtorEq, if_false]
  split <;> simp; omega

lemma balance_consumed_append (pids : List Nat) :
    balance (pids.map Obs.consumed ++ log) pid = balance log pid + pids.count pid := by
  induction pids with
  | nil => simp
  | cons q pids ih =>
    simp only [map_cons, cons_append, balance_consumed, ih, count_cons, beq_iff_eq]
    split <;> simp; omega

end

/-! ## The invariant -/

structure Duty.Sound (t : ProcessTable) (nextPid : Nat) (d : Duty) : Prop where
  /-- A pid in reserve is used up but not in the table. -/
  reserved : ∀ pid, d.reserved = some pid → pid < nextPid ∧ t.lookup pid = none
  /-- An owned slot is taken, and `begin_block` is remembered until `finish_block`. -/
  owns : ∀ slot, d.owns = some slot → ∃ r, t.get slot = some r ∧ (d.intends = true → r.blockIntent = true)
  leaves : ∀ slot, d.leaves = some slot → ∃ r, t.get slot = some r
  /-- The zombie whose result is being delivered is a child of the parent to be woken. -/
  serves : ∀ slot parent, d.serves = some (slot, parent) → parent ∈ d.flight ∧
    ∃ r, t.get slot = some r ∧ r.state = .zombie ∧ r.parent = some parent
  /-- The record whose image is being built is where it was put. -/
  builds : ∀ slot pid, d.builds = some (slot, pid) → d.carries = some pid ∧ ∃ r, t.get slot = some r ∧ r.pid = pid

structure Inv (k : State) : Prop where
  unique : k.table.PidsUnique
  phase : ∀ pid, ∃ φ, Agrees k pid φ
  sound : ∀ c, (k.task c).duty.Sound k.table k.nextPid
  pid_lt : ∀ {i r}, k.table.get i = some r → r.pid < k.nextPid
  /-- No two CPUs have the same pid in reserve. -/
  reserved_inj : ∀ {c c' pid}, (k.task c).duty.reserved = some pid → (k.task c').duty.reserved = some pid → c = c'
  /-- A free slot has no owner. -/
  free_unowned : ∀ {slot}, k.table.get slot = none → k.procs.owner slot = none

end ZeroOS.Kernel
