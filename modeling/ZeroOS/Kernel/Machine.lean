import ZeroOS.Process.Ownership
import ZeroOS.Process.Lifecycle
import ZeroOS.Scheduler.Queue

/-!
# The kernel as a machine of CPUs

Every CPU works on one *task*: it looks for a process, runs one, or is in the middle of a kernel
path. A kernel path is cut where it takes and releases a lock, so each step below is one critical
section of the source (of the process table, a run queue, a waiter registry, `CURRENT_SLOT`) and
the steps of different CPUs interleave freely. The data a path carries from one critical section to
the next (the snapshot of a parent record, the spaces still to be destroyed) sits in the task.

What a process does at EL0 is not modelled; a CPU that runs a process may enter any system call at
any time (`Act`). Building an address space may fail. The IPC waiters, the futex table and the
sleep queue are one list of registrations: what matters here is that an entry is added and removed
under the registry's lock. `log` records the events that the results are about; nothing reads it.

The hooks `security::on_process_gone` and `shm::on_process_gone` touch none of this state.
-/

namespace ZeroOS.Kernel

open Function ZeroOS.Process ZeroOS.Scheduler

/-! ## State -/

/-- The three waiter registries. -/
inductive WaitKind
  | futex | sleep | channel
  deriving DecidableEq, Repr

/-- A process waiting to be woken. -/
structure Registration where
  kind : WaitKind
  key : Nat
  pid : Nat
  deriving DecidableEq, Repr

/-- Where a CPU goes on after waking or enqueueing other processes. -/
inductive Back
  | /-- Kernel initialisation, before `scheduler::run`. -/
    boot
  | /-- The process at this slot. -/
    user (slot : Nat)
  | /-- The scheduler loop. -/
    sched
  deriving DecidableEq, Repr

/-- What a CPU is doing, named by the critical section it runs next. -/
inductive Task
  | boot
  | /-- `schedule_loop`, `reschedule` and the idle loop: about to pop. -/
    sched
  | dispatching (pid : Nat)
  | /-- Claimed; `CURRENT_SLOT` still to be set. -/
    entering (slot : Nat)
  | /-- About to load the address space. -/
    activating (slot : Nat)
  | /-- The process runs. -/
    user (slot : Nat)
  | /-- A waiter is registered: about to `begin_block`. -/
    registered (slot : Nat)
  | /-- About to `detach_current` for a block. -/
    blockSwitch (slot : Nat)
  | blockFinish (slot : Nat)
  | /-- `finish_block` said `Requeue`. -/
    requeue (pid : Nat)
  | yieldSwitch (slot : Nat)
  | yieldRelease (slot : Nat)
  | yieldPush (pid slot : Nat)
  | /-- Pids whose registration was consumed and that are still to be woken. -/
    waking (pids : List Nat) (back : Back)
  | /-- `request_wake` said `Enqueue`. -/
    wakePush (pid slot : Nat) (pids : List Nat) (back : Back)
  | /-- A new record is about to be enqueued for the first time. -/
    enqueueing (pid : Nat) (back : Back)
  | /-- A record is spawned; its image is being built. -/
    spawnBuild (slot pid : Nat) (parent : Option Nat) (back : Back)
  | /-- About to `set_parent`. -/
    spawnParent (pid : Nat) (parent : Option Nat) (back : Back)
  | /-- The space is cloned (if the parent carries one); the child goes into the table next. -/
    forkInsert (slot : Nat) (parent : ProcessRecord) (pid : Nat) (space : Option Nat)
  | threadCheck (slot : Nat) (parent : ProcessRecord)
  | threadInsert (slot : Nat) (parent : ProcessRecord) (pid : Nat)
  | /-- Accepted by the `owns_address_space` guard; the new image is being built. -/
    execBuild (slot : Nat)
  | execRebind (slot space : Nat)
  | execActivate (slot space : Nat) (old : Option Nat)
  | execDestroy (slot : Nat) (old : Option Nat)
  | /-- A zombie was collected; a space it still carried is to be destroyed. -/
    waitDestroy (slot : Nat) (space : Option Nat)
  | /-- About to `detach_current`; `none` is the bare exit of `svc #2`. -/
    exitSwitch (slot : Nat) (status : Option Int)
  | exitRelease (slot : Nat) (status : Option Int)
  | /-- The owner word is dropped, the state still `Running`. -/
    exitDecide (slot : Nat) (status : Int)
  | /-- Zombie now: a space to destroy, a waiting parent to serve. -/
    zombieDestroy (slot : Nat) (space : Option Nat) (wake : Option (Nat × Nat)) (packed : Nat)
  | /-- The result goes to the waiting parent and the record is consumed. -/
    deliver (slot parentPid packed : Nat)
  | /-- First round of `full_reap`. -/
    reapSeed (seed : Nat)
  | /-- Later rounds, top of the stack first. -/
    reapNext (seed : Nat) (stack : List Nat)
  | reapTransfer (seed : Nat) (stack : List Nat) (record : ProcessRecord)
      (casc : List ProcessRecord)
  | /-- The spaces this round still has to destroy. -/
    reapDestroy (seed : Nat) (stack : List Nat) (pending : List Nat)
  deriving DecidableEq, Repr

/-- The events results are stated about. -/
inductive Obs
  | /-- A waker removed the pid's registration. -/
    consumed (pid : Nat)
  | /-- A waker enqueued the pid. -/
    enqueued (pid : Nat)
  | /-- The pid's block was cancelled by a latched wake. -/
    cancelled (pid : Nat)
  | /-- A space became the address space of a record. -/
    attached (space : Nat)
  | /-- `AddressSpace::destroy`. -/
    destroyed (space : Nat)
  | /-- `waitpid` returned this word to the process. -/
    collected (parent packed : Nat)
  | /-- The exit path wrote this word into the waiting parent's frame. -/
    delivered (parent packed : Nat)
  deriving DecidableEq, Repr

/-- The state shared by the CPUs, and what each of them is doing. -/
structure State where
  procs : Procs
  /-- `NEXT_PID`. -/
  nextPid : Nat
  /-- The thread group each address space was built for; the handle of a space is its index. -/
  spaces : List Nat
  /-- `CURRENT_SLOT`. -/
  current : Nat → Option Nat
  /-- `RUNQUEUE`. -/
  runqueue : Mlfq
  /-- `PROC_LEVEL`. -/
  level : Nat → Nat
  waiters : List Registration
  /-- The address space in `TTBR0_EL1` of each CPU. -/
  ttbr : Nat → Option Nat
  /-- The newest event first. -/
  log : List Obs
  task : Nat → Task

namespace State

/-- After `process::init` and `scheduler::init`: CPU 0 initialises, the others look for work. -/
def init : State where
  procs := ⟨.empty, fun _ => none⟩
  nextPid := 2
  spaces := []
  current := fun _ => none
  runqueue := .empty
  level := fun _ => 0
  waiters := []
  ttbr := fun _ => none
  log := []
  task := fun c => if c = 0 then .boot else .sched

abbrev table (k : State) : ProcessTable := k.procs.table

/-- The CPU `c` goes on with `t`. -/
def goto (k : State) (c : Nat) (t : Task) : State :=
  { k with task := update k.task c t }

def setTable (k : State) (t : ProcessTable) : State :=
  { k with procs := { k.procs with table := t } }

def note (k : State) (o : Obs) : State :=
  { k with log := o :: k.log }

def noteDestroyed (k : State) : Option Nat → State
  | some space => k.note (.destroyed space)
  | none => k

def noteAttached (k : State) : Option Nat → State
  | some space => k.note (.attached space)
  | none => k

end State

def Back.task : Back → Task
  | .boot => .boot
  | .user slot => .user slot
  | .sched => .sched

/-! ## Actions -/

/-- The three ways a process is spawned. -/
inductive SpawnKind
  | /-- A service compiled into the kernel: no image. -/
    kernelFn
  | /-- An image from the boot file system: no parent. -/
    bootfs
  | /-- An image supplied by the caller, who becomes the parent. -/
    image
  deriving DecidableEq, Repr

inductive Act
  | startScheduler
  | pop
  | spawn (kind : SpawnKind)
  | /-- Remove the marked registrations under the registry's lock: `FutexWake`, an IPC send, a timer
    tick. -/
    consume (mask : List Bool)
  | yield
  | /-- A tick uses up the time slice. -/
    sliceEnd
  | /-- The periodic priority boost. -/
    boost
  | register (kind : WaitKind) (key : Nat)
  | /-- `clones`: is there memory for the child's address space? -/
    fork (clones : Bool)
  | createThread
  | exec
  | wait (target flags : Nat)
  | exit (status : Int)
  | svcExit
  | /-- Carry on with the task; `ok = false`: what it builds cannot be built. -/
    go (ok : Bool)
  deriving DecidableEq, Repr

structure Event where
  cpu : Nat
  act : Act
  deriving DecidableEq, Repr

/-- The result of a step: not possible now, a failed assertion, or the next state. -/
abbrev Outcome := Option (Except Panic State)

abbrev next (k : State) : Outcome := some (.ok k)

/-- The elements of a list that are marked, and the others. -/
def splitMask {α : Type} : List α → List Bool → List α × List α
  | [], _ => ([], [])
  | x :: xs, [] => ([], x :: xs)
  | x :: xs, b :: bs =>
    let (removed, kept) := splitMask xs bs
    if b then (x :: removed, kept) else (removed, x :: kept)

variable (k : State) (c : Nat)

/-- `scheduler::enqueue`: level 0, then the push. -/
def enqueue (pid : Nat) (t : Task) : Outcome :=
  match k.runqueue.pushAt pid 0 with
  | none => some (.error .runqueueFull)
  | some q =>
    let level := match k.table.lookup pid with
      | some r => update k.level r.slot 0
      | none => k.level
    next ({ k with runqueue := q, level := level }.goto c t)

/-- `detach_current`, then on with `t`. -/
def detachCurrent (slot : Nat) (t : Task) : Outcome :=
  if k.current c = some slot then
    next ({ k with current := update k.current c none }.goto c t)
  else some (.error .detachMismatch)

/-- `spawn`, on behalf of the kernel or of a process. -/
def spawn (kind : SpawnKind) (back : Back) : Outcome :=
  match allocPid k.nextPid with
  | none => some (.error .pidSpace)
  | some (pid, nextPid) =>
    match k.procs.insert (ProcessRecord.spawned pid) with
    | none => next { k with nextPid := nextPid }
    | some (slot, procs) =>
      let caller := match back with
        | .user s => (k.table.get s).map (·.pid)
        | _ => none
      let t := match kind with
        | .kernelFn => .enqueueing pid back
        | .bootfs => .spawnBuild slot pid none back
        | .image => .spawnBuild slot pid caller back
      next ({ k with procs := procs, nextPid := nextPid }.goto c t)

/-- A waker takes registrations out under the registry's lock; the wakes follow. -/
def consume (mask : List Bool) (back : Back) : Outcome :=
  let (removed, kept) := splitMask k.waiters mask
  let pids := removed.map (·.pid)
  next ({ k with waiters := kept, log := pids.reverse.map Obs.consumed ++ k.log }.goto c
    (.waking pids back))

/-- The first critical section of `fork`, and the clone of the parent's space. -/
def fork (slot : Nat) (clones : Bool) : Outcome :=
  match k.table.get slot with
  | none => next k
  | some parent =>
    match allocPid k.nextPid with
    | none => some (.error .pidSpace)
    | some (pid, nextPid) =>
      match parent.addrSpace with
      | none => next ({ k with nextPid := nextPid }.goto c (.forkInsert slot parent pid none))
      | some _ =>
        if clones then
          next ({ k with nextPid := nextPid, spaces := k.spaces ++ [pid] }.goto c
            (.forkInsert slot parent pid (some k.spaces.length)))
        else next { k with nextPid := nextPid }

/-- `waitpid_step` and what the system call makes of it. -/
def wait (slot target flags : Nat) : Outcome :=
  match k.table.waitpidStep slot target flags with
  | (.collect record packed, t) =>
    let caller := ((k.table.get slot).map ProcessRecord.pid).getD 0
    next (((k.setTable t).note (.collected caller packed)).goto c
      (.waitDestroy slot record.addrSpace))
  | (.blocked, t) => next ((k.setTable t).goto c (.registered slot))
  | (_, _) => next k

/-- The critical section of an exit: `futex_detach`, then the disposition. -/
def exitStep (slot : Nat) (status : Int) : Outcome :=
  let pid? := (k.table.get slot).map (·.pid)
  let waiters := k.waiters.filter fun w => !(w.kind = .futex && some w.pid = pid?)
  match k.table.exitDecide slot status with
  | (.gone, _) => next (k.goto c .sched)
  | (.zombie wake packed space, t) =>
    let k' := match wake with
      | some (_, parentPid) => k.note (.consumed parentPid)
      | none => k
    next (({ k' with waiters := waiters }.setTable t).goto c
      (.zombieDestroy slot space wake packed))
  | (.reapNow, t) => next (({ k with waiters := waiters }.setTable t).goto c (.reapSeed slot))

/-- One round of `full_reap`. -/
def reapRound (seed s : Nat) (stack : List Nat) : Outcome :=
  match k.table.reapOne s with
  | none => next (k.goto c (.reapNext seed stack))
  | some (record, casc, t) => next ((k.setTable t).goto c (.reapTransfer seed stack record casc))

/-- Push the cascaded slots, as far as the stack has room. -/
def pushSlots (stack : List Nat) (casc : List ProcessRecord) : List Nat :=
  casc.foldl (fun st r => if st.length < maxProcesses then r.slot :: st else st) stack

/-- The CPU carries on with its task. -/
def go (ok : Bool) : Outcome :=
  match k.task c with
  | .boot | .sched | .user _ => none
  | .dispatching pid =>
    match k.procs.claimRunnable pid c with
    | .error e => some (.error e)
    | .ok (some slot, procs) => next ({ k with procs := procs }.goto c (.entering slot))
    | .ok (none, _) => next (k.goto c .sched)
  | .entering slot => next ({ k with current := update k.current c (some slot) }.goto c (.activating slot))
  | .activating slot =>
    next ({ k with ttbr := update k.ttbr c (k.table.addressSpace slot) }.goto c
      (.user slot))
  | .registered slot =>
    match k.procs.beginBlock slot c with
    | .error e => some (.error e)
    | .ok (true, procs) => next ({ k with procs := procs }.goto c (.blockSwitch slot))
    | .ok (false, _) => some (.error .blockNotRunning)
  | .blockSwitch slot => detachCurrent k c slot (.blockFinish slot)
  | .blockFinish slot =>
    match k.procs.finishBlock slot c with
    | .error e => some (.error e)
    | .ok (.blocked, procs) => next ({ k with procs := procs }.goto c .sched)
    | .ok (.requeue pid, procs) => next (({ k with procs := procs }.note (.cancelled pid)).goto c (.requeue pid))
    | .ok (.invalid, _) => some (.error .blockInvalid)
  | .requeue pid => enqueue k c pid .sched
  | .yieldSwitch slot => detachCurrent k c slot (.yieldRelease slot)
  | .yieldRelease slot =>
    match k.procs.releaseRunning slot c with
    | .error e => some (.error e)
    | .ok (some pid, procs) => next ({ k with procs := procs }.goto c (.yieldPush pid slot))
    | .ok (none, _) => next (k.goto c .sched)
  | .yieldPush pid slot =>
    let level := min (k.level slot + 1) (mlfqLevels - 1)
    match k.runqueue.pushAt pid level with
    | none => some (.error .runqueueFull)
    | some q => next ({ k with runqueue := q, level := update k.level slot level }.goto c .sched)
  | .waking [] back => next (k.goto c back.task)
  | .waking (pid :: pids) back =>
    match k.procs.requestWake pid with
    | .error e => some (.error e)
    | .ok (.enqueue pid slot, procs) => next ({ k with procs := procs }.goto c (.wakePush pid slot pids back))
    | .ok (_, procs) => next ({ k with procs := procs }.goto c (.waking pids back))
  | .wakePush pid slot pids back =>
    match k.runqueue.pushAt pid 0 with
    | none => some (.error .runqueueFull)
    | some q =>
      next (({ k with runqueue := q, level := update k.level slot 0 }.note
        (.enqueued pid)).goto c (.waking pids back))
  | .enqueueing pid back => enqueue k c pid back.task
  | .spawnBuild slot pid parent back =>
    if ok then
      next ((({ k with spaces := k.spaces ++ [pid] }.setTable
        (k.table.configureUserProcess slot k.spaces.length)).note
          (.attached k.spaces.length)).goto c (.spawnParent pid parent back))
    else next (k.goto c back.task)
  | .spawnParent pid parent back =>
    match parent with
    | some _ => next ((k.setTable (k.table.setParent pid parent)).goto c (.enqueueing pid back))
    | none => next (k.goto c (.enqueueing pid back))
  | .forkInsert slot parent pid space =>
    match k.procs.insert (parent.forked pid space) with
    | none => next (k.goto c (.user slot))
    | some (_, procs) =>
      next (({ k with procs := procs }.noteAttached space).goto c
        (.enqueueing pid (.user slot)))
  | .threadCheck slot parent =>
    match k.table.addressSpace slot with
    | none => next (k.goto c (.user slot))
    | some _ =>
      if ok then
        match allocPid k.nextPid with
        | none => some (.error .pidSpace)
        | some (pid, nextPid) => next ({ k with nextPid := nextPid }.goto c (.threadInsert slot parent pid))
      else next (k.goto c (.user slot))
  | .threadInsert slot parent pid =>
    match k.procs.insert (parent.thread pid) with
    | none => next (k.goto c (.user slot))
    | some (_, procs) => next ({ k with procs := procs }.goto c (.enqueueing pid (.user slot)))
  | .execBuild slot =>
    if ok then
      next ({ k with spaces := k.spaces ++ [((k.table.get slot).map ProcessRecord.tgid).getD 0] }.goto c
        (.execRebind slot k.spaces.length))
    else next (k.goto c (.user slot))
  | .execRebind slot space =>
    match k.table.rebindAddressSpace slot space with
    | none => next ((k.note (.destroyed space)).goto c (.user slot))
    | some (old, t) => next (((k.setTable t).note (.attached space)).goto c (.execActivate slot space old))
  | .execActivate slot space old =>
    next ({ k with ttbr := update k.ttbr c (some space) }.goto c (.execDestroy slot old))
  | .execDestroy slot old => next ((k.noteDestroyed old).goto c (.user slot))
  | .waitDestroy slot space => next ((k.noteDestroyed space).goto c (.user slot))
  | .exitSwitch slot status => detachCurrent k c slot (.exitRelease slot status)
  | .exitRelease slot status =>
    match k.procs.releaseOwnerForExit slot c with
    | .error e => some (.error e)
    | .ok procs =>
      next ({ k with procs := procs }.goto c (match status with
        | some status => .exitDecide slot status
        | none => .reapSeed slot))
  | .exitDecide slot status => exitStep k c slot status
  | .zombieDestroy slot space wake packed =>
    next ((k.noteDestroyed space).goto c (match wake with
      | some (_, parentPid) => .deliver slot parentPid packed
      | none => .sched))
  | .deliver slot parentPid packed =>
    next (((k.setTable (k.table.take slot)).note (.delivered parentPid packed)).goto c
      (.waking [parentPid] .sched))
  | .reapSeed seed => reapRound k c seed seed []
  | .reapNext seed [] =>
    -- `clear_current_slot_if` goes over all CPUs, whoever runs at the slot by now
    let current := fun c' => if k.current c' = some seed then none else k.current c'
    next ({ k with current := current }.goto c .sched)
  | .reapNext seed (s :: stack) => reapRound k c seed s stack
  | .reapTransfer seed stack record casc =>
    let (space, t) := k.table.transferIfAny record.tgid record.pid record.addrSpace
    next ((k.setTable t).goto c (.reapDestroy seed (pushSlots stack casc)
      (space.toList ++ casc.filterMap (·.addrSpace))))
  | .reapDestroy seed stack [] => next (k.goto c (.reapNext seed stack))
  | .reapDestroy seed stack (space :: pending) =>
    next ((k.note (.destroyed space)).goto c (.reapDestroy seed stack pending))

/-- The system calls and interrupts of a CPU that runs the process at `slot`. -/
def userStep (slot : Nat) : Act → Outcome
  | .spawn kind => spawn k c kind (.user slot)
  | .consume mask => consume k c mask (.user slot)
  | .yield => next (k.goto c (.yieldSwitch slot))
  | .sliceEnd =>
    let level := min (k.level slot + 1) (mlfqLevels - 1)
    next ({ k with level := update k.level slot level }.goto c (.yieldSwitch slot))
  | .boost =>
    let boosted := fun s => decide (s < 64) && (k.table.get s).any (·.state = .runnable)
    next { k with level := fun s => if boosted s then 0 else k.level s }
  | .register kind key =>
    match k.table.get slot with
    | some r => next ({ k with waiters := k.waiters ++ [Registration.mk kind key r.pid] }.goto c (.registered slot))
    | none => next k
  | .fork clones => fork k c slot clones
  | .createThread =>
    match k.table.get slot with
    | some r => next (k.goto c (.threadCheck slot r))
    | none => next k
  | .exec => if k.table.ownsAddressSpace slot then next (k.goto c (.execBuild slot)) else next k
  | .wait target flags => wait k c slot target flags
  | .exit status => next (k.goto c (.exitSwitch slot (some status)))
  | .svcExit => next (k.goto c (.exitSwitch slot none))
  | _ => none

/-- One step of CPU `c`. -/
def step (a : Act) : Outcome :=
  match k.task c, a with
  | .boot, .spawn kind => spawn k c kind .boot
  | .boot, .startScheduler => next (k.goto c .sched)
  | .sched, .pop =>
    match k.runqueue.pop with
    | (some pid, q) => next ({ k with runqueue := q }.goto c (.dispatching pid))
    | (none, _) => next { k with current := update k.current c none }
  | .sched, .consume mask => consume k c mask .sched
  | .user slot, a => if k.current c = none then some (.error .noCurrent) else userStep k c slot a
  | _, .go ok => go k c ok
  | _, _ => none

def Step (k : State) (e : Event) (k' : State) : Prop := step k e.cpu e.act = some (.ok k')

end ZeroOS.Kernel
