import ZeroOS.Kernel.Lineage
import ZeroOS.Lib.Deadline

/-!
# The clock

The timer of a CPU interrupts the process it runs, or its idle loop, and `on_tick_consume` counts
the tick, takes the expired sleepers out of `SLEEP_QUEUE`, wakes them, raises the priority of the
runnable processes from time to time and charges the running process for its time slice. A process
that sleeps reads the clock first and enters `SLEEP_QUEUE` later, under the queue's lock.

`Timed` is the machine of `ZeroOS.Kernel.Machine` with this clock. As there, each step is one
critical section, so that the ticks of several CPUs and the sleeps of several processes interleave:
`Stage` says where a CPU is in between. The loop over the slots in a priority boost is one step.

The fields after `stage` record what the results are about; no step depends on them. The watchdog
of an idle CPU writes a log line and nothing else, and is left out.
-/

namespace ZeroOS.Kernel

open ZeroOS.Process ZeroOS.Scheduler Transition
open Function (update)

def boostEveryTicks : Nat := 200

def sleepQueueCap : Nat := 128

def sliceTicks : Nat := 4

structure SleepEntry where
  wakeAt : Nat
  start : Nat
  pid : Nat
  deriving DecidableEq, Repr

/-- A sleeper that left the queue: at the tick `now`, and until then `before` was the latest tick
that had taken sleepers out. -/
structure Wake where
  entry : SleepEntry
  before : Nat
  now : Nat
  deriving DecidableEq, Repr

/-- What a CPU is in the middle of, besides its task. -/
inductive Stage
  | none
  | /-- `sleep_current` has read the clock. -/
    sleeping (start ticks : Nat)
  | /-- `on_tick_consume` has counted the tick. -/
    counted (now : Nat)
  | /-- The expired sleepers are out of the queue; they are being woken. -/
    drained (now : Nat)
  deriving DecidableEq, Repr

structure Timed where
  kernel : State
  /-- `TICK_NOW`. -/
  tickNow : Nat
  /-- `LAST_BOOST`. -/
  lastBoost : Nat
  /-- `SLICE_USED`. -/
  sliceUsed : Nat → Nat
  /-- `SLEEP_QUEUE`. -/
  sleepQueue : List SleepEntry
  /-- The `x0` a tick left in the trap frame of a slot. -/
  x0 : Nat → Nat
  stage : Nat → Stage
  /-- Every sleep so far and the ticks asked for, in the order of registration. -/
  slept : List (SleepEntry × Nat)
  /-- Every sleeper taken out so far, in that order. -/
  woken : List Wake
  /-- The latest tick that has taken the expired sleepers out. -/
  drained : Nat
  /-- How often a waker other than the clock has consumed a registration of a pid. -/
  called : Nat → Nat

namespace Timed

def init : Timed where
  kernel := .init
  tickNow := 0
  lastBoost := 0
  sliceUsed := fun _ => 0
  sleepQueue := []
  x0 := fun _ => 0
  stage := fun _ => .none
  slept := []
  woken := []
  drained := 0
  called := fun _ => 0

/-- The CPU `c` is at the stage `s`. -/
def enter (t : Timed) (c : Nat) (s : Stage) : Timed :=
  { t with stage := update t.stage c s }

end Timed

inductive TimedAct
  | /-- A step of the machine. -/
    kernel (a : Act)
  | /-- A timer interrupt: `TICK_NOW` is advanced. -/
    tick
  | /-- The expired sleepers leave the queue. -/
    drain
  | /-- The rest of `on_tick_consume`: the boost and the time slice. -/
    account
  | /-- `sleep_current`: read the clock. -/
    sleep (ticks : Nat)
  | /-- `sleep_current`: enter the queue. -/
    enlist
  deriving DecidableEq, Repr

structure TimedEvent where
  cpu : Nat
  act : TimedAct
  deriving DecidableEq, Repr

/-- The ways a step of the machine with its clock fails. -/
inductive TimedPanic
  | kernel (p : Panic)
  | /-- `sleep_current`: the sleep queue is full. -/
    sleepQueueFull
  | /-- `sleep_current`: no record at the current slot. -/
    noProcess
  deriving DecidableEq, Repr

/-- The result of a step: not possible now, a failed assertion, or the next state. -/
abbrev TimedOutcome := Option (Except TimedPanic Timed)

/-! ## Levels and time slices -/

/-- The slots a boost puts to level 0: the runnable ones among the first 64. -/
def State.boosted (k : State) (slot : Nat) : Bool :=
  decide (slot < 64) && (k.table.get slot).any (·.state = .runnable)

/-- `PROC_LEVEL` after a boost. -/
def State.boostLevels (k : State) : State :=
  { k with level := fun s => if k.boosted s then 0 else k.level s }

def State.procLevel (k : State) (slot : Nat) : Nat := min (k.level slot) (mlfqLevels - 1)

/-- `next_level_after_slice` and `next_level_after_yield`. -/
def nextLevel (level : Nat) : Nat := min (level + 1) (mlfqLevels - 1)

def sliceForLevel (level : Nat) : Nat := sliceTicks <<< min level (mlfqLevels - 1)

/-- The slot whose `SLICE_USED` a step of the machine clears: the one `dispatch` has claimed, or the
one that has yielded. -/
def slotCleared (k k' : State) (c : Nat) : Option Nat :=
  match k.task c, k'.task c with
  | .dispatching _, .entering slot => some slot
  | .yieldPush _ slot, _ => some slot
  | _, _ => none

/-- The sleepers `pids` are taken out; their wakes follow, in the queue's order. -/
def State.expire (k : State) (c : Nat) (pids : List Nat) (back : Back) : State :=
  { k with
    waiters := k.waiters.filter fun w : Registration => !(w.kind = WaitKind.sleep && pids.contains w.pid)
    log := pids.reverse.map Obs.consumed ++ k.log }.goto c (.waking pids back)

def Task.back? : Task → Option Back
  | .user slot => some (.user slot)
  | .sched => some .sched
  | _ => none

namespace Timed

variable (t : Timed) (c : Nat)

/-- Where a step of the machine may be taken: not in the middle of something else, and not in the
place of the clock. While expired sleepers are woken, the CPU goes on waking. -/
def admits (a : Act) : Bool :=
  match t.stage c, a with
  | .none, .sliceEnd | .none, .boost => false
  | .none, .register kind _ => kind != .sleep
  | .none, .consume mask => (splitMask t.kernel.waiters mask).1.all (·.kind != .sleep)
  | .none, _ => true
  | .drained _, .go _ => true
  | _, _ => false

def kernelStep (a : Act) : TimedOutcome :=
  if t.admits c a then
    match Kernel.step t.kernel c a with
    | none => none
    | some (.error p) => some (.error (.kernel p))
    | some (.ok k) => some (.ok { t with
        kernel := k
        sliceUsed := match slotCleared t.kernel k c with
          | some slot => update t.sliceUsed slot 0
          | none => t.sliceUsed
        called := fun p => t.called p + (k.log.count (.consumed p) - t.kernel.log.count (.consumed p)) })
  else none

/-- The timer interrupts a process or the idle loop, and the tick is counted. -/
def tick : TimedOutcome :=
  match t.stage c, (t.kernel.task c).back? with
  | .none, some _ =>
    let now := (t.tickNow + 1) % 2 ^ 64
    some (.ok ({ t with tickNow := now }.enter c (.counted now)))
  | _, _ => none

/-- The sleepers that are due at `now`. -/
def expired (now : Nat) : List SleepEntry := Deadline.due SleepEntry.wakeAt now t.sleepQueue

/-- The time each of the expired sleepers has slept goes into its trap frame. -/
def writeElapsed (now : Nat) : Nat → Nat := (t.expired now).foldl (fun x e => match t.kernel.table.lookup e.pid with
    | some r => update x r.slot (now - e.start)
    | none => x) t.x0

/-- The expired sleepers leave the queue under its lock; the wakes follow. -/
def drain : TimedOutcome :=
  match t.stage c, (t.kernel.task c).back? with
  | .counted now, some back =>
    some (.ok ({ t with
      kernel := t.kernel.expire c ((t.expired now).map SleepEntry.pid) back
      sleepQueue := Deadline.later SleepEntry.wakeAt now t.sleepQueue
      x0 := t.writeElapsed now
      woken := t.woken ++ (t.expired now).map fun e => Wake.mk e t.drained now
      drained := max t.drained now }.enter c (.drained now)))
  | _, _ => none

def boost (now : Nat) : Timed :=
  if boostEveryTicks ≤ now - t.lastBoost then
    { t with kernel := t.kernel.boostLevels, lastBoost := now }
  else t

/-- The running process is charged for the tick and preempted at the end of its time slice. -/
def charge (slot : Nat) : Timed :=
  let level := t.kernel.procLevel slot
  let used := (t.sliceUsed slot + 1) % 2 ^ 32
  if sliceForLevel level ≤ used then
    { t with
      kernel := { t.kernel with level := update t.kernel.level slot (nextLevel level) }.goto c
        (.yieldSwitch slot)
      sliceUsed := update t.sliceUsed slot 0 }
  else { t with sliceUsed := update t.sliceUsed slot used }

/-- The end of `on_tick_consume`, once the expired sleepers are woken. -/
def account : TimedOutcome :=
  match t.stage c, t.kernel.task c with
  | .drained now, .sched => some (.ok ((t.boost now).enter c .none))
  | .drained now, .user slot =>
    let t' := (t.boost now).enter c .none
    -- no current process, or one that does not run: nobody is charged
    if t.kernel.current c = some slot ∧ (t.kernel.table.get slot).any (·.state = .running) then
      some (.ok (t'.charge c slot))
    else some (.ok t')
  | _, _ => none

/-- `sleep_current` reads the clock. -/
def sleep (ticks : Nat) : TimedOutcome :=
  match t.stage c, t.kernel.task c with
  | .none, .user _ => some (.ok (t.enter c (.sleeping t.tickNow ticks)))
  | _, _ => none

/-- `sleep_current` enters the queue; the process blocks next. -/
def enlist : TimedOutcome :=
  match t.stage c, t.kernel.task c with
  | .sleeping start ticks, .user slot =>
    match t.kernel.table.get slot with
    | none => some (.error .noProcess)
    | some r =>
      if t.sleepQueue.length < sleepQueueCap then
        let entry := ⟨(start + ticks) % 2 ^ 64, start, r.pid⟩
        match Kernel.step t.kernel c (.register .sleep 0) with
        | none => none
        | some (.error p) => some (.error (.kernel p))
        | some (.ok k) => some (.ok ({ t with
            kernel := k
            sleepQueue := Deadline.insertAt SleepEntry.wakeAt entry t.sleepQueue
            slept := t.slept ++ [(entry, ticks)] }.enter c .none))
      else some (.error .sleepQueueFull)
  | _, _ => none

/-- One step of CPU `c`. -/
def step : TimedAct → TimedOutcome
  | .kernel a => t.kernelStep c a
  | .tick => t.tick c
  | .drain => t.drain c
  | .account => t.account c
  | .sleep ticks => t.sleep c ticks
  | .enlist => t.enlist c

def Step (t : Timed) (e : TimedEvent) (t' : Timed) : Prop := t.step e.cpu e.act = some (.ok t')

def next? (t : Timed) (e : TimedEvent) : Option Timed :=
  match t.step e.cpu e.act with
  | some (.ok t') => some t'
  | _ => none

lemma step_of_next? {t t' : Timed} {e : TimedEvent} (h : t.next? e = some t') : t.Step e t' := by
  unfold next? at h
  split at h
  · rw [Step, ‹t.step e.cpu e.act = _›, Option.some.inj h]
  · cases h

end Timed

/-! ## What the machine leaves to the clock -/

/-- The pids registered in the sleep queue, in the order of registration. -/
def State.sleepers (k : State) : List Nat := (k.waiters.filter (·.kind = .sleep)).map (·.pid)

/-- Wherever the step leads, the sleepers are the same and the log has only grown. -/
def Outcome.SparesSleepers (k : State) (o : Outcome) : Prop :=
  ∀ k', o = some (.ok k') → k'.sleepers = k.sleepers ∧ k.log <:+ k'.log

section

lemma spares_next (hw : k'.sleepers = k.sleepers) (hl : k.log <:+ k'.log) :
    Outcome.SparesSleepers k (next k') := by
  rintro _ ⟨⟩
  exact ⟨hw, hl⟩

lemma spares_same (hw : k'.waiters = k.waiters) (hl : k.log <:+ k'.log) :
    Outcome.SparesSleepers k (next k') :=
  spares_next (by rw [State.sleepers, hw, State.sleepers]) hl

lemma spares_destroyed :
    Outcome.SparesSleepers k (next ((k.noteDestroyed o).goto c t)) := by
  cases o with
  | none => exact spares_same rfl List.suffix_rfl
  | some space => exact spares_same rfl (List.suffix_cons ..)

lemma spares_attached :
    Outcome.SparesSleepers k (next (({ k with procs := p }.noteAttached o).goto c t)) := by
  cases o with
  | none => exact spares_same rfl List.suffix_rfl
  | some space => exact spares_same rfl (List.suffix_cons ..)

lemma spares_error : Outcome.SparesSleepers k (some (.error p)) := nofun

lemma enqueue_spares : (enqueue k c pid t).SparesSleepers k := by
  unfold enqueue
  split
  · exact spares_error
  · exact spares_same rfl List.suffix_rfl

lemma detachCurrent_spares : (detachCurrent k c slot t).SparesSleepers k := by
  unfold detachCurrent
  split
  · exact spares_same rfl List.suffix_rfl
  · exact spares_error

lemma exitStep_spares : (exitStep k c slot status).SparesSleepers k := by
  -- `futex_detach` touches no sleeper
  have hw : ∀ p : Option Nat, ((k.waiters.filter fun w => !(w.kind = .futex && some w.pid = p)).filter
      (·.kind = .sleep)).map (·.pid) = k.sleepers := by
    intro p
    rw [List.filter_filter, State.sleepers]
    refine congrArg _ (List.filter_congr fun w _ => ?_)
    cases w.kind <;> simp
  unfold exitStep
  dsimp only
  split
  · exact spares_same rfl List.suffix_rfl
  · split
    · exact spares_next (hw _) (List.suffix_cons ..)
    · exact spares_next (hw _) List.suffix_rfl
  · exact spares_next (hw _) List.suffix_rfl

lemma go_spares : (go k c ok).SparesSleepers k := by
  unfold go
  split
  case h_1 | h_2 | h_3 => exact nofun
  all_goals
    first
      | exact spares_same rfl List.suffix_rfl
      | exact spares_same rfl (List.suffix_cons ..)
      | exact spares_destroyed
      | exact enqueue_spares
      | exact detachCurrent_spares
      | exact exitStep_spares
      | ((try unfold reapRound); (try dsimp only); repeat' split) <;> first
        | exact spares_error
        | exact spares_same rfl List.suffix_rfl
        | exact spares_same rfl (List.suffix_cons ..)
        | exact spares_attached

lemma spawn_spares : (spawn k c kind back).SparesSleepers k := by
  unfold spawn
  repeat' split
  all_goals first
    | exact spares_error
    | exact spares_same rfl List.suffix_rfl

lemma filter_splitMask {α : Type} (p : α → Bool) : ∀ (xs : List α) (mask : List Bool),
    (splitMask xs mask).1.all (fun x => !p x) = true → (splitMask xs mask).2.filter p = xs.filter p
  | [], _, _ => rfl
  | x :: xs, [], _ => rfl
  | x :: xs, b :: bs, h => by
      have ih := filter_splitMask p xs bs
      cases b with
      | true =>
        simp only [splitMask, if_true, List.all_cons, Bool.and_eq_true, Bool.not_eq_true'] at h ⊢
        rw [ih h.2, List.filter_cons, h.1]
        rfl
      | false =>
        simp only [splitMask, Bool.false_eq_true, if_false] at h ⊢
        rw [List.filter_cons, List.filter_cons, ih h]

lemma consume_spares (h : (splitMask k.waiters mask).1.all (·.kind != .sleep)) :
    (consume k c mask back).SparesSleepers k := by
  have hk := filter_splitMask (fun w : Registration => decide (w.kind = .sleep)) _ _
    (by simpa [bne, beq_eq_decide] using h)
  refine spares_next ?_ (List.suffix_append ..)
  exact congrArg (List.map (·.pid)) hk

lemma userStep_spares (hm : ∀ mask, a = .consume mask → (splitMask k.waiters mask).1.all (·.kind != .sleep))
    (hk : ∀ kind key, a = .register kind key → kind ≠ .sleep) :
    (userStep k c slot a).SparesSleepers k := by
  cases a with
  | startScheduler | pop | go _ => exact nofun
  | spawn kind => exact spawn_spares
  | consume mask => exact consume_spares (hm mask rfl)
  | register kind key =>
    simp only [userStep]
    split
    · refine spares_next ?_ List.suffix_rfl
      have := hk kind key rfl
      simp [State.sleepers, State.goto, this]
    · exact spares_same rfl List.suffix_rfl
  | yield | sliceEnd | boost | exit _ | svcExit => exact spares_same rfl List.suffix_rfl
  | fork _ | createThread | exec | wait _ _ =>
    simp only [userStep, fork, wait]
    repeat' split
    all_goals first
      | exact spares_error
      | exact spares_same rfl List.suffix_rfl
      | exact spares_same rfl (List.suffix_cons ..)

lemma step_spares (hm : ∀ mask, a = .consume mask → (splitMask k.waiters mask).1.all (·.kind != .sleep))
    (hk : ∀ kind key, a = .register kind key → kind ≠ .sleep) :
    (step k c a).SparesSleepers k := by
  unfold step
  split
  · exact spawn_spares
  · exact spares_same rfl List.suffix_rfl
  · split
    · exact spares_same rfl List.suffix_rfl
    · exact spares_same rfl List.suffix_rfl
  · exact consume_spares (hm _ rfl)
  · split
    · exact spares_error
    · exact userStep_spares hm hk
  · exact go_spares
  · exact nofun

end

/-! ## The steps of the clock -/

namespace Timed

variable {t t' : Timed} {c : Nat} {a : TimedAct}

inductive Does (t : Timed) (c : Nat) : TimedAct → Timed → Prop
  | kernel {a : Act} {k : State} (hadmits : t.admits c a = true)
      (hk : Kernel.step t.kernel c a = some (.ok k)) (used called : Nat → Nat)
      (hcalled : ∀ p, called p
        = t.called p + (k.log.count (.consumed p) - t.kernel.log.count (.consumed p))) :
      Does t c (.kernel a) { t with kernel := k, sliceUsed := used, called := called }
  | tick {now : Nat} (hnow : now = (t.tickNow + 1) % 2 ^ 64) :
      Does t c .tick ({ t with tickNow := now }.enter c (.counted now))
  | drain {now : Nat} {back : Back} (hstage : t.stage c = .counted now)
      (hback : (t.kernel.task c).back? = some back) (x0 : Nat → Nat) :
      Does t c .drain ({ t with
        kernel := t.kernel.expire c ((t.expired now).map SleepEntry.pid) back
        sleepQueue := Deadline.later SleepEntry.wakeAt now t.sleepQueue
        x0 := x0
        woken := t.woken ++ (t.expired now).map fun e => Wake.mk e t.drained now
        drained := max t.drained now }.enter c (.drained now))
  | account {now : Nat} (hstage : t.stage c = .drained now) :
      Does t c .account ((t.boost now).enter c .none)
  | charge {now slot : Nat} (hstage : t.stage c = .drained now)
      (htask : t.kernel.task c = .user slot) :
      Does t c .account (((t.boost now).enter c .none).charge c slot)
  | sleep {ticks : Nat} : Does t c (.sleep ticks) (t.enter c (.sleeping t.tickNow ticks))
  | enlist {start ticks slot : Nat} {r : ProcessRecord} {k : State}
      (hstage : t.stage c = .sleeping start ticks) (htask : t.kernel.task c = .user slot)
      (hr : t.kernel.table.get slot = some r) (hroom : t.sleepQueue.length < sleepQueueCap)
      (hk : Kernel.step t.kernel c (.register .sleep 0) = some (.ok k)) {entry : SleepEntry}
      (hentry : entry = ⟨(start + ticks) % 2 ^ 64, start, r.pid⟩) :
      Does t c .enlist ({ t with
        kernel := k
        sleepQueue := Deadline.insertAt SleepEntry.wakeAt entry t.sleepQueue
        slept := t.slept ++ [(entry, ticks)] }.enter c .none)

lemma does_of_step (h : t.step c a = some (.ok t')) : t.Does c a t' := by
  cases a with
  | kernel a =>
    simp only [step, kernelStep] at h
    split at h
    next ha =>
      split at h
      · cases h
      · cases h
      next k hk =>
        cases h
        exact .kernel ha hk _ _ fun _ => rfl
    · cases h
  | tick =>
    simp only [step, tick] at h
    split at h
    · cases h
      exact .tick rfl
    · cases h
  | drain =>
    simp only [step, drain] at h
    split at h
    next now back hs hb =>
      cases h
      exact .drain hs hb _
    · cases h
  | account =>
    simp only [step, account] at h
    split at h
    next now hs _ =>
      cases h
      exact .account hs
    next now slot hs ht =>
      split at h
      · cases h
        exact .charge hs ht
      · cases h
        exact .account hs
    · cases h
  | sleep ticks =>
    simp only [step, sleep] at h
    split at h
    · cases h
      exact .sleep
    · cases h
  | enlist =>
    simp only [step, enlist] at h
    split at h
    next start ticks slot hs ht =>
      split at h
      · cases h
      next r hr =>
        split at h
        next hm =>
          split at h
          · cases h
          · cases h
          next k hk =>
            cases h
            exact .enlist hs ht hr hm hk rfl
        · cases h
    · cases h

end Timed

end ZeroOS.Kernel
