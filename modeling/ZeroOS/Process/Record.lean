import Mathlib

/-!
# Process records and the decisions taken on them

The data of `process.rs`: one `ProcessRecord` per process or thread, and the pure functions the
kernel runs on snapshots of the records while it holds the table lock: what an exit becomes, which
child a wait collects, what happens to the children of a process that leaves.

A pid is its raw 64-bit value. An `AddressSpace` handle is represented by a number that is never
reused, so that two address spaces built at different times stay distinguishable even when the
second one is given the page-table root of the first. The fields of the record that only describe
the user image (name, entry point, stack top, break, pending signals) are left out.
-/

namespace ZeroOS.Process

open List

/-- `MAX_PROCESSES`: the number of slots of the process table. -/
def maxProcesses : Nat := 256

/-- `INIT_PID`: the process that adopts orphans. -/
def initPid : Nat := 2

inductive ProcessState
  | runnable | running | blocked | dying
  | /-- Exited; the record waits for its parent to collect the exit code. -/
    zombie
  deriving DecidableEq, Repr

/-- What a suspended `WaitPid` waits for. -/
inductive WaitSpec
  | any
  | pid (pid : Nat)
  deriving DecidableEq, Repr

/-- Does this wait target cover the exit of `dying`? -/
def WaitSpec.matches : WaitSpec → Nat → Bool
  | .any, _ => true
  | .pid p, dying => p == dying

/-- Does the exit of `dying` complete the wait registered by its parent? -/
def waitWakeDecision (registration : Option WaitSpec) (dying : Nat) : Bool := registration.any (·.matches dying)

structure ProcessRecord where
  pid : Nat
  state : ProcessState
  /-- The index of the row. -/
  slot : Nat
  /-- The address space this record carries; a member thread carries none. -/
  addrSpace : Option Nat
  /-- The thread group: its own pid for a process, the creator's group for a thread. -/
  tgid : Nat
  capabilities : Nat
  /-- Set between `begin_block` and `finish_block`. -/
  blockIntent : Bool
  /-- A wake arrived while the process was still running. -/
  wakePending : Bool
  parent : Option Nat
  /-- Reparented to init by `full_reap`. -/
  adopted : Bool
  exitCode : Option Int
  waitTarget : Option WaitSpec
  session : Nat
  deriving DecidableEq, Repr

/-- `Running`, `Runnable` or `Blocked`. -/
def ProcessState.live : ProcessState → Bool
  | .runnable | .running | .blocked => true
  | .dying | .zombie => false

/-! ## Pids -/

/-- The pid after `cur`: the low 16 bits step through `2 .. 0xFFFF`, then the generation advances. -/
def nextPidRaw (cur : Nat) : Nat :=
  if cur % 2 ^ 16 + 1 > 0xFFFF then ((cur / 2 ^ 16 + 1) * 2 ^ 16 + 2) % 2 ^ 64
  else cur / 2 ^ 16 * 2 ^ 16 + (cur % 2 ^ 16 + 1)

/-- `alloc_pid`: the pid handed out and the next counter value. `none` is the `debug_assert` that
the pid still fits the 32 bits `pack_wait_result` has for it. -/
def allocPid (cur : Nat) : Option (Nat × Nat) :=
  if cur < 2 ^ 32 then some (cur, nextPidRaw cur) else none

lemma lt_nextPidRaw (h : cur < 2 ^ 32) : cur < nextPidRaw cur := by
  unfold nextPidRaw
  split <;> omega

lemma allocPid_spec {cur pid next : Nat} (h : allocPid cur = some (pid, next)) :
    pid = cur ∧ cur < next := by
  unfold allocPid at h
  split at h
  · cases h
    exact ⟨rfl, lt_nextPidRaw ‹_›⟩
  · cases h

/-! ## Exit -/

inductive ExitDisposition
  | becomeZombie
  | reapImmediately
  deriving DecidableEq, Repr

/-- Zombie only when a live parent can collect it; an adopted orphan is reaped at once. -/
def exitDisposition (parent : Option Nat) (parentAlive adopted : Bool) : ExitDisposition :=
  if adopted then .reapImmediately
  else
    match parent with
    | some _ => if parentAlive then .becomeZombie else .reapImmediately
    | none => .reapImmediately

lemma exitDisposition_zombie (h : exitDisposition parent parentAlive adopted = .becomeZombie) :
    adopted = false ∧ (∃ p, parent = some p) ∧ parentAlive = true := by
  cases adopted <;> cases parent <;> cases parentAlive <;> simp_all [exitDisposition]

/-- What happens to a record when `dying` is reaped. -/
inductive OrphanAction
  | cascadeReap
  | adoptToInit
  | ignore
  deriving DecidableEq, Repr

/-- Zombie children go with the dying process, live ones are adopted by init. -/
def orphanAction (parent : Option Nat) (state : ProcessState) (dying : Nat) : OrphanAction :=
  if parent = some dying then
    if state = .zombie then .cascadeReap else .adoptToInit
  else .ignore

/-! ## Wait -/

/-- `pack_wait_result`: pid in the high half, exit code in the low half of a 64-bit word. -/
def packWaitResult (pid : Nat) (code : Int) : Nat := pid * 2 ^ 32 % 2 ^ 64 + (code % 2 ^ 32).toNat

lemma packWaitResult_div (code : Int) (h : pid < 2 ^ 32) :
    packWaitResult pid code / 2 ^ 32 = pid := by
  unfold packWaitResult
  have h0 : 0 ≤ code % 2 ^ 32 := Int.emod_nonneg _ (by decide)
  have h1 : code % 2 ^ 32 < 2 ^ 32 := Int.emod_lt_of_pos _ (by decide)
  omega

/-- The row of a snapshot of the table. -/
structure ProcView where
  slot : Nat
  pid : Nat
  parent : Option Nat
  state : ProcessState
  exitCode : Option Int
  deriving DecidableEq, Repr

/-- The outcome of scanning the children. -/
inductive WaitDecision
  | collect (slot pid : Nat) (code : Int)
  | block
  | noChild
  deriving DecidableEq, Repr

/-- The loop of `wait_scan`; `hasLive` is its `has_live_child`. -/
def waitScanLoop (caller target : Nat) : List (Option ProcView) → Bool → WaitDecision
  | [], hasLive => if hasLive then .block else .noChild
  | none :: rest, hasLive => waitScanLoop caller target rest hasLive
  | some v :: rest, hasLive =>
    if v.parent ≠ some caller then waitScanLoop caller target rest hasLive
    else if target ≠ 0 ∧ v.pid ≠ target then waitScanLoop caller target rest hasLive
    else if v.state = .zombie then
      match v.exitCode with
      | some code => .collect v.slot v.pid code
      | none => waitScanLoop caller target rest hasLive
    else waitScanLoop caller target rest true

/-- The first collectable zombie child, else whether a live child matches. -/
def waitScan (caller target : Nat) (procs : List (Option ProcView)) : WaitDecision := waitScanLoop caller target procs false

/-- What `waitpid_step` does next. -/
inductive WaitAction
  | collect (slot packed : Nat)
  | sleep
  | pollMiss
  | noChild
  deriving DecidableEq, Repr

/-- `wait_plan`; bit 0 of `flags` is `WAIT_NOHANG`. -/
def waitPlan (caller target flags : Nat) (procs : List (Option ProcView)) : WaitAction :=
  match waitScan caller target procs with
  | .collect slot pid code => .collect slot (packWaitResult pid code)
  | .block => if flags % 2 = 1 then .pollMiss else .sleep
  | .noChild => .noChild

/-- What the scan has seen when it decides: the zombie it collects, or a live child. -/
def Decided (caller target : Nat) (procs : List (Option ProcView)) (hasLive : Bool) : WaitDecision → Prop
  | .collect slot pid code => ∃ v, some v ∈ procs ∧ v.slot = slot ∧ v.pid = pid ∧ v.parent = some caller ∧
      v.state = .zombie ∧ v.exitCode = some code ∧ (target = 0 ∨ pid = target)
  | .block => hasLive = true ∨ ∃ v, some v ∈ procs ∧ v.parent = some caller ∧ v.state ≠ .zombie ∧ (target = 0 ∨ v.pid = target)
  | .noChild => True

lemma Decided.cons (h : Decided caller target rest hasLive d) : Decided caller target (p :: rest) hasLive d := by
  cases d with
  | collect slot pid code =>
    obtain ⟨v, hv, h⟩ := h
    exact ⟨v, mem_cons_of_mem _ hv, h⟩
  | block => exact h.imp_right fun ⟨v, hv, h⟩ => ⟨v, mem_cons_of_mem _ hv, h⟩
  | noChild => trivial

lemma decided_waitScanLoop (caller target : Nat) (procs : List (Option ProcView)) (hasLive : Bool) :
    Decided caller target procs hasLive (waitScanLoop caller target procs hasLive) := by
  fun_induction waitScanLoop caller target procs hasLive with
  | case1 => exact .inl rfl
  | case2 => trivial
  | case3 _ _ ih | case4 _ _ _ _ ih | case5 _ _ _ _ _ ih | case7 _ _ _ _ _ _ _ ih => exact ih.cons
  | case6 v rest hasLive hp ht hz code hc => exact ⟨v, mem_cons_self, rfl, rfl, not_not.mp hp, hz, hc, by tauto⟩
  | case8 v rest hasLive hp ht hl ih =>
    generalize waitScanLoop caller target rest true = d at ih
    cases d with
    | collect slot pid code => exact ih.cons
    | block => exact .inr ⟨v, mem_cons_self, not_not.mp hp, hl, by tauto⟩
    | noChild => trivial

lemma Decided.of_waitScan (h : waitScan caller target procs = d) : Decided caller target procs false d :=
  h ▸ decided_waitScanLoop caller target procs false

end ZeroOS.Process
