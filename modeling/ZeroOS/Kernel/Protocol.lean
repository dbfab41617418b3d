import ZeroOS.Kernel.Removal
import ZeroOS.Lib.Run

/-!
# The scheduling protocol

In every run of the machine in which a cascade of `full_reap` never comes back to a slot that has
been reused, the invariant of `ZeroOS.Kernel.Phase` holds in every state, and no assertion of the
dispatch, yield, block, wake and exit paths fires.
-/

namespace ZeroOS.Kernel

open Option State Transition ZeroOS.Process ZeroOS.Scheduler

/-- A round of `full_reap` for a cascaded zombie finds the slot still empty. The zombie's record was
removed in an earlier round, so the slot is empty unless another CPU has put a new process there. -/
def calm (k : State) (e : Event) : Bool :=
  match k.task e.cpu with
  | .reapNext _ (s :: _) => (k.table.get s).isNone
  | _ => true

lemma go_safe (h : Inv k) (hc : calm k ⟨c, .go ok⟩) : (go k c ok).Safe := by
  cases ht : k.task c with
  | boot | sched | user _ => simp only [go, ht]; trivial
  | dispatching pid => exact dispatching_safe h ht
  | entering slot | activating slot | execActivate slot space old =>
    simp only [go, ht]
    exact h.congr rfl rfl rfl rfl (fun _ => rfl) (duty_goto (ht ▸ rfl))
  | registered slot => exact registered_safe h ht
  | blockSwitch slot | yieldSwitch slot | exitSwitch slot status =>
    simp only [go, ht]
    exact detachCurrent_safe h (ht ▸ rfl)
  | blockFinish slot => exact blockFinish_safe h ht
  | requeue pid =>
    simp only [go, ht]
    exact enqueue_safe h (ht ▸ rfl) (ht ▸ rfl) (ht ▸ rfl) (ht ▸ rfl)
  | yieldRelease slot => exact yieldRelease_safe h ht
  | yieldPush pid slot =>
    simp only [go, ht]
    have hd : (k.task c).duty.carries = some pid := by rw [ht]; rfl
    refine h.push_safe (t := .sched) hd (ht ▸ rfl) rfl (ht ▸ rfl) (fun _ _ => rfl) ?_
      fun _ hq => hq.congr rfl rfl rfl rfl (fun _ => rfl) fun _ => rfl
    simpa [ht, Task.duty] using h.balance_carries hd
  | waking pids back =>
    cases pids with
    | nil => simp only [go, ht]; exact h.goto (by rw [ht]; cases back <;> rfl)
    | cons pid pids => exact waking_safe h ht
  | wakePush pid slot pids back =>
    simp only [go, ht]
    have hd : (k.task c).duty.carries = some pid := by rw [ht]; rfl
    have hb := h.balance_carries hd
    refine h.push_safe (t := .waking pids back) (l := .enqueued pid :: k.log) hd
      (by rw [ht]; cases back <;> rfl) rfl (by rw [ht]; cases back <;> rfl)
      (fun p hp => by simp [Ne.symm hp]) ?_
      fun _ hq => hq.congr rfl rfl rfl rfl (fun _ => rfl) fun _ => rfl
    rw [ht] at hb
    simp [hb, Task.duty]
  | enqueueing pid back =>
    simp only [go, ht]
    exact enqueue_safe h (ht ▸ rfl) (by rw [ht]; cases back <;> rfl)
      (by rw [ht]; cases back <;> rfl) (by rw [ht]; cases back <;> rfl)
  | spawnBuild slot pid parent back => exact spawnBuild_safe h ht
  | spawnParent pid parent back => exact spawnParent_safe h ht
  | forkInsert slot parent pid space => exact forkInsert_safe h ht
  | threadCheck slot parent => exact threadCheck_safe h ht
  | threadInsert slot parent pid => exact threadInsert_safe h ht
  | execBuild slot =>
    simp only [go, ht]
    split
    · exact h.congr rfl rfl rfl rfl (fun _ => rfl) (duty_goto (ht ▸ rfl))
    · exact h.goto (ht ▸ rfl)
  | execRebind slot space => exact execRebind_safe h ht
  | execDestroy slot old | waitDestroy slot old =>
    simp only [go, ht]
    exact (h.goto (t := .user slot) (by rw [ht]; rfl)).congr (by cases old <;> rfl)
      (by cases old <;> rfl) (by cases old <;> rfl) (by cases old <;> rfl)
      (fun _ => by cases old <;> rfl) fun _ => by cases old <;> rfl
  | exitRelease slot status => exact exitRelease_safe h ht
  | exitDecide slot status => exact exitDecide_safe h ht
  | zombieDestroy slot space wake packed =>
    simp only [go, ht]
    cases wake with
    | none =>
      exact (h.goto (t := .sched) (by rw [ht]; rfl)).congr (by cases space <;> rfl)
        (by cases space <;> rfl) (by cases space <;> rfl) (by cases space <;> rfl)
        (fun _ => by cases space <;> rfl) fun _ => by cases space <;> rfl
    | some w =>
      exact (h.goto (t := .deliver slot w.2 packed) (by rw [ht]; rfl)).congr
        (by cases space <;> rfl) (by cases space <;> rfl) (by cases space <;> rfl)
        (by cases space <;> rfl) (fun _ => by cases space <;> rfl) fun _ => by cases space <;> rfl
  | deliver slot parent packed => exact deliver_safe h ht
  | reapSeed seed => exact reapSeed_safe h ht
  | reapNext seed stack =>
    cases stack with
    | nil =>
      simp only [go, ht]
      exact h.congr rfl rfl rfl rfl (fun _ => rfl) (duty_goto (ht ▸ rfl))
    | cons s stack =>
      have hs : k.table.get s = none := by simpa [calm, ht] using hc
      simp only [go, ht, reapRound, ProcessTable.reapOne, hs]
      exact h.goto (ht ▸ rfl)
  | reapTransfer seed stack record casc =>
    simp only [go, ht]
    exact h.recore (fun i => core_transfer rfl i) (ht ▸ rfl)
  | reapDestroy seed stack pending =>
    cases pending with
    | nil => simp only [go, ht]; exact h.goto (ht ▸ rfl)
    | cons space pending =>
      simp only [go, ht]
      exact (h.goto (t := .reapDestroy seed stack pending) (ht ▸ rfl)).congr rfl rfl rfl rfl
        (fun _ => rfl) fun _ => rfl

lemma userStep_safe (h : Inv k) (ht : k.task c = .user slot) (a : Act) : (userStep k c slot a).Safe := by
  cases a with
  | spawn kind => exact spawn_safe h (ht ▸ rfl) kind
  | consume mask => exact consume_safe h (ht ▸ rfl) mask
  | yield | exit status | svcExit => exact h.goto (ht ▸ rfl)
  | sliceEnd => exact h.congr rfl rfl rfl rfl (fun _ => rfl) (duty_goto (ht ▸ rfl))
  | boost => exact h.congr rfl rfl rfl rfl (fun _ => rfl) fun _ => rfl
  | register kind key => exact register_safe h ht kind key
  | fork clones => exact fork_safe h ht clones
  | createThread | exec =>
    simp only [userStep]
    split
    · exact h.goto (ht ▸ rfl)
    · exact h
  | wait target flags => exact wait_safe h ht target flags
  | startScheduler => trivial
  | pop => trivial
  | go _ => trivial

lemma step_safe (h : Inv k) (a : Act) (hc : calm k ⟨c, a⟩) : (step k c a).Safe := by
  unfold step
  split
  next ht => exact spawn_safe h (ht ▸ rfl) _
  next ht => exact h.goto (ht ▸ rfl)
  next ht => simpa only [step, ht] using pop_safe h ht
  next ht => exact consume_safe h (ht ▸ rfl) _
  next slot a ht =>
    split
    · exact .inr (.inr rfl)
    · exact userStep_safe h ht _
  next ok _ => exact go_safe h hc
  · trivial

/-! ## Runs -/

lemma init_duty (c : Nat) : (State.init.task c).duty = {} := by
  simp only [init]
  split <;> rfl

lemma init_get : State.init.table.get i ≠ some r :=
  fun h => nomatch (show (none : Option ProcessRecord) = some r from h)

lemma Inv.init : Inv State.init where
  unique i j r r' hr := absurd hr init_get
  phase pid := by
    refine ⟨none, .gone rfl (fun c => ?_) (fun c => ?_) ?_ ?_ rfl⟩
    · simp [init_duty]
    · simp [init_duty]
    · simp [State.init]
    · simp [State.init, State.waiting]
  sound c := init_duty c ▸ .unbound
  pid_lt hr := absurd hr init_get
  reserved_inj {c c' pid} h := by rw [init_duty] at h; cases h
  free_unowned _ := rfl

abbrev CalmRun := Run (Guarded (fun k e => calm k e) Step) State.init

lemma CalmRun.inv (h : CalmRun es k) : Inv k := by
  refine Run.invariant (fun k e k' hk ht => ?_) h Inv.init
  have hs := step_safe hk e.act ht.1
  rw [show step k e.cpu e.act = some (.ok k') from ht.2] at hs
  exact hs

def next? (k : State) (e : Event) : Option State :=
  match step k e.cpu e.act with
  | some (.ok k') => some k'
  | _ => none

lemma step_of_next? (h : next? k e = some k') : Step k e k' := by
  unfold next? at h
  split at h
  · rw [Step, ‹step k e.cpu e.act = _›, some.inj h]
  · cases h

lemma exists_run (es : List Event) (p : State → Bool)
    (h : (execute next? State.init es).any p = true) : ∃ k, Run Step State.init es k ∧ p k = true :=
  exists_run_of_execute step_of_next? h

lemma exists_guardedRun (ok : State → Event → Bool) (es : List Event) (p : State → Bool)
    (h : (execute (guardedNext ok next?) State.init es).any p = true) :
    ∃ k, Run (Guarded (fun k e => ok k e = true) Step) State.init es k ∧ p k = true :=
  exists_guardedRun_of_execute id step_of_next? h

/-! ## Ownership -/

/-- The CPU executes on the trap frame and the kernel stack of the slot. -/
def State.runsOn (k : State) (c slot : Nat) : Prop := (k.task c).duty.owns = some slot

/-- The CPU has dropped the owner word of the exiting process at the slot and has yet to turn the
record into a zombie or remove it. -/
def State.exits (k : State) (c slot : Nat) : Prop := (k.task c).duty.leaves = some slot

lemma Inv.running (h : Inv k) (hr : k.table.get s = some r) (hs : r.state = .running) :
    (∃ c, k.procs.owner s = some c ∧ ∀ c', k.runsOn c' s ↔ c' = c) ∨
    (k.procs.owner s = none ∧ ∃ c, ∀ c', k.exits c' s ↔ c' = c) := by
  obtain ⟨ψ, -, hf, ha⟩ := h.phase_of_get hr
  have ht := hf.state
  have ho := hf.owner_eq
  have hos := fun c' => congrArg About.owns (ha c')
  have hl := fun c' => congrArg About.leaves (ha c')
  rw [hs] at ht
  cases ψ with
  | running c | parking c p =>
    refine .inl ⟨c, ho, fun c' => ?_⟩
    refine Iff.trans ?_ eq_comm
    simpa [runsOn, Duty.about, Phase.expects, Phase.owner] using hos c'
  | leaving c =>
    refine .inr ⟨ho, c, fun c' => ?_⟩
    refine Iff.trans ?_ eq_comm
    simpa [exits, Duty.about, Phase.expects] using hl c'
  | _ => cases ht

lemma Inv.panic (h : Inv k) (hp : step k c a = some (.error p)) :
    p = .pidSpace ∨ p = .detachMismatch ∨ p = .noCurrent := by
  by_cases hc : calm k ⟨c, a⟩
  · have hs := step_safe h a hc
    rwa [hp] at hs
  · -- a round of `full_reap` asserts nothing
    unfold calm at hc
    split at hc
    next seed s stack ht =>
      have ht' : k.task c = .reapNext seed (s :: stack) := ht
      cases a with
      | go ok =>
        simp only [step, ht', go, reapRound] at hp
        split at hp <;> cases hp
      | _ => simp [step, ht'] at hp
    · exact absurd rfl hc

/-- Scheduling ownership. In every state of a calm run: runnable and blocked processes are
unowned; a running process is owned by the one CPU that executes on its slot, or is exiting, its
owner word dropped by the one CPU that works on its exit; no slot has two CPUs on it; no pid is
queued twice; and no assertion of the scheduling paths can fire. -/
theorem ownership_protocol (hrun : CalmRun es k) :
    (∀ s r, k.table.get s = some r → r.state = .runnable ∨ r.state = .blocked → k.procs.owner s = none) ∧
    (∀ s r, k.table.get s = some r → r.state = .running → (∃ c, k.procs.owner s = some c ∧ ∀ c', k.runsOn c' s ↔ c' = c) ∨
      (k.procs.owner s = none ∧ ∃ c, ∀ c', k.exits c' s ↔ c' = c)) ∧
    (∀ c c' s, k.runsOn c s → k.runsOn c' s → c = c') ∧
    k.runqueue.pids.Nodup ∧
    ∀ c a p, step k c a = some (.error p) → p = .pidSpace ∨ p = .detachMismatch ∨ p = .noCurrent := by
  have h := hrun.inv
  refine ⟨fun s r hr hs => ?_, fun s r hr hs => h.running hr hs, fun c c' s hc hc' => ?_, ?_,
    fun c a p hp => h.panic hp⟩
  · obtain ⟨ψ, -, hf, -⟩ := h.phase_of_get hr
    rw [hf.owner_eq]
    rw [hf.state] at hs
    cases ψ <;> simp_all [Phase.state, Phase.owner]
  · obtain ⟨r, -, ho, -⟩ := h.of_owns rfl hc
    obtain ⟨r', -, ho', -⟩ := h.of_owns rfl hc'
    exact mem_unique ho ho'
  · refine List.nodup_iff_count_le_one.mpr fun pid => ?_
    by_cases hp : pid ∈ k.runqueue.pids
    · obtain ⟨-, -, -, -, -, -, hn, -⟩ := (h.of_queue hp).elim
      simp [hn]
    · rw [List.count_eq_zero.mpr hp]
      exact Nat.zero_le 1

def firstProcess : List Event := [⟨0, .spawn .kernelFn⟩, ⟨0, .go true⟩, ⟨0, .startScheduler⟩, ⟨0, .pop⟩, ⟨0, .go true⟩,
    ⟨0, .go true⟩, ⟨0, .go true⟩]

theorem ownership_protocol_firstProcess : ∃ k r, CalmRun firstProcess k ∧ k.table.get 0 = some r ∧ r.state = .running ∧
      ((∃ c, k.procs.owner 0 = some c ∧ ∀ c', k.runsOn c' 0 ↔ c' = c) ∨
        (k.procs.owner 0 = none ∧ ∃ c, ∀ c', k.exits c' 0 ↔ c' = c)) := by
  obtain ⟨k, hrun, hg⟩ := exists_guardedRun calm firstProcess
    (fun k => (k.table.get 0).any (·.state == .running)) (by decide)
  obtain ⟨r, hr, hs⟩ := (any_eq_true ..).mp hg
  have hs : r.state = .running := by simpa using hs
  exact ⟨k, r, hrun, hr, hs, (ownership_protocol hrun).2.1 0 r hr hs⟩

/-- While a process exits, it is running and nobody owns it. -/
theorem exiting_unowned :
    ¬∀ es k s r, Run Step State.init es k → k.table.get s = some r → r.state = .running → ∃ c, k.procs.owner s = some c := by
  intro ha
  obtain ⟨k, hrun, hh⟩ := exists_run
    (firstProcess ++ [⟨0, .svcExit⟩, ⟨0, .go true⟩, ⟨0, .go true⟩])
    (fun k => (k.table.get 0).any (·.state == .running) && k.procs.owner 0 == none) (by decide)
  obtain ⟨hg, ho⟩ := Bool.and_eq_true_iff.mp hh
  obtain ⟨r, hr, hs⟩ := (any_eq_true ..).mp hg
  obtain ⟨c, hc⟩ := ha _ k 0 r hrun hr (by simpa using hs)
  simp [hc] at ho

end ZeroOS.Kernel
