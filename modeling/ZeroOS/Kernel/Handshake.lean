import ZeroOS.Kernel.Protocol

/-!
# The block/wake handshake

A process that blocks registers as a waiter, announces the block (`begin_block`), leaves its kernel
stack and then blocks (`finish_block`); a waker removes the registration and then calls
`request_wake`. The wake may find the process blocked, and then enqueues it, or still on its way
into the block, and is then latched; `finish_block` sees the latch and cancels the block.

Between the removal and the call the wake is in the hands of one waker.
-/

namespace ZeroOS.Kernel

open List Option Phase Transition ZeroOS.Process ZeroOS.Scheduler

variable {k k' : State} {c pid : Nat} {t : Task}

/-- The registrations of a process: entries in the waiter registries, and its `wait_target`. -/
def State.registrations (k : State) (pid : Nat) : Nat :=
  k.waiting.count pid + if (k.table.lookup pid).any (·.waitTarget.isSome) then 1 else 0

/-- The pids whose registration the CPU has consumed and that it has yet to pass to
`request_wake`. -/
def State.toWake (k : State) (c : Nat) : List Nat := (k.task c).duty.flight

/-- A registration of the process is consumed and nothing has come of it yet: a waker is about to
call `request_wake`, the wake is latched, or the waker is about to enqueue the process. -/
def State.WakeUnderWay (k : State) (pid : Nat) : Prop :=
  (∃ c, pid ∈ k.toWake c) ∨ (∃ r, k.table.lookup pid = some r ∧ r.wakePending = true) ∨
    ∃ c slot pids back, k.task c = .wakePush pid slot pids back

/-! ## What the phase says about a wake -/

lemma wakePush_iff : (t.duty.carries = some pid ∧ t.duty.woken = true) ↔
      ∃ slot pids back, t = .wakePush pid slot pids back := by
  constructor
  · rintro ⟨hc, hw⟩
    cases t with
    | wakePush q slot pids back =>
      obtain rfl : q = pid := by simpa [Task.duty] using hc
      exact ⟨slot, pids, back, rfl⟩
    | zombieDestroy slot space wake packed => cases wake <;> simp [Task.duty] at hc
    | _ => simp [Task.duty] at hw
  · rintro ⟨slot, pids, back, rfl⟩
    exact ⟨rfl, rfl⟩

lemma Agrees.wakeUnderWay_iff (h : Agrees k pid (some ψ)) :
    k.WakeUnderWay pid ↔ ψ.owed = true := by
  obtain ⟨r, hrc, -, -, ht, hd, -⟩ := h.elim
  have hf := fun c => congrArg About.flight (hd c)
  have hk := fun c => congrArg About.woken (hd c)
  have hl := ht.latch
  simp only [Duty.about, expects] at hf hk
  constructor
  · rintro (⟨c, hc⟩ | ⟨r', hr', hp⟩ | ⟨c, hc⟩)
    · have hs := count_pos_iff.mpr hc
      have hpc : ψ.place = some (.flight c) := by
        by_contra hne
        rw [State.toWake, hf c, if_neg hne] at hs
        exact lt_irrefl 0 hs
      cases ψ <;> simp_all [place, owed, Place.consumed]
    · obtain rfl := mem_unique hrc hr'
      have hpc : ψ.place = some .latch := by simpa [hp] using hl
      cases ψ <;> simp_all [place, owed, Place.consumed]
    · obtain ⟨hcr, hw⟩ := wakePush_iff.mpr hc
      have := hk c
      cases ψ <;> simp_all [owed]
  · intro ho
    have hpl : ∀ p, ψ.place = some p → p.consumed = true → k.WakeUnderWay pid := by
      intro p hp hn
      cases p with
      | flight c =>
        refine .inl ⟨c, count_pos_iff.mp ?_⟩
        rw [State.toWake, hf c, hp, if_pos rfl]
        exact Nat.one_pos
      | latch => exact .inr (.inl ⟨r, hrc, by simp [hl, hp]⟩)
      | registry | target => cases hn
    cases ψ with
    | carried c w =>
      have hw : w = true := ho
      refine .inr (.inr ⟨c, wakePush_iff.mp ?_⟩)
      simpa [hw, and_comm] using hk c
    | parking c p | blocked p => exact hpl p rfl ho
    | _ => cases ho

/-- The log accounts for every wake. A registration that was consumed has led to one enqueue or
one cancelled block, unless its wake is still under way. -/
lemma Inv.consumed_count (h : Inv k) (pid : Nat) : (k.WakeUnderWay pid → k.log.count (.consumed pid)
      = k.log.count (.enqueued pid) + k.log.count (.cancelled pid) + 1) ∧
    (¬k.WakeUnderWay pid → k.log.count (.consumed pid)
      = k.log.count (.enqueued pid) + k.log.count (.cancelled pid)) := by
  obtain ⟨φ, hφ⟩ := h.phase pid
  cases φ with
  | none =>
    cases hφ with
    | gone hrc hcr hf _ _ hl =>
      have hn : ¬k.WakeUnderWay pid := by
        rintro (⟨c, hc⟩ | ⟨r, hr, -⟩ | ⟨c, hc⟩)
        · exact hf c hc
        · rw [hrc] at hr; cases hr
        · exact hcr c (wakePush_iff.mpr hc).1
      rw [balance] at hl
      exact ⟨fun hw => absurd hw hn, fun _ => by omega⟩
  | some ψ =>
    have hb := hφ.balance_eq
    rw [hφ.wakeUnderWay_iff]
    rw [balance] at hb
    constructor <;> intro ho <;> simp only [ho] at hb <;> simp at hb <;> omega

lemma Inv.blocked (h : Inv k) (hr : k.table.lookup pid = some r) (hs : r.state = .blocked) :
    (k.registrations pid = 1 ∧ ∀ c, pid ∉ k.toWake c) ∨
    (k.registrations pid = 0 ∧ ∃ c, (k.toWake c).count pid = 1 ∧ ∀ c', c' ≠ c → pid ∉ k.toWake c') := by
  obtain ⟨φ, hφ⟩ := h.phase pid
  cases hφ with
  | gone hn => rw [hr] at hn; cases hn
  | here ψ r' hr' hft hd _ hg _ =>
    obtain rfl := mem_unique hr hr'
    have hf := fun c => congrArg About.flight (hd c)
    have ht := hft.target
    have hp := hft.placed
    have hst := hft.state
    rw [hs] at hst
    simp only [Duty.about, expects] at hf
    simp only [State.registrations, State.toWake, hr, any_some, ht, hg]
    cases ψ with
    | blocked p =>
      cases p with
      | registry | target =>
        refine .inl ⟨by simp [place], fun c hc => ?_⟩
        have := hf c
        rw [if_neg (by simp [place])] at this
        exact count_eq_zero.mp this hc
      | flight c =>
        refine .inr ⟨by simp [place], c, by simp [hf, place], fun c' hc hm => ?_⟩
        have := hf c'
        rw [if_neg (by simpa [place] using Ne.symm hc)] at this
        exact count_eq_zero.mp this hm
      | latch => exact absurd hp id
    | _ => cases hst

/-! ## Runs without exits -/

def Act.ends : Act → Bool
  | .exit _ | .svcExit => true
  | _ => false

/-- The CPU is on an exit path. -/
def Task.ending : Task → Bool
  | .exitSwitch _ _ | .exitRelease _ _ | .exitDecide _ _ | .zombieDestroy _ _ _ _ | .deliver _ _ _
  | .reapSeed _ | .reapNext _ _ | .reapTransfer _ _ _ _ | .reapDestroy _ _ _ => true
  | _ => false

/-- Whatever state the step leads to, no CPU is on an exit path there. -/
def Outcome.NoneEnding (o : Outcome) : Prop := ∀ k', o = some (.ok k') → ∀ c, (k'.task c).ending = false

lemma noneEnding_next (h : ∀ c, (k.task c).ending = false) : Outcome.NoneEnding (next k) := by
  rintro k' ⟨⟩
  exact h

lemma noneEnding_goto (h : ∀ c, (k.task c).ending = false) (hk : k'.task = k.task) (ht : t.ending = false) :
    Outcome.NoneEnding (next (k'.goto c t)) := by
  rintro k₁ ⟨⟩ c'
  by_cases hc : c' = c
  · subst hc; rw [State.goto_self]; exact ht
  · rw [State.goto_of_ne _ _ hc, hk]; exact h c'

lemma noneEnding_error : Outcome.NoneEnding (some (.error p)) := nofun

@[simp] lemma Back.task_ending (back : Back) : back.task.ending = false := by cases back <;> rfl

section

variable (h : ∀ c, (k.task c).ending = false)
include h

lemma enqueue_noneEnding (ht : t.ending = false) : (enqueue k c pid t).NoneEnding := by
  unfold enqueue
  split
  · exact noneEnding_error
  · exact noneEnding_goto h (by rfl) ht

lemma detachCurrent_noneEnding (ht : t.ending = false) : (detachCurrent k c slot t).NoneEnding := by
  unfold detachCurrent
  split
  · exact noneEnding_goto h (by rfl) ht
  · exact noneEnding_error

lemma go_noneEnding (ok : Bool) : (go k c ok).NoneEnding := by
  have hc := h c
  unfold go
  split
  case h_1 | h_2 | h_3 => exact nofun
  all_goals
    rename_i ht
    rw [ht] at hc
    first
      | cases hc; done
      | exact noneEnding_goto h (by rfl) (by rfl)
      | exact noneEnding_goto h (by cases ‹Option Nat› <;> rfl) rfl
      | exact noneEnding_goto h (by rfl) (Back.task_ending _)
      | exact enqueue_noneEnding h rfl
      | exact enqueue_noneEnding h (Back.task_ending _)
      | exact detachCurrent_noneEnding h rfl
      | ((try dsimp only); repeat' split) <;> first
        | exact noneEnding_error
        | exact noneEnding_goto h (by rfl) (by rfl)
        | exact noneEnding_goto h (by cases ‹Option Nat› <;> rfl) (by rfl)
        | exact noneEnding_goto h (by rfl) (Back.task_ending _)

lemma spawn_noneEnding : (spawn k c kind back).NoneEnding := by
  unfold spawn
  repeat' split
  all_goals first
    | exact noneEnding_error
    | exact noneEnding_next h
    | exact noneEnding_goto h (by rfl) (by rfl)

lemma userStep_noneEnding (ha : a.ends = false) : (userStep k c slot a).NoneEnding := by
  cases a with
  | exit _ | svcExit => cases ha
  | startScheduler | pop | go _ => exact nofun
  | boost => exact noneEnding_next h
  | yield | sliceEnd | consume _ => exact noneEnding_goto h (by rfl) (by rfl)
  | spawn kind => exact spawn_noneEnding h
  | register _ _ | fork _ | createThread | exec | wait _ _ =>
    simp only [userStep, fork, wait]
    repeat' split
    all_goals first
      | exact noneEnding_error
      | exact noneEnding_goto h (by rfl) (by rfl)
      | exact noneEnding_next h

lemma step_noneEnding (ha : a.ends = false) : (step k c a).NoneEnding := by
  unfold step
  split
  · exact spawn_noneEnding h
  · exact noneEnding_goto h (by rfl) (by rfl)
  · split
    · exact noneEnding_goto h (by rfl) (by rfl)
    · exact noneEnding_next h
  · exact noneEnding_goto h (by rfl) (by rfl)
  · split
    · exact noneEnding_error
    · exact userStep_noneEnding h ha
  · exact go_noneEnding h _
  · exact nofun

end

abbrev ExitFreeRun := Run (Guarded (fun _ e => e.act.ends = false) Step) State.init

lemma calm_of_ending (h : (k.task e.cpu).ending = false) : calm k e = true := by
  unfold calm
  split
  next ht => rw [ht] at h; cases h
  · rfl

lemma ExitFreeRun.calmRun (h : ExitFreeRun es k) : CalmRun es k := by
  have hn : CalmRun es k ∧ ∀ c, (k.task c).ending = false := by
    induction h with
    | nil =>
      refine ⟨.nil, fun c => ?_⟩
      simp only [State.init]
      split <;> rfl
    | snoc _ hs ih => exact ⟨ih.1.snoc ⟨calm_of_ending (ih.2 _), hs.2⟩, step_noneEnding ih.2 hs.1 _ hs.2⟩
  exact hn.1

/-- The handshake loses and doubles no wake. In every state of a run of blockers and wakers, a
blocked process whose owner is released has its one registration, or exactly one waker has consumed
it and has yet to call `request_wake`; and every consumed registration has led to exactly one
enqueue or exactly one cancelled block, but for the one whose wake is under way. -/
theorem block_wake_handshake (hrun : ExitFreeRun es k) (pid : Nat) :
    (∀ r, k.table.lookup pid = some r → r.state = .blocked → k.procs.owner r.slot = none →
      (k.registrations pid = 1 ∧ ∀ c, pid ∉ k.toWake c) ∨
      (k.registrations pid = 0 ∧ ∃ c, (k.toWake c).count pid = 1 ∧ ∀ c', c' ≠ c → pid ∉ k.toWake c')) ∧
    (k.WakeUnderWay pid → k.log.count (.consumed pid)
      = k.log.count (.enqueued pid) + k.log.count (.cancelled pid) + 1) ∧
    (¬k.WakeUnderWay pid → k.log.count (.consumed pid)
      = k.log.count (.enqueued pid) + k.log.count (.cancelled pid)) := by
  have h := hrun.calmRun.inv
  exact ⟨fun r hr hs _ => h.blocked hr hs, h.consumed_count pid⟩

def futexWait : List Event :=
  firstProcess ++ [⟨0, .register .futex 7⟩, ⟨0, .go true⟩, ⟨0, .go true⟩, ⟨0, .go true⟩]

lemma exists_exitFreeRun (es : List Event) (p : State → Bool)
    (h : (execute (fun k e => if e.act.ends then none else next? k e) State.init es).any p = true) :
    ∃ k, ExitFreeRun es k ∧ p k = true := by
  refine exists_run_of_execute (fun {k e k'} hk => ?_) h
  split at hk
  · cases hk
  · exact ⟨Bool.eq_false_of_not_eq_true ‹_›, step_of_next? hk⟩

theorem block_wake_handshake_futexWait :
    ∃ k r, ExitFreeRun futexWait k ∧ k.table.lookup 2 = some r ∧ r.state = .blocked ∧ k.procs.owner r.slot = none ∧
      ((k.registrations 2 = 1 ∧ ∀ c, 2 ∉ k.toWake c) ∨ (k.registrations 2 = 0 ∧
          ∃ c, (k.toWake c).count 2 = 1 ∧ ∀ c', c' ≠ c → 2 ∉ k.toWake c')) := by
  obtain ⟨k, hrun, hc⟩ := exists_exitFreeRun futexWait
    (fun k => (k.table.lookup 2).any fun r => r.state == .blocked && k.procs.owner r.slot == none)
    (by decide)
  obtain ⟨r, hr, hs⟩ := (Option.any_eq_true ..).mp hc
  simp only [Bool.and_eq_true, beq_iff_eq] at hs
  exact ⟨k, r, hrun, hr, hs.1, hs.2, (block_wake_handshake hrun 2).1 r hr hs.1 hs.2⟩

/-- Once a waker has removed the registration, the process is blocked without one. -/
theorem blocked_unregistered :
    ¬∀ es k pid r, ExitFreeRun es k → k.table.lookup pid = some r → r.state = .blocked →
      k.procs.owner r.slot = none → k.registrations pid = 1 := by
  intro ha
  obtain ⟨k, hrun, hc⟩ := exists_exitFreeRun (futexWait ++ [⟨1, .consume [true]⟩])
    (fun k => (k.table.lookup 2).any (fun r => r.state == .blocked && k.procs.owner r.slot == none) &&
      k.registrations 2 == 0) (by decide)
  obtain ⟨hg, hrg⟩ := Bool.and_eq_true_iff.mp hc
  obtain ⟨r, hr, hs⟩ := (Option.any_eq_true ..).mp hg
  simp only [Bool.and_eq_true, beq_iff_eq] at hs
  have := ha _ k 2 r hrun hr hs.1 hs.2
  simp [this] at hrg

/-! ## One spot for every process -/

/-- Where a pid stands while nobody executes the process. -/
inductive Spot
  | queue
  | registry
  | hands (cpu : Nat)
  | promise (cpu : Nat)

def State.At (k : State) (pid : Nat) : Spot → Prop
  | .queue => pid ∈ k.runqueue.pids
  | .registry => pid ∈ k.waiting
  | .hands c => (k.task c).duty.carries = some pid
  | .promise c => pid ∈ k.toWake c

def Phase.spot : Phase → Option Spot
  | .queued => some .queue
  | .carried c _ => some (.hands c)
  | .parking _ .registry | .blocked .registry => some .registry
  | .parking _ (.flight c) | .blocked (.flight c) => some (.promise c)
  | _ => none

lemma Agrees.spot (h : Agrees k pid (some φ)) (hx : k.At pid x) : φ.spot = some x := by
  obtain ⟨r, -, -, -, -, hd, hq, hw, -⟩ := h.elim
  cases x with
  | queue =>
    have hn := count_pos_iff.mpr hx
    have hφ : φ = .queued := by by_contra hφ; rw [hq, if_neg hφ] at hn; omega
    rw [hφ, Phase.spot]
  | registry =>
    have hn := count_pos_iff.mpr hx
    have hp : φ.place = some .registry := by by_contra hp; rw [hw, if_neg hp] at hn; omega
    cases φ <;> simp_all [Phase.place, Phase.spot]
  | hands c =>
    have hc := congrArg About.carries (hd c)
    cases φ <;> simp_all [Duty.about, Phase.expects, Phase.spot, State.At]
  | promise c =>
    have hn := count_pos_iff.mpr hx
    have hf := congrArg About.flight (hd c)
    have hp : φ.place = some (.flight c) := by
      by_contra hp
      simp only [Duty.about, Phase.expects, if_neg hp] at hf
      rw [State.toWake, hf] at hn
      omega
    cases φ <;> simp_all [Phase.place, Phase.spot]

/-- Every process is in one spot. In a calm run no pid is in two of the queues, the registries, the hands of a
CPU and its promises to wake, and none is there without a process. -/
theorem in_one_spot (hrun : CalmRun es k) (pid : Nat) :
    (∀ x y, k.At pid x → k.At pid y → x = y) ∧ ∀ x, k.At pid x → ∃ r, k.table.lookup pid = some r ∧ r.state ≠ .zombie := by
  obtain ⟨φ, h⟩ := hrun.inv.phase pid
  cases φ with
  | none =>
    have hn : ∀ x, ¬ k.At pid x := by
      cases h with
      | gone _ hc hf hq hr =>
        rintro (_ | _ | c | c)
        exacts [hq, hr, hc c, hf c]
    exact ⟨fun x _ hx => absurd hx (hn x), fun x hx => absurd hx (hn x)⟩
  | some φ =>
    refine ⟨fun x y hx hy => Option.some.inj ((h.spot hx).symm.trans (h.spot hy)), fun x hx => ?_⟩
    obtain ⟨r, hr, -, -, hf, -⟩ := h.elim
    refine ⟨r, hr, fun hz => ?_⟩
    have hs := h.spot hx
    rw [hf.state] at hz
    cases φ <;> simp_all [Phase.state, Phase.spot]

theorem in_one_spot_futexWait : ∃ k, CalmRun futexWait k ∧ k.At 2 .registry ∧ ∀ x, k.At 2 x → x = .registry := by
  obtain ⟨k, hrun, hw⟩ := exists_exitFreeRun futexWait (fun k => decide (2 ∈ k.waiting)) (by decide)
  have hw : 2 ∈ k.waiting := of_decide_eq_true hw
  exact ⟨k, hrun.calmRun, hw, fun x hx => (in_one_spot hrun.calmRun 2).1 x _ hx hw⟩

end ZeroOS.Kernel
