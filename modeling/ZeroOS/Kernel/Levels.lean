import ZeroOS.Kernel.Pedigree
import ZeroOS.Kernel.Ticking
import ZeroOS.Kernel.Waiting

/-!
# Levels and run queues

`PROC_LEVEL` says at which level of the run queue a process belongs, and the queue a pid is in says
at which level it is. The two are written in different places: a push and the store before it go
together, but the priority boost stores level 0 for runnable processes without moving their pids,
and looks at the first 64 slots only.
-/

namespace ZeroOS.Kernel

open Option State Transition ZeroOS.Process ZeroOS.Scheduler Except Bool
open Function (update)

variable {k k' : State} {c : Nat} {a : Act} {t : Task} {pid slot : Nat} {ok : Bool} {back : Back}

/-- The level of every queued process is that of the queue its pid is in. -/
def State.Coherent (k : State) : Prop :=
  ∀ slot r l, k.table.get slot = some r → r.pid ∈ (k.runqueue.levels l).toList → k.level slot = l

def topLevel : Fin mlfqLevels := ⟨0, by decide⟩

/-- Every runnable process is in the queue of level 0. -/
def State.TopQueued (k : State) : Prop := ∀ slot r, k.table.get slot = some r → r.state = .runnable →
    r.pid ∈ (k.runqueue.levels topLevel).toList

/-! ## What a step does to the queues -/

/-- The process, and its slot, that the CPU pushes next. -/
def Task.seat : Task → Option (Nat × Nat)
  | .yieldPush pid slot | .wakePush pid slot _ _ => some (pid, slot)
  | _ => none

/-- What a step does to the run queues and the levels. -/
inductive Queues (k : State) (c : Nat) (k' : State) : Prop
  | same (hq : k'.runqueue = k.runqueue) (hl : k'.level = k.level)
  | pushed {pid slot level : Nat} (hcarry : (k.task c).duty.carries = some pid)
      (hseat : (k.task c).seat = some (pid, slot) ∨ ∃ r, k.table.lookup pid = some r ∧ r.slot = slot)
      (hlevel : level < mlfqLevels) (hq : k.runqueue.pushAt pid level = some k'.runqueue)
      (hl : k'.level = update k.level slot level)
  | popped {pid : Nat} (hq : k.runqueue.pop = (some pid, k'.runqueue)) (hl : k'.level = k.level)

/-- Wherever the step leads, it does one of these to the queues. -/
def Outcome.Queues (k : State) (c : Nat) (o : Outcome) : Prop := ∀ k', o = some (.ok k') → Kernel.Queues k c k'

lemma queues_same (hq : k'.runqueue = k.runqueue) (hl : k'.level = k.level) :
    Outcome.Queues k c (next k') := by
  rintro _ ⟨⟩
  exact .same hq hl

lemma queues_error : Outcome.Queues k c (some (.error p)) := nofun

lemma queues_destroyed :
    Outcome.Queues k c (next ((k.noteDestroyed o).goto c t)) := by
  cases o <;> exact queues_same rfl rfl

lemma queues_attached :
    Outcome.Queues k c (next (({ k with procs := p }.noteAttached o).goto c t)) := by
  cases o <;> exact queues_same rfl rfl

lemma enqueue_queues (h : Inv k) (hc : (k.task c).duty.carries = some pid) : (enqueue k c pid t).Queues k c := by
  obtain ⟨r, hr, -⟩ := (h.of_carries hc).elim
  unfold enqueue
  split
  · exact queues_error
  next q hq =>
    rintro _ ⟨⟩
    exact .pushed hc (.inr ⟨r, hr, rfl⟩) (by decide) hq (by simp [goto, hr])

lemma detachCurrent_queues : (detachCurrent k c slot t).Queues k c := by
  unfold detachCurrent
  split
  · exact queues_same rfl rfl
  · exact queues_error

lemma exitStep_queues : (exitStep k c slot status).Queues k c := by
  unfold exitStep
  dsimp only
  split
  · exact queues_same rfl rfl
  · split <;> exact queues_same rfl rfl
  · exact queues_same rfl rfl

lemma go_queues (h : Inv k) : (go k c ok).Queues k c := by
  unfold go
  split
  case h_1 | h_2 | h_3 => exact nofun
  all_goals
    first
      | exact queues_same rfl rfl
      | exact queues_destroyed
      | exact detachCurrent_queues
      | exact exitStep_queues
      | exact enqueue_queues h (by rw [‹k.task c = _›]; rfl)
      | ((try unfold reapRound); (try dsimp only); repeat' split) <;> first
        | exact queues_error
        | exact queues_same rfl rfl
        | exact queues_attached
        | (rintro _ ⟨⟩
           refine .pushed (by rw [‹k.task c = _›]; rfl) (.inl (by rw [‹k.task c = _›]; rfl)) ?_ ‹_› rfl
           simp [mlfqLevels])

lemma spawn_queues : (spawn k c kind back).Queues k c := by
  unfold spawn
  repeat' split
  all_goals first
    | exact queues_error
    | exact queues_same rfl rfl

lemma userStep_queues (hs : a ≠ .sliceEnd) (hb : a ≠ .boost) : (userStep k c slot a).Queues k c := by
  cases a with
  | startScheduler | pop | go _ => exact nofun
  | sliceEnd => exact absurd rfl hs
  | boost => exact absurd rfl hb
  | spawn kind => exact spawn_queues
  | yield | exit _ | svcExit | consume _ => exact queues_same rfl rfl
  | register _ _ | fork _ | createThread | exec | wait _ _ =>
    simp only [userStep, fork, wait]
    repeat' split
    all_goals first
      | exact queues_error
      | exact queues_same rfl rfl

lemma step_queues (h : Inv k) (hs : a ≠ .sliceEnd) (hb : a ≠ .boost) : (step k c a).Queues k c := by
  unfold step
  split
  · exact spawn_queues
  · exact queues_same rfl rfl
  · split
    next pid q hq =>
      rintro _ ⟨⟩
      exact .popped hq rfl
    · exact queues_same rfl rfl
  · exact queues_same rfl rfl
  · split
    · exact queues_error
    · exact userStep_queues hs hb
  · exact go_queues h
  · exact nofun

/-! ## Rows stay where they are -/

/-- Every record with a pid that the table had before is where it was. -/
def Stays (k k' : State) : Prop :=
  ∀ slot r' s r, k'.table.get slot = some r' → k.table.get s = some r → r.pid = r'.pid → s = slot

lemma stays_of_table (h : Inv k) (ht : k'.table = k.table) : Stays k k' := by
  intro slot r' s r hr' hr hp
  rw [ht] at hr'
  exact h.unique _ _ _ _ hr hr' hp

lemma step_stays (h : Inv k) (hc : calm k ⟨c, a⟩) (hs : step k c a = some (.ok k')) :
    Stays k k' := by
  intro slot r' s r hr' hr hd
  have hl := step_life (e := ⟨c, a⟩) h hc hs
  rcases hl.row_new (row_of_get hr') with ⟨m, hm, hp, -⟩ | ⟨-, -, hb⟩
  · obtain ⟨q, hq, rfl⟩ := map_eq_some_iff.mp hm
    exact h.unique _ _ _ _ hr hq (hd.trans hp)
  · -- a new row has a pid that was not in the table
    have hrs : ∀ p, (k.task c).hand.reserved = some p → k.table.lookup p = none := fun p hp =>
      ((h.sound c).reserved p (Task.hand_reserved _ ▸ hp)).2
    cases hb with
    | spawned hp => exact absurd (h.pid_lt hr) (by rw [hd]; exact not_lt.mpr (le_of_eq hp.symm))
    | forked hp | thread hp => exact absurd hd (ProcessTable.lookup_eq_none (hrs _ hp) hr)

/-! ## Seats -/

/-- A CPU that is about to push a process has the slot of that process. -/
def State.Seated (k : State) : Prop :=
  ∀ c pid slot, (k.task c).seat = some (pid, slot) → ∃ r, k.table.get slot = some r ∧ r.pid = pid

/-- Whatever state the step leads to, a CPU that is about to push there has the slot of the process
from the table before. -/
def Outcome.Seats (k : State) (c : Nat) (o : Outcome) : Prop :=
  ∀ k', o = some (.ok k') → ∀ pid slot, (k'.task c).seat = some (pid, slot) → ∃ r, k.table.get slot = some r ∧ r.pid = pid

lemma seats_goto (ht : t.seat = none) : Outcome.Seats k c (next (k'.goto c t)) := by
  rintro _ ⟨⟩ pid slot hs
  rw [goto_self, ht] at hs
  cases hs

lemma seats_stay (ht : (k'.task c).seat = none) : Outcome.Seats k c (next k') := by
  rintro _ ⟨⟩ pid slot hs
  rw [ht] at hs
  cases hs

lemma seats_error : Outcome.Seats k c (some (.error p)) := nofun

@[simp] lemma Back.task_seat (back : Back) : back.task.seat = none := by cases back <;> rfl

lemma enqueue_seats (ht : t.seat = none) : (enqueue k c pid t).Seats k c := by
  unfold enqueue
  split
  · exact seats_error
  · exact seats_goto ht

lemma detachCurrent_seats (ht : t.seat = none) : (detachCurrent k c slot t).Seats k c := by
  unfold detachCurrent
  split
  · exact seats_goto ht
  · exact seats_error

lemma yieldRelease_seats (ht : k.task c = .yieldRelease slot) : (go k c ok).Seats k c := by
  simp only [go, ht]
  split
  · exact seats_error
  next pid procs hp =>
    rintro _ ⟨⟩ pid' slot' hs
    rw [goto_self] at hs
    obtain ⟨rfl, rfl⟩ : pid = pid' ∧ slot = slot' := by simpa [Task.seat] using hs
    exact Procs.releaseRunning_some hp
  · exact seats_goto rfl

lemma waking_seats (ht : k.task c = .waking (pid :: pids) back) : (go k c ok).Seats k c := by
  simp only [go, ht]
  split
  · exact seats_error
  next pid' slot procs hp =>
    rintro _ ⟨⟩ p s hs
    rw [goto_self] at hs
    obtain ⟨rfl, rfl⟩ : pid' = p ∧ slot = s := by simpa [Task.seat] using hs
    obtain ⟨r, hr, hd, -, -, hw, -⟩ | ⟨_, _, _, _, hw, -⟩ | ⟨hw, -⟩ := Procs.requestWake_cases hp
    · cases hw
      exact ⟨r, hr, hd⟩
    · cases hw
    · cases hw
  · exact seats_goto rfl

lemma exitStep_seats : (exitStep k c slot status).Seats k c := by
  unfold exitStep
  dsimp only
  split
  · exact seats_goto rfl
  · split <;> exact seats_goto rfl
  · exact seats_goto rfl

lemma go_seats : (go k c ok).Seats k c := by
  cases ht : k.task c with
  | boot | sched | user _ => simp only [go, ht]; rintro _ ⟨⟩
  | yieldRelease slot => exact yieldRelease_seats ht
  | waking pids back =>
    cases pids with
    | nil => simp only [go, ht]; exact seats_goto (by simp)
    | cons pid pids => exact waking_seats ht
  | reapNext seed stack =>
    cases stack with
    | nil => simp only [go, ht]; exact seats_goto rfl
    | cons s stack =>
      simp only [go, ht, reapRound]
      split <;> exact seats_goto rfl
  | reapDestroy seed stack pending => cases pending <;> simp only [go, ht] <;> exact seats_goto rfl
  | exitDecide slot status => simp only [go, ht]; exact exitStep_seats
  | requeue _ => simp only [go, ht]; exact enqueue_seats rfl
  | enqueueing _ _ => simp only [go, ht]; exact enqueue_seats (by simp)
  | blockSwitch _ | yieldSwitch _ | exitSwitch _ _ => simp only [go, ht]; exact detachCurrent_seats rfl
  | zombieDestroy slot space wake packed => simp only [go, ht]; cases wake <;> exact seats_goto rfl
  | exitRelease slot status =>
    simp only [go, ht]
    split
    · exact seats_error
    · cases status <;> exact seats_goto rfl
  | _ =>
    simp only [go, ht, reapRound]
    repeat' split
    all_goals first
      | exact seats_error
      | exact seats_goto rfl
      | exact seats_goto (by simp)

lemma spawn_seats (ht : (k.task c).seat = none) : (spawn k c kind back).Seats k c := by
  unfold spawn
  split
  · exact seats_error
  · split
    · exact seats_stay ht
    · cases kind <;> exact seats_goto rfl

lemma userStep_seats (ht : (k.task c).seat = none) : (userStep k c slot a).Seats k c := by
  cases a with
  | startScheduler | pop | go _ => exact nofun
  | spawn kind => exact spawn_seats ht
  | boost => exact seats_stay ht
  | yield | sliceEnd | exit _ | svcExit | consume _ => exact seats_goto rfl
  | register _ _ | fork _ | createThread | exec | wait _ _ =>
    simp only [userStep, fork, wait]
    repeat' split
    all_goals first
      | exact seats_error
      | exact seats_goto rfl
      | exact seats_stay ht

lemma step_seats : (step k c a).Seats k c := by
  unfold step
  split
  next ht => exact spawn_seats (ht ▸ rfl)
  · exact seats_goto rfl
  next ht =>
    split
    · exact seats_goto rfl
    · exact seats_stay (by rw [show _ = _ from ht]; rfl)
  · exact seats_goto rfl
  next ht =>
    split
    · exact seats_error
    · exact userStep_seats (ht ▸ rfl)
  · exact go_seats
  · exact nofun

lemma Task.carries_of_seat (h : t.seat = some (pid, slot)) :
    t.duty.carries = some pid := by
  cases t <;> simp_all [Task.seat, Task.duty]

lemma State.Seated.of_stays (h : Inv k') (hy : Stays k k') (ht : ∀ c pid slot, (k'.task c).seat = some (pid, slot) →
      ∃ r, k.table.get slot = some r ∧ r.pid = pid) : k'.Seated := by
  intro c pid slot hs
  obtain ⟨r, hr, hp⟩ := ht c pid slot hs
  obtain ⟨r', -, hr', hp', -⟩ := (h.of_carries (Task.carries_of_seat hs)).elim
  obtain rfl := hy _ _ _ _ hr' hr (hp.trans hp'.symm)
  exact ⟨r', hr', hp'⟩

lemma State.Seated.step (ht : k.Seated) (h : Inv k) (hl : calm k ⟨c, a⟩)
    (hp : step k c a = some (.ok k')) (h' : Inv k') : k'.Seated := by
  refine .of_stays h' (step_stays h hl hp) fun c' pid slot hs => ?_
  by_cases hc : c' = c
  · subst hc
    exact step_seats k' hp pid slot hs
  · have hw := step_waits (e := ⟨c, a⟩) h hl hp
    rw [hw.others hc] at hs
    exact ht c' pid slot hs

lemma State.Seated.goto (h : k.Seated) (hk : k'.task = k.task) (ht : k'.table = k.table)
    (hu : u.seat = none) : (k'.goto c u).Seated := by
  intro c' pid slot hs
  by_cases hc : c' = c
  · subst hc
    rw [goto_self, hu] at hs
    cases hs
  · rw [goto_of_ne _ _ hc, hk] at hs
    obtain ⟨r, hr, hp⟩ := h c' pid slot hs
    exact ⟨r, by rw [← ht] at hr; exact hr, hp⟩

/-! ## Coherence -/

lemma Inv.not_queued (h : Inv k) (hd : (k.task c).duty.carries = some pid) :
    pid ∉ k.runqueue.pids := by
  obtain ⟨r, -, -, -, -, -, hc, -⟩ := (h.of_carries hd).elim
  exact List.count_eq_zero.mp (by simpa using hc)

lemma Inv.row_of_queued (h : Inv k) (hp : pid ∈ (k.runqueue.levels l).toList) :
    ∃ s r, k.table.get s = some r ∧ r.pid = pid := by
  obtain ⟨r, -, hr, hd, -⟩ := (h.of_queue (Mlfq.mem_pids.mpr ⟨l, hp⟩)).elim
  exact ⟨_, r, hr, hd⟩

section

variable (hco : k.Coherent)
include hco

lemma State.Coherent.of_stays (h : Inv k) (hs : Stays k k')
    (hq : ∀ l p, p ∈ (k'.runqueue.levels l).toList → p ∈ (k.runqueue.levels l).toList)
    (hl : ∀ slot r, k.table.get slot = some r → r.pid ∈ k.runqueue.pids → k'.level slot = k.level slot) :
    k'.Coherent := by
  intro slot r' l hr' hp
  have ho := hq l _ hp
  obtain ⟨s, r, hr, hd⟩ := h.row_of_queued ho
  obtain rfl := hs _ _ _ _ hr' hr hd
  have hm : r.pid ∈ (k.runqueue.levels l).toList := hd ▸ ho
  rw [hl s r hr (Mlfq.mem_pids.mpr ⟨l, hm⟩)]
  exact hco s r l hr hm

lemma State.Coherent.pushed (h : Inv k) (hs : Stays k k') {level : Nat}
    (hc : (k.task c).duty.carries = some pid) (hw : ∃ r, k.table.get slot = some r ∧ r.pid = pid)
    (hv : level < mlfqLevels) (hq : k.runqueue.pushAt pid level = some k'.runqueue)
    (hl : k'.level = update k.level slot level) : k'.Coherent := by
  intro s r' l hr' hp
  obtain ⟨q, hg, hd⟩ := hw
  rcases (Mlfq.mem_level_pushAt hq).mp hp with ho | ⟨rfl, hn⟩
  · obtain ⟨s', r, hr, hrp⟩ := h.row_of_queued ho
    obtain rfl := hs _ _ _ _ hr' hr hrp
    have hne : s' ≠ slot := by
      rintro rfl
      obtain rfl := mem_unique hr hg
      exact h.not_queued hc (Mlfq.mem_pids.mpr ⟨l, by rw [← hd, hrp]; exact ho⟩)
    rw [hl, Function.update_of_ne hne]
    exact hco s' r l hr (hrp ▸ ho)
  · obtain rfl := hs _ _ _ _ hr' hg (hd.trans hn.symm)
    rw [hl, Function.update_self]
    simp only [Mlfq.clamp]
    unfold mlfqLevels at hv ⊢
    omega

lemma State.Coherent.step (ht : k.Seated) (h : Inv k) (hc : calm k ⟨c, a⟩) (hsl : a ≠ .sliceEnd)
    (hb : a ≠ .boost) (hsp : step k c a = some (.ok k')) : k'.Coherent := by
  have hy := step_stays h hc hsp
  cases step_queues h hsl hb k' hsp with
  | same hq hl => exact hco.of_stays h hy (fun l p hp => hq ▸ hp) fun _ _ _ _ => by rw [hl]
  | popped hq hl =>
    exact hco.of_stays h hy (fun l p hp => Mlfq.mem_level_of_pop hq hp)
      fun _ _ _ _ => by rw [hl]
  | pushed hcr hs hv hq hl =>
    refine hco.pushed h hy hcr ?_ hv hq hl
    rcases hs with hs | ⟨r, hr, rfl⟩
    · exact ht c _ _ hs
    · exact ⟨r, ProcessTable.lookup_eq_some hr⟩

lemma State.Coherent.sliced (h : Inv k) {level : Nat} (ht : k.task c = .user slot) :
    State.Coherent ({ k with level := update k.level slot level }.goto c t) := by
  refine hco.of_stays h (stays_of_table h rfl) (fun _ _ hp => hp) fun s r hr hp => ?_
  refine Function.update_of_ne (fun hs => ?_) ..
  subst hs
  obtain ⟨q, hq, -, -, hφ, -⟩ := h.of_owns ht rfl
  obtain rfl := mem_unique hr hq
  obtain ⟨-, -, -, -, -, -, hc, -⟩ := (hφ rfl).elim
  exact absurd hp (List.count_eq_zero.mp (by simpa using hc))

lemma State.Coherent.boosted (h : Inv k) (ht : k.TopQueued) :
    k.boostLevels.Coherent := by
  refine hco.of_stays h (stays_of_table h rfl) (fun _ _ hp => hp) fun s r hr hp => ?_
  simp only [boostLevels]
  split
  next hb =>
    simp only [State.boosted, hr, any_some, and_eq_true, decide_eq_true_eq] at hb
    exact (hco s r topLevel hr (ht s r hr hb.2)).symm
  · rfl

end

/-! ## Runs -/

namespace Timed

variable {t t' : Timed} {e : TimedEvent}

/-- The tick that CPU `c` is working on brings a boost. -/
def boosts (t : Timed) (c : Nat) : Bool :=
  match t.stage c with
  | .drained now => boostEveryTicks ≤ now - t.lastBoost
  | _ => false

/-- A boost finds every runnable process in the queue of level 0, and a cascade of `full_reap` does
not come back to a slot that has been reused. -/
def Level (t : Timed) (e : TimedEvent) : Prop :=
  t.calm e = true ∧ (e.act = .account → t.boosts e.cpu = true → t.kernel.TopQueued)

structure Levelled (t : Timed) : Prop where
  sound : t.Sound
  seated : t.kernel.Seated
  coherent : t.kernel.Coherent

lemma boost_eq (hs : t.stage c = .drained now) :
    (t.boost now).kernel = if t.boosts c then t.kernel.boostLevels else t.kernel := by
  simp only [boost, boosts, hs, decide_eq_true_eq]
  split <;> rfl

lemma charge_kernel (t : Timed) (c slot : Nat) : (t.charge c slot).kernel = t.kernel ∨ ∃ level, (t.charge c slot).kernel
      = { t.kernel with level := update t.kernel.level slot level }.goto c (.yieldSwitch slot) := by
  unfold charge
  dsimp only
  split
  · exact .inr ⟨_, rfl⟩
  · exact .inl rfl

namespace Levelled

lemma boost (h : t.Levelled) (hs : t.stage c = .drained now) (ht : t.boosts c = true → t.kernel.TopQueued) :
    (t.boost now).kernel.Seated ∧ (t.boost now).kernel.Coherent := by
  rw [boost_eq hs]
  split
  next hb => exact ⟨h.seated, h.coherent.boosted h.sound.inv (ht hb)⟩
  · exact ⟨h.seated, h.coherent⟩

lemma step (h : t.Levelled) (hl : t.Level e) (hp : t.Step e t') : t'.Levelled := by
  have hn := h.sound.step hl.1 hp
  obtain ⟨c, a⟩ := e
  suffices hrs : t'.kernel.Seated ∧ t'.kernel.Coherent from ⟨hn, hrs.1, hrs.2⟩
  cases does_of_step hp with
  | kernel ha hk =>
    obtain ⟨-, -, hsl, hb⟩ := admits_spares ha
    exact ⟨h.seated.step h.sound.inv hl.1 hk hn.inv, h.coherent.step h.seated h.sound.inv hl.1 hsl hb hk⟩
  | tick _ | sleep => exact ⟨h.seated, h.coherent⟩
  | drain hs hbc => exact ⟨h.seated.goto rfl rfl rfl, h.coherent⟩
  | account hs => exact h.boost hs (hl.2 rfl)
  | @charge now slot hs ht =>
    obtain ⟨hst, hco⟩ := h.boost hs (hl.2 rfl)
    obtain heq | ⟨level, heq⟩ := ((t.boost now).enter c .none).charge_kernel c slot <;>
      simp only [heq]
    · exact ⟨hst, hco⟩
    · refine ⟨hst.goto rfl rfl rfl, hco.sliced (inv_boost h.sound.inv now) ?_⟩
      rw [boost_task]
      exact ht
  | enlist hs ht hr hm hk =>
    have hc : Kernel.calm t.kernel ⟨c, .register .sleep 0⟩ = true := by simp [Kernel.calm, ht]
    exact ⟨h.seated.step h.sound.inv hc hk hn.inv, h.coherent.step h.seated h.sound.inv hc (by simp) (by simp) hk⟩

lemma init : Timed.init.Levelled where
  sound := .init
  seated c pid slot h := by
    have : (State.init.task c).seat = none := by
      simp only [State.init]
      split <;> rfl
    rw [show Timed.init.kernel = State.init from rfl, this] at h
    cases h
  coherent slot r l hr := absurd hr init_get

end Levelled

/-- The runs in which every boost finds the runnable processes at level 0. -/
abbrev LevelRun := Run (Guarded Level Step) Timed.init

lemma LevelRun.levelled (hrun : LevelRun es t) : t.Levelled := by
  induction hrun with
  | nil => exact .init
  | snoc _ hs ih => exact ih.step hs.1 hs.2

lemma topQueued_account (ht : t.kernel.TopQueued) (hs : t.Step ⟨c, .account⟩ t') :
    t'.kernel.TopQueued := by
  have hb : ∀ now, (t.boost now).kernel.TopQueued := by
    intro now
    obtain heq | heq := t.boost_kernel now <;> rw [heq] <;> exact ht
  cases does_of_step hs with
  | account hg => exact hb _
  | @charge now slot hg hts =>
    obtain heq | ⟨level, heq⟩ := ((t.boost now).enter c .none).charge_kernel c slot <;>
      simp only [heq]
    · exact hb now
    · exact hb now

/-- Levels and queues agree. In every state of a run whose boosts find the runnable processes at
level 0, the level of each queued process is that of its queue; and right after a boost every
runnable process is in the queue of level 0. -/
theorem levels_agree (hrun : LevelRun es t) :
    t.kernel.Coherent ∧
    ∀ c t', Guarded Level Step t ⟨c, .account⟩ t' → t.boosts c = true → t'.kernel.TopQueued :=
  ⟨(LevelRun.levelled hrun).coherent, fun _ _ hs hb => topQueued_account (hs.1.2 rfl hb) hs.2⟩

/-! ### Two runs -/

def goes (n : Nat) : List TimedEvent := List.replicate n ⟨0, .kernel (.go true)⟩

def ticks (n : Nat) : List TimedEvent :=
  (List.replicate n [⟨0, .tick⟩, ⟨0, .drain⟩, ⟨0, .kernel (.go true)⟩, ⟨0, .account⟩]).flatten

def spawned (n : Nat) : List TimedEvent :=
  (List.replicate n [⟨0, .kernel (.spawn .kernelFn)⟩, ⟨0, .kernel (.go true)⟩]).flatten ++ [⟨0, .kernel .startScheduler⟩]

def dispatched : List TimedEvent := ⟨0, .kernel .pop⟩ :: goes 3

/-- The only process sleeps until the tick of the first boost. -/
def sleeperWakes : List TimedEvent :=
  spawned 1 ++ dispatched ++ [⟨0, .sleep 200⟩, ⟨0, .enlist⟩] ++ goes 3 ++ [⟨0, .kernel .pop⟩] ++
    ticks 199 ++ [⟨0, .tick⟩, ⟨0, .drain⟩] ++ goes 3

/-- Two processes that never block use up one time slice after the other, up to the tick of the first
boost. -/
def twoHogs : List TimedEvent := spawned 2 ++ dispatched ++ ([4, 4, 16, 16, 32, 32, 32, 32].flatMap fun n =>
    ticks n ++ goes 3 ++ dispatched) ++ ticks 31 ++ [⟨0, .tick⟩, ⟨0, .drain⟩] ++ goes 1

/-- `TopQueued`, computed. -/
def topQueued (k : State) : Bool := k.table.entries.all fun r? => r?.all fun r =>
    r.state != .runnable || (k.runqueue.levels topLevel).toList.contains r.pid

lemma topQueued_iff : topQueued k = true ↔ k.TopQueued := by
  simp only [topQueued, List.all_eq_true, State.TopQueued, ProcessTable.get_eq_some]
  constructor
  · intro h slot r hr hs
    simpa [hs] using h _ (List.mem_of_getElem? hr)
  · intro h r? hm
    cases r? with
    | none => rfl
    | some r =>
      obtain ⟨slot, hl⟩ := List.getElem?_of_mem hm
      by_cases hs : r.state = .runnable
      · simpa [hs] using h slot r hl hs
      · simp [hs]

/-- `Level`, computed. -/
def level (t : Timed) (e : TimedEvent) : Bool := t.calm e && (e.act != .account || !t.boosts e.cpu || topQueued t.kernel)

lemma Level.of_level (h : t.level e = true) : t.Level e := by
  simp only [level, and_eq_true, or_eq_true, bne_iff_ne, ne_eq, not_eq_true'] at h
  refine ⟨h.1, fun ha hb => topQueued_iff.mp ?_⟩
  rcases h.2 with (hne | hn) | ht
  · exact absurd ha hne
  · rw [hb] at hn; cases hn
  · exact ht

theorem levels_agree_sleeperWakes :
    ∃ t r t', LevelRun sleeperWakes t ∧ t.boosts 0 = true ∧ Guarded Level Step t ⟨0, .account⟩ t' ∧
      t'.kernel.table.get 0 = some r ∧ r.state = .runnable ∧ t.kernel.Coherent ∧
      r.pid ∈ (t'.kernel.runqueue.levels topLevel).toList := by
  have hc : (execute (guardedNext level next?) init sleeperWakes).any (fun t =>
      t.boosts 0 && t.level ⟨0, .account⟩ && (t.next? ⟨0, .account⟩).any fun t' =>
        (t'.kernel.table.get 0).any (·.state = .runnable)) = true := by decide +kernel
  obtain ⟨t, hrun, hp⟩ := @exists_guardedRun_of_execute _ _ Step _ _ _ _ Level Level.of_level step_of_next? _ hc
  simp only [and_eq_true] at hp
  obtain ⟨⟨hb, hl⟩, hn⟩ := hp
  obtain ⟨t', ht', hr⟩ := (any_eq_true ..).mp hn
  obtain ⟨r, hr, hs⟩ := (any_eq_true ..).mp hr
  have hst : Guarded Level Step t ⟨0, .account⟩ t' := ⟨Level.of_level hl, step_of_next? ht'⟩
  obtain ⟨hco, htp⟩ := levels_agree hrun
  have hs : r.state = .runnable := by simpa using hs
  exact ⟨t, r, t', hrun, hb, hst, hr, hs, hco, htp 0 t' hst hb 0 r hr hs⟩

/-- The boost sets the level of the process in the queue of level 3 to 0 and leaves it in that
queue. -/
theorem boost_leaves_queue : ∃ t t', Run Step init twoHogs t ∧ t.boosts 0 = true ∧ Step t ⟨0, .account⟩ t' ∧
      ¬t'.kernel.Coherent ∧ ¬t'.kernel.TopQueued := by
  have hc : (execute next? init twoHogs).any (fun t => t.boosts 0 &&
      (t.next? ⟨0, .account⟩).any fun t' => (t'.kernel.table.get 1).any fun r =>
        r.state = .runnable && t'.kernel.level 1 == 0 &&
        (t'.kernel.runqueue.levels (Mlfq.clamp 3)).toList.contains r.pid &&
        !(t'.kernel.runqueue.levels topLevel).toList.contains r.pid) = true := by decide +kernel
  obtain ⟨t, hrun, hp⟩ := @exists_run_of_execute _ _ Step _ _ _ step_of_next? _ hc
  obtain ⟨hb, hn⟩ := and_eq_true_iff.mp hp
  obtain ⟨t', ht', hr⟩ := (any_eq_true ..).mp hn
  obtain ⟨r, hr, hf⟩ := (any_eq_true ..).mp hr
  simp only [and_eq_true, decide_eq_true_eq, beq_iff_eq, List.contains_iff_mem, not_eq_true', ← not_eq_true] at hf
  obtain ⟨⟨⟨hs, hl⟩, hq⟩, htp⟩ := hf
  refine ⟨t, t', hrun, hb, step_of_next? ht', fun hco => ?_, fun h => htp (h 1 r hr hs)⟩
  have := hco 1 r _ hr hq
  rw [hl] at this
  cases this

/-! ### One level down -/

/-- The CPU `c` carries on: `detach_current`, `release_running` and the push of a yield. -/
def handoff (c : Nat) : List TimedEvent := List.replicate 3 ⟨c, .kernel (.go true)⟩

lemma step_of_next?_kernel (h : t.next? ⟨c, .kernel a⟩ = some t') :
    Kernel.step t.kernel c a = some (.ok t'.kernel) := by
  have h := step_of_next? h
  simp only [Step, Timed.step, kernelStep] at h
  split at h
  · split at h
    · cases h
    · cases h
    next k hk =>
      cases h
      exact hk
  · cases h

lemma level_handoff (ht : t.kernel.task c = .yieldSwitch slot) (h : execute next? t (handoff c) = some t') :
    t'.kernel.level slot = min (t.kernel.level slot + 1) 3 ∧
    ∃ r, t.kernel.table.get slot = some r ∧
      t.kernel.runqueue.pushAt r.pid (t'.kernel.level slot) = some t'.kernel.runqueue := by
  simp only [handoff, List.replicate, execute, bind_eq_some_iff] at h
  obtain ⟨t₁, h₁, t₂, h₂, t₃, h₃, h⟩ := h
  cases h
  have h₁ := step_of_next?_kernel h₁
  have h₂ := step_of_next?_kernel h₂
  have h₃ := step_of_next?_kernel h₃
  simp only [Kernel.step, ht, go, detachCurrent] at h₁
  split at h₁
  · obtain hk₁ := ok.inj (some.inj h₁)
    simp only [← hk₁, Kernel.step, goto, Function.update_self, go] at h₂
    split at h₂
    · cases h₂
    next pid procs hl =>
      obtain hk₂ := ok.inj (some.inj h₂)
      simp only [← hk₂, Kernel.step, goto, Function.update_self, go] at h₃
      split at h₃
      · cases h₃
      next q hq =>
        obtain hk₃ := ok.inj (some.inj h₃)
        obtain ⟨r, hr, rfl⟩ := Procs.releaseRunning_some hl
        rw [← hk₃]
        simp only [Function.update_self]
        exact ⟨rfl, r, hr, hq⟩
    · obtain hk₂ := ok.inj (some.inj h₂)
      simp only [← hk₂, Kernel.step, Function.update_self, go] at h₃
      cases h₃
  · cases h₁

lemma handoff_user (ht : t.kernel.task c = .user slot) :
    execute next? t (handoff c) ≠ some t' := by
  intro h
  simp only [handoff, List.replicate, execute, bind_eq_some_iff] at h
  obtain ⟨t₁, h₁, -⟩ := h
  have h₁ := step_of_next?_kernel h₁
  simp only [Kernel.step, ht, userStep] at h₁
  split at h₁ <;> cases h₁

lemma account_cases (ht : t.kernel.task c = .user slot) (h : t.next? ⟨c, .account⟩ = some t') :
    t'.kernel.task c = .user slot ∨
    t'.kernel.task c = .yieldSwitch slot ∧ t'.kernel.runqueue = t.kernel.runqueue ∧
      t'.kernel.table = t.kernel.table ∧ t'.kernel.level slot = nextLevel (t.kernel.procLevel slot) := by
  have h := step_of_next? h
  simp only [Step, Timed.step, account, ht] at h
  split at h
  next now _ hst => cases hst
  next now s hst hs =>
    obtain rfl := Task.user.inj hs
    have hk : (t.boost now).kernel.task c = .user slot := by
      unfold boost
      split <;> exact ht
    have hm : (t.boost now).kernel.runqueue = t.kernel.runqueue ∧ (t.boost now).kernel.table = t.kernel.table := by
      unfold boost
      split <;> exact ⟨rfl, rfl⟩
    split at h
    next hn =>
      cases h
      unfold charge
      dsimp only
      split
      · refine .inr ⟨Function.update_self .., ?_⟩
        refine ⟨hm.1, hm.2, ?_⟩
        have hl : (t.boost now).kernel.level slot = t.kernel.level slot := by
          unfold boost
          split
          · -- a boost leaves the levels of running processes alone
            obtain ⟨r, hr, hs⟩ := (any_eq_true ..).mp hn.2
            have hs : r.state = .running := by simpa using hs
            simp [boostLevels, boosted, hr, hs]
          · rfl
        have hp : (t.boost now).kernel.procLevel slot = t.kernel.procLevel slot := by rw [procLevel, hl, procLevel]
        rw [← hp]
        exact Function.update_self ..
      · exact .inl hk
    · cases h
      exact .inl hk
  · cases h

/-- One level down. A process that yields, or that uses up its time slice on a level from which
there is only one level to fall, is queued one level below. -/
theorem requeued_one_level_down {c slot : Nat} {a : TimedAct} (ha : a = .account ∨ a = .kernel .yield)
    (htask : t.kernel.task c = .user slot) (hlow : a = .account → 2 ≤ t.kernel.procLevel slot)
    (hrun : execute next? t (⟨c, a⟩ :: handoff c) = some t') :
    t'.kernel.level slot = min (t.kernel.procLevel slot + 1) 3 ∧
    ∃ r, t.kernel.table.get slot = some r ∧
      t.kernel.runqueue.pushAt r.pid (t'.kernel.level slot) = some t'.kernel.runqueue := by
  obtain ⟨t₁, hs, hrs⟩ := bind_eq_some_iff.mp hrun
  rcases ha with rfl | rfl
  · obtain hu | ⟨hy, hq, ht, hl⟩ := account_cases htask hs
    · exact absurd hrs (handoff_user hu)
    obtain ⟨hd, r, hr, hp⟩ := level_handoff hy hrs
    rw [hq] at hp
    rw [ht] at hr
    refine ⟨?_, r, hr, hp⟩
    have hlow := hlow rfl
    have hle : t.kernel.procLevel slot ≤ 3 := Nat.min_le_right ..
    rw [hd, hl]
    simp only [nextLevel, mlfqLevels]
    omega
  · have hs := step_of_next?_kernel hs
    simp only [Kernel.step, htask, userStep] at hs
    split at hs
    · cases hs
    obtain hk := ok.inj (some.inj hs)
    obtain ⟨hd, hp⟩ := level_handoff (by rw [← hk]; exact Function.update_self ..) hrs
    rw [← hk] at hd hp
    refine ⟨?_, hp⟩
    rw [hd]
    simp only [procLevel, goto, mlfqLevels]
    omega

/-- The process has fallen to level 2, and is about to be charged for the last tick of its slice. -/
def hogOnLevelTwo : List TimedEvent :=
  spawned 1 ++ dispatched ++ ticks 4 ++ goes 3 ++ dispatched ++ ticks 15 ++ [⟨0, .tick⟩, ⟨0, .drain⟩] ++ goes 1

theorem requeued_one_level_down_last : ∃ t t', Run Step init hogOnLevelTwo t ∧
    execute next? t (⟨0, .account⟩ :: handoff 0) = some t' ∧ t.kernel.procLevel 0 = 2 ∧
    t'.kernel.level 0 = min (t.kernel.procLevel 0 + 1) 3 := by
  have hc : (execute next? init hogOnLevelTwo).any (fun t => t.kernel.task 0 == .user 0 &&
      t.kernel.procLevel 0 == 2 && (execute next? t (⟨0, .account⟩ :: handoff 0)).isSome) = true := by
    decide +kernel
  obtain ⟨t, hrun, hp⟩ := @exists_run_of_execute _ _ Step _ _ _ step_of_next? _ hc
  simp only [and_eq_true, beq_iff_eq] at hp
  obtain ⟨t', ht'⟩ := isSome_iff_exists.mp hp.2
  exact ⟨t, t', hrun, ht', hp.1.2, (requeued_one_level_down (.inl rfl) hp.1.1 (fun _ => le_of_eq hp.1.2.symm) ht').1⟩

/-- The first time slice of a new process ends: the tick lowers it to level 1 and the handoff to
level 2. -/
theorem slice_end_demotes_twice : ∃ t t', Run Step init (spawned 1 ++ dispatched ++ ticks 3 ++
      [⟨0, .tick⟩, ⟨0, .drain⟩] ++ goes 1) t ∧ t.kernel.task 0 = .user 0 ∧ t.kernel.procLevel 0 = 0 ∧
    execute next? t (⟨0, .account⟩ :: handoff 0) = some t' ∧ t'.kernel.level 0 = 2 := by
  have hc : (execute next? init (spawned 1 ++ dispatched ++ ticks 3 ++
      [⟨0, .tick⟩, ⟨0, .drain⟩] ++ goes 1)).any (fun t => t.kernel.task 0 == .user 0 &&
      t.kernel.procLevel 0 == 0 && (execute next? t (⟨0, .account⟩ :: handoff 0)).any
        (·.kernel.level 0 == 2)) = true := by decide +kernel
  obtain ⟨t, hrun, hp⟩ := @exists_run_of_execute _ _ Step _ _ _ step_of_next? _ hc
  simp only [and_eq_true, beq_iff_eq] at hp
  obtain ⟨t', ht', hl⟩ := (any_eq_true ..).mp hp.2
  exact ⟨t, t', hrun, hp.1.1, hp.1.2, ht', by simpa using hl⟩

end Timed

end ZeroOS.Kernel
