import ZeroOS.Kernel.Handshake
import ZeroOS.Kernel.Levels

/-!
# Sleepers

`SLEEP_QUEUE` is ordered by the tick a sleeper is to be woken at, and sleepers with the same tick
are woken in the order they went to sleep.

Three things are not taken care of by `sleep_current`. The queue has room for 128 sleepers, and there
may be 256 processes; the next sleeper stops the kernel. The deadline is computed modulo `2 ^ 64`.
And the clock is read before the queue is locked: when a tick of another CPU comes between, the
deadline may have passed before the sleeper is in the queue, and it is woken by a later tick.
-/

namespace ZeroOS.Kernel.Timed

open List Transition ZeroOS.Process ZeroOS.Scheduler

variable {t t' : Timed} {c : Nat} {e : TimedEvent}

/-- A sleeper finds room in the queue, and its deadline is a tick that has yet to come to the queue;
the clock does not wrap around; a cascade of `full_reap` does not come back to a reused slot. -/
structure Timely (t : Timed) (e : TimedEvent) : Prop where
  calm : t.calm e = true
  tick : e.act = .tick → t.tickNow + 1 < 2 ^ 64
  enlist : e.act = .enlist → ∀ start ticks, t.stage e.cpu = .sleeping start ticks →
    t.sleepQueue.length < sleepQueueCap ∧ start + ticks < 2 ^ 64 ∧ t.drained < start + ticks

/-- The sleepers of a pid that have been taken out. -/
def wakes (t : Timed) (pid : Nat) : Nat := (t.woken.filter (·.entry.pid = pid)).length

structure Punctual (t : Timed) : Prop where
  sound : t.Sound
  ordered : Deadline.Ordered SleepEntry.wakeAt t.sleepQueue
  /-- Sleepers with one deadline leave in the order they came. -/
  fifo : ∀ w, (t.woken.map (·.entry)).filter (·.wakeAt = w) ++ t.sleepQueue.filter (·.wakeAt = w)
    = (t.slept.map Prod.fst).filter (·.wakeAt = w)
  asked : ∀ s ∈ t.slept, s.1.wakeAt = s.1.start + s.2
  ahead : ∀ s ∈ t.sleepQueue, t.drained < s.wakeAt
  onTime : ∀ w ∈ t.woken, w.before < w.entry.wakeAt ∧ w.entry.wakeAt ≤ w.now
  consumed : ∀ p, t.kernel.log.count (.consumed p) = t.wakes p + t.called p

structure SameSleepers (t' t : Timed) : Prop where
  queue : t'.sleepQueue = t.sleepQueue
  slept : t'.slept = t.slept
  woken : t'.woken = t.woken
  drained : t'.drained = t.drained

lemma SameSleepers.trans {u : Timed} (h : u.SameSleepers t') (h' : t'.SameSleepers t) :
    u.SameSleepers t :=
  ⟨h.queue.trans h'.queue, h.slept.trans h'.slept, h.woken.trans h'.woken, h.drained.trans h'.drained⟩

lemma boost_same (t : Timed) (now : Nat) (c : Nat) (s : Stage) :
    ((t.boost now).enter c s).SameSleepers t ∧ ((t.boost now).enter c s).called = t.called ∧
      ((t.boost now).enter c s).kernel.log = t.kernel.log := by
  unfold boost
  split <;> exact ⟨⟨rfl, rfl, rfl, rfl⟩, rfl, rfl⟩

lemma charge_same (t : Timed) (c slot : Nat) : (t.charge c slot).SameSleepers t ∧ (t.charge c slot).called = t.called ∧
      (t.charge c slot).kernel.log = t.kernel.log := by
  unfold charge
  dsimp only
  split <;> exact ⟨⟨rfl, rfl, rfl, rfl⟩, rfl, rfl⟩

namespace Punctual

lemma init : Timed.init.Punctual where
  sound := .init
  ordered := List.Pairwise.nil
  fifo _ := rfl
  asked := nofun
  ahead := nofun
  onTime := nofun
  consumed _ := rfl

lemma congr (h : t.Punctual) (hn : t'.Sound) (hm : t'.SameSleepers t)
    (hc : ∀ p, t'.kernel.log.count (.consumed p) = t.wakes p + t'.called p) : t'.Punctual where
  sound := hn
  ordered := hm.queue ▸ h.ordered
  fifo w := by rw [hm.queue, hm.woken, hm.slept]; exact h.fifo w
  asked := hm.slept ▸ h.asked
  ahead s hs := hm.drained ▸ h.ahead s (hm.queue ▸ hs)
  onTime := hm.woken ▸ h.onTime
  consumed p := by rw [hc, wakes, wakes, hm.woken]

lemma frame (h : t.Punctual) (hn : t'.Sound) (hs : t'.SameSleepers t)
    (hq : t'.called = t.called ∧ t'.kernel.log = t.kernel.log) : t'.Punctual :=
  h.congr hn hs fun p => by rw [hq.1, hq.2]; exact h.consumed p

lemma kernel (h : t.Punctual) {a : Act} {k : State} {used called : Nat → Nat}
    (hs : Sound { t with kernel := k, sliceUsed := used, called := called })
    (ha : t.admits c a = true) (hk : Kernel.step t.kernel c a = some (.ok k))
    (hc : ∀ p, called p
      = t.called p + (k.log.count (.consumed p) - t.kernel.log.count (.consumed p))) :
    Punctual { t with kernel := k, sliceUsed := used, called := called } := by
  obtain ⟨hm, hn, -, -⟩ := admits_spares ha
  refine h.congr hs ⟨rfl, rfl, rfl, rfl⟩ fun p => ?_
  have hg := (step_spares hm hn k hk).2.sublist.count_le (.consumed p)
  have ho := h.consumed p
  simp only [wakes, hc] at ho ⊢
  omega

lemma drain (h : t.Punctual) {now : Nat} {back : Back} {x0 : Nat → Nat} (hn : Sound ({ t with
        kernel := t.kernel.expire c ((t.expired now).map SleepEntry.pid) back
        sleepQueue := Deadline.later SleepEntry.wakeAt now t.sleepQueue
        x0 := x0
        woken := t.woken ++ (t.expired now).map fun e => Wake.mk e t.drained now
        drained := max t.drained now }.enter c (.drained now))) :
    Punctual ({ t with
        kernel := t.kernel.expire c ((t.expired now).map SleepEntry.pid) back
        sleepQueue := Deadline.later SleepEntry.wakeAt now t.sleepQueue
        x0 := x0
        woken := t.woken ++ (t.expired now).map fun e => Wake.mk e t.drained now
        drained := max t.drained now }.enter c (.drained now)) where
  sound := hn
  ordered := h.ordered.later now
  fifo w := by
    have ht : ((t.woken ++ (t.expired now).map fun e => Wake.mk e t.drained now).map
        (·.entry)) = t.woken.map (·.entry) ++ t.expired now := by
      simp [Function.comp_def]
    simp only [enter, ht, filter_append, append_assoc]
    rw [← h.fifo w, expired, Deadline.filter_due]
  asked := h.asked
  ahead s hs := by
    have hl := h.ordered.lt_of_mem_later hs
    have ho := h.ahead s ((dropWhile_sublist _).subset hs)
    simp only [enter]
    omega
  onTime w hw := by
    rcases mem_append.mp hw with hw | hw
    · exact h.onTime w hw
    · obtain ⟨s, hs, rfl⟩ := mem_map.mp hw
      exact ⟨h.ahead s ((takeWhile_sublist _).subset hs), Deadline.le_of_mem_due hs⟩
  consumed p := by
    have ho := h.consumed p
    have hc : ((((t.expired now).map SleepEntry.pid).reverse.map Obs.consumed).count
        (.consumed p)) = (((t.expired now).map fun e => Wake.mk e t.drained now).filter
          (·.entry.pid = p)).length := by
      rw [map_reverse, count_reverse, map_map, filter_map, length_map, count_eq_countP, countP_map, countP_eq_length_filter]
      congr 2
      funext e
      by_cases he : e.pid = p <;> simp [he]
    simp only [enter, wakes, State.expire, State.goto, count_append, filter_append, length_append, hc] at ho ⊢
    omega

lemma enlist (h : t.Punctual) {start ticks pid : Nat} {k : State} {entry : SleepEntry}
    (he : entry = ⟨(start + ticks) % 2 ^ 64, start, pid⟩) (hl : k.log = t.kernel.log)
    (hlt : start + ticks < 2 ^ 64) (ha : t.drained < start + ticks)
    (hn : Sound ({ t with
        kernel := k
        sleepQueue := Deadline.insertAt SleepEntry.wakeAt entry t.sleepQueue
        slept := t.slept ++ [(entry, ticks)] }.enter c .none)) :
    Punctual ({ t with
        kernel := k
        sleepQueue := Deadline.insertAt SleepEntry.wakeAt entry t.sleepQueue
        slept := t.slept ++ [(entry, ticks)] }.enter c .none) := by
  have hk : entry.wakeAt = start + ticks := by rw [he]; exact Nat.mod_eq_of_lt hlt
  have hb : entry.start = start := by rw [he]
  exact {
    sound := hn
    ordered := h.ordered.insertAt
    fifo := fun w => by
      simp only [enter]
      rw [h.ordered.filter_insertAt, ← append_assoc, h.fifo w, map_append, filter_append]
      congr 1
      by_cases hw : entry.wakeAt = w <;> simp [hw]
    asked := fun s hs => by
      rcases mem_append.mp hs with hs | hs
      · exact h.asked s hs
      · obtain rfl := mem_singleton.mp hs
        simp only [hk, hb]
    ahead := fun s hs => by
      rcases Deadline.mem_insertAt.mp hs with rfl | hs
      · rw [hk]; exact ha
      · exact h.ahead s hs
    onTime := h.onTime
    consumed := fun p => by
      simp only [enter, hl]
      exact h.consumed p }

lemma register_log (ht : k.task c = .user slot)
    (hk : Kernel.step k c (.register kind key) = some (.ok k')) : k'.log = k.log := by
  simp only [Kernel.step, ht] at hk
  split at hk
  · cases hk
  · simp only [userStep] at hk
    split at hk <;> cases hk <;> rfl

lemma step (h : t.Punctual) (ho : t.Timely e) (hst : t.Step e t') : t'.Punctual := by
  have hs := h.sound.step ho.calm hst
  obtain ⟨c, a⟩ := e
  cases does_of_step hst with
  | kernel ha hk used called hc => exact h.kernel hs ha hk hc
  | tick _ | sleep => exact h.frame hs ⟨rfl, rfl, rfl, rfl⟩ ⟨rfl, rfl⟩
  | drain hg hb x0 => exact h.drain hs
  | @account now hg =>
    obtain ⟨hm, hq⟩ := t.boost_same now c .none
    exact h.frame hs hm hq
  | @charge now slot hg ht =>
    obtain ⟨hm, hc, hl⟩ := t.boost_same now c .none
    obtain ⟨hm', hc', hl'⟩ := ((t.boost now).enter c .none).charge_same c slot
    exact h.frame hs (hm'.trans hm) ⟨hc'.trans hc, hl'.trans hl⟩
  | enlist hg ht hr hrm hk he =>
    obtain ⟨-, hlt, hh⟩ := ho.enlist rfl _ _ hg
    exact h.enlist he (register_log ht hk) hlt hh hs

end Punctual

abbrev TimelyRun := Run (Guarded Timely Step) Timed.init

lemma TimelyRun.punctual (hrun : TimelyRun es t) : t.Punctual := by
  induction hrun with
  | nil => exact .init
  | snoc _ hs ih => exact ih.step hs.1 hs.2

/-- The process waits: it is neither runnable nor queued, and nobody is about to wake it. -/
def Asleep (t : Timed) (pid : Nat) : Prop := (∃ r, t.kernel.table.lookup pid = some r ∧ r.state ≠ .runnable) ∧
    pid ∉ t.kernel.runqueue.pids ∧ ¬t.kernel.WakeUnderWay pid

lemma Sound.asleep (h : t.Sound) (hs : s ∈ t.sleepQueue) : t.Asleep s.pid := by
  obtain ⟨ψ, hφ, hp⟩ := h.inv.of_registry (t.kernel.sleepers_sublist.subset (h.mem_sleepers hs))
  obtain ⟨r, hr, -, -, hf, -, hc, -⟩ := hφ.elim
  refine ⟨⟨r, hr, ?_⟩, count_eq_zero.mp ?_, ?_⟩
  · rw [hf.state]
    cases ψ <;> simp_all [Phase.place, Phase.state]
  · rw [hc]
    cases ψ <;> simp_all [Phase.place]
  · rw [hφ.wakeUnderWay_iff]
    cases ψ <;> simp_all [Phase.place, Phase.owed, Place.consumed]

lemma Punctual.mem_slept (h : t.Punctual) (hw : w ∈ t.woken) : ∃ ticks, (w.entry, ticks) ∈ t.slept := by
  have hm : w.entry ∈ (t.slept.map Prod.fst).filter (·.wakeAt = w.entry.wakeAt) := by
    rw [← h.fifo]
    refine mem_append_left _ (mem_filter.mpr ⟨mem_map_of_mem hw, by simp⟩)
  obtain ⟨⟨entry, ticks⟩, hs, rfl⟩ := mem_map.mp (mem_filter.mp hm).1
  exact ⟨ticks, hs⟩

/-- Sleepers are woken on time. In every state of a timely run: the queue is ordered by deadline;
for each deadline, those taken out followed by those in the queue are those that went to sleep, in
that order; whoever was taken out was so by the first tick at or past its deadline that came to the
queue, no earlier than asked for; whoever is in the queue has its deadline ahead and is asleep; a
process has been made runnable once for each of its sleeps that ended and each of its other waits
that ended, but for a wake that is under way; and the queue has room for the next sleeper. -/
theorem sleepers_on_time (hrun : TimelyRun es t) :
    Deadline.Ordered SleepEntry.wakeAt t.sleepQueue ∧
    (∀ w, (t.woken.map (·.entry)).filter (·.wakeAt = w) ++ t.sleepQueue.filter (·.wakeAt = w)
      = (t.slept.map Prod.fst).filter (·.wakeAt = w)) ∧
    (∀ w ∈ t.woken, ∃ ticks, (w.entry, ticks) ∈ t.slept ∧ w.before < w.entry.start + ticks ∧ w.entry.start + ticks ≤ w.now) ∧
    (∀ s ∈ t.sleepQueue, t.drained < s.wakeAt ∧ t.Asleep s.pid) ∧
    (∀ pid, (t.kernel.WakeUnderWay pid → t.wakes pid + t.called pid
        = t.kernel.log.count (.enqueued pid) + t.kernel.log.count (.cancelled pid) + 1) ∧
      (¬t.kernel.WakeUnderWay pid → t.wakes pid + t.called pid
        = t.kernel.log.count (.enqueued pid) + t.kernel.log.count (.cancelled pid))) ∧
    ∀ c, t.Timely ⟨c, .enlist⟩ → t.step c .enlist ≠ some (.error .sleepQueueFull) := by
  have h := TimelyRun.punctual hrun
  refine ⟨h.ordered, h.fifo, fun w hw => ?_, fun s hs => ⟨h.ahead s hs, h.sound.asleep hs⟩,
    fun pid => ?_, fun c ho hf => ?_⟩
  · obtain ⟨ticks, hs⟩ := h.mem_slept hw
    obtain ⟨hb, hn⟩ := h.onTime w hw
    have ha : w.entry.wakeAt = w.entry.start + ticks := h.asked _ hs
    exact ⟨ticks, hs, ha ▸ hb, ha ▸ hn⟩
  · rw [← h.consumed pid]
    exact h.sound.inv.consumed_count pid
  · simp only [step, enlist] at hf
    split at hf
    next start ticks slot hst ht =>
      have hr := (ho.enlist rfl start ticks hst).1
      split at hf
      · cases hf
      · rw [if_pos hr] at hf
        split at hf <;> cases hf
    · cases hf

/-- `Timely`, computed. -/
def timely (t : Timed) (e : TimedEvent) : Bool := t.calm e && (e.act != .tick || decide (t.tickNow + 1 < 2 ^ 64)) &&
    (e.act != .enlist || match t.stage e.cpu with
      | .sleeping start ticks => decide (t.sleepQueue.length < sleepQueueCap) &&
          decide (start + ticks < 2 ^ 64) && decide (t.drained < start + ticks)
      | _ => true)

lemma Timely.of_timely (h : t.timely e = true) : t.Timely e := by
  simp only [timely, Bool.and_eq_true, Bool.or_eq_true, bne_iff_ne, ne_eq, decide_eq_true_eq] at h
  obtain ⟨⟨hc, ht⟩, he⟩ := h
  refine ⟨hc, fun ha => ht.resolve_left (not_not.mpr ha), fun ha start ticks hs => ?_⟩
  have := he.resolve_left (not_not.mpr ha)
  simpa [hs, and_assoc] using this

theorem sleepers_on_time_sleeperWakes : ∃ t w ticks, TimelyRun sleeperWakes t ∧ w ∈ t.woken ∧ (w.entry, ticks) ∈ t.slept ∧
      w.before < w.entry.start + ticks ∧ w.entry.start + ticks ≤ w.now := by
  have hc : (execute (guardedNext timely next?) init sleeperWakes).any (fun t =>
      t.woken.length == 1) = true := by decide +kernel
  obtain ⟨t, hrun, hp⟩ := @exists_guardedRun_of_execute _ _ Step _ _ _ _ Timely Timely.of_timely step_of_next? _ hc
  obtain ⟨w, hw⟩ := length_eq_one_iff.mp (by simpa using hp)
  have hm : w ∈ t.woken := by rw [hw]; exact mem_singleton_self w
  obtain ⟨ticks, hs, hb, hn⟩ := (sleepers_on_time hrun).2.2.1 w hm
  exact ⟨t, w, ticks, hrun, hm, hs, hb, hn⟩

/-- One process after the other sleeps for a tick; the last has read the clock. -/
def crowd (n : Nat) : List TimedEvent :=
  spawned (n + 1) ++ (List.replicate n (dispatched ++ [⟨0, .sleep 1⟩, ⟨0, .enlist⟩] ++ goes 3)).flatten
    ++ dispatched ++ [⟨0, .sleep 1⟩]

/-- The sleeper after the 128th stops the kernel. -/
theorem sleep_queue_overflows : ∃ t, Run Step init (crowd 128) t ∧ t.step 0 .enlist = some (.error .sleepQueueFull) := by
  refine exists_run_and step_of_next? (fun t => match t.step 0 .enlist with
      | some (.error p) => p == .sleepQueueFull
      | some (.ok _) | none => false) (by decide +kernel) fun _ hp => ?_
  split at hp
  next p hs => rw [hs, (beq_iff_eq ..).mp hp]
  all_goals cases hp

end ZeroOS.Kernel.Timed
