import ZeroOS.Kernel.Rules

/-!
# Dispatching, yielding, blocking and waking

Each of these paths keeps the protocol invariant, and none of its assertions fires: a dispatcher
finds the popped process runnable and unowned, a CPU that releases a process owns it, a queue has
room for the pid pushed to it, and a wake finds its target blocked or on its way into the block.
-/

namespace ZeroOS.Kernel

open Duty List Option Phase State ZeroOS.Process ZeroOS.Scheduler

variable {k : State} {c pid slot : Nat} {t : Task}

/-- The step is impossible, or keeps the invariant, or fails outside the scheduling protocol: the
pids have run out or the CPU's current slot was taken away. -/
def Outcome.Safe : Outcome → Prop
  | none => True
  | some (.ok k) => Inv k
  | some (.error e) => e = .pidSpace ∨ e = .detachMismatch ∨ e = .noCurrent

@[simp] lemma Outcome.safe_next : Outcome.Safe (next k) ↔ Inv k := .rfl

@[simp] lemma State.goto_self (k : State) (c : Nat) (t : Task) : (k.goto c t).task c = t := by
  simp [goto]

lemma State.goto_of_ne (k : State) (t : Task) (h : c' ≠ c) : (k.goto c t).task c' = k.task c' := by
  simp [goto, h]

namespace Back

variable (back : Back)

@[simp] lemma task_duty : back.task.duty = back.duty := by cases back <;> rfl
@[simp] lemma duty_parks : back.duty.parks = false := by cases back <;> rfl
@[simp] lemma duty_intends : back.duty.intends = false := by cases back <;> rfl
@[simp] lemma duty_carries : back.duty.carries = none := by cases back <;> rfl
@[simp] lemma duty_woken : back.duty.woken = false := by cases back <;> rfl
@[simp] lemma duty_leaves : back.duty.leaves = none := by cases back <;> rfl
@[simp] lemma duty_reserved : back.duty.reserved = none := by cases back <;> rfl
@[simp] lemma duty_flight : back.duty.flight = [] := by cases back <;> rfl
@[simp] lemma duty_serves : back.duty.serves = none := by cases back <;> rfl
@[simp] lemma duty_builds : back.duty.builds = none := by cases back <;> rfl

end Back

/-! ## The CPU's duty does not change -/

lemma duty_goto (ht : t.duty = (k.task c).duty) (c' : Nat) : ((k.goto c t).task c').duty = (k.task c').duty := by
  by_cases hc : c' = c
  · subst hc; rw [goto_self, ht]
  · rw [goto_of_ne k t hc]

lemma Inv.goto (h : Inv k) (ht : t.duty = (k.task c).duty) : Inv (k.goto c t) :=
  h.congr rfl rfl rfl rfl (fun _ => rfl) (duty_goto ht)

lemma detachCurrent_safe (h : Inv k) (ht : t.duty = (k.task c).duty) : (detachCurrent k c slot t).Safe := by
  unfold detachCurrent
  split
  · exact h.congr rfl rfl rfl rfl (fun _ => rfl) (duty_goto ht)
  · exact .inr (.inl rfl)

/-! ## Sound duties -/

section

variable {t : ProcessTable} {n : Nat}

lemma Duty.Sound.owner (hr : t.get slot = some r) :
    Duty.Sound t n { owns := some slot } where
  reserved := nofun
  owns s hs := by cases hs; exact ⟨r, hr, nofun⟩
  leaves := nofun
  serves := nofun
  builds := nofun

lemma Duty.Sound.unbound {carries : Option Nat} {woken : Bool} {flight : List Nat} :
    Duty.Sound t n { carries := carries, woken := woken, flight := flight } where
  reserved := nofun
  owns := nofun
  leaves := nofun
  serves := nofun
  builds := nofun

lemma Duty.Sound.back {back : Back} (h : ∀ slot, back.duty.owns = some slot → ∃ r, t.get slot = some r)
    (carries : Option Nat) (woken : Bool) (flight : List Nat) :
    Duty.Sound t n { back.duty with carries := carries, woken := woken, flight := flight } where
  reserved := by simp
  owns s hs := by
    obtain ⟨r, hr⟩ := h s hs
    exact ⟨r, hr, by simp⟩
  leaves := by simp
  serves := by simp
  builds := by simp

end

/-! ## Run queues -/

lemma Inv.length_lt (h : Inv k) (hd : (k.task c).duty.carries = some pid) :
    k.runqueue.pids.length < maxProcesses := by
  obtain ⟨r, hrc, -, -, -, -, hq, -, -⟩ := (h.of_carries hd).elim
  have hn : (pid :: k.runqueue.pids).Nodup := by
    refine nodup_cons.mpr ⟨?_, nodup_iff_count_le_one.mpr fun p => ?_⟩
    · exact count_eq_zero.mp (by simpa using hq)
    · by_cases hp : p ∈ k.runqueue.pids
      · obtain ⟨-, -, -, -, -, -, hc, -⟩ := (h.of_queue hp).elim
        simp [hc]
      · rw [count_eq_zero.mpr hp]
        exact Nat.zero_le 1
  have hsub : pid :: k.runqueue.pids ⊆ k.table.records.map (·.pid) := by
    intro p hp
    have hw : ∃ r, k.table.get r.slot = some r ∧ r.pid = p := by
      rcases mem_cons.mp hp with rfl | hp
      · exact ⟨r, ProcessTable.lookup_eq_some hrc⟩
      · obtain ⟨r', hrc', -⟩ := (h.of_queue hp).elim
        exact ⟨r', ProcessTable.lookup_eq_some hrc'⟩
    obtain ⟨r', hr', rfl⟩ := hw
    exact mem_map.mpr ⟨r', ProcessTable.mem_records.mpr ⟨_, hr'⟩, rfl⟩
  have hle := (hn.subperm hsub).length_le
  simp only [length_cons, length_map] at hle
  exact lt_of_lt_of_le hle (ProcessTable.length_records_le _)

lemma Inv.push (h : Inv k) (hd : (k.task c).duty.carries = some pid) (hb : (k.task c).duty.builds = none)
    (hq : k.runqueue.pushAt pid n = some q)
    (ht : t.duty = { (k.task c).duty with carries := none, woken := false })
    (hlg : ∀ p, p ≠ pid → balance l p = balance k.log p) (hl : balance l pid = 0) :
    Inv ({ k with runqueue := q, log := l }.goto c t) := by
  have hφ := h.of_carries hd
  obtain ⟨r, hrc, hg, rfl, hf, hdt, hn, hr, -⟩ := hφ.elim
  have hpr := Mlfq.pushAt_perm hq
  have hc := hdt c
  have hm : Moves k ({ k with runqueue := q, log := l }.goto c t) c r.slot r r
      (.carried c (k.task c).duty.woken) .queued := by
    refine .of_queues hg hφ ?_ ?_ ?_ ?_ ?_ ?_ (fun _ _ => rfl) (hr.trans rfl) hlg
      (hl.trans rfl)
    · exact ⟨hf.state, hf.owner_eq, hf.latch, hf.target, trivial⟩
    · intro p s hp hs
      simp [ht, Duty.about, hd, hp.symm]
    · simp only [Duty.about, Phase.expects, About.mk.injEq] at hc
      simp [ht, Duty.about, Phase.expects, Phase.owner, Phase.place, hc]
    · intro c' hc; simp [Phase.expects, Phase.owner, Phase.place, hc.symm]
    · intro p hp
      exact (hpr.count_eq p).trans (count_cons_of_ne hp.symm)
    · exact (hpr.count_eq r.pid).trans (by simpa using hn)
  refine hm.inv h (fun c' hc => by simp [cpu, hc.symm]) ?_ (by simp [ht])
  have hs := h.sound c
  rw [goto_self, ht]
  exact ⟨hs.reserved, hs.owns, hs.leaves, hs.serves, by simp [hb]⟩

lemma Inv.push_safe (h : Inv k) (hd : (k.task c).duty.carries = some pid) (hb : (k.task c).duty.builds = none)
    {n : Nat} {o : Outcome} {f : Mlfq → State} {l : List Obs}
    (ho : o = match k.runqueue.pushAt pid n with | none => some (.error .runqueueFull) | some q => next (f q))
    (ht : t.duty = { (k.task c).duty with carries := none, woken := false })
    (hg : ∀ p, p ≠ pid → balance l p = balance k.log p) (hl : balance l pid = 0)
    (hf : ∀ q, Inv ({ k with runqueue := q, log := l }.goto c t) → Inv (f q)) : o.Safe := by
  obtain ⟨q, hq⟩ : ∃ q, k.runqueue.pushAt pid n = some q := Mlfq.pushAt_isSome (h.length_lt hd)
  rw [ho, hq]
  exact hf q (h.push hd hb hq ht hg hl)

lemma Inv.balance_carries (h : Inv k) (hd : (k.task c).duty.carries = some pid) :
    balance k.log pid = if (k.task c).duty.woken then 1 else 0 :=
  (h.of_carries hd).balance_eq

lemma enqueue_safe (h : Inv k) (hd : (k.task c).duty.carries = some pid) (hb : (k.task c).duty.builds = none)
    (hw : (k.task c).duty.woken = false) (ht : t.duty = { (k.task c).duty with carries := none }) :
    (enqueue k c pid t).Safe := by
  refine h.push_safe (t := t) hd hb rfl (by rw [ht, ← hw]) (fun _ _ => rfl) ?_
    fun _ hq => hq.congr rfl rfl rfl rfl (fun _ => rfl) fun _ => rfl
  rw [h.balance_carries hd, hw]
  rfl

lemma pop_safe (h : Inv k) (ht : k.task c = .sched) : (step k c .pop).Safe := by
  simp only [step, ht]
  rcases ho : k.runqueue.pop with ⟨_ | pid, q⟩
  · exact h.congr rfl rfl rfl rfl (fun _ => rfl) fun _ => rfl
  have hpr := Mlfq.pop_perm ho
  have hφ := h.of_queue (hpr.mem_iff.mpr mem_cons_self)
  obtain ⟨r, -, hg, rfl, hf, hd, hn, hr, hl⟩ := hφ.elim
  have hm : Moves k ({ k with runqueue := q }.goto c (.dispatching r.pid)) c r.slot r r .queued
      (.carried c false) := by
    refine .of_queues hg hφ ?_ ?_ ?_ ?_ ?_ ?_ (fun _ _ => rfl) (hr.trans rfl) (fun _ _ => rfl) hl
    · exact ⟨hf.state, hf.owner_eq, hf.latch, hf.target, trivial⟩
    · intro p s hp hs; simp [ht, Task.duty, about, hp.symm]
    · simp [Task.duty, about, expects, owner, place]
    · intro c' hc; simp [expects, owner, place, hc.symm]
    · intro p hp
      exact ((hpr.count_eq p).trans (count_cons_of_ne hp.symm)).symm
    · have := hpr.count_eq r.pid
      simp_all
  exact hm.inv h (fun c' hc => by simp [cpu]) (by simpa [Task.duty] using .unbound)
    (by simp [Task.duty])

/-! ## Claiming and releasing -/

lemma dispatching_safe (h : Inv k) (ht : k.task c = .dispatching pid) : (go k c ok).Safe := by
  have hφ := h.of_carries (c := c) (show _ = some pid by rw [ht]; rfl)
  rw [ht] at hφ
  obtain ⟨r, hr, hg, rfl, hf, -⟩ := hφ.elim
  have hl : k.procs.claimRunnable r.pid c
      = .ok (some r.slot, k.procs.settle r.slot .running (some c)) := by
    simp [Procs.claimRunnable, hr, hf.state, hf.owner_eq, state, owner]
  simp only [go, ht, hl, Outcome.safe_next]
  have hm : Moves k ({ k with procs := k.procs.settle r.slot .running (some c) }.goto c
      (.entering r.slot)) c r.slot r (r.settle .running) (.carried c false) (.running c) := by
    refine .of_settle h hg hφ rfl rfl (by rintro ⟨⟩) (by simp [place]) ?_ ?_ ?_ (by simp)
      (by simp [place]) (fun _ _ => rfl) hφ.balance_eq
    · intro p s hp hs; simp [ht, Task.duty, about, hp.symm, hs.symm]
    · simp [Task.duty, about, expects, owner, place]
    · intro c' hc; simp [expects, owner, place, hc.symm]
  exact hm.inv h (fun c' hc => by simp [cpu, hc.symm])
    (by simpa [Task.duty] using .owner hm.get_new) (by simp [Task.duty])

lemma yieldRelease_safe (h : Inv k) (ht : k.task c = .yieldRelease slot) : (go k c ok).Safe := by
  obtain ⟨r, hg, ho, hst, hrun, -⟩ := h.of_owns ht rfl
  have hφ := hrun rfl
  simp only [go, ht, Procs.releaseRunning_owned hg hst ho, Outcome.safe_next]
  have hm : Moves k ({ k with procs := k.procs.settle slot .runnable none }.goto c
      (.yieldPush r.pid slot)) c slot r (r.settle .runnable) (.running c) (.carried c false) := by
    refine .of_settle h hg hφ rfl rfl nofun (by simp [place]) ?_ ?_ ?_ (by simp)
      (by simp [place]) (fun _ _ => rfl) hφ.balance_eq
    · intro p s hp hs; simp [ht, Task.duty, about, hp.symm, hs.symm]
    · simp [Task.duty, about, expects, owner, place]
    · intro c' hc; simp [expects, owner, place, hc.symm]
  exact hm.inv h (fun c' hc => by simp [cpu, hc.symm])
    (by simpa [Task.duty] using .unbound) (by simp [Task.duty])

/-! ## Blocking -/

lemma register_safe (h : Inv k) (ht : k.task c = .user slot) (kind : WaitKind) (key : Nat) :
    (userStep k c slot (.register kind key)).Safe := by
  obtain ⟨r, hg, ho, hst, hrun, -⟩ := h.of_owns ht rfl
  have hφ := hrun rfl
  have hf := h.fits hg hφ
  obtain ⟨-, -, -, -, -, -, hn, hr, hl⟩ := hφ.elim
  simp only [userStep, hg, Outcome.safe_next]
  have hm : Moves k ({ k with waiters := k.waiters ++ [Registration.mk kind key r.pid] }.goto c
      (.registered slot)) c slot r r (.running c) (.parking c .registry) := by
    refine .of_queues hg hφ ?_ ?_ ?_ ?_ (fun _ _ => rfl) hn ?_ ?_ (fun _ _ => rfl) hl
    · exact ⟨hf.state, hf.owner_eq, hf.latch, hf.target, trivial⟩
    · intro p s hp hs; simp [ht, Task.duty, about, hs.symm]
    · simp [Task.duty, about, expects, owner, place]
    · intro c' hc; simp [expects, owner, place, hc.symm]
    · intro p hp; simp [waiting, hp.symm]
    · simpa [waiting, place] using hr
  refine hm.inv h (fun c' hc => by simp [cpu, hc.symm]) ?_ (by simp [Task.duty])
  rw [goto_self]
  exact ⟨(by intros; contradiction), fun s hs => by cases hs; exact ⟨r, hm.get_new, (by intros; contradiction)⟩, (by intros; contradiction), (by intros; contradiction), (by intros; contradiction)⟩

lemma registered_safe (h : Inv k) (ht : k.task c = .registered slot) : (go k c ok).Safe := by
  obtain ⟨r, hg, ho, hst, -, hr⟩ := h.of_owns ht rfl
  obtain ⟨p, hφ⟩ := hr rfl
  have hf := h.fits hg hφ
  have ha := h.about hg hφ c
  simp only [go, ht, Procs.beginBlock_owned hg hst ho, Outcome.safe_next]
  have hm : Moves k ({ k with procs := k.procs.modify slot fun r =>
      { r with blockIntent := true } }.goto c (.blockSwitch slot)) c slot r
      { r with blockIntent := true } (.parking c p) (.parking c p) := by
    refine .of_modify hg hφ rfl ⟨hf.state, hf.owner_eq, hf.latch, hf.target, trivial⟩
      ?_ ?_ (fun _ _ => rfl) .rfl .rfl rfl
    · intro p s hp hs; simp [ht, Task.duty, about]
    · rw [← ha, ht]; rfl
  refine hm.inv h (fun c' hc => by simp [cpu, hc.symm]) ?_ (by simp [Task.duty])
  rw [goto_self]
  exact ⟨(by intros; contradiction), fun s hs => by cases hs; exact ⟨_, hm.get_new, fun _ => rfl⟩, (by intros; contradiction), (by intros; contradiction), (by intros; contradiction)⟩

lemma blockFinish_safe (h : Inv k) (ht : k.task c = .blockFinish slot) : (go k c ok).Safe := by
  have ho : (k.task c).duty.owns = some slot := by rw [ht]; rfl
  obtain ⟨r, hg, hon, hst, -, hr⟩ := h.of_owns rfl ho
  obtain ⟨p, hφ⟩ := hr (ht ▸ rfl)
  obtain ⟨r₂, hg₂, hn⟩ := (h.sound c).owns slot ho
  obtain rfl := mem_unique hg hg₂
  have hl := (h.fits hg hφ).latch
  have ha := h.about hg hφ c
  simp only [go, ht, Procs.finishBlock_owned hg hst (hn (ht ▸ rfl)) hon]
  by_cases hp : p = .latch
  · subst hp
    simp only [hl, place, decide_true, if_true]
    have hm : Moves k (({ k with procs := k.procs.settle slot .runnable none }.note
        (.cancelled r.pid)).goto c (.requeue r.pid)) c slot r (r.settle .runnable)
        (.parking c .latch) (.carried c false) := by
      refine .of_settle h hg hφ rfl rfl (by rintro ⟨⟩) (by simp [place]) ?_ ?_ ?_ (by simp)
        (by simp [place]) (fun p hp => by simp [hp.symm])
        (by simp [hφ.balance_eq, owed, Place.consumed])
      · intro p s hp hs; simp [ht, Task.duty, about, hp.symm, hs.symm]
      · simp [Task.duty, about, expects, owner, place]
      · intro c' hc; simp [expects, owner, place, hc.symm]
    exact hm.inv h (fun c' hc => by simp [cpu, hc.symm])
      (by simpa [Task.duty] using .unbound) (by simp [Task.duty])
  · simp only [hl, place, some.injEq, hp, decide_false]
    have hm : Moves k ({ k with procs := k.procs.settle slot .blocked none }.goto c .sched) c slot r
        (r.settle .blocked) (.parking c p) (.blocked p) := by
      refine .of_settle h hg hφ rfl rfl (by simpa [place] using hp) (by simp [place])
        ?_ ?_ ?_ (by simp) (by simp [place]) (fun _ _ => rfl) hφ.balance_eq
      · intro p s hp hs; simp [ht, Task.duty, about, hs.symm]
      · have hf : p ≠ .flight c := by
          rintro rfl
          simpa [ht, Task.duty, about, expects, place] using
            congrArg About.flight ha
        simp [Task.duty, about, expects, owner, place, hf]
      · intro c' hc; simp [expects, owner, place, hc.symm]
    exact hm.inv h (fun c' hc => by simp [cpu, hc.symm])
      (by simpa [Task.duty] using .unbound) (by simp [Task.duty])

/-! ## Waking -/

lemma splitMask_perm {α : Type} : ∀ (xs : List α) (mask : List Bool), ((splitMask xs mask).1 ++ (splitMask xs mask).2).Perm xs
  | [], _ => by simp [splitMask]
  | x :: xs, [] => by simp [splitMask]
  | x :: xs, b :: mask => by
      have ih := splitMask_perm xs mask
      cases b
      · simpa [splitMask] using perm_middle.trans (ih.cons x)
      · simpa [splitMask] using ih.cons x

lemma consume_safe (h : Inv k) (ht : (k.task c).duty = back.duty) (mask : List Bool) : (consume k c mask back).Safe := by
  rcases hsp : splitMask k.waiters mask with ⟨removed, kept⟩
  simp only [consume, hsp, Outcome.safe_next]
  generalize hk' : State.goto _ _ _ = k'
  have hpr : k'.procs = k.procs := by rw [← hk']; rfl
  have hts : (k'.task c).duty = { back.duty with flight := removed.map (·.pid) } := by rw [← hk', goto_self]; rfl
  have ho : ∀ c', c' ≠ c → k'.task c' = k.task c' := fun c' hc => by
    rw [← hk']; exact goto_of_ne _ _ hc
  have hw : k'.waiting = kept.map (·.pid) := by rw [← hk']; rfl
  have hn : ∀ p, (removed.map (·.pid)).count p + k'.waiting.count p = k.waiting.count p := by
    intro p
    have := (splitMask_perm k.waiters mask).map (·.pid) |>.count_eq p
    rw [hsp] at this
    rw [hw]
    simpa [waiting] using this
  have hl : ∀ p, balance k'.log p = balance k.log p + (removed.map (·.pid)).count p := by
    intro p
    rw [← hk']
    exact (balance_consumed_append _ _ _).trans (by rw [count_reverse])
  have htc : Touches k k' c (removed.map (·.pid)) [] := by
    constructor
    case others => intro c' hc; rw [ho c' hc]
    case mine => intro p s hp _; simp [hts, ht, about, count_eq_zero.mpr hp]
    case rows => intro i _; rw [table, hpr]
    case owner => intro i _; rw [hpr]
    case queue => intro p _; rw [← hk']; rfl
    case registry =>
      intro p hp
      have := hn p
      rwa [count_eq_zero.mpr hp, Nat.zero_add] at this
    case log => intro p hp; rw [hl, count_eq_zero.mpr hp]; simp
    case nextPid => rw [← hk']; exact le_refl _
    case at_old => intro _ _ _ hi; cases hi
    case at_new => intro _ _ _ hi; cases hi
  -- every pid taken out has its call in a registry; it now has it in flight
  have hh : ∀ p ∈ removed.map (·.pid), ∃ ψ, Agrees k p (some ψ) ∧ ψ.place = some .registry := by
    intro p hp
    have hps := count_pos_iff.mpr hp
    have := hn p
    exact h.of_registry (count_pos_iff.mp (by omega))
  have hrw : ∀ p ∈ removed.map (·.pid), ∃ s r, k.table.get s = some r ∧ r.pid = p := by
    intro p hp
    obtain ⟨ψ, hφ, -⟩ := hh p hp
    obtain ⟨r, -, hg, hpd, -⟩ := hφ.elim
    exact ⟨_, r, hg, hpd⟩
  refine h.step_rule htc ?_ ?_ (fun c' hc => htc.sound (h.sound c') ?_ ?_) ?_ ?_ ?_ ?_
  · intro p hp _
    obtain ⟨ψ, hφ, hpl⟩ := hh p hp
    obtain ⟨r, hrc, -, -, hf, hd, -, hon, hb⟩ := hφ.elim
    rw [hpl, if_pos rfl] at hon
    have hps := count_pos_iff.mpr hp
    have hsm := hn p
    have hu : (removed.map (·.pid)).count p = 1 := by omega
    refine ⟨_, hφ.moved hpl (.flight c) ?_ ?_ ?_ ?_ ?_⟩
    · intro r₂ hr₂
      obtain rfl := mem_unique hrc hr₂
      refine ⟨r, by rw [table, hpr]; exact hrc, rfl, rfl, by rw [hpr], ?_, ?_, ?_⟩
      · simp [hf.latch, hpl]
      · simp [hf.target, hpl]
      · intro c'
        by_cases hc : c' = c
        · subst hc; simp [hts, ht, about, hu]
        · rw [ho c' hc, hd c']
          simp [expects, hpl, Ne.symm hc]
    · rw [← hk']; rfl
    · have : k'.waiting.count p = 0 := by omega
      simpa using this
    · have hod : ψ.owed = false := by cases ψ <;> simp_all [place, owed, Place.consumed]
      simp [hl, hb, hod, hu, Place.consumed]
    · cases ψ <;> simp_all [withPlace, wellPlaced]
  · rw [hts, table, hpr]
    have hbc : ∀ slot, back.duty.owns = some slot → ∃ r, k.table.get slot = some r := by
      intro slot hs
      obtain ⟨r, hr, -⟩ := (h.sound c).owns slot (ht ▸ hs)
      exact ⟨r, hr⟩
    simpa using Duty.Sound.back hbc none false (removed.map (·.pid))
  · intro p hp
    obtain ⟨s, r, hg, rfl⟩ := hrw p hp
    exact h.not_reserved hg c'
  · intro _ hm; cases hm
  · simp [hts]
  · intro _ hm; cases hm
  · intro p hp
    obtain ⟨s, r, hg, rfl⟩ := hrw p hp
    rw [← hk']
    exact h.pid_lt hg
  · intro _ hm; cases hm

lemma waking_safe (h : Inv k) (ht : k.task c = .waking (pid :: pids) back) : (go k c ok).Safe := by
  obtain ⟨ψ, hφ, hl⟩ := h.of_flight (c := c) (by rw [ht]; exact mem_cons_self)
  obtain ⟨r, hr, hg, rfl, hf, hd, -, hrg⟩ := hφ.elim
  have hcn : pids.count r.pid = 0 := by
    have := congrArg About.flight (hd c)
    simpa [ht, Task.duty, about, expects, hl] using this
  have hn : back.duty.owns ≠ some r.slot := by
    intro ho
    have hc := h.about hg hφ c
    have h₁ := congrArg About.owns hc
    have h₂ := congrArg About.parks hc
    cases ψ <;> simp_all [Task.duty, about, expects, owner, place]
  cases ψ with
  | blocked p =>
    obtain rfl : p = .flight c := by simpa [place] using hl
    have hw : k.procs.requestWake r.pid
        = .ok (.enqueue r.pid r.slot, k.procs.settle r.slot .runnable none) := by
      simp [Procs.requestWake, hr, hf.state, hf.owner_eq, state, owner, Procs.modify_settle hf.owner_eq]
    simp only [go, ht, hw, Outcome.safe_next]
    have hm : Moves k ({ k with procs := k.procs.settle r.slot .runnable none }.goto c
        (.wakePush r.pid r.slot pids back)) c r.slot r (r.settle .runnable) (.blocked (.flight c))
        (.carried c true) := by
      refine .of_settle h hg hφ rfl rfl (by rintro ⟨⟩) (by simp [place]) ?_ ?_ ?_ (by simp)
        (by simp [place]) (fun _ _ => rfl) hφ.balance_eq
      · intro p s hp hs; simp [ht, Task.duty, about, hp.symm]
      · simp [Task.duty, about, expects, owner, place, hcn, hn]
      · intro c' hc; simp [expects, owner, place, hc.symm]
    refine hm.inv h (fun c' hc => by simp [cpu]) ?_ (by simp [Task.duty])
    rw [goto_self]
    refine Duty.Sound.back (fun slot hs => ?_) _ _ _
    obtain ⟨q, hq, -⟩ := (h.sound c).owns slot (by rw [ht]; exact hs)
    exact hm.taken hq
  | parking c' p =>
    obtain rfl : p = .flight c := by simpa [place] using hl
    have hw : k.procs.requestWake r.pid = .ok (.pending, k.procs.modify r.slot fun r =>
        { r with wakePending := true }) := by
      simp [Procs.requestWake, hr, hf.state, state]
    -- the waker does not park itself, so the target is on another CPU
    have hne : c' ≠ c := by
      have := congrArg About.parks (hd c)
      simpa [ht, Task.duty, about, expects] using this
    simp only [go, ht, hw, Outcome.safe_next]
    have hm : Moves k ({ k with procs := k.procs.modify r.slot fun r =>
        { r with wakePending := true } }.goto c (.waking pids back)) c r.slot r
        { r with wakePending := true } (.parking c' (.flight c)) (.parking c' .latch) := by
      refine .of_modify hg hφ rfl ⟨hf.state, hf.owner_eq, rfl, ?_, trivial⟩ ?_ ?_ ?_
        (by simp) (by simp [place]) rfl
      · simpa [place] using hf.target
      · intro p s hp hs; simp [ht, Task.duty, about, hp.symm]
      · simp [Task.duty, about, expects, owner, place, hcn, hn, hne]
      · intro c'' hc; simp [expects, owner, place, hc.symm]
    refine hm.inv h (fun _ _ _ q hq => ?_) ?_ (by simp [Task.duty])
    · obtain rfl := mem_unique hg hq
      exact ⟨_, hm.get_new, rfl, rfl, fun hz => ⟨hz, rfl⟩⟩
    · rw [goto_self]
      refine Duty.Sound.back (fun slot hs => ?_) _ _ _
      obtain ⟨q, hq, -⟩ := (h.sound c).owns slot (by rw [ht]; exact hs)
      exact hm.taken hq
  | _ => cases hl

end ZeroOS.Kernel
