import ZeroOS.Kernel.Clock

/-!
# The protocol under the clock

The scheduling protocol holds along every run of the machine with its clock whose steps of
`full_reap` are calm. The one new step is the removal of the expired sleepers: it takes the
registrations out that a `consume` would take out, and differs from it in the order in which the
wakes follow. That these registrations exist is the second part of the invariant: the pids in
`SLEEP_QUEUE` are those registered as sleepers, each once.
-/

namespace ZeroOS.Kernel

open List Transition ZeroOS.Process ZeroOS.Scheduler
open Function (update)

variable {k k' : State} {c : Nat} {back : Back} {pids : List Nat}

/-! ## Taking sleepers out -/

lemma splitMask_filter {α : Type} (p : α → Bool) (xs : List α) :
    splitMask xs (xs.map p) = (xs.filter p, xs.filter fun x => !p x) := by
  induction xs with
  | nil => rfl
  | cons x xs ih =>
    simp only [map_cons, splitMask, ih]
    cases hp : p x <;> simp [hp]

lemma Inv.waiting_nodup (h : Inv k) : k.waiting.Nodup := by
  refine nodup_iff_count_le_one.mpr fun pid => ?_
  by_cases hp : pid ∈ k.waiting
  · obtain ⟨ψ, hφ, hl⟩ := h.of_registry hp
    obtain ⟨r, -, -, -, -, -, -, hc, -⟩ := hφ.elim
    rw [hc]
    split <;> omega
  · rw [count_eq_zero.mpr hp]
    exact Nat.zero_le 1

lemma State.sleepers_sublist (k : State) : k.sleepers.Sublist k.waiting := (filter_sublist ..).map _

lemma Inv.sleepers_nodup (h : Inv k) : k.sleepers.Nodup := h.waiting_nodup.sublist k.sleepers_sublist

lemma State.mem_sleepers :
    p ∈ k.sleepers ↔ ∃ w ∈ k.waiters, w.kind = .sleep ∧ w.pid = p := by
  simp [State.sleepers, and_assoc]

lemma back_duty {t : Task} (h : t.back? = some back) : t.duty = back.duty := by
  cases t <;> simp_all [Task.back?, Task.duty, Back.duty]
  all_goals subst h; rfl

lemma Inv.permute (h : Inv k) (ht : k.task c = .waking pids back) (hp : pids'.Perm pids)
    (hl : log.Perm k.log) : Inv ({ k with log := log }.goto c (.waking pids' back)) := by
  have hd : (k.task c).duty = { back.duty with flight := pids } := by rw [ht]; rfl
  refine h.stutter (c := c) (fun c' hc => by rw [State.goto_of_ne _ _ hc]) (fun pid slot => ?_)
    (fun _ => rfl) rfl rfl rfl (fun pid => ?_) (le_refl _) ?_ ?_
  · rw [State.goto_self, hd]
    simp [Task.duty, Duty.about, hp.count_eq]
  · simp only [State.goto, balance, hl.count_eq]
  · have hs := h.sound c
    rw [hd] at hs
    rw [State.goto_self]
    exact ⟨hs.reserved, hs.owns, hs.leaves, by simp [Task.duty], hs.builds⟩
  · intro pid c' _ hr
    rw [State.goto_self] at hr
    simp [Task.duty] at hr

lemma Inv.expire (h : Inv k) (hb : (k.task c).back? = some back) (hn : pids.Nodup) (hsub : ∀ p ∈ pids, p ∈ k.sleepers) :
    Inv (k.expire c pids back) := by
  let p : Registration → Bool := fun w => w.kind = .sleep && pids.contains w.pid
  have hs := consume_safe h (back_duty hb) (k.waiters.map p)
  simp only [consume, splitMask_filter, Outcome.safe_next] at hs
  have hp : pids.Perm ((k.waiters.filter p).map (·.pid)) := by
    refine (perm_ext_iff_of_nodup hn ?_).mpr fun q => ?_
    · exact h.waiting_nodup.sublist ((filter_sublist ..).map _)
    · constructor
      · intro hq
        obtain ⟨w, hw, hk, rfl⟩ := State.mem_sleepers.mp (hsub q hq)
        exact mem_map.mpr ⟨w, mem_filter.mpr ⟨hw, by simp [p, hk, hq]⟩, rfl⟩
      · rw [mem_map]
        rintro ⟨w, hw, rfl⟩
        have := (mem_filter.mp hw).2
        simp only [p, Bool.and_eq_true, contains_iff_mem] at this
        exact this.2
  have hl : (pids.reverse.map Obs.consumed ++ k.log).Perm
      (((k.waiters.filter p).map (·.pid)).reverse.map Obs.consumed ++ k.log) := by
    refine List.Perm.append_right _ (List.Perm.map _ ?_)
    exact (reverse_perm _).trans (hp.trans (reverse_perm _).symm)
  have hin := hs.permute (State.goto_self ..) hp hl
  convert hin using 1
  simp [State.expire, State.goto, p]

lemma sleepers_expire : (k.expire c pids back).sleepers = k.sleepers.filter fun p => !pids.contains p := by
  simp only [State.expire, State.sleepers, State.goto, filter_filter, filter_map]
  refine congrArg _ (filter_congr fun w _ => ?_)
  cases w.kind <;> simp

/-! ## Runs -/

namespace Timed

variable {t t' : Timed} {e : TimedEvent}

/-- The protocol holds, and `SLEEP_QUEUE` has the registered sleepers. -/
structure Sound (t : Timed) : Prop where
  inv : Inv t.kernel
  lined : (t.sleepQueue.map (·.pid)).Perm t.kernel.sleepers

/-- A round of `full_reap` for a cascaded zombie finds its slot still empty. -/
def calm (t : Timed) (e : TimedEvent) : Bool :=
  match e.act with
  | .kernel a => Kernel.calm t.kernel ⟨e.cpu, a⟩
  | _ => true

lemma admits_spares (h : t.admits c a = true) :
    (∀ mask, a = .consume mask → (splitMask t.kernel.waiters mask).1.all (·.kind != .sleep)) ∧
    (∀ kind key, a = .register kind key → kind ≠ .sleep) ∧ a ≠ .sliceEnd ∧ a ≠ .boost := by
  unfold admits at h
  split at h <;> simp_all

lemma boost_kernel (t : Timed) (now : Nat) :
    (t.boost now).kernel = t.kernel ∨ (t.boost now).kernel = t.kernel.boostLevels := by
  unfold boost
  split
  · exact .inr rfl
  · exact .inl rfl

lemma inv_boost (h : Inv t.kernel) (now : Nat) : Inv (t.boost now).kernel := by
  obtain heq | heq := t.boost_kernel now <;> rw [heq]
  · exact h
  · exact h.congr rfl rfl rfl rfl (fun _ => rfl) fun _ => rfl

lemma inv_charge (h : Inv t.kernel) (ht : t.kernel.task c = .user slot) :
    Inv (t.charge c slot).kernel := by
  unfold charge
  dsimp only
  split
  · exact h.congr rfl rfl rfl rfl (fun _ => rfl) (duty_goto (ht ▸ rfl))
  · exact h

lemma boost_sleepQueue (t : Timed) (now : Nat) : (t.boost now).sleepQueue = t.sleepQueue := by
  unfold boost; split <;> rfl

lemma boost_sleepers (t : Timed) (now : Nat) : (t.boost now).kernel.sleepers = t.kernel.sleepers := by
  unfold boost; split <;> rfl

lemma charge_sleepQueue (t : Timed) (slot : Nat) : (t.charge c slot).sleepQueue = t.sleepQueue := by
  unfold charge; dsimp only; split <;> rfl

lemma charge_sleepers (t : Timed) (slot : Nat) : (t.charge c slot).kernel.sleepers = t.kernel.sleepers := by
  unfold charge; dsimp only; split <;> rfl

lemma boost_task (t : Timed) (now : Nat) : (t.boost now).kernel.task = t.kernel.task := by
  unfold boost; split <;> rfl

namespace Sound

lemma nodup (h : t.Sound) : (t.sleepQueue.map (·.pid)).Nodup := h.lined.nodup_iff.mpr h.inv.sleepers_nodup

lemma mem_sleepers (h : t.Sound) (hs : s ∈ t.sleepQueue) :
    s.pid ∈ t.kernel.sleepers :=
  h.lined.subset (mem_map_of_mem hs)

lemma expired_sublist (t : Timed) (now : Nat) : (t.expired now).Sublist t.sleepQueue := takeWhile_sublist _

lemma drain (h : t.Sound) (hb : (t.kernel.task c).back? = some back) :
    Inv (t.kernel.expire c ((t.expired now).map SleepEntry.pid) back) ∧
    ((Deadline.later SleepEntry.wakeAt now t.sleepQueue).map (·.pid)).Perm
      (t.kernel.expire c ((t.expired now).map SleepEntry.pid) back).sleepers := by
  have hsp : (t.expired now).map SleepEntry.pid
      ++ (Deadline.later SleepEntry.wakeAt now t.sleepQueue).map (·.pid)
      = t.sleepQueue.map (·.pid) := by
    rw [← map_append]
    exact congrArg _ Deadline.due_append_later
  have hn := h.nodup
  rw [← hsp] at hn
  obtain ⟨hn₁, -, hd⟩ := nodup_append.mp hn
  constructor
  · refine h.inv.expire hb hn₁ fun p hp => ?_
    obtain ⟨s, hs, rfl⟩ := mem_map.mp hp
    exact h.mem_sleepers ((expired_sublist t now).subset hs)
  · rw [sleepers_expire]
    refine List.Perm.trans ?_ (h.lined.filter _)
    rw [← hsp, filter_append]
    have h₁ : ((t.expired now).map SleepEntry.pid).filter
        (fun p => !((t.expired now).map SleepEntry.pid).contains p) = [] := by
      refine filter_eq_nil_iff.mpr fun p hp => ?_
      simpa using hp
    have h₂ : ((Deadline.later SleepEntry.wakeAt now t.sleepQueue).map (·.pid)).filter
        (fun p => !((t.expired now).map SleepEntry.pid).contains p)
        = (Deadline.later SleepEntry.wakeAt now t.sleepQueue).map (·.pid) := by
      refine filter_eq_self.mpr fun p hp => ?_
      have hne : p ∉ (t.expired now).map SleepEntry.pid := fun hm => hd p hm p hp rfl
      simpa using hne
    rw [h₁, h₂, nil_append]

lemma enlist (h : t.Sound) (ht : t.kernel.task c = .user slot) (hr : t.kernel.table.get slot = some r)
    (hk : Kernel.step t.kernel c (.register .sleep 0) = some (.ok k)) :
    Inv k ∧ k.sleepers = t.kernel.sleepers ++ [r.pid] := by
  have hs := step_safe (c := c) h.inv (.register .sleep 0) (by simp [Kernel.calm, ht])
  rw [hk] at hs
  refine ⟨hs, ?_⟩
  simp only [Kernel.step, ht] at hk
  split at hk
  · cases hk
  · simp only [userStep, hr] at hk
    cases hk
    simp [State.sleepers, State.goto]

lemma step (h : t.Sound) (hc : t.calm e = true) (hst : t.Step e t') : t'.Sound := by
  obtain ⟨c, a⟩ := e
  cases does_of_step hst with
  | kernel ha hk used called hd =>
    obtain ⟨hm, hkn, -, -⟩ := admits_spares ha
    have hf := step_safe h.inv _ hc
    rw [hk] at hf
    exact ⟨hf, h.lined.trans (by rw [(step_spares hm hkn _ hk).1])⟩
  | tick _ | sleep => exact ⟨h.inv, h.lined⟩
  | drain hs hb x0 => exact ⟨(h.drain hb).1, (h.drain hb).2⟩
  | account hs =>
    refine ⟨inv_boost h.inv _, ?_⟩
    simp only [enter, boost_sleepQueue, boost_sleepers]
    exact h.lined
  | @charge now slot hs ht =>
    have hn : Inv ((t.boost now).enter c .none).kernel := inv_boost h.inv now
    refine ⟨inv_charge hn (by simpa [enter, boost_task] using ht), ?_⟩
    simp only [charge_sleepQueue, charge_sleepers, enter, boost_sleepQueue, boost_sleepers]
    exact h.lined
  | enlist hs ht hr hrm hk he =>
    obtain ⟨hn, hl⟩ := h.enlist ht hr hk
    refine ⟨hn, ?_⟩
    simp only [enter, hl]
    refine (Deadline.insertAt_perm.map _).trans ?_
    rw [map_cons, he]
    exact (h.lined.cons _).trans (perm_append_singleton _ _).symm

lemma init : Timed.init.Sound := ⟨.init, .nil⟩

end Sound

end Timed

end ZeroOS.Kernel
