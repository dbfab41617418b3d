import ZeroOS.Kernel.Protocol

/-!
# What a wait sees of a step

`waitpid` and the exit of a child meet in the process table: in the parent's `wait_target`, in the
state and the exit code of the child, and in the `parent` field that connects the two. Most steps of
the machine leave all of this alone; those are `Quiet`. `WaitMove` lists the others: an exit begins,
a parent registers its wait, a zombie is collected, an exiting process becomes a zombie, a result is
delivered, a spawned process gets its parent, `full_reap` takes records out.

A CPU on an exit path carries the exit status, later the packed result, from one critical section to
the next. That, and the pid of a spawned process that has no parent yet, is its `Errand`.
-/

namespace ZeroOS.Kernel

open ZeroOS.Process ZeroOS.Scheduler ProcessTable

/-! ## Rows -/

/-- The two records say the same about waiting and having exited. -/
structure SameWait (r r' : ProcessRecord) : Prop where
  pid : r'.pid = r.pid
  parent : r'.parent = r.parent
  target : r'.waitTarget = r.waitTarget
  dead : r'.state = .zombie ↔ r.state = .zombie
  /-- The exit code of a record that is no zombie is for the audit only. -/
  code : r.state = .zombie → r'.exitCode = r.exitCode

structure Newborn (r : ProcessRecord) : Prop where
  target : r.waitTarget = none
  alive : r.state ≠ .zombie

inductive QuietRow : Option ProcessRecord → Option ProcessRecord → Prop
  | free : QuietRow none none
  | born {r : ProcessRecord} (h : Newborn r) : QuietRow none (some r)
  | same {r r' : ProcessRecord} (h : SameWait r r') : QuietRow (some r) (some r')

/-- No record is lost, and all of them say the same about waiting and having exited. -/
def Quiet (t t' : ProcessTable) : Prop := ∀ i, QuietRow (t.get i) (t'.get i)

lemma SameWait.refl (r : ProcessRecord) : SameWait r r := ⟨rfl, rfl, rfl, .rfl, fun _ => rfl⟩

lemma SameWait.trans (h : SameWait r₁ r₂) (h' : SameWait r₂ r₃) :
    SameWait r₁ r₃ where
  pid := h'.pid.trans h.pid
  parent := h'.parent.trans h.parent
  target := h'.target.trans h.target
  dead := h'.dead.trans h.dead
  code hz := (h'.code (h.dead.mpr hz)).trans (h.code hz)

lemma QuietRow.refl : ∀ o : Option ProcessRecord, QuietRow o o
  | none => .free
  | some r => .same (.refl r)

namespace Quiet

variable {t t' t₁ : ProcessTable} {s i : Nat}

lemma refl (t : ProcessTable) : Quiet t t := fun _ => .refl _

lemma trans (h : Quiet t t₁) (h' : Quiet t₁ t') : Quiet t t' := by
  intro i
  have h₁ := h i
  have h₂ := h' i
  generalize t.get i = o₁ at *
  generalize t₁.get i = o₂ at *
  generalize t'.get i = o₃ at *
  cases h₁ with
  | free => exact h₂
  | born hb =>
    cases h₂ with
    | same hs => exact .born ⟨hs.target.trans hb.target, fun hz => hb.alive (hs.dead.mp hz)⟩
  | same hs =>
    cases h₂ with
    | same hs' => exact .same (hs.trans hs')

lemma old (h : Quiet t t') (hr : t.get i = some r) : ∃ r', t'.get i = some r' ∧ SameWait r r' := by
  have hw := h i
  rw [hr] at hw
  generalize t'.get i = o at *
  cases hw with
  | same hs => exact ⟨_, rfl, hs⟩

lemma new (h : Quiet t t') (hr : t'.get i = some r') :
    (∃ r, t.get i = some r ∧ SameWait r r') ∨ t.get i = none ∧ Newborn r' := by
  have hw := h i
  rw [hr] at hw
  generalize t.get i = o at *
  cases hw with
  | born hb => exact .inr ⟨rfl, hb⟩
  | same hs => exact .inl ⟨_, rfl, hs⟩

lemma modify (hs : ∀ r, (f r).slot = r.slot) (hf : ∀ r, t.get s = some r → SameWait r (f r)) :
    Quiet t (t.modify s f hs) := by
  intro i
  rw [get_modify]
  split
  next his =>
    subst his
    cases hr : t.get i with
    | none => exact .free
    | some r => exact .same (hf r hr)
  · exact .refl _

lemma touch (hs : ∀ r, (f r).slot = r.slot)
    (hf : ∀ r, (f r).pid = r.pid ∧ (f r).parent = r.parent ∧ (f r).waitTarget = r.waitTarget ∧ (f r).state = r.state ∧ (f r).exitCode = r.exitCode)
    : Quiet t (t.modify s f hs) := by
  refine modify hs fun r _ => ?_
  obtain ⟨hd, hp, ht, hst, hc⟩ := hf r
  exact ⟨hd, hp, ht, hst ▸ .rfl, fun _ => hc⟩

lemma settle {p : Procs} (ht : st ≠ .zombie) (hr : p.table.get s = some r) (hs : r.state ≠ .zombie) :
    Quiet p.table (p.settle s st o).table := by
  refine modify (by intro; rfl) fun r' hr' => ?_
  obtain rfl := Option.mem_unique hr hr'
  exact ⟨rfl, rfl, rfl, ⟨fun h => absurd h ht, fun h => absurd h hs⟩, fun _ => rfl⟩

lemma insert {p p' : Procs} {mk : Nat → ProcessRecord} {hm : ∀ i, (mk i).slot = i}
    (h : p.insert mk hm = some (i, p')) (hn : Newborn (mk i)) : Quiet p.table p'.table := by
  obtain ⟨⟨i', t⟩, ht, heq⟩ := Option.map_eq_some_iff.mp h
  cases heq
  obtain ⟨hf, hg⟩ := insert_spec ht
  intro j
  simp only [hg]
  split
  next hj => subst hj; rw [hf]; exact .born hn
  · exact .refl _

lemma transfer {tgid dying : Nat} {space out : Option Nat}
    (h : t.transferIfAny tgid dying space = (out, t')) : Quiet t t' := by
  obtain ⟨-, rfl, -⟩ | ⟨sp, idx, r, -, -, -, -, -, -, -, -, rfl⟩ := ProcessTable.transferIfAny_cases h
  · exact refl _
  · exact touch (by intro; rfl) (by simp)

end Quiet

/-! ## Steps -/

/-- What a CPU carries from one critical section to the next that concerns waits. -/
inductive Errand
  | /-- The process at the slot exits with this status. -/
    exits (slot : Nat) (status : Int)
  | /-- The result of the zombie at the slot goes to the parent. -/
    serves (slot parent packed : Nat)
  | /-- A spawned process has yet to get its parent. -/
    founds (pid : Nat)
  deriving DecidableEq

def Task.errand : Task → Option Errand
  | .exitSwitch slot (some status) | .exitRelease slot (some status) | .exitDecide slot status =>
    some (.exits slot status)
  | .zombieDestroy slot _ (some (_, parent)) packed | .deliver slot parent packed => some (.serves slot parent packed)
  | .spawnBuild _ pid _ _ | .spawnParent pid _ _ => some (.founds pid)
  | _ => none

@[simp] lemma Back.task_errand (back : Back) : back.task.errand = none := by cases back <;> rfl

/-- The parent and the word it got, if the event is the return of a wait. -/
def Obs.result : Obs → Option (Nat × Nat)
  | .collected parent packed | .delivered parent packed => some (parent, packed)
  | _ => none

/-- What the waits of the run so far have returned, the newest first. -/
def State.results (k : State) : List (Nat × Nat) := k.log.filterMap Obs.result

/-- The step of `c` leads to the table `t`, returns the results `new` from waits and leaves the CPU
with the errand `x`. -/
structure Moved (k : State) (c : Nat) (k' : State) (t : ProcessTable) (new : List (Nat × Nat)) (x : Option Errand) : Prop where
  table : k'.table = t
  results : k'.results = new ++ k.results
  others : ∀ c', c' ≠ c → k'.task c' = k.task c'
  errand : (k'.task c).errand = x
  counter : k'.nextPid = k.nextPid ∨ allocPid k.nextPid = some (k.nextPid, k'.nextPid)

/-- What a step of CPU `c` does to waiting parents and exiting children. -/
inductive WaitMove (k : State) (c : Nat) (a : Act) (k' : State) : Prop
  | quiet {t : ProcessTable} {x : Option Errand} (hmove : Moved k c k' t [] x)
      (hrows : Quiet k.table t) (hx : x = none ∨ x = (k.task c).errand)
  | /-- A process that has yet to get a parent is spawned. -/
    founds {t : ProcessTable} {pid : Nat} (hmove : Moved k c k' t [] (some (.founds pid)))
      (hrows : Quiet k.table t)
      (hnew : ∀ i r, t.get i = some r → r.pid = pid → r.parent = none)
  | /-- A spawned process gets its parent. -/
    fathers {pid parent : Nat} (hx : (k.task c).errand = some (.founds pid))
      (hmove : Moved k c k' (k.table.setParent pid (some parent)) [] none)
  | exits {s : Nat} {status : Int} (ht : k.task c = .user s) (ha : a = .exit status)
      (hmove : Moved k c k' k.table [] (some (.exits s status)))
  | /-- A parent without a zombie child registers its wait. -/
    sleeps {s target flags : Nat} {me : ProcessRecord} (ht : k.task c = .user s)
      (ha : a = .wait target flags) (hme : k.table.get s = some me)
      (hplan : waitPlan me.pid target flags k.table.views = .sleep)
      (hmove : Moved k c k' (k.table.modify s fun r =>
        { r with waitTarget := some (if target = 0 then .any else .pid target) }) [] none)
  | collects {s target flags : Nat} {code : Int} {me child : ProcessRecord}
      (ht : k.task c = .user s) (ha : a = .wait target flags) (hme : k.table.get s = some me)
      (hchild : k.table.get child.slot = some child) (hparent : child.parent = some me.pid)
      (hz : child.state = .zombie) (hcode : child.exitCode = some code)
      (htarget : target = 0 ∨ child.pid = target)
      (hmove : Moved k c k' (k.table.take child.slot)
        [(me.pid, packWaitResult child.pid code)] none)
  | /-- An exiting process becomes a zombie; a wait of its parent that covers it is taken. -/
    zombifies {s : Nat} {status : Int} {me : ProcessRecord} {space : Option Nat}
      {t₂ t₃ : ProcessTable} {wake : Option (Nat × Nat)} (ht : k.task c = .exitDecide s status)
      (hme : k.table.get s = some me)
      (hspace : (k.table.modify s (·.zombify status)).transferIfAny me.tgid me.pid me.addrSpace
        = (space, t₂))
      (hwake : t₂.takeWait (me.parent.bind k.table.find) me.pid = (wake, t₃))
      (hmove : Moved k c k' t₃ []
        (wake.map fun w => .serves s w.2 (packWaitResult me.pid status)))
  | delivers {s parent packed : Nat} (hx : (k.task c).errand = some (.serves s parent packed))
      (hmove : Moved k c k' (k.table.take s) [(parent, packed)] none)
  | reaps {s : Nat} {record : ProcessRecord} {casc : List ProcessRecord} {t : ProcessTable}
      (ht : k.task c = .reapSeed s) (hreap : k.table.reapOne s = some (record, casc, t))
      (hmove : Moved k c k' t [] none)

lemma WaitMove.others (h : WaitMove k c a k') (hne : c' ≠ c) : k'.task c' = k.task c' := by
  cases h with
  | quiet hm | founds hm | fathers _ hm | exits _ _ hm | sleeps _ _ _ _ hm
  | collects _ _ _ _ _ _ _ _ hm | zombifies _ _ _ _ hm | delivers _ hm | reaps _ _ hm => exact hm.others c' hne

/-- Whatever state the step leads to, it gets there by one of the moves. -/
def Outcome.Waits (k : State) (c : Nat) (a : Act) (o : Outcome) : Prop := ∀ k', o = some (.ok k') → WaitMove k c a k'

variable {k k₁ : State} {c slot : Nat} {t : ProcessTable} {new : List (Nat × Nat)} {u : Task}
  {back : Back} {ok : Bool}

/-- Apart from the table, nothing that concerns waits has changed. -/
structure Still (k k₁ : State) : Prop where
  task : k₁.task = k.task
  results : k₁.results = k.results
  counter : k₁.nextPid = k.nextPid ∨ allocPid k.nextPid = some (k.nextPid, k₁.nextPid)

lemma Moved.goto (hs : k₁.task = k.task) (ht : k₁.table = t) (hr : k₁.results = new ++ k.results) (hu : u.errand = x)
    (hn : k₁.nextPid = k.nextPid ∨ allocPid k.nextPid = some (k.nextPid, k₁.nextPid)) :
    Moved k c (k₁.goto c u) t new x where
  table := ht
  results := hr
  others c' hne := by rw [State.goto_of_ne _ _ hne, hs]
  errand := by rw [State.goto_self, hu]
  counter := hn

lemma waits_error : Outcome.Waits k c a (some (.error p)) := nofun

lemma waits_quiet (hr : Quiet k.table k₁.table) (hu : u.errand = none ∨ u.errand = (k.task c).errand) (hs : Still k k₁) :
    Outcome.Waits k c a (next (k₁.goto c u)) := by
  rintro k' ⟨⟩
  exact .quiet (.goto hs.task rfl hs.results rfl hs.counter) hr hu

lemma waits_idle (hu : u.errand = none) (ht : k₁.table = k.table) (hs : Still k k₁) :
    Outcome.Waits k c a (next (k₁.goto c u)) :=
  waits_quiet (ht ▸ .refl _) (.inl hu) hs

lemma waits_stay (ht : k₁.table = k.table) (hs : Still k k₁) :
    Outcome.Waits k c a (next k₁) := by
  rintro k' ⟨⟩
  exact .quiet ⟨ht, hs.results, fun c' _ => by rw [hs.task], by rw [hs.task], hs.counter⟩ (.refl _) (.inr rfl)

lemma enqueue_waits (hu : u.errand = none) : (enqueue k c pid u).Waits k c a := by
  unfold enqueue
  split
  · exact waits_error
  · exact waits_idle hu rfl ⟨rfl, rfl, .inl rfl⟩

lemma detachCurrent_waits (hu : u.errand = none ∨ u.errand = (k.task c).errand) : (detachCurrent k c slot u).Waits k c a := by
  unfold detachCurrent
  split
  · exact waits_quiet (.refl _) hu ⟨rfl, rfl, .inl rfl⟩
  · exact waits_error

lemma consume_waits : (consume k c mask back).Waits k c a := by
  refine waits_idle rfl rfl ⟨rfl, ?_, .inl rfl⟩
  simp only [State.results, List.filterMap_append, List.filterMap_map]
  rw [List.filterMap_eq_nil_iff.mpr (by intro x _; rfl), List.nil_append]

lemma still_destroyed (space : Option Nat) : Still k (k.noteDestroyed space) := by
  cases space <;> exact ⟨rfl, rfl, .inl rfl⟩

lemma spawn_waits (h : Inv k) : (spawn k c kind back).Waits k c a := by
  unfold spawn
  split
  · exact waits_error
  next pid nextPid hd =>
    obtain ⟨rfl, -⟩ := allocPid_spec hd
    split
    · exact waits_stay rfl ⟨rfl, rfl, .inr hd⟩
    next slot procs hin =>
      have hw : Quiet k.table procs.table := .insert hin ⟨rfl, nofun⟩
      -- whoever has the new pid is the new record, which has no parent yet
      have hn : ∀ i r, procs.table.get i = some r → r.pid = k.nextPid → r.parent = none := by
        intro i r hr hp
        obtain ⟨⟨i', t⟩, ht, heq⟩ := Option.map_eq_some_iff.mp hin
        cases heq
        have hg := (ProcessTable.insert_spec ht).2 i
        rw [show t.get i = some r from hr] at hg
        split at hg
        · rw [Option.some.inj hg]; rfl
        · exact absurd hp (ne_of_lt (h.pid_lt hg.symm))
      rintro k' ⟨⟩
      cases kind with
      | kernelFn => exact .quiet (.goto rfl rfl rfl rfl (.inr hd)) hw (.inl rfl)
      | bootfs | image => exact .founds (.goto rfl rfl rfl rfl (.inr hd)) hw hn

lemma fork_waits : (fork k c slot clones).Waits k c a := by
  unfold fork
  split
  · exact waits_stay rfl ⟨rfl, rfl, .inl rfl⟩
  next parent _ =>
    split
    · exact waits_error
    next pid nextPid hp =>
      obtain ⟨rfl, -⟩ := allocPid_spec hp
      split
      · exact waits_idle rfl rfl ⟨rfl, rfl, .inr hp⟩
      · split
        · exact waits_idle rfl rfl ⟨rfl, rfl, .inr hp⟩
        · exact waits_stay rfl ⟨rfl, rfl, .inr hp⟩

lemma wait_waits (ht : k.task c = .user slot) : (wait k c slot target flags).Waits k c (.wait target flags) := by
  unfold wait
  split
  next record packed t hs =>
    obtain ⟨me, code, hm, hr, hp, hz, hc, rfl, htr, rfl⟩ := ProcessTable.waitpidStep_collect hs
    rintro k' ⟨⟩
    refine .collects ht rfl hm hr hp hz hc htr (.goto rfl rfl ?_ rfl (.inl rfl))
    simp [State.results, State.note, State.setTable, Obs.result, hm]
  next t hs =>
    unfold waitpidStep at hs
    split at hs
    · cases hs
    next me hm =>
      split at hs
      · split at hs <;> cases hs
      next hl =>
        cases hs
        rintro k' ⟨⟩
        exact .sleeps ht rfl hm hl (.goto rfl rfl rfl rfl (.inl rfl))
      all_goals cases hs
  · exact waits_stay rfl ⟨rfl, rfl, .inl rfl⟩

/-! ## Tasks -/

lemma claim_waits (ht : k.task c = .dispatching pid) : (go k c ok).Waits k c a := by
  simp only [go, ht]
  split
  · exact waits_error
  next slot procs hc =>
    obtain ⟨r, hr, -, hs, -, rfl⟩ := Procs.claimRunnable_some hc
    exact waits_quiet (.settle (by simp) hr (by simp [hs])) (.inl rfl) ⟨rfl, rfl, .inl rfl⟩
  · exact waits_idle rfl rfl ⟨rfl, rfl, .inl rfl⟩

lemma registered_waits (h : Inv k) (ht : k.task c = .registered slot) : (go k c ok).Waits k c a := by
  obtain ⟨r, hr, ho, hs, -⟩ := h.of_owns ht rfl
  simp only [go, ht, Procs.beginBlock_owned hr hs ho]
  exact waits_quiet (.touch (by intro; rfl) (by simp)) (.inl rfl) ⟨rfl, rfl, .inl rfl⟩

lemma blockFinish_waits (h : Inv k) (ht : k.task c = .blockFinish slot) : (go k c ok).Waits k c a := by
  obtain ⟨r, hr, ho, hs, -⟩ := h.of_owns ht rfl
  obtain ⟨r', hr', hint⟩ := (h.sound c).owns slot (ht ▸ rfl)
  obtain rfl := Option.mem_unique hr hr'
  simp only [go, ht, Procs.finishBlock_owned hr hs (hint (ht ▸ rfl)) ho]
  cases r.wakePending <;> exact waits_quiet (.settle (by simp) hr (by simp [hs])) (.inl rfl) ⟨rfl, rfl, .inl rfl⟩

lemma yieldRelease_waits (h : Inv k) (ht : k.task c = .yieldRelease slot) : (go k c ok).Waits k c a := by
  obtain ⟨r, hr, ho, hs, -⟩ := h.of_owns ht rfl
  simp only [go, ht, Procs.releaseRunning_owned hr hs ho]
  exact waits_quiet (.settle (by simp) hr (by simp [hs])) (.inl rfl) ⟨rfl, rfl, .inl rfl⟩

lemma waking_waits (ht : k.task c = .waking (pid :: pids) back) : (go k c ok).Waits k c a := by
  simp only [go, ht]
  cases hw : k.procs.requestWake pid with
  | error e => exact waits_error
  | ok out =>
    obtain ⟨w, procs⟩ := out
    obtain ⟨r, hr, -, hs, ho, rfl, rfl⟩ | ⟨r, hr, -, hs, rfl, rfl⟩ | ⟨rfl, rfl, -⟩ := Procs.requestWake_cases hw
    · rw [Procs.modify_settle ho]
      exact waits_quiet (.settle (by simp) hr (by simp [hs])) (.inl rfl) ⟨rfl, rfl, .inl rfl⟩
    · exact waits_quiet (.touch (by intro; rfl) (by simp)) (.inl rfl) ⟨rfl, rfl, .inl rfl⟩
    · exact waits_idle rfl rfl ⟨rfl, rfl, .inl rfl⟩

lemma exitRelease_waits (h : Inv k) (ht : k.task c = .exitRelease slot status) : (go k c ok).Waits k c a := by
  obtain ⟨r, hr, ho, hs, -⟩ := h.of_owns ht rfl
  simp only [go, ht, Procs.releaseOwnerForExit_owned hr hs ho]
  cases status with
  | none => exact waits_idle rfl rfl ⟨rfl, rfl, .inl rfl⟩
  | some status => exact waits_quiet (.refl _) (.inr (ht ▸ rfl)) ⟨rfl, rfl, .inl rfl⟩

lemma exitDecide_waits (h : Inv k) (ht : k.task c = .exitDecide slot status) : (go k c ok).Waits k c a := by
  obtain ⟨me, hm, hφ⟩ := h.of_leaves ht rfl
  have hst := (h.fits hm hφ).state
  simp only [go, ht, exitStep]
  generalize hd : k.table.exitDecide slot status = out
  obtain ⟨plan, t⟩ := out
  obtain ⟨space, t₂, wake, rfl, -, hs, hw⟩ | ⟨out, rfl, hs⟩ := ProcessTable.exitDecide_cases hm hd
  · rintro k' ⟨⟩
    refine .zombifies ht hm hs hw ?_
    cases wake with
    | none => exact .goto rfl rfl rfl rfl (.inl rfl)
    | some w => exact .goto rfl rfl rfl rfl (.inl rfl)
  · have hrt : Quiet k.table (k.table.modify slot (·.retire status)) := by
      refine .modify (by intro; rfl) fun r hr => ⟨by rfl, by rfl, by rfl, by rfl, fun hz => ?_⟩
      obtain rfl := Option.mem_unique hm hr
      rw [hst] at hz
      cases hz
    exact waits_quiet (hrt.trans (.transfer hs)) (.inl rfl) ⟨rfl, rfl, .inl rfl⟩

lemma go_waits (h : Inv k) (hc : calm k ⟨c, .go ok⟩) : (go k c ok).Waits k c a := by
  cases ht : k.task c with
  | boot | sched | user _ => simp only [go, ht]; rintro _ ⟨⟩
  | dispatching pid => exact claim_waits ht
  | entering slot | activating slot | execActivate slot space old =>
    simp only [go, ht]
    exact waits_idle rfl rfl ⟨rfl, rfl, .inl rfl⟩
  | registered slot => exact registered_waits h ht
  | blockSwitch slot | yieldSwitch slot =>
    simp only [go, ht]
    exact detachCurrent_waits (.inl rfl)
  | exitSwitch slot status =>
    simp only [go, ht]
    exact detachCurrent_waits (.inr (by rw [ht]; cases status <;> rfl))
  | blockFinish slot => exact blockFinish_waits h ht
  | requeue pid => simp only [go, ht]; exact enqueue_waits rfl
  | yieldRelease slot => exact yieldRelease_waits h ht
  | yieldPush pid slot | wakePush pid slot pids back =>
    simp only [go, ht]
    split
    · exact waits_error
    · exact waits_idle rfl rfl ⟨rfl, rfl, .inl rfl⟩
  | waking pids back =>
    cases pids with
    | nil => simp only [go, ht]; exact waits_idle (by simp) rfl ⟨rfl, rfl, .inl rfl⟩
    | cons pid pids => exact waking_waits ht
  | enqueueing pid back => simp only [go, ht]; exact enqueue_waits (by simp)
  | spawnBuild slot pid parent back =>
    simp only [go, ht]
    split
    · exact waits_quiet (.touch (by intro; rfl) (by simp))
        (.inr (ht ▸ rfl)) ⟨rfl, rfl, .inl rfl⟩
    · exact waits_idle (by simp) rfl ⟨rfl, rfl, .inl rfl⟩
  | spawnParent pid parent back =>
    simp only [go, ht]
    cases parent with
    | none => exact waits_idle rfl rfl ⟨rfl, rfl, .inl rfl⟩
    | some parent =>
      rintro k' ⟨⟩
      exact .fathers (ht ▸ rfl) (.goto rfl rfl rfl rfl (.inl rfl))
  | forkInsert slot parent pid space =>
    simp only [go, ht]
    split
    · exact waits_idle rfl rfl ⟨rfl, rfl, .inl rfl⟩
    next hn =>
      have hw := Quiet.insert hn ⟨rfl, by rintro ⟨⟩⟩
      exact waits_quiet (by cases space <;> exact hw) (.inl rfl) (by cases space <;> exact ⟨rfl, rfl, .inl rfl⟩)
  | threadCheck slot parent =>
    simp only [go, ht]
    split
    · exact waits_idle rfl rfl ⟨rfl, rfl, .inl rfl⟩
    · split
      · split
        · exact waits_error
        next pid nextPid hp =>
          obtain ⟨rfl, -⟩ := allocPid_spec hp
          exact waits_idle rfl rfl ⟨rfl, rfl, .inr hp⟩
      · exact waits_idle rfl rfl ⟨rfl, rfl, .inl rfl⟩
  | threadInsert slot parent pid =>
    simp only [go, ht]
    split
    · exact waits_idle rfl rfl ⟨rfl, rfl, .inl rfl⟩
    next hn => exact waits_quiet (.insert hn ⟨rfl, by rintro ⟨⟩⟩) (.inl rfl) ⟨rfl, rfl, .inl rfl⟩
  | execBuild slot =>
    simp only [go, ht]
    split <;> exact waits_idle rfl rfl ⟨rfl, rfl, .inl rfl⟩
  | execRebind slot space =>
    simp only [go, ht, rebindAddressSpace]
    cases hr : k.table.get slot with
    | none => exact waits_idle rfl rfl ⟨rfl, rfl, .inl rfl⟩
    | some r => exact waits_quiet (.touch (by intro; rfl) (by simp)) (.inl rfl) ⟨rfl, rfl, .inl rfl⟩
  | execDestroy slot space | waitDestroy slot space =>
    simp only [go, ht]
    exact waits_idle rfl (by cases space <;> rfl) (still_destroyed space)
  | exitRelease slot status => exact exitRelease_waits h ht
  | exitDecide slot status => exact exitDecide_waits h ht
  | zombieDestroy slot space wake packed =>
    simp only [go, ht]
    refine waits_quiet (by cases space <;> exact .refl _) ?_ (still_destroyed space)
    cases wake with
    | none => exact .inl rfl
    | some w => exact .inr (ht ▸ rfl)
  | deliver slot parent packed =>
    simp only [go, ht]
    rintro k' ⟨⟩
    exact .delivers (ht ▸ rfl) (.goto rfl rfl rfl rfl (.inl rfl))
  | reapSeed seed =>
    simp only [go, ht, reapRound]
    split
    · exact waits_idle rfl rfl ⟨rfl, rfl, .inl rfl⟩
    next hrp =>
      rintro k' ⟨⟩
      exact .reaps ht hrp (.goto rfl rfl rfl rfl (.inl rfl))
  | reapNext seed stack =>
    cases stack with
    | nil => simp only [go, ht]; exact waits_idle rfl rfl ⟨rfl, rfl, .inl rfl⟩
    | cons s stack =>
      have hs : k.table.get s = none := by simpa [calm, ht] using hc
      simp only [go, ht, reapRound, reapOne, hs]
      exact waits_idle rfl rfl ⟨rfl, rfl, .inl rfl⟩
  | reapTransfer seed stack record casc =>
    simp only [go, ht]
    exact waits_quiet (.transfer rfl) (.inl rfl) ⟨rfl, rfl, .inl rfl⟩
  | reapDestroy seed stack pending =>
    cases pending with
    | nil | cons space pending => simp only [go, ht]; exact waits_idle rfl rfl ⟨rfl, rfl, .inl rfl⟩

lemma userStep_waits (h : Inv k) (ht : k.task c = .user slot) (a : Act) : (userStep k c slot a).Waits k c a := by
  cases a with
  | spawn kind => exact spawn_waits h
  | consume mask => exact consume_waits
  | yield | sliceEnd | svcExit => exact waits_idle rfl rfl ⟨rfl, rfl, .inl rfl⟩
  | exit status =>
    rintro k' ⟨⟩
    exact .exits ht rfl (.goto rfl rfl rfl rfl (.inl rfl))
  | boost => exact waits_stay rfl ⟨rfl, rfl, .inl rfl⟩
  | fork clones => exact fork_waits
  | wait target flags => exact wait_waits ht
  | register _ _ | createThread | exec =>
    simp only [userStep]
    split
    all_goals first
      | exact waits_idle rfl rfl ⟨rfl, rfl, .inl rfl⟩
      | exact waits_stay rfl ⟨rfl, rfl, .inl rfl⟩
  | startScheduler | pop | go _ => rintro _ ⟨⟩

/-- Every calm step is one of the moves. -/
lemma step_waits (h : Inv k) (hc : calm k e) (hs : Step k e k') :
    WaitMove k e.cpu e.act k' := by
  obtain ⟨c, a⟩ := e
  suffices hw : (step k c a).Waits k c a from hw k' hs
  unfold step
  split
  · exact spawn_waits h
  · exact waits_idle rfl rfl ⟨rfl, rfl, .inl rfl⟩
  · split
    · exact waits_idle rfl rfl ⟨rfl, rfl, .inl rfl⟩
    · exact waits_stay rfl ⟨rfl, rfl, .inl rfl⟩
  · exact consume_waits
  next slot a ht =>
    split
    · exact waits_error
    · exact userStep_waits h ht _
  · exact go_waits h hc
  · exact nofun

end ZeroOS.Kernel
