import ZeroOS.Kernel.Waiters
import ZeroOS.Kernel.Parents

/-!
# An exit status is returned once, to the parent that asked for it

The status of an exit reaches the parent on one of two routes: the parent's `waitpid` finds the
zombie, or the exit path finds the parent's `wait_target` and writes the result into its trap frame.
To say what a result should be, a run is accompanied by its *history*: what each process asked for
in its last system call, if that was a wait, and the status of its last system call, if that was an
exit. The history is not part of the kernel; `History.record` keeps it from the events of the run.
-/

namespace ZeroOS.Kernel

open Function Option Transition ZeroOS.Process ZeroOS.Scheduler ProcessTable State

/-! ## Histories -/

/-- What the processes of a run have asked for. -/
structure History where
  /-- The wait that was the last system call of a process. -/
  asked : Nat → Option WaitSpec
  /-- The status of the exit that was the last system call of a process. -/
  status : Nat → Option Int

def Act.asks : Act → Option WaitSpec
  | .wait target _ => some (if target = 0 then .any else .pid target)
  | _ => none

def Act.status? : Act → Option Int
  | .exit status => some status
  | _ => none

namespace History

def init : History := ⟨fun _ => none, fun _ => none⟩

/-- The history after an event: the caller, if a process runs on the CPU, has made this call. -/
def record (h : History) (k : State) (e : Event) : History :=
  match k.task e.cpu with
  | .user slot =>
    match k.table.get slot with
    | some r => { asked := update h.asked r.pid e.act.asks, status := update h.status r.pid e.act.status? }
    | none => h
  | _ => h

end History

def TracedStep (x : State × History) (e : Event) (y : State × History) : Prop := Step x.1 e y.1 ∧ y.2 = x.2.record x.1 e

/-! ## The invariant -/

/-- What the table and the CPUs say about exits and waits is what the history says. -/
structure Told (k : State) (h : History) : Prop where
  exits : ∀ {c s status r}, (k.task c).errand = some (.exits s status) → k.table.get s = some r → h.status r.pid = some status
  zombies : ∀ {i r}, k.table.get i = some r → r.state = .zombie → ∃ code, r.exitCode = some code ∧ h.status r.pid = some code
  serves : ∀ {c s parent packed r}, (k.task c).errand = some (.serves s parent packed) →
    k.table.get s = some r → (∃ code, r.exitCode = some code ∧ packed = packWaitResult r.pid code) ∧
      ∃ spec, h.asked parent = some spec ∧ spec.matches r.pid = true
  targets : ∀ {i r spec}, k.table.get i = some r → r.waitTarget = some spec → h.asked r.pid = some spec

def State.Holds (k : State) (pid : Nat) : Prop :=
  (∃ i r, k.table.get i = some r ∧ r.pid = pid) ∨ ∃ c, (k.task c).duty.reserved = some pid

def State.returned (k : State) : List Nat := k.results.map fun result => result.2 / 2 ^ 32

/-- Pids fit the half of the result word they are packed into, and those returned are gone. -/
structure Spent (k : State) : Prop where
  small : ∀ {pid}, k.Holds pid → pid < 2 ^ 32
  gone : ∀ {pid}, pid ∈ k.returned → pid < k.nextPid ∧ ¬k.Holds pid
  once : k.returned.Nodup

variable {k k' : State} {c s i : Nat} {a : Act} {e : Event} {h h' : History}
  {r r' : ProcessRecord} {slot : Nat}

/-! ## A system call is recorded -/

lemma record_user (ht : k.task e.cpu = .user slot) (hr : k.table.get slot = some r) :
    h.record k e =
      { asked := update h.asked r.pid e.act.asks, status := update h.status r.pid e.act.status? } := by
  simp [History.record, ht, hr]

lemma Task.holds_of_exits {u : Task} (h : u.errand = some (.exits s status)) :
    u.duty.owns = some s ∨ u.duty.leaves = some s := by
  unfold Task.errand at h
  split at h <;> simp_all [Task.duty]

lemma Inv.get_of_exits (hn : Inv k) (hx : (k.task c).errand = some (.exits s status)) : ∃ r, k.table.get s = some r := by
  obtain ho | hl := Task.holds_of_exits hx
  · obtain ⟨r, hr, -⟩ := (hn.sound c).owns s ho
    exact ⟨r, hr⟩
  · exact (hn.sound c).leaves s hl

lemma Told.record (ht : Told k h) (hn : Inv k) : Told k (h.record k e) := by
  unfold History.record
  split
  next slot hu =>
    obtain ⟨me, hm, -, hs, hrn, -⟩ := hn.of_owns hu rfl
    have hφ := hrn rfl
    -- the caller is neither dead, nor waiting, nor in flight
    have dead : ∀ {i r}, k.table.get i = some r → r.state = .zombie → r.pid ≠ me.pid := by
      intro i r hr hz hp
      obtain rfl := hn.unique _ _ _ _ hr hm hp
      rw [mem_unique hr hm, hs] at hz
      cases hz
    simp only [hm]
    refine ⟨fun {c s status r} hx hr => ?_, fun {i r} hr hz => ?_, fun {c s p packed r} hx hr => ?_,
      fun {i r spec} hr hsp => ?_⟩
    · have hne : r.pid ≠ me.pid := by
        intro hp
        obtain rfl := hn.unique _ _ _ _ hr hm hp
        have ha := hn.about hm hφ c
        obtain ho | hl := Task.holds_of_exits hx
        · have hc : e.cpu = c := by simpa [Duty.about, ho, Phase.expects, Phase.owner] using congrArg About.owns ha
          subst hc
          rw [hu] at hx
          cases hx
        · simpa [Duty.about, hl, Phase.expects] using congrArg About.leaves ha
      simp only [update_of_ne hne]
      exact ht.exits hx hr
    · simp only [update_of_ne (dead hr hz)]
      exact ht.zombies hr hz
    · obtain ⟨z, hz, -, hzm⟩ := hn.of_errand hx
      have hne : p ≠ me.pid := by
        rintro rfl
        have hf := ((hn.sound c).serves _ _ (Task.serves_of_errand hx)).1
        have hcn := congrArg About.flight (hn.about hm hφ c)
        exact List.count_eq_zero.mp hcn hf
      simp only [update_of_ne hne]
      exact ht.serves hx hr
    · have hne : r.pid ≠ me.pid := by
        intro hp
        obtain rfl := hn.unique _ _ _ _ hr hm hp
        obtain rfl := mem_unique hr hm
        have htr := (hn.fits hr hφ).target
        simp [hsp, Phase.place] at htr
      simp only [update_of_ne hne]
      exact ht.targets hr hsp
  · exact ht

/-! ## Rows -/

/-- What a move leaves of a row. -/
structure RowAfter (k : State) (c : Nat) (a : Act) (i : Nat) (r r' : ProcessRecord) : Prop where
  pid : r'.pid = r.pid
  /-- A wait is registered by the process itself. -/
  target : ∀ spec, r'.waitTarget = some spec → r.waitTarget = some spec ∨ k.task c = .user i ∧ a.asks = some spec
  /-- A zombie stays one, with its exit code. -/
  stays : r.state = .zombie → r'.state = .zombie ∧ r'.exitCode = r.exitCode
  /-- A zombie comes from the exit path. -/
  dies : r'.state = .zombie → r.state = .zombie ∨ ∃ status, k.task c = .exitDecide i status ∧ r'.exitCode = some status

lemma RowAfter.of_same (hs : SameWait r r') : RowAfter k c a i r r' where
  pid := hs.pid
  target _ h := .inl (hs.target ▸ h)
  stays hz := ⟨hs.dead.mpr hz, hs.code hz⟩
  dies hz := .inl (hs.dead.mp hz)

lemma WaitMove.row (hv : WaitMove k c a k') (hin : Inv k) (hr' : k'.table.get i = some r') :
    k.table.get i = none ∧ Newborn r' ∨ ∃ r, k.table.get i = some r ∧ RowAfter k c a i r r' := by
  have same : k.table.get i = some r' → k.table.get i = none ∧ Newborn r' ∨
      ∃ r, k.table.get i = some r ∧ RowAfter k c a i r r' :=
    fun hr => .inr ⟨r', hr, .of_same (.refl r')⟩
  cases hv with
  | quiet hm hrw | founds hm hrw =>
    obtain ⟨r, hr, hsm⟩ | hb := hrw.new (hm.table ▸ hr')
    · exact .inr ⟨r, hr, .of_same hsm⟩
    · exact .inl hb
  | fathers _ hm =>
    rw [hm.table, setParent] at hr'
    split at hr'
    · rw [get_modify] at hr'
      split at hr'
      · obtain ⟨r, hr, rfl⟩ := map_eq_some_iff.mp hr'
        exact .inr ⟨r, hr, rfl, fun _ => .inl, fun hz => ⟨hz, rfl⟩, .inl⟩
      · exact same hr'
    · exact same hr'
  | exits _ _ hm => exact same (hm.table ▸ hr')
  | sleeps ht ha he _ hm =>
    rw [hm.table, get_modify] at hr'
    split at hr'
    next his =>
      subst his
      obtain ⟨r, hr, rfl⟩ := map_eq_some_iff.mp hr'
      refine .inr ⟨r, hr, rfl, fun spec hsp => .inr ⟨ht, ?_⟩, fun hz => ⟨hz, rfl⟩, .inl⟩
      rw [ha]
      exact hsp
    · exact same hr'
  | collects _ _ _ _ _ _ _ _ hm | delivers _ hm =>
    rw [hm.table, get_take] at hr'
    split at hr'
    · cases hr'
    · exact same hr'
  | @zombifies s status me _ t₂ _ _ ht he hc hw hm =>
    rw [hm.table, get_takeWait hw] at hr'
    obtain ⟨r₂, hr₂, rfl⟩ := map_eq_some_iff.mp hr'
    -- giving the parent's wait its chance can only take a target away
    have taken : ∀ {r}, RowAfter k c a i r r₂ → RowAfter k c a i r
        (if me.parent.bind k.table.find = some i ∧ waitWakeDecision r₂.waitTarget me.pid then
          { r₂ with waitTarget := none } else r₂) := by
      intro r h
      split
      · exact ⟨h.pid, (by intros; contradiction), h.stays, h.dies⟩
      · exact h
    obtain ⟨r₁, hr₁, hsm⟩ | ⟨hf, hb⟩ := (Quiet.transfer hc).new hr₂
    · refine .inr ?_
      rw [get_modify] at hr₁
      split at hr₁
      next his =>
        subst his
        obtain ⟨r, hr, rfl⟩ := map_eq_some_iff.mp hr₁
        obtain ⟨me', he', hφ⟩ := hin.of_leaves ht rfl
        obtain rfl := mem_unique hr he'
        have hl := (hin.fits hr hφ).state
        refine ⟨r, hr, taken ⟨hsm.pid, fun _ h => .inl (hsm.target ▸ h), fun hz => ?_,
          fun _ => .inr ⟨status, ht, hsm.code rfl⟩⟩⟩
        rw [hl] at hz
        cases hz
      · exact ⟨r₁, hr₁, taken (.of_same hsm)⟩
    · refine .inl ⟨?_, ?_⟩
      · rw [get_modify] at hf
        split at hf
        · exact map_eq_none_iff.mp hf
        · exact hf
      · split
        · exact ⟨rfl, hb.alive⟩
        · exact hb
  | @reaps s record _ _ ht hp hm =>
    rw [hm.table, (reapOne_spec hp).2.2] at hr'
    split at hr'
    · cases hr'
    · obtain ⟨r, hr, ho⟩ := bind_eq_some_iff.mp hr'
      obtain ⟨-, -, hn⟩ | ⟨-, hz, hs⟩ | ⟨-, hs⟩ := @orphaned_cases record.pid r
      · rw [hn] at ho; cases ho
      · rw [hs] at ho
        cases ho
        exact .inr ⟨r, hr, rfl, fun _ => .inl, fun h => absurd h hz, .inl⟩
      · rw [hs] at ho
        cases ho
        exact same hr

/-- An errand goes on, or begins with an exit, a spawn or the death of a process. -/
inductive ErrandAfter (k : State) (c : Nat) (a : Act) (k' : State) (c' : Nat) : Errand → Prop
  | same {x : Errand} (hx : (k.task c').errand = some x) : ErrandAfter k c a k' c' x
  | founds {pid : Nat} : ErrandAfter k c a k' c' (.founds pid)
  | exits {s : Nat} {status : Int} (ht : k.task c = .user s) (ha : a = .exit status) :
      ErrandAfter k c a k' c' (.exits s status)
  | serves {s ps : Nat} {status : Int} {me parent : ProcessRecord}
      (ht : k.task c = .exitDecide s status) (hme : k.table.get s = some me)
      (hparent : k.table.get ps = some parent)
      (hdec : waitWakeDecision parent.waitTarget me.pid = true) :
      ErrandAfter k c a k' c' (.serves s parent.pid (packWaitResult me.pid status))

lemma WaitMove.errand (hv : WaitMove k c a k') (hx : (k'.task c').errand = some x) : ErrandAfter k c a k' c' x := by
  by_cases hc : c' = c
  · subst hc
    cases hv with
    | quiet hm _ ho =>
      rw [hm.errand] at hx
      obtain rfl | rfl := ho
      · cases hx
      · exact .same hx
    | founds hm =>
      rw [hm.errand] at hx
      cases hx
      exact .founds
    | exits ht ha hm =>
      rw [hm.errand] at hx
      cases hx
      exact .exits ht ha
    | @zombifies s status me _ t₂ _ wake ht he hsp hw hm =>
      rw [hm.errand] at hx
      obtain ⟨rfl, -⟩ | ⟨ps, p₂, -, hp₂, hd, rfl, -⟩ := takeWait_cases hw
      · cases hx
      · cases hx
        -- the parent before the step waited for the same
        obtain ⟨p₁, hp₁, hs⟩ | ⟨-, hb⟩ := (Quiet.transfer hsp).new hp₂
        · rw [hs.target] at hd
          rw [hs.pid]
          rw [get_modify] at hp₁
          split at hp₁
          · obtain ⟨p, hp, rfl⟩ := map_eq_some_iff.mp hp₁
            have hr : ErrandAfter k c' a k' c'
                (.serves s p.pid (packWaitResult me.pid status)) := .serves ht he hp hd
            exact hr
          · exact .serves ht he hp₁ hd
        · simp [hb.target, waitWakeDecision] at hd
    | fathers _ hm | sleeps _ _ _ _ hm | collects _ _ _ _ _ _ _ _ hm | delivers _ hm
    | reaps _ _ hm =>
      rw [hm.errand] at hx
      cases hx
  · exact .same (hv.others hc ▸ hx)

lemma Told.move (ht : Told k h) (hin : Inv k) (hin' : Inv k') (hv : WaitMove k c a k')
    (hrc : ∀ s r, k.task c = .user s → k.table.get s = some r →
      h.asked r.pid = a.asks ∧ h.status r.pid = a.status?) : Told k' h := by
  -- a slot that is taken before and after the step has the same process
  have slot : ∀ {i r r'}, k.table.get i = some r → k'.table.get i = some r' → RowAfter k c a i r r' := by
    intro i r r' hr hr'
    obtain ⟨hn, -⟩ | ⟨r₀, hr₀, hw⟩ := hv.row hin hr'
    · cases hr.symm.trans hn
    · exact mem_unique hr hr₀ ▸ hw
  refine ⟨fun {c' s status r'} hx hr' => ?_, fun {i r'} hr' hz => ?_,
    fun {c' s p packed r'} hx hr' => ?_, fun {i r' spec} hr' hs => ?_⟩
  · cases hv.errand hx with
    | same hx =>
      obtain ⟨r, hr⟩ := hin.get_of_exits hx
      rw [(slot hr hr').pid]
      exact ht.exits hx hr
    | exits hu ha =>
      obtain ⟨r, hr, -⟩ := (hin.sound c).owns s (by rw [hu]; rfl)
      rw [(slot hr hr').pid, (hrc s r hu hr).2, ha]
      rfl
  · obtain ⟨-, hb⟩ | ⟨r, hr, hw⟩ := hv.row hin hr'
    · exact absurd hz hb.alive
    · rw [hw.pid]
      obtain ho | ⟨status, hd, hc⟩ := hw.dies hz
      · rw [(hw.stays ho).2]
        exact ht.zombies hr ho
      · exact ⟨status, hc, ht.exits (c := c) (by rw [hd]; rfl) hr⟩
  · cases hv.errand hx with
    | same hx =>
      obtain ⟨r, hr, -, hz⟩ := hin.of_errand hx
      have hw := slot hr hr'
      rw [hw.pid, (hw.stays hz).2]
      exact ht.serves hx hr
    | @serves _ ps status me parent hd he hp hdc =>
      have hw := slot he hr'
      rw [hw.pid]
      obtain ⟨spec, hs, hm⟩ := (any_eq_true ..).mp hdc
      refine ⟨⟨status, ?_, rfl⟩, spec, ht.targets hp hs, hm⟩
      obtain ⟨z, hz, -, hzm⟩ := hin'.of_errand hx
      obtain rfl := mem_unique hr' hz
      obtain ho | ⟨status', hd', hc⟩ := hw.dies hzm
      · obtain ⟨me', he', hφ⟩ := hin.of_leaves hd rfl
        obtain rfl := mem_unique he he'
        rw [(hin.fits he hφ).state] at ho
        cases ho
      · cases hd.symm.trans hd'
        exact hc
  · obtain ⟨-, hb⟩ | ⟨r, hr, hw⟩ := hv.row hin hr'
    · rw [hb.target] at hs
      cases hs
    · rw [hw.pid]
      obtain ho | ⟨hu, hk⟩ := hw.target spec hs
      · exact ht.targets hr ho
      · exact (hrc i r hu hr).1.trans hk

/-! ## Pids -/

lemma LifeStep.holds_new (hl : LifeStep k c a k'.family) (hp : k'.Holds pid) :
    k.Holds pid ∨ pid = k.nextPid ∧ k.nextPid < k'.nextPid := by
  have reserved : ∀ {c p}, (k.family.hand c).reserved = some p → k.Holds p := fun {c p} h =>
    .inr ⟨c, (Task.hand_reserved _).symm.trans h⟩
  obtain ⟨i, r, hr, rfl⟩ | ⟨c', hs⟩ := hp
  · obtain ⟨m, hm, hd, -⟩ | ⟨-, -, hb⟩ := hl.row_new (row_of_get hr)
    · obtain ⟨r₀, hr₀, rfl⟩ := map_eq_some_iff.mp hm
      exact .inl (.inl ⟨i, r₀, hr₀, hd.symm⟩)
    · cases hb with
      | spawned hd _ _ hn => exact .inr ⟨hd, hn⟩
      | forked hd | thread hd => exact .inl (reserved hd)
  · rw [← Task.hand_reserved] at hs
    by_cases hc : c' = c
    · subst hc
      exact .inr (hl.reserved_new hs)
    · exact .inl (reserved ((congrArg Hand.reserved (hl.hand_of_ne hc)).symm.trans hs))

lemma WaitMove.returns (hv : WaitMove k c a k') (hn : Inv k) (ht : Told k h)
    (hr : ∀ s r, k.task c = .user s → k.table.get s = some r → h.asked r.pid = a.asks) :
    k'.results = k.results ∨ ∃ i child parent code spec, k'.results = (parent, packWaitResult child.pid code) :: k.results ∧
      k'.table = k.table.take i ∧ k.table.get i = some child ∧ child.parent = some parent ∧
      h.status child.pid = some code ∧ h.asked parent = some spec ∧
      spec.matches child.pid = true := by
  cases hv with
  | quiet hm | founds hm | fathers _ hm | exits _ _ hm | sleeps _ _ _ _ hm
  | zombifies _ _ _ _ hm | reaps _ _ hm => exact .inl hm.results
  | @collects s target flags code me child hu ha he hh hp hz hc htr hm =>
    obtain ⟨code', hc', hs⟩ := ht.zombies hh hz
    obtain rfl := mem_unique hc hc'
    subst ha
    refine .inr ⟨_, child, me.pid, code, _, hm.results, hm.table, hh, hp, hs, hr s me hu he, ?_⟩
    split
    · rfl
    · exact beq_iff_eq.mpr (htr.resolve_left ‹_›).symm
  | @delivers s parent packed hx hm =>
    obtain ⟨child, hh, hp, hz⟩ := hn.of_errand hx
    obtain ⟨⟨code, hc, rfl⟩, spec, hk, hmt⟩ := ht.serves hx hh
    obtain ⟨code', hc', hs⟩ := ht.zombies hh hz
    obtain rfl := mem_unique hc hc'
    exact .inr ⟨s, child, parent, code, spec, hm.results, hm.table, hh, hp, hs, hk, hmt⟩

lemma WaitMove.next_lt (hv : WaitMove k c a k') (hlt : k.nextPid < k'.nextPid) :
    k.nextPid < 2 ^ 32 := by
  have small : (k'.nextPid = k.nextPid ∨ allocPid k.nextPid = some (k.nextPid, k'.nextPid)) → k.nextPid < 2 ^ 32 := by
    rintro (heq | ha)
    · omega
    · unfold allocPid at ha
      split at ha
      · assumption
      · cases ha
  cases hv with
  | quiet hm | founds hm | fathers _ hm | exits _ _ hm | sleeps _ _ _ _ hm
  | collects _ _ _ _ _ _ _ _ hm | zombifies _ _ _ _ hm | delivers _ hm | reaps _ _ hm => exact small hm.counter

lemma Spent.step (hs : Spent k) (hin : Inv k) (hl : LifeStep k c a k'.family)
    (hm : WaitMove k c a k') (he : k'.results = k.results ∨ ∃ i child parent code,
      k'.results = (parent, packWaitResult child.pid code) :: k.results ∧
      k'.table = k.table.take i ∧ k.table.get i = some child) : Spent k' := by
  have hn : k.nextPid ≤ k'.nextPid := hl.next_le
  have gone : ∀ {pid}, pid ∈ k.returned → pid < k'.nextPid ∧ ¬k'.Holds pid := by
    intro pid hd
    obtain ⟨hlt, hnt⟩ := hs.gone hd
    refine ⟨lt_of_lt_of_le hlt hn, fun hp => ?_⟩
    obtain ho | ⟨rfl, -⟩ := hl.holds_new hp
    · exact hnt ho
    · exact lt_irrefl _ hlt
  have small : ∀ {pid}, k'.Holds pid → pid < 2 ^ 32 := by
    intro pid hp
    obtain ho | ⟨rfl, hlt⟩ := hl.holds_new hp
    · exact hs.small ho
    · exact hm.next_lt hlt
  obtain hsm | ⟨i, child, parent, code, hrs, ht, hch⟩ := he
  · have hrt : k'.returned = k.returned := by rw [returned, hsm, returned]
    exact ⟨small, fun h => gone (hrt ▸ h), hrt ▸ hs.once⟩
  · have hh : k.Holds child.pid := .inl ⟨i, child, hch, rfl⟩
    have hrt : k'.returned = child.pid :: k.returned := by
      rw [returned, hrs, List.map_cons, packWaitResult_div code (hs.small hh)]
      rfl
    refine ⟨small, fun {pid} hd => ?_, ?_⟩
    · rw [hrt] at hd
      obtain rfl | hd := List.mem_cons.mp hd
      · refine ⟨lt_of_lt_of_le (hin.pid_lt hch) hn, ?_⟩
        rintro (⟨j, r, hr, hp⟩ | ⟨c', hrs⟩)
        · rw [ht, get_take] at hr
          split at hr
          · cases hr
          next hne => exact hne (hin.unique _ _ _ _ hr hch hp)
        · rw [← Task.hand_reserved] at hrs
          by_cases hc : c' = c
          · subst hc
            exact ne_of_lt (hin.pid_lt hch) (hl.reserved_new hrs).1
          · have hrs' := (congrArg Hand.reserved (hl.hand_of_ne hc)).symm.trans hrs
            exact hin.not_reserved hch c' ((Task.hand_reserved _).symm.trans hrs')
      · exact gone hd
    · rw [hrt]
      exact List.nodup_cons.mpr ⟨fun hd => (hs.gone hd).2 hh, hs.once⟩

/-! ## Polls -/

abbrev TracedRun := Run (Guarded (fun x e => calm x.1 e = true) TracedStep) (State.init, History.init)

lemma TracedRun.calmRun (hrun : TracedRun es x) : CalmRun es x.1 := hrun.map Prod.fst fun _ _ _ hs => ⟨hs.1, hs.2.1⟩

lemma record_caller (ht : k.task e.cpu = .user slot) (hr : k.table.get slot = some r) :
    (h.record k e).asked r.pid = e.act.asks ∧ (h.record k e).status r.pid = e.act.status? := by
  simp [record_user ht hr]

lemma TracedRun.told (hrun : TracedRun es x) :
    Told x.1 x.2 ∧ Spent x.1 := by
  induction hrun with
  | nil =>
    have free : ∀ {i r}, State.init.table.get i ≠ some r := init_get
    have idle : ∀ c, (State.init.task c).errand = none := by
      intro c
      simp only [init]
      split <;> rfl
    refine ⟨⟨fun hx => ?_, fun hr => absurd hr free, fun hx => ?_, fun hr => absurd hr free⟩, ⟨?_, ?_, List.nodup_nil⟩⟩
    · simp [idle] at hx
    · simp [idle] at hx
    · rintro pid (⟨i, r, hr, -⟩ | ⟨c, hrs⟩)
      · exact absurd hr free
      · simp [init_duty] at hrs
    · rintro pid ⟨⟩
  | @snoc _ x y e hrun hst ih =>
    obtain ⟨k, h⟩ := x
    obtain ⟨k', h'⟩ := y
    obtain ⟨hc, hk, hh⟩ := hst
    have hn : Inv k := (TracedRun.calmRun hrun).inv
    have hn' : Inv k' := (TracedRun.calmRun (hrun.snoc ⟨hc, hk, hh⟩)).inv
    have hm := step_waits hn hc hk
    obtain rfl : h' = h.record k e := hh
    have hl : Told k (h.record k e) := ih.1.record hn
    refine ⟨hl.move hn hn' hm fun s r ht hr => record_caller ht hr, ih.2.step hn (step_life hn hc hk) hm ?_⟩
    obtain hs | ⟨i, child, parent, code, -, hrs, hb, hch, -⟩ := hm.returns hn hl fun s r ht hr => (record_caller ht hr).1
    · exact .inl hs
    · exact .inr ⟨i, child, parent, code, hrs, hb, hch⟩

def tracedNext (x : State × History) (e : Event) : Option (State × History) := (next? x.1 e).map fun k => (k, x.2.record x.1 e)

lemma step_of_tracedNext (hn : tracedNext x e = some y) :
    TracedStep x e y := by
  obtain ⟨k, hk, rfl⟩ := map_eq_some_iff.mp hn
  exact ⟨step_of_next? hk, rfl⟩

/-- The child that the first process waits for exits, up to the delivery of its status. -/
def awaitedExits : List Event := parentWaits ++ [⟨1, .exit 7⟩, ⟨1, .go true⟩, ⟨1, .go true⟩, ⟨1, .go true⟩, ⟨1, .go true⟩]

/-- A pid is never used again. Once a process is gone, no later state has a record or a reservation of its pid. -/
theorem pid_stays_gone (hrun : CalmRun es k) (hlt : pid < k.nextPid) (hgone : ¬k.Holds pid)
    (hlater : Run (Guarded (fun k e => calm k e) Step) k es' k') : pid < k'.nextPid ∧ ¬k'.Holds pid := by
  induction hlater with
  | nil => exact ⟨hlt, hgone⟩
  | snoc hl hs ih =>
    have hst := step_life (CalmRun.inv (hrun.trans hl)) hs.1 hs.2
    refine ⟨lt_of_lt_of_le ih.1 hst.next_le, fun hp => ?_⟩
    obtain ho | ⟨rfl, -⟩ := hst.holds_new hp
    · exact ih.2 ho
    · exact lt_irrefl _ ih.1

theorem pid_stays_gone_delivered : ∃ es k k', CalmRun es k ∧ 3 ∈ k.returned ∧ Step k ⟨1, .go true⟩ k' ∧ ¬k'.Holds 3 := by
  have hexec : (execute (guardedNext (fun x e => calm x.1 e) tracedNext) (State.init, History.init)
      (awaitedExits ++ [⟨1, .go true⟩])).any (fun x => calm x.1 ⟨1, .go true⟩ &&
        decide (3 ∈ x.1.returned) && (next? x.1 ⟨1, .go true⟩).isSome) = true := by decide
  obtain ⟨⟨k, h⟩, hrun, hc⟩ := exists_guardedRun_of_execute id step_of_tracedNext hexec
  simp only [Bool.and_eq_true, decide_eq_true_eq] at hc
  obtain ⟨⟨hcalm, hr⟩, hn⟩ := hc
  obtain ⟨k', hn⟩ := isSome_iff_exists.mp hn
  have hs := step_of_next? hn
  obtain ⟨hlt, hg⟩ := (TracedRun.told hrun).2.gone hr
  have hcr := TracedRun.calmRun hrun
  exact ⟨_, k, k', hcr, hr, hs, (pid_stays_gone hcr hlt hg (.single ⟨hcalm, hs⟩)).2⟩

end ZeroOS.Kernel
