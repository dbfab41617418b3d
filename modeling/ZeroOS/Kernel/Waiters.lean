import ZeroOS.Kernel.Waiting

/-!
# A waiting parent has something to wait for

`waitpid` puts its caller to sleep only when a living child matches. From then on the child may
leave in three ways: it exits and becomes a zombie, in the same critical section in which the
parent's `wait_target` is taken; or its parent is reaped, and then nobody waits; or `full_reap`
takes it out directly, after the bare exit of `svc #2` or the exit of an adopted orphan, and nobody
looks at the parent's `wait_target`.
-/

namespace ZeroOS.Kernel

open Option Transition ZeroOS.Process ZeroOS.Scheduler ProcessTable

/-! ## The discipline -/

/-- Is there a living child of `parent` that the wait covers, at another slot than this one? -/
def otherChild (t : ProcessTable) (slot parent : Nat) (spec : WaitSpec) : Bool := t.records.any fun r =>
    r.slot != slot && r.parent == some parent && spec.matches r.pid && r.state != .zombie

/-- The record at the slot is the last one that its waiting parent waits for. -/
def lastAwaited (t : ProcessTable) (slot : Nat) : Bool := (t.get slot).any fun me => (me.parent.bind t.lookup).any fun parent =>
    parent.waitTarget.any fun spec => spec.matches me.pid && !otherChild t slot parent.pid spec

/-- A calm step in which `full_reap` does not take out the last process that the parent of the
exiting one waits for. -/
def heeded (k : State) (e : Event) : Bool := calm k e &&
    match k.task e.cpu with
    | .reapSeed slot => !lastAwaited k.table slot
    | _ => true

/-! ## The invariant -/

/-- Every process that waits has a living child that its wait covers. -/
def Attended (t : ProcessTable) : Prop := ∀ i r spec, t.get i = some r → r.waitTarget = some spec →
    ∃ j child, t.get j = some child ∧ child.parent = some r.pid ∧ spec.matches child.pid = true ∧ child.state ≠ .zombie

/-- A spawned process that has yet to get its parent has none. -/
def Founding (k : State) : Prop := ∀ c pid, (k.task c).errand = some (.founds pid) →
    ∀ i r, k.table.get i = some r → r.pid = pid → r.parent = none

variable {t t' : ProcessTable} {c s i : Nat}
  {r me : ProcessRecord} {pid : Nat}

lemma Task.carries_of_founds {u : Task} (h : u.errand = some (.founds pid)) :
    u.duty.carries = some pid := by
  unfold Task.errand at h
  split at h <;> simp_all [Task.duty]

lemma Inv.founds_inj (h : Inv k) (hc : (k.task c).errand = some (.founds pid))
    (hc' : (k.task c').errand = some (.founds pid)) : c' = c := by
  have hφ := h.of_carries (Task.carries_of_founds hc)
  obtain ⟨r, -, -, -, -, hd, -⟩ := hφ.elim
  have := congrArg About.carries (hd c')
  exact (by simpa [Duty.about, Task.carries_of_founds hc', Phase.expects] using this : c = c').symm

lemma Inv.of_founds (h : Inv k) (hc : (k.task c).errand = some (.founds pid)) :
    ∃ i r, k.table.get i = some r ∧ r.pid = pid ∧ r.state = .runnable ∧ (∀ c', (k.task c').duty.leaves ≠ some i) := by
  obtain ⟨r, -, hr, hp, hf, hd, -⟩ := (h.of_carries (Task.carries_of_founds hc)).elim
  refine ⟨r.slot, r, hr, hp, hf.state, fun c' hl => ?_⟩
  have := congrArg About.leaves (hd c')
  simp [Duty.about, hl, Phase.expects] at this

/-! ## Tables -/

lemma Attended.quiet (h : Attended t) (hq : Quiet t t') : Attended t' := by
  intro i r' spec hr' hsp
  obtain ⟨r, hr, hsm⟩ | ⟨-, hb⟩ := hq.new hr'
  · obtain ⟨j, child, hc, hp, hm, hz⟩ := h i r spec hr (hsm.target ▸ hsp)
    obtain ⟨child', hc', hs⟩ := hq.old hc
    exact ⟨j, child', hc', by rw [hs.parent, hp, hsm.pid], by rw [hs.pid]; exact hm,
      fun hz' => hz (hs.dead.mp hz')⟩
  · rw [hb.target] at hsp
    cases hsp

lemma Attended.take (h : Attended t) (hr : t.get s = some r) (hz : r.state = .zombie) :
    Attended (t.take s) := by
  intro i r' spec hr' hs
  rw [get_take] at hr'
  split at hr'
  · cases hr'
  · obtain ⟨j, child, hc, hp, hm, hl⟩ := h i r' spec hr' hs
    have hj : j ≠ s := by
      rintro rfl
      obtain rfl := mem_unique hr hc
      exact hl hz
    exact ⟨j, child, by rw [get_take_of_ne _ hj]; exact hc, hp, hm, hl⟩

lemma Attended.setParent (h : Attended t) {pid : Nat} {parent : Option Nat}
    (hn : ∀ i r, t.get i = some r → r.pid = pid → r.parent = none) :
    Attended (t.setParent pid parent) := by
  unfold ProcessTable.setParent
  split
  next r₀ hr₀ =>
    obtain ⟨hg₀, hp₀⟩ := lookup_eq_some hr₀
    intro i r' spec hr' hs
    have ho : ∃ r, t.get i = some r ∧ r'.pid = r.pid ∧ r.waitTarget = some spec := by
      rw [get_modify] at hr'
      split at hr'
      · obtain ⟨r, hr, rfl⟩ := map_eq_some_iff.mp hr'
        exact ⟨r, hr, rfl, hs⟩
      · exact ⟨r', hr', rfl, hs⟩
    obtain ⟨r, hr, hd, hs⟩ := ho
    obtain ⟨j, child, hc, hp, hm, hl⟩ := h i r spec hr hs
    have hj : j ≠ r₀.slot := by
      rintro rfl
      obtain rfl := mem_unique hg₀ hc
      rw [hn _ _ hg₀ hp₀] at hp
      cases hp
    exact ⟨j, child, by rw [get_modify_of_ne hj]; exact hc, hd ▸ hp, hm, hl⟩
  · exact h

lemma Attended.sleep (h : Attended t) (he : t.get s = some me) (hpl : waitPlan me.pid target flags t.views = .sleep) :
    Attended (t.modify s fun r =>
      { r with waitTarget := some (if target = 0 then .any else .pid target) }) := by
  -- the children are where they were: only a wait target changes
  have keep : ∀ {j child}, t.get j = some child → ∃ child', (t.modify s fun r =>
      { r with waitTarget := some (if target = 0 then .any else .pid target) }).get j = some child' ∧
      child'.pid = child.pid ∧ child'.parent = child.parent ∧ child'.state = child.state := by
    intro j child hc
    rw [get_modify]
    rw [hc]
    split
    · exact ⟨_, rfl, rfl, rfl, rfl⟩
    · exact ⟨child, rfl, rfl, rfl, rfl⟩
  intro i r' spec hr' hsp
  rw [get_modify] at hr'
  split at hr'
  next his =>
    subst his
    rw [he] at hr'
    cases hr'
    cases hsp
    have hsc : waitScan me.pid target t.views = .block := by
      unfold waitPlan at hpl
      split at hpl
      · cases hpl
      next hsc => exact hsc
      · cases hpl
    obtain hf | ⟨v, hv, hpr, hl, ht⟩ := Decided.of_waitScan hsc
    · cases hf
    · obtain ⟨child, hc, hw⟩ := mem_views hv
      rw [hw] at hpr hl ht
      obtain ⟨child', hc', hp', hq', hs'⟩ := keep hc
      refine ⟨v.slot, child', hc', by rw [hq']; exact hpr, ?_, by rw [hs']; exact hl⟩
      rw [hp']
      split
      · rfl
      · exact beq_iff_eq.mpr (ht.resolve_left ‹_›).symm
  · obtain ⟨j, child, hc, hp, hm, hl⟩ := h i r' spec hr' hsp
    obtain ⟨child', hc', hp', hq', hs'⟩ := keep hc
    exact ⟨j, child', hc', by rw [hq']; exact hp, by rw [hp']; exact hm, by rw [hs']; exact hl⟩

lemma takeWait_old (h : t.takeWait ps dying = (wake, t')) (hr : t.get i = some r) :
    ∃ r', t'.get i = some r' ∧ r'.pid = r.pid ∧ r'.parent = r.parent ∧ r'.state = r.state := by
  rw [get_takeWait h, hr]
  refine ⟨_, rfl, ?_⟩
  dsimp only
  split <;> exact ⟨rfl, rfl, rfl⟩

lemma Attended.zombify (h : Attended t) (hu : t.PidsUnique) {status : Int} {space : Option Nat}
    {t₂ t₃ : ProcessTable} {wake : Option (Nat × Nat)} (he : t.get s = some me)
    (hsc : (t.modify s (·.zombify status)).transferIfAny me.tgid me.pid me.addrSpace = (space, t₂))
    (hw : t₂.takeWait (me.parent.bind t.find) me.pid = (wake, t₃)) : Attended t₃ := by
  have hv := Quiet.transfer hsc
  have hg := ProcessTable.get_takeWait hw
  intro i r₃ spec hr₃ hsp
  -- the waiter before the step
  obtain ⟨r₂, hr₂, hp₂, hsp₂, hk⟩ : ∃ r₂, t₂.get i = some r₂ ∧ r₃.pid = r₂.pid ∧
      r₂.waitTarget = some spec ∧ (me.parent.bind t.find = some i → spec.matches me.pid = false) := by
    rw [hg] at hr₃
    obtain ⟨r₂, hr₂, rfl⟩ := map_eq_some_iff.mp hr₃
    split at hsp
    · cases hsp
    next hn => exact ⟨r₂, hr₂, by split <;> rfl, hsp, by simpa [waitWakeDecision, hsp] using hn⟩
  obtain ⟨r, hr, hp, ht⟩ : ∃ r, t.get i = some r ∧ r₂.pid = r.pid ∧ r.waitTarget = some spec := by
    obtain ⟨r₁, hr₁, hsm⟩ | ⟨-, hb⟩ := hv.new hr₂
    · rw [get_modify] at hr₁
      split at hr₁
      · obtain ⟨r, hr, rfl⟩ := map_eq_some_iff.mp hr₁
        exact ⟨r, hr, hsm.pid, hsm.target ▸ hsp₂⟩
      · exact ⟨r₁, hr₁, hsm.pid, hsm.target ▸ hsp₂⟩
    · rw [hb.target] at hsp₂
      cases hsp₂
  obtain ⟨j, child, hc, hpr, hm, hl⟩ := h i r spec hr ht
  have hj : j ≠ s := by
    rintro rfl
    obtain rfl := mem_unique he hc
    obtain ⟨i', hi'⟩ := find_isSome hr rfl
    obtain ⟨r', hr', hp'⟩ := find_eq_some hi'
    obtain rfl := hu _ _ _ _ hr hr' hp'.symm
    rw [hk (by simp [hpr, hi'])] at hm
    cases hm
  obtain ⟨child₂, hc₂, hsm⟩ := hv.old ((get_modify_of_ne hj).trans hc)
  obtain ⟨child₃, hc₃, hp₃, hq₃, hs₃⟩ := takeWait_old hw hc₂
  refine ⟨j, child₃, hc₃, ?_, by rw [hp₃, hsm.pid]; exact hm, fun hz => ?_⟩
  · rw [hq₃, hsm.parent, hpr, hp₂, hp]
  · exact hl (hsm.dead.mp (hs₃ ▸ hz))

lemma Attended.reap (h : Attended t) (hu : t.PidsUnique) {casc : List ProcessRecord}
    (hrp : t.reapOne s = some (me, casc, t')) (hls : lastAwaited t s = false) : Attended t' := by
  obtain ⟨he, -, hg⟩ := reapOne_spec hrp
  intro i r' spec hr' hsp
  obtain ⟨his, r, hr, hd, ht⟩ : i ≠ s ∧ ∃ r, t.get i = some r ∧ r'.pid = r.pid ∧ r.waitTarget = some spec := by
    rw [hg] at hr'
    split at hr'
    · cases hr'
    next his =>
      obtain ⟨r, hr, ho⟩ := bind_eq_some_iff.mp hr'
      obtain ⟨-, -, hn⟩ | ⟨-, -, hs⟩ | ⟨-, hs⟩ := @orphaned_cases me.pid r
      · rw [hn] at ho; cases ho
      · rw [hs] at ho; cases ho; exact ⟨his, _, hr, rfl, hsp⟩
      · rw [hs] at ho; cases ho; exact ⟨his, _, hr, rfl, hsp⟩
  -- a living child of a process that stays is not touched
  have keep : ∀ {j child}, t.get j = some child → child.parent = some r.pid → j ≠ s → t'.get j = some child := by
    intro j child hh hpr hj
    have hne : child.parent ≠ some me.pid := by
      intro hp
      exact his (hu _ _ _ _ hr he (mem_unique hpr hp))
    obtain ⟨hp, -⟩ | ⟨hp, -⟩ | ⟨-, hs⟩ := @orphaned_cases me.pid child
    · exact absurd hp hne
    · exact absurd hp hne
    · rw [hg, if_neg hj, hh]; exact hs
  obtain ⟨j, child, hh, hpr, hm, hl⟩ := h i r spec hr ht
  by_cases hj : j = s
  · subst hj
    obtain rfl := mem_unique he hh
    have hoh : otherChild t j r.pid spec = true := by
      simpa [lastAwaited, he, hpr, hu.lookup_of_get hr, ht, hm] using hls
    obtain ⟨child', hmm, hc⟩ := List.any_eq_true.mp hoh
    obtain ⟨j', hj'⟩ := mem_records.mp hmm
    simp only [Bool.and_eq_true, bne_iff_ne, beq_iff_eq, slot_of_get hj'] at hc
    obtain ⟨⟨⟨hne, hp'⟩, hm'⟩, hl'⟩ := hc
    exact ⟨j', child', keep hj' hp' hne, hd ▸ hp', hm', hl'⟩
  · exact ⟨j, child, keep hh hpr hj, hd ▸ hpr, hm, hl⟩

/-! ## Steps and runs -/

lemma Task.serves_of_errand {u : Task}
    (h : u.errand = some (.serves s parent packed)) : u.duty.serves = some (s, parent) := by
  unfold Task.errand at h
  split at h <;> simp_all [Task.duty]

lemma Inv.of_errand (h : Inv k) (hx : (k.task c).errand = some (.serves s parent packed)) :
    ∃ r, k.table.get s = some r ∧ r.parent = some parent ∧ r.state = .zombie := by
  obtain ⟨r, hr, hp, hφ⟩ := h.of_serves (Task.serves_of_errand hx)
  exact ⟨r, hr, hp, (h.fits hr hφ).state⟩

lemma WaitMove.founded (hv : WaitMove k c a k') (h : Inv k)
    (hx : (k.task c').errand = some (.founds pid)) (hx' : (k'.task c').errand = some (.founds pid))
    (hr : k.table.get i = some r) (hd : r.pid = pid) (hpr : r.parent = none) (hl : r.state = .runnable)
    (hst : ∀ c', (k.task c').duty.leaves ≠ some i) :
    ∃ r', k'.table.get i = some r' ∧ r'.pid = pid ∧ r'.parent = none := by
  have remain : ∀ {j : Nat} {z : ProcessRecord}, k.table.get j = some z → z.state = .zombie →
      (k.table.take j).get i = some r := by
    intro j z hz hzm
    rw [get_take_of_ne _ ?_]
    · exact hr
    · rintro rfl
      rw [hr] at hz
      rw [← some.inj hz, hl] at hzm
      cases hzm
  cases hv with
  | quiet hm hrw | founds hm hrw =>
    obtain ⟨r', hr', hs⟩ := hrw.old hr
    exact ⟨r', hm.table ▸ hr', hs.pid.trans hd, hs.parent.trans hpr⟩
  | @fathers pid' _ hx₀ hm =>
    have hc : c' ≠ c := by
      rintro rfl
      rw [hm.errand] at hx'
      cases hx'
    have hne : pid' ≠ pid := by
      rintro rfl
      exact hc (h.founds_inj hx₀ hx)
    refine ⟨r, ?_, hd, hpr⟩
    rw [hm.table, setParent]
    split
    next r₀ hr₀ =>
      obtain ⟨hg₀, hp₀⟩ := lookup_eq_some hr₀
      rw [get_modify_of_ne ?_]
      · exact hr
      · rintro rfl
        rw [hr] at hg₀
        exact hne (hp₀.symm.trans (some.inj hg₀ ▸ hd))
    · exact hr
  | exits _ _ hm => exact ⟨r, hm.table ▸ hr, hd, hpr⟩
  | sleeps _ _ _ _ hm =>
    rw [hm.table, get_modify, hr]
    split
    · exact ⟨_, rfl, hd, hpr⟩
    · exact ⟨r, rfl, hd, hpr⟩
  | collects _ _ _ hh _ hz _ _ hm => exact ⟨r, hm.table ▸ remain hh hz, hd, hpr⟩
  | @zombifies s _ _ _ _ _ _ ht he hsp hw hm =>
    have his : i ≠ s := by
      rintro rfl
      exact hst c (ht ▸ rfl)
    obtain ⟨r₂, hr₂, hs⟩ := (Quiet.transfer hsp).old
      ((ProcessTable.get_modify_of_ne his).trans hr)
    obtain ⟨r₃, hr₃, hp₃, hq₃, -⟩ := takeWait_old hw hr₂
    exact ⟨r₃, hm.table ▸ hr₃, by rw [hp₃, hs.pid, hd], by rw [hq₃, hs.parent, hpr]⟩
  | delivers hx₀ hm =>
    obtain ⟨z, hz, -, hzm⟩ := h.of_errand hx₀
    exact ⟨r, hm.table ▸ remain hz hzm, hd, hpr⟩
  | @reaps s record _ _ ht hrp hm =>
    have his : i ≠ s := by
      rintro rfl
      exact hst c (ht ▸ rfl)
    refine ⟨r, ?_, hd, hpr⟩
    rw [hm.table, (reapOne_spec hrp).2.2, if_neg his, hr]
    simp [orphaned, orphanAction, hpr]

lemma WaitMove.founding (hv : WaitMove k c a k') (h : Inv k) (h' : Inv k') (hf : Founding k) :
    Founding k' := by
  intro c' pid hx' i r' hr' hd
  -- a process whose founding goes on is where it was, and no other record has its pid
  have goes_on : (k.task c').errand = some (.founds pid) → r'.parent = none := by
    intro hx
    obtain ⟨j, r, hr, hp, hl, hs⟩ := h.of_founds hx
    obtain ⟨r₁, hr₁, hp₁, hpr⟩ := hv.founded h hx hx' hr hp (hf c' pid hx j r hr hp) hl hs
    obtain rfl := h'.unique _ _ _ _ hr' hr₁ (hd.trans hp₁.symm)
    rw [mem_unique hr' hr₁]
    exact hpr
  by_cases hc : c' = c
  · subst hc
    cases hv with
    | quiet hm hw hx =>
      rw [hm.errand] at hx'
      obtain rfl | rfl := hx
      · cases hx'
      · exact goes_on hx'
    | founds hm hw hn =>
      rw [hm.errand] at hx'
      obtain ⟨rfl⟩ := hx'
      exact hn i r' (hm.table ▸ hr') hd
    | @zombifies _ _ _ _ _ _ wake _ _ _ _ hm =>
      rw [hm.errand] at hx'
      cases wake <;> cases hx'
    | fathers _ hm | exits _ _ hm | sleeps _ _ _ _ hm | collects _ _ _ _ _ _ _ _ hm
    | delivers _ hm | reaps _ _ hm =>
      rw [hm.errand] at hx'
      cases hx'
  · refine goes_on ?_
    rw [← hv.others hc]
    exact hx'

lemma WaitMove.attended (hv : WaitMove k c a k') (h : Inv k) (hf : Founding k)
    (hh : ∀ s, k.task c = .reapSeed s → lastAwaited k.table s = false)
    (ha : Attended k.table) : Attended k'.table := by
  cases hv with
  | quiet hm hr | founds hm hr => rw [hm.table]; exact ha.quiet hr
  | fathers hx hm => rw [hm.table]; exact ha.setParent (hf c _ hx)
  | exits _ _ hm => rw [hm.table]; exact ha
  | sleeps _ _ he hp hm => rw [hm.table]; exact ha.sleep he hp
  | collects _ _ _ hc _ hz _ _ hm => rw [hm.table]; exact ha.take hc hz
  | zombifies _ he hs hw hm => rw [hm.table]; exact ha.zombify h.unique he hs hw
  | delivers hx hm =>
    obtain ⟨z, hz, -, hzm⟩ := h.of_errand hx
    rw [hm.table]
    exact ha.take hz hzm
  | reaps ht hrp hm => rw [hm.table]; exact ha.reap h.unique hrp (hh _ ht)

abbrev HeededRun := Run (Guarded (fun k e => heeded k e = true) Step) State.init

lemma calm_of_heeded (h : heeded k e = true) : calm k e = true := (Bool.and_eq_true_iff.mp h).1

lemma HeededRun.calmRun (h : HeededRun es k) : CalmRun es k := h.mono fun _ _ _ hs => ⟨calm_of_heeded hs.1, hs.2⟩

lemma HeededRun.attended (h : HeededRun es k) : Founding k ∧ Attended k.table := by
  induction h with
  | nil => exact ⟨fun c pid hx i r hr => absurd hr init_get, fun i r spec hr => absurd hr init_get⟩
  | @snoc _ k k' e hrun hs ih =>
    have hn := (HeededRun.calmRun hrun).inv
    have hn' := (HeededRun.calmRun (hrun.snoc hs)).inv
    have hm := step_waits hn (calm_of_heeded hs.1) hs.2
    refine ⟨hm.founding hn hn' ih.1, hm.attended hn ih.1 (fun s ht => ?_) ih.2⟩
    simpa [heeded, ht] using (Bool.and_eq_true_iff.mp hs.1).2

/-- Waiters do not wait for nothing. In every state of a run whose steps are all heeded, a
process with a registered wait has a child in the table that the wait covers and that has not
exited. -/
theorem waiters_attended (hrun : HeededRun es k) {s : Nat} {r : ProcessRecord} {spec : WaitSpec}
    (hr : k.table.get s = some r) (hspec : r.waitTarget = some spec) :
    ∃ j child, k.table.get j = some child ∧ child.parent = some r.pid ∧ spec.matches child.pid = true ∧ child.state ≠ .zombie :=
  hrun.attended.2 s r spec hr hspec

/-- The first process forks a child, waits for any child and blocks; the child is dispatched. -/
def parentWaits : List Event :=
  firstProcess ++ [⟨0, .fork true⟩, ⟨0, .go true⟩, ⟨0, .go true⟩, ⟨0, .wait 0 0⟩, ⟨0, .go true⟩, ⟨0, .go true⟩,
      ⟨0, .go true⟩, ⟨1, .pop⟩, ⟨1, .go true⟩, ⟨1, .go true⟩, ⟨1, .go true⟩]

theorem waiters_attended_parentWaits : ∃ k r, HeededRun parentWaits k ∧ k.table.get 0 = some r ∧ r.waitTarget = some .any ∧
      ∃ j child, k.table.get j = some child ∧ child.parent = some r.pid ∧
        WaitSpec.any.matches child.pid = true ∧ child.state ≠ .zombie := by
  obtain ⟨k, hrun, hg⟩ := exists_guardedRun heeded parentWaits
    (fun k => (k.table.get 0).any (·.waitTarget == some .any)) (by decide)
  obtain ⟨r, hr, hs⟩ := (any_eq_true ..).mp hg
  have hs : r.waitTarget = some .any := by simpa using hs
  exact ⟨k, r, hrun, hr, hs, waiters_attended hrun hr hs⟩

/-- The only child leaves by the bare exit of `svc #2`, and its parent goes on waiting. -/
theorem waiter_stranded :
    ¬∀ es k s r spec, Run Step State.init es k → k.table.get s = some r → r.waitTarget = some spec →
      ∃ j child, k.table.get j = some child ∧ child.parent = some r.pid ∧ spec.matches child.pid = true := by
  intro ha
  obtain ⟨k, hrun, hh⟩ := exists_run
    (parentWaits ++ [⟨1, .svcExit⟩, ⟨1, .go true⟩, ⟨1, .go true⟩, ⟨1, .go true⟩])
    (fun k => (k.table.get 0).any (fun r => r.waitTarget == some .any && r.state == .blocked) &&
      k.table.records.all (·.parent == none)) (by decide)
  obtain ⟨hg, hn⟩ := Bool.and_eq_true_iff.mp hh
  obtain ⟨r, hr, hr'⟩ := (any_eq_true ..).mp hg
  have hs : r.waitTarget = some .any := by simpa using (Bool.and_eq_true_iff.mp hr').1
  obtain ⟨j, child, hc, hp, -⟩ := ha _ k 0 r .any hrun hr hs
  have := List.all_eq_true.mp hn child (ProcessTable.mem_records.mpr ⟨j, hc⟩)
  simp [hp] at this

end ZeroOS.Kernel
