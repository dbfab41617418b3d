import ZeroOS.Kernel.Pedigree

/-!
# Parents

Every record names a parent that is in the table, as long as the records that leave it leave no child
behind. `full_reap` looks after the children of the record it is called for: it removes the zombies
and gives the others to init. Nobody looks after the children of a record that leaves on another way:
collected by `waitpid`, consumed by the delivery of its result, or removed as a zombie child; and
init itself may be absent or among the records that go. `attended` says of a step that none of this
happens in it.
-/

namespace ZeroOS.Kernel

open Function Option Transition ZeroOS.Process ProcessTable Life

/-! ## Children left behind -/

/-- No record outside `gone` names `pid` as its parent. -/
def childless (t : ProcessTable) (pid : Nat) (gone : List Nat) : Bool :=
  t.records.all fun r => r.parent != some pid || gone.contains r.slot

/-- The slots `full_reap` empties with that of `me`: those of its zombie children. -/
def zombieChildren (t : ProcessTable) (me : ProcessRecord) : List Nat := (t.records.filter fun r =>
    r.slot != me.slot && r.parent == some me.pid && r.state == .zombie).map (·.slot)

/-- The zombie children that are removed with `me` have no children of their own, and if another
child of `me` is left for init, init is there and stays. -/
def reapable (t : ProcessTable) (me : ProcessRecord) : Bool :=
  let zombies := zombieChildren t me
  let gone := me.slot :: zombies
  (t.records.all fun z => !zombies.contains z.slot || childless t z.pid gone) &&
  ((t.records.all fun r => r.slot == me.slot || r.parent != some me.pid || r.state == .zombie) ||
    t.records.any fun q => q.pid == initPid && !gone.contains q.slot)

/-- The step leaves no record behind whose parent it removes. -/
def attended (k : State) (e : Event) : Bool :=
  match k.task e.cpu, e.act with
  | .user slot, .wait target flags =>
    (k.table.get slot).all fun me =>
      match waitPlan me.pid target flags k.table.views with
      | .collect s _ => (k.table.get s).all fun z => childless k.table z.pid [s]
      | _ => true
  | .deliver slot _ _, _ => (k.table.get slot).all fun z => childless k.table z.pid [slot]
  | .reapSeed slot, _ => (k.table.get slot).all (reapable k.table)
  | .reapNext _ (s :: _), _ => (k.table.get s).isNone
  | _, _ => true

variable {k k' : State}

lemma calm_of_attended (h : attended k e = true) : calm k e = true := by
  unfold calm
  split
  next ht => simpa [attended, ht] using h
  · rfl

lemma childless_row {t : ProcessTable} {pid : Nat} {gone : List Nat}
    (h : childless t pid gone = true) {i : Nat} {r : ProcessRecord} (hr : t.get i = some r)
    (hp : r.parent = some pid) : i ∈ gone := by
  have := List.all_eq_true.mp h r (ProcessTable.mem_records.mpr ⟨i, hr⟩)
  simpa [hp, slot_of_get hr] using this

lemma mem_zombieChildren :
    i ∈ zombieChildren t me ↔ i ≠ me.slot ∧ ∃ r, t.get i = some r ∧ r.parent = some me.pid ∧ r.state = .zombie := by
  simp only [zombieChildren, List.mem_map, List.mem_filter, mem_records, Bool.and_eq_true, bne_iff_ne, beq_iff_eq]
  constructor
  · rintro ⟨r, ⟨⟨j, hj⟩, ⟨hne, hp⟩, hz⟩, rfl⟩
    have hs := ProcessTable.slot_of_get hj
    exact ⟨hne, r, hs ▸ hj, hp, hz⟩
  · rintro ⟨hne, r, hr, hp, hz⟩
    have hs := ProcessTable.slot_of_get hr
    exact ⟨r, ⟨⟨i, hr⟩, ⟨hs ▸ hne, hp⟩, hz⟩, hs⟩

/-! ## The invariant -/

/-- Every row names a parent that is there, or none. -/
def Closed (row : Nat → Option Life) : Prop := ∀ i l p, row i = some l → l.parent = some p → ∃ j m, row j = some m ∧ m.pid = p

namespace Closed

variable {row row' : Nat → Option Life} {s : Nat} {l m : Life}

lemma of_rows (row : Nat → Option Life) (hk : ∀ i l, row i = some l → ∃ m, row' i = some m ∧ m.pid = l.pid)
    (hr : ∀ i l p, row' i = some l → l.parent = some p → ∃ j m, row j = some m ∧ m.pid = p) :
    Closed row' := by
  intro i l p hl hp
  obtain ⟨j, m, hm, rfl⟩ := hr i l p hl hp
  obtain ⟨m', hm', hd⟩ := hk j m hm
  exact ⟨j, m', hm', hd⟩

lemma update_row (hr : Closed row) (hl : row s = some l) (hd : m.pid = l.pid)
    (hpr : ∀ p, m.parent = some p → ∃ j q, row j = some q ∧ q.pid = p) :
    Closed (update row s (some m)) := by
  refine of_rows row (fun i l' hl' => ?_) fun i l' p hl' hp => ?_
  · by_cases hi : i = s
    · subst hi
      obtain rfl := mem_unique hl hl'
      exact ⟨m, update_self .., hd⟩
    · exact ⟨l', by rwa [update_of_ne hi], rfl⟩
  · by_cases hi : i = s
    · subst hi
      rw [update_self, Option.some.injEq] at hl'
      exact hpr p (hl' ▸ hp)
    · rw [update_of_ne hi] at hl'
      exact hr i l' p hl' hp

lemma same_parent (hr : Closed row) (hl : row s = some l) (hd : m.pid = l.pid)
    (hpr : m.parent = l.parent) : Closed (update row s (some m)) :=
  hr.update_row hl hd fun p hp => hr s l p hl (hpr ▸ hp)

lemma insert (hr : Closed row) (hf : row s = none) (hpr : ∀ p, m.parent = some p → ∃ j q, row j = some q ∧ q.pid = p) :
    Closed (update row s (some m)) := by
  refine of_rows row (fun i l hl => ?_) fun i l p hl hp => ?_
  · have hi : i ≠ s := by rintro rfl; simp [hf] at hl
    exact ⟨l, by rwa [update_of_ne hi], rfl⟩
  · by_cases hi : i = s
    · subst hi
      rw [update_self, Option.some.injEq] at hl
      exact hpr p (hl ▸ hp)
    · rw [update_of_ne hi] at hl
      exact hr i l p hl hp

lemma remove (hr : Closed row) (hl : row s = some l) (hc : ∀ i m, row i = some m → m.parent = some l.pid → i = s) :
    Closed (update row s none) := by
  intro i m p hm hp
  have hi : i ≠ s := by rintro rfl; simp at hm
  rw [update_of_ne hi] at hm
  obtain ⟨j, q, hq, hd⟩ := hr i m p hm hp
  refine ⟨j, q, ?_, hd⟩
  rw [update_of_ne ?_, hq]
  rintro rfl
  obtain rfl := mem_unique hl hq
  exact hi (hc i m hm (hd ▸ hp))

lemma reap {me : ProcessRecord} (hc : Closed k.family.row) (he : k.table.get s = some me) (hrp : reapable k.table me = true)
    (hw : ∀ i, row i = if i = s then none else (k.family.row i).bind (Life.orphan me.pid)) :
    Closed row := by
  obtain ⟨hzm, hin⟩ := Bool.and_eq_true_iff.mp hrp
  have hsl := ProcessTable.slot_of_get he
  -- a record that is neither `me` nor one of its zombie children is still there
  have ht {j : Nat} {r : ProcessRecord} (hr : k.table.get j = some r) (hj : j ≠ s)
      (hz : j ∉ zombieChildren k.table me) : ∃ m, row j = some m ∧ m.pid = r.pid := by
    rw [mem_zombieChildren, hsl] at hz
    have hv : r.parent = some me.pid → r.state ≠ .zombie := fun hp hs => hz ⟨hj, r, hr, hp, hs⟩
    rw [hw, if_neg hj]
    by_cases hp : r.parent = some me.pid
    · exact ⟨{ of r with parent := some initPid },
        by simp [State.family, hr, orphan, of, hp, hv hp], rfl⟩
    · exact ⟨of r, by simp [State.family, hr, orphan, of, hp], rfl⟩
  intro i m p hm hp
  rw [hw] at hm
  split at hm
  · cases hm
  next hi =>
    obtain ⟨l, hl, ho⟩ := bind_eq_some_iff.mp hm
    obtain ⟨r, hr, rfl⟩ := map_eq_some_iff.mp hl
    by_cases hpr : r.parent = some me.pid
    · -- adopted: init stays
      have hv : r.state ≠ .zombie := by
        intro hs
        simp [orphan, of, hpr, hs] at ho
      simp only [orphan, of, hpr, hv, beq_iff_eq, if_false, if_true, Option.some.injEq] at ho
      subst ho
      cases hp
      rcases Bool.or_eq_true_iff.mp hin with hn | hsm
      · have := List.all_eq_true.mp hn r (ProcessTable.mem_records.mpr ⟨i, hr⟩)
        simp [slot_of_get hr, hsl, hi, hpr, hv] at this
      · obtain ⟨q, hq, hcn⟩ := List.any_eq_true.mp hsm
        obtain ⟨j, hj⟩ := mem_records.mp hq
        simp only [Bool.and_eq_true, beq_iff_eq, Bool.not_eq_true', List.contains_eq_mem,
          decide_eq_false_iff_not, List.mem_cons, not_or] at hcn
        obtain ⟨hqp, hne, hz⟩ := hcn
        rw [slot_of_get hj] at hne hz
        obtain ⟨m', hm', hd⟩ := ht hj (hsl ▸ hne) hz
        exact ⟨j, m', hm', hd.trans hqp⟩
    · -- not a child: its parent is no zombie child of `me`
      obtain rfl : of r = m := by simpa [orphan, of, hpr] using ho
      obtain ⟨j, q, hq, hd⟩ := hc i _ p hl hp
      obtain ⟨rq, hrq, rfl⟩ := map_eq_some_iff.mp hq
      have hjs : j ≠ s := by
        rintro rfl
        obtain rfl := mem_unique he hrq
        exact hpr (hp.trans (congrArg some hd.symm))
      have hz : j ∉ zombieChildren k.table me := by
        intro hz
        have := List.all_eq_true.mp hzm rq (ProcessTable.mem_records.mpr ⟨j, hrq⟩)
        simp only [slot_of_get hrq, List.contains_eq_mem, hz, decide_true, Bool.not_true, Bool.false_or] at this
        have hg := childless_row this hr (hp.trans (congrArg some hd.symm))
        rw [List.mem_cons, mem_zombieChildren, hsl] at hg
        rcases hg with rfl | ⟨-, r', hr', hp', -⟩
        · exact hi rfl
        · obtain rfl := mem_unique hr hr'
          exact hpr hp'
      obtain ⟨m', hm', hd'⟩ := ht hrq hjs hz
      exact ⟨j, m', hm', hd'.trans hd⟩

lemma transfer {g : Family} {tgid dying : Nat} {he space out : Option Nat}
    (hg : Closed g.row) (hv : Family.Transfer g tgid dying he space out f) : Closed f.row := by
  cases hv with
  | nothing | kept => exact hg
  | given hm => exact hg.same_parent hm rfl rfl

end Closed

lemma childless_rows (hl : k.family.row s = some l) (h : (k.table.get s).all fun z => childless k.table z.pid [s])
    (hm : k.family.row i = some m) (hp : m.parent = some l.pid) : i = s := by
  obtain ⟨z, hz, rfl⟩ := map_eq_some_iff.mp hl
  obtain ⟨r, hr, rfl⟩ := map_eq_some_iff.mp hm
  simp only [hz, all_some] at h
  simpa using childless_row h hr hp

lemma LifeStep.closed (hk : k.family.Kin) (hc : Closed k.family.row)
    (hatt : attended k ⟨c, a⟩ = true) (hs : LifeStep k c a f) : Closed f.row := by
  -- the record a new process is made from is there
  have hr {o : Origin} {h : Hand} (hh : k.family.hand c = h)
      (ho : h.origin = some o) (p : Nat) (hp : some o.pid = some p) :
      ∃ j q, k.family.row j = some q ∧ q.pid = p := by
    obtain ⟨s, l, -, -, hl, hpd, -⟩ := hk.origin (hh ▸ ho)
    exact ⟨s, l, hl, hpd.trans (some.inj hp)⟩
  cases hs with
  | spawn _ hi => exact hc.insert hi nofun
  | configure _ hl | rebind _ hl => exact hc.same_parent hl rfl rfl
  | setParent hh hl => exact hc.update_row hl rfl (hr hh rfl)
  | insertFork hh hi | insertThread hh _ _ _ hi => exact hc.insert hi (hr hh rfl)
  | collect ht ha he hpl hl =>
    refine hc.remove hl fun i m hm hp => childless_rows hl ?_ hm hp
    simpa [attended, ht, ha, he, hpl] using hatt
  | deliver ht hl =>
    refine hc.remove hl fun i m hm hp => childless_rows hl ?_ hm hp
    simpa [attended, ht] using hatt
  | zombify _ he _ _ _ hv =>
    have hpt := hc.same_parent (m := (Life.of _).zombify) (State.row_of_get he) rfl rfl
    have hd := Closed.transfer hpt hv
    exact hd
  | retire _ he _ _ _ hv =>
    have hpt := hc.same_parent (m := (Life.of _).retire) (State.row_of_get he) rfl rfl
    have hd := Closed.transfer hpt hv
    exact hd
  | reap ht he => exact hc.reap he (by simpa [attended, ht, he] using hatt) fun _ => rfl
  | transfer _ hv =>
    have hd := hc.transfer hv
    exact hd
  | _ => exact hc

/-! ## Runs -/

abbrev AttendedRun := Run (Guarded (fun k e => attended k e) Step) State.init

lemma AttendedRun.calmRun (h : AttendedRun es k) : CalmRun es k := h.mono fun _ _ _ hs => ⟨calm_of_attended hs.1, hs.2⟩

lemma AttendedRun.closed (h : AttendedRun es k) : Closed k.family.row := by
  induction h with
  | nil => exact fun i l p hl => nomatch hl
  | snoc hrun hs ih =>
    have hc := AttendedRun.calmRun hrun
    exact (step_life hc.inv (calm_of_attended hs.1) hs.2).closed hc.kin ih hs.1

/-- Parent closure. In every state of a run whose steps are all attended, the parent a record
names is in the table. -/
theorem parents_present (hrun : AttendedRun es k) {s p : Nat} {r : ProcessRecord}
    (hr : k.table.get s = some r) (hp : r.parent = some p) : ∃ q, k.table.lookup p = some q := by
  obtain ⟨j, m, hm, rfl⟩ := hrun.closed s (of r) p (State.row_of_get hr) hp
  obtain ⟨q, hq, rfl⟩ := map_eq_some_iff.mp hm
  exact ⟨q, hrun.calmRun.inv.unique.lookup_of_get hq⟩

/-- The first process forks a child, and the child is dispatched on CPU 1 and forks one, too. -/
def threeGenerations : List Event :=
  firstProcess ++ [⟨0, .fork true⟩, ⟨0, .go true⟩, ⟨0, .go true⟩, ⟨1, .pop⟩, ⟨1, .go true⟩, ⟨1, .go true⟩,
      ⟨1, .go true⟩, ⟨1, .fork true⟩, ⟨1, .go true⟩, ⟨1, .go true⟩]

def childExits : List Event := [⟨1, .exit 0⟩, ⟨1, .go true⟩, ⟨1, .go true⟩, ⟨1, .go true⟩, ⟨1, .go true⟩]

theorem parents_present_threeGenerations : ∃ k r q, AttendedRun (threeGenerations ++ childExits) k ∧ k.table.get 2 = some r ∧
      r.parent = some 3 ∧ k.table.lookup 3 = some q := by
  obtain ⟨k, hrun, hg⟩ := exists_guardedRun attended (threeGenerations ++ childExits)
    (fun k => (k.table.get 2).any (·.parent == some 3)) (by decide)
  obtain ⟨r, hr, hp⟩ := (any_eq_true ..).mp hg
  have hp : r.parent = some 3 := by simpa using hp
  obtain ⟨q, hq⟩ := parents_present hrun hr hp
  exact ⟨k, r, q, hrun, hr, hp, hq⟩

/-- `waitpid` collects a zombie and leaves its child behind. -/
theorem orphan_left :
    ¬∀ es k s p r, Run Step State.init es k → k.table.get s = some r → r.parent = some p → ∃ q, k.table.lookup p = some q := by
  intro ha
  obtain ⟨k, hrun, hc⟩ := exists_run (threeGenerations ++ childExits ++ [⟨0, .wait 0 0⟩])
    (fun k => (k.table.get 2).any (·.parent == some 3) && k.table.lookup 3 == none) (by decide)
  obtain ⟨hg, hn⟩ := Bool.and_eq_true_iff.mp hc
  obtain ⟨r, hr, hp⟩ := (any_eq_true ..).mp hg
  obtain ⟨q, hq⟩ := ha _ k 2 3 r hrun hr (by simpa using hp)
  simp [hq] at hn

end ZeroOS.Kernel
