import ZeroOS.Kernel.Kinship

/-!
# Every step of the machine is a step of the family

The paths that take records out of the table, and the theorem that collects all paths: `step_life`.
-/

namespace ZeroOS.Kernel

open ZeroOS.Process ZeroOS.Scheduler Function ProcessTable State Life Nat

variable {k k' : State}

/-! ## Waiting, exit, reaping -/

lemma family_take : (k.setTable (k.table.take t)).family = k.family.put t none := by
  refine Family.ext' (fun j => ?_) (fun _ => rfl) rfl rfl rfl rfl rfl
  change ((k.table.take t).get j).map Life.of = update k.family.row t none j
  rw [get_take]
  by_cases hj : j = t
  · subst hj; simp
  · simp [hj, family]

lemma wait_lives (h : Inv k) (ht : k.task c = .user slot) : (wait k c slot target flags).Lives k c (.wait target flags) := by
  have hst : LifeStep k c (.wait target flags) k.family := stay_lives (ht ▸ rfl) rfl rfl rfl rfl rfl (le_refl _)
  obtain ⟨me, -, hm, -⟩ := h.row_of_owns ht rfl
  unfold wait
  split
  next record packed t hs =>
    obtain ⟨me', code, hm', hr, -, hz, -, -, -, rfl⟩ := waitpidStep_collect hs
    obtain rfl := Option.mem_unique hm hm'
    have hp : waitPlan me.pid target flags k.table.views = .collect record.slot packed := by
      simp only [waitpidStep, hm] at hs
      split at hs
      next i packed' hp =>
        split at hs
        next hi =>
          cases (Prod.mk.inj hs).1
          rw [hp, slot_of_get hi]
        · cases hs
      all_goals cases hs
    refine .goto (f := k.family.put record.slot none) family_take ?_
    exact .collect ht rfl hm hp (l := of record) (by simp [family, hr])
      (by simp [of, hz])
  next t hs =>
    simp only [waitpidStep, hm] at hs
    split at hs
    · split at hs <;> cases hs
    · cases hs
      refine .idle (fun i => ?_) rfl (ht ▸ rfl) (ht ▸ rfl) rfl (.inr (ht ▸ rfl))
        ⟨rfl, rfl, rfl, rfl, le_refl _⟩
      exact rows_modify (f := fun r => { r with
        waitTarget := some (if target = 0 then .any else .pid target) }) (fun _ => rfl)
        (fun _ _ => rfl) i
    all_goals cases hs
  · exact hst

lemma Inv.not_dying (h : Inv k) (hr : k.table.get i = some r) :
    r.state ≠ .dying := by
  obtain ⟨ψ, -, hf, -⟩ := h.phase_of_get hr
  rw [hf.state]
  cases ψ <;> simp [Phase.state]

lemma transfer_family {tgid dying : Nat} {space out : Option Nat} {t : ProcessTable}
    (hd : ∀ i r, k.table.get i = some r → r.state ≠ .dying)
    (hv : k.table.transferIfAny tgid dying space = (out, t)) :
    Family.Transfer k.family tgid dying (k.table.groupSurvivorIndex tgid dying) space out
      (k.setTable t).family := by
  obtain ⟨rfl, rfl, hn⟩ | ⟨σ, j, r, rfl, rfl, hj, hr, hg, hp, -, hs, rfl⟩ := ProcessTable.transferIfAny_cases hv
  · cases out with
    | none => exact .nothing _
    | some σ =>
      rw [hn rfl]
      refine .kept fun j m hm hg hp hs => ?_
      obtain ⟨r, hr, rfl⟩ := Option.map_eq_some_iff.mp hm
      have := ProcessTable.position_eq_none (hn rfl) hr
      simp only [of] at hg hp hs
      simp [hg, hp, hs, hd j r hr] at this
  · rw [hj, family_modify hr]
    exact .given (m := of r) (by simp [family, hr]) hg hp hs

lemma takeWait_rows {t t' : ProcessTable} (hw : t.takeWait ps dying = (wake, t')) (i : Nat) :
    (t'.get i).map Life.of = (t.get i).map Life.of := by
  obtain ⟨-, rfl⟩ | ⟨s, -, -, -, -, -, rfl⟩ := takeWait_cases hw
  · rfl
  · exact rows_modify (f := fun r => { r with waitTarget := none }) (fun _ => rfl)
      (fun _ _ => rfl) i

lemma exitDecide_lives (h : Inv k) (ht : k.task c = .exitDecide slot status) : (go k c ok).Lives k c a := by
  obtain ⟨me, he, hφ⟩ := h.of_leaves ht rfl
  have hs : me.state = .running := (h.fits he hφ).state
  have hl : me.state ≠ .zombie := by simp [hs]
  have hf := h.unused he hφ (ht ▸ rfl)
  simp only [go, ht, exitStep]
  cases hp : k.table.exitDecide slot status with
  | mk plan t =>
  obtain ⟨space, t₂, wake, rfl, hpr, hm, hw⟩ | ⟨out, rfl, hm⟩ := ProcessTable.exitDecide_cases he hp
  · have hd : ∀ i r, (k.table.modify slot (·.zombify status)).get i = some r → r.state ≠ .dying := by
      intro i r hr
      rw [get_modify _ _ _ (·.zombify status) fun _ => rfl] at hr
      split at hr
      · obtain ⟨r', -, rfl⟩ := Option.map_eq_some_iff.mp hr
        simp
      · exact h.not_dying hr
    have hm' := transfer_family (k := k.setTable (k.table.modify slot (·.zombify status))) hd hm
    rw [family_modify (f := (·.zombify status)) he] at hm'
    refine .goto ?_ (.zombify ht he hl hf hpr hm')
    refine Family.ext' (fun i => (takeWait_rows hw i).trans rfl) (fun _ => ?_) ?_ ?_ ?_ ?_ ?_ <;>
      cases wake <;> rfl
  · have hds := ProcessTable.exitDecide_reapNow he hp
    have hd : ∀ i r, (k.table.modify slot (·.retire status)).get i = some r → r.state ≠ .dying := by
      intro i r hr
      rw [get_modify _ _ _ (·.retire status) fun _ => rfl] at hr
      split at hr
      · obtain ⟨r', hr', rfl⟩ := Option.map_eq_some_iff.mp hr
        exact show r'.state ≠ .dying from h.not_dying hr'
      · exact h.not_dying hr
    have hm' := transfer_family (k := k.setTable (k.table.modify slot (·.retire status))) hd hm
    rw [family_modify (f := (·.retire status)) he] at hm'
    have hst := LifeStep.retire (a := a) ht he hl hf hds hm'
    change LifeStep k c a (State.goto _ c (.reapSeed slot)).family
    rw [family_goto]
    convert hst using 1
    refine Family.ext' (fun _ => rfl) (fun c' => ?_) rfl rfl rfl rfl rfl
    by_cases hc : c' = c
    · subst hc; simp [Family.take, family, ht, Task.hand, setTable]
    · simp [Family.take, family, hc, setTable]

lemma deliver_lives (h : Inv k) (ht : k.task c = .deliver slot p packed) : (go k c ok).Lives k c a := by
  obtain ⟨r, hr, -, hφ⟩ := h.of_serves (c := c) (s := slot) (p := p) (ht ▸ rfl)
  have hs : r.state = .zombie := (h.fits hr hφ).state
  simp only [go, ht]
  refine .goto (f := k.family.put slot none) family_take ?_
  exact .deliver ht (l := of r) (by simp [family, hr]) (by simp [of, hs])

lemma life_orphaned (dying : Nat) (r : ProcessRecord) :
    (ProcessTable.orphaned dying r).map Life.of = (Life.of r).orphan dying := by
  obtain ⟨hp, hz, ho⟩ | ⟨hp, hz, ho⟩ | ⟨hp, ho⟩ := @orphaned_cases dying r <;>
    simp [ho, orphan, of, hp]
  · simp [hz]
  · simp [hz]

lemma reapSeed_lives (h : Inv k) (ht : k.task c = .reapSeed slot) : (go k c ok).Lives k c a := by
  obtain ⟨me, he, hφ⟩ := h.of_leaves ht rfl
  simp only [go, ht, reapRound]
  cases hrp : k.table.reapOne slot with
  | none => simp [reapOne, he] at hrp
  | some res =>
  obtain ⟨record, casc, t⟩ := res
  obtain ⟨hg, hc, hw⟩ := reapOne_spec hrp
  obtain rfl := Option.mem_unique he hg
  have ho : ∀ r ∈ casc, k.family.row r.slot = some (Life.of r) := by
    intro r hr
    obtain ⟨i, -, hi, -⟩ := (hc r).mp hr
    simp [family, slot_of_get hi, hi]
  have hd : casc.filterMap (·.addrSpace)
      = (casc.map (·.slot)).filterMap fun i => (k.family.row i).bind Life.space := by
    rw [List.filterMap_map]
    refine List.filterMap_congr fun r hr => ?_
    simp only [comp_apply, ho r hr]
    rfl
  refine .goto (f := { k.family with
    row := fun i => if i = slot then none else (k.family.row i).bind (Life.orphan me.pid) }) ?_ ?_
  · refine Family.ext' (fun i => ?_) (fun _ => rfl) rfl rfl rfl rfl rfl
    change (t.get i).map Life.of = if i = slot then none else (k.family.row i).bind _
    rw [hw]
    by_cases hi : i = slot
    · simp [hi]
    · simp only [if_neg hi, family]
      cases k.table.get i with
      | none => rfl
      | some r => exact life_orphaned me.pid r
  · simp only [Task.hand, hd]
    refine .reap ht he (h.unused he hφ (ht ▸ rfl)) (h.pid_lt he) (fun j m hm hp => ?_)
      (fun c' hs => ?_) (ProcessTable.reapOne_nodup hrp) fun i => ?_
    · obtain ⟨r, hr, rfl⟩ := Option.map_eq_some_iff.mp hm
      exact h.unique _ _ _ _ hr he hp
    · exact h.not_reserved he c' ((Task.hand_reserved _).symm.trans hs)
    · rw [List.mem_map]
      constructor
      · rintro ⟨r, hr, rfl⟩
        obtain ⟨i, hne, hi, hp, hz⟩ := (hc r).mp hr
        rw [slot_of_get hi]
        exact ⟨hne, of r, by simp [family, hi], hp, by simp [of, hz]⟩
      · rintro ⟨hne, l, hl, hp, hz⟩
        obtain ⟨r, hr, rfl⟩ := Option.map_eq_some_iff.mp hl
        exact ⟨r, (hc r).mpr ⟨i, hne, hr, hp, by simpa [of] using hz⟩, ProcessTable.slot_of_get hr⟩

lemma reapTransfer_lives (h : Inv k) (ht : k.task c = .reapTransfer seed stack record casc) : (go k c ok).Lives k c a := by
  simp only [go, ht]
  exact .goto rfl (.transfer ht (transfer_family (fun i r hr => h.not_dying hr) rfl))

lemma reapDestroy_lives {seed space : Nat} {stack pending : List Nat}
    (ht : k.task c = .reapDestroy seed stack (space :: pending)) :
    (go k c ok).Lives k c a := by
  simp only [go, ht]
  refine .goto (f := { k.family with graves := space :: k.family.graves }) rfl ?_
  have hs := LifeStep.destroy (k := k) (c := c) (a := a) (s := space) (d := pending)
    (by rw [hand_eq ht]; rfl) (by rw [hand_eq ht]; rfl)
  rwa [hand_eq ht] at hs

/-! ## Every step -/

lemma go_lives (h : Inv k) (hc : calm k ⟨c, .go ok⟩) : (go k c ok).Lives k c (.go ok) := by
  cases ht : k.task c with
  | boot | sched | user _ => simp only [go, ht]; trivial
  | dispatching pid => exact claim_lives ht
  | entering slot =>
    simp only [go, ht]
    exact goto_lives (ht ▸ rfl) rfl (.inl rfl)
  | activating slot => exact activating_lives h ht
  | registered slot => exact registered_lives h ht
  | blockSwitch slot | yieldSwitch slot | exitSwitch slot status =>
    simp only [go, ht]
    exact detachCurrent_lives (ht ▸ rfl) rfl (.inr (ht ▸ rfl))
  | blockFinish slot => exact blockFinish_lives h ht
  | requeue pid =>
    simp only [go, ht]
    exact enqueue_lives (ht ▸ rfl) rfl (.inl rfl)
  | yieldRelease slot => exact yieldRelease_lives h ht
  | yieldPush pid slot =>
    simp only [go, ht]
    split
    · trivial
    · exact goto_lives (ht ▸ rfl) rfl (.inl rfl)
  | waking pids back =>
    cases pids with
    | nil =>
      simp only [go, ht]
      exact goto_lives (ht ▸ rfl) (by simp) (.inr (by rw [ht, Back.hand_task]; rfl))
    | cons pid pids => exact waking_lives ht
  | wakePush pid slot pids back =>
    simp only [go, ht]
    split
    · trivial
    · exact .idle (t := .waking pids back) (fun _ => rfl) rfl (ht ▸ rfl) (ht ▸ rfl) rfl
        (.inr (ht ▸ rfl)) ⟨rfl, rfl, rfl, rfl, le_refl _⟩
  | enqueueing pid back =>
    simp only [go, ht]
    exact enqueue_lives (ht ▸ rfl) (by simp) (.inr (by rw [ht, Back.hand_task]; rfl))
  | spawnBuild slot pid parent back => exact spawnBuild_lives h ht
  | spawnParent pid parent back => exact spawnParent_lives h ht
  | forkInsert slot parent pid space => exact forkInsert_lives ht
  | threadCheck slot parent => exact threadCheck_lives ht
  | threadInsert slot parent pid => exact threadInsert_lives h ht
  | execBuild slot => exact execBuild_lives h ht
  | execRebind slot space => exact execRebind_lives h ht
  | execActivate slot space old =>
    simp only [go, ht]
    exact .goto rfl (.execLoad (hand_eq ht))
  | execDestroy slot old | waitDestroy slot old =>
    simp only [go, ht]
    exact destroy_lives (ht ▸ rfl) (ht ▸ rfl) (ht ▸ rfl) rfl
  | exitRelease slot status => exact exitRelease_lives h ht
  | exitDecide slot status => exact exitDecide_lives h ht
  | zombieDestroy slot space wake packed =>
    simp only [go, ht]
    exact destroy_lives (o := none) (ht ▸ rfl) (ht ▸ rfl) (ht ▸ rfl)
      (by cases wake <;> rfl)
  | deliver slot parent packed => exact deliver_lives h ht
  | reapSeed seed => exact reapSeed_lives h ht
  | reapNext seed stack =>
    cases stack with
    | nil =>
      simp only [go, ht]
      exact goto_lives (ht ▸ rfl) rfl (.inl rfl)
    | cons s stack =>
      have hs : k.table.get s = none := by simpa [calm, ht] using hc
      simp only [go, ht, reapRound, reapOne, hs]
      exact goto_lives (ht ▸ rfl) rfl (.inl rfl)
  | reapTransfer seed stack record casc => exact reapTransfer_lives h ht
  | reapDestroy seed stack pending =>
    cases pending with
    | nil => simp only [go, ht]; exact goto_lives (ht ▸ rfl) rfl (.inl rfl)
    | cons space pending => exact reapDestroy_lives ht

lemma userStep_lives (h : Inv k) (ht : k.task c = .user slot) (a : Act) : (userStep k c slot a).Lives k c a := by
  have hh : (k.task c).hand = { runs := some slot } := by rw [ht]; rfl
  cases a with
  | spawn kind => exact spawn_lives h ht
  | consume mask => exact consume_lives hh
  | yield | exit _ | svcExit => exact goto_lives (by rw [hh]) rfl (.inr (by rw [hh]; rfl))
  | sliceEnd => exact goto_lives (by rw [hh]) rfl (.inr (by rw [hh]; rfl))
  | boost => exact stay_lives (by rw [hh]) rfl rfl rfl rfl rfl (le_refl _)
  | register kind key =>
    simp only [userStep]
    split
    · exact goto_lives (by rw [hh]) rfl (.inr (by rw [hh]; rfl))
    · exact stay_lives (by rw [hh]) rfl rfl rfl rfl rfl (le_refl _)
  | fork clones => exact fork_lives h ht
  | createThread =>
    obtain ⟨r, -, hr, -, hl, hz, -⟩ := h.row_of_owns ht rfl
    simp only [userStep, hr]
    exact .goto rfl (.snapshot (hand_eq ht) hl hz)
  | exec => exact exec_lives h ht
  | wait target flags => exact wait_lives h ht
  | startScheduler | pop | go _ => trivial

/-- Every step of the machine is a step of the family. -/
lemma step_life (h : Inv k) (hc : calm k e) (hs : Step k e k') :
    LifeStep k e.cpu e.act k'.family := by
  obtain ⟨c, a⟩ := e
  suffices hl : (step k c a).Lives k c a by
    rw [show step k c a = some (.ok k') from hs] at hl
    exact hl
  unfold step
  split
  next ht => exact spawn_lives h ht
  next ht => exact goto_lives (ht ▸ rfl) rfl (.inl rfl)
  next ht =>
    split
    · exact goto_lives (ht ▸ rfl) rfl (.inl rfl)
    · exact stay_lives (ht ▸ rfl) rfl rfl rfl rfl rfl (le_refl _)
  next ht => exact consume_lives (ht ▸ rfl)
  next ht =>
    split
    · trivial
    · exact userStep_lives h ht _
  · exact go_lives h hc
  · trivial

end ZeroOS.Kernel
