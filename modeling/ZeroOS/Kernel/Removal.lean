import ZeroOS.Kernel.Creation

/-!
# Exiting, reaping and waiting

An exiting process first loses its owner word, then becomes a zombie or is reaped at once; a zombie
is collected by its parent, consumed by the delivery of its result, or reaped with its parent. A
record that leaves the table is then mentioned by no CPU, queue or registry: nobody serves the
zombie of a process that itself runs or exits, because a zombie is served only while its parent
sleeps.
-/

namespace ZeroOS.Kernel

open List Option ZeroOS.Process ZeroOS.Scheduler ProcessTable Phase State Duty

/-! ## Removing records -/

/-- The phases in which CPU `c` may remove the record. -/
def Phase.removable (c : Nat) (φ : Phase) : Prop := φ = .leaving c ∨ φ = .zombie none ∨ φ = .zombie (some c)

lemma Inv.remove (h : Inv k) {t' : ProcessTable} {t : Task} {S : List Nat} (hgn : ∀ s ∈ S, t'.get s = none)
    (hrw : ∀ i, i ∉ S → (t'.get i).map core = (k.table.get i).map core)
    (hd : ∀ s ∈ S, ∃ r ψ, k.table.get s = some r ∧ Agrees k r.pid (some ψ) ∧ ψ.removable c)
    (ha : ∀ p s, s ∉ S → t.duty.about p s = (k.task c).duty.about p s)
    (hcm : ∀ s ∈ S, ¬t.duty.claims s)
    (hsn : t.duty.Sound k.table k.nextPid)
    (hrs : ∀ p, t.duty.reserved = some p → (k.task c).duty.reserved = some p) :
    Inv ((k.setTable t').goto c t) := by
  let P := S.filterMap fun s => (k.table.get s).map (·.pid)
  have hP : ∀ p, p ∈ P ↔ ∃ s ∈ S, ∃ r, k.table.get s = some r ∧ r.pid = p := by
    intro p
    simp [P]
  have ht : Touches k ((k.setTable t').goto c t) c P S := by
    constructor
    case others => intro c' hc; rw [goto_of_ne _ _ hc]; rfl
    case mine => intro p s _ hs; rw [goto_self]; exact ha p s hs
    case rows => exact hrw
    case owner => exact fun _ _ => rfl
    case queue => exact fun _ _ => rfl
    case registry => exact fun _ _ => rfl
    case log => exact fun _ _ => rfl
    case nextPid => exact le_refl _
    case at_old => intro i r hr hi; exact (hP _).mpr ⟨i, hi, r, hr, rfl⟩
    case at_new => intro i r hr hi; rw [State.table, State.goto, State.setTable, hgn i hi] at hr; cases hr
  have hdeadP : ∀ p ∈ P, ∃ s ∈ S, ∃ r ψ, k.table.get s = some r ∧ r.pid = p ∧ Agrees k p (some ψ) ∧ ψ.removable c := by
    intro p hp
    obtain ⟨s, hs, r, hr, rfl⟩ := (hP p).mp hp
    obtain ⟨r', ψ, hr', hφ, hm⟩ := hd s hs
    obtain rfl := mem_unique hr hr'
    exact ⟨s, hs, r, ψ, hr, rfl, hφ, hm⟩
  refine h.step_rule ht ?_ ?_ (fun c' hc => ht.sound (h.sound c') ?_ ?_) ?_ ?_ ?_ ?_
  · intro p hp hu
    obtain ⟨s, hs, r, ψ, hr, rfl, hφ, hm⟩ := hdeadP p hp
    obtain ⟨-, -, -, -, -, -, hq, hw, hl⟩ := hφ.elim
    have hdt := h.about hr hφ
    obtain ⟨n, hn⟩ := Infinite.exists_notMem_finset S.toFinset
    -- which pids a duty carries and wakes does not depend on the slot asked about
    have hsm : ∀ c', (((k.setTable t').goto c t).task c').duty.about r.pid n
        = (k.task c').duty.about r.pid n := by
      intro c'
      by_cases hc : c' = c
      · subst hc
        rw [goto_self]
        exact ha _ _ (mt mem_toFinset.mpr hn)
      · rw [goto_of_ne _ _ hc]; rfl
    have hy : ∀ c', _ = (ψ.expects c').carries := fun c' =>
      have ho : ((k.task c').duty.about r.pid n).carries = _ := congrArg About.carries (hdt c') ▸ rfl
      (congrArg About.carries (hsm c')).trans ho
    have hf : ∀ c', _ = (ψ.expects c').flight := fun c' =>
      have ho : ((k.task c').duty.about r.pid n).flight = _ := congrArg About.flight (hdt c') ▸ rfl
      (congrArg About.flight (hsm c')).trans ho
    have hpl : ψ.place = none := by rcases hm with rfl | rfl | rfl <;> rfl
    refine ⟨none, .gone ?_ (fun c' hc => ?_) (fun c' hc => ?_) ?_ ?_ ?_⟩
    · by_contra hne
      obtain ⟨q, hq⟩ := ne_none_iff_exists'.mp hne
      obtain ⟨hg, hpd⟩ := lookup_eq_some hq
      have hi : q.slot ∉ S := fun hi => by cases (hgn _ hi).symm.trans hg
      obtain ⟨q', hq', hcr⟩ := ht.row_old hi hg
      have := h.unique _ _ _ _ hq' hr ((congrArg Core.pid hcr).trans hpd)
      exact hi (this ▸ hs)
    · have := hy c'
      rcases hm with rfl | rfl | rfl <;> simp [Duty.about, hc, Phase.expects] at this
    · have := hf c'
      simp [Duty.about, expects, hpl] at this
      exact count_eq_zero.mp this hc
    · refine count_eq_zero.mp (hq.trans ?_)
      rcases hm with rfl | rfl | rfl <;> rfl
    · exact count_eq_zero.mp (hw.trans (by simp [hpl]))
    · refine hl.trans ?_
      rcases hm with rfl | rfl | rfl <;> rfl
  · rw [goto_self]
    exact ht.sound hsn (fun p hp hr => by
      obtain ⟨s, hs, r, ψ, hg, rfl, -⟩ := hdeadP p hp
      exact h.not_reserved hg c (hrs _ hr)) fun s hs hc => absurd hc (hcm s hs)
  · intro p hp
    obtain ⟨s, hs, r, ψ, hg, rfl, -⟩ := hdeadP p hp
    exact h.not_reserved hg c'
  · intro s hs hcl
    obtain ⟨r, ψ, hg, hφ, hm⟩ := hd s hs
    refine absurd hcl (h.not_claims hg hφ ?_)
    rcases hm with rfl | rfl | rfl <;> simp [cpu, Ne.symm hc]
  · intro p c' hc hp hp'
    rw [goto_self] at hp
    exact hc (h.reserved_inj hp' (hrs p hp))
  · intro i hi j r r' hr
    rw [State.table, State.goto, State.setTable, hgn i hi] at hr
    cases hr
  · intro p hp
    obtain ⟨s, hs, r, ψ, hg, rfl, -⟩ := hdeadP p hp
    exact h.pid_lt hg
  · intro s hs _
    obtain ⟨r, ψ, hg, hφ, hm⟩ := hd s hs
    refine (h.fits hg hφ).owner_eq.trans ?_
    rcases hm with rfl | rfl | rfl <;> rfl

/-! ## Whose zombie is served -/

lemma Inv.unserved (h : Inv k) {z parent : ProcessRecord}
    (hz : k.table.get s = some z) (hsa : z.state = .zombie) (hp : z.parent = some parent.pid)
    (hφ : Agrees k parent.pid (some ψ)) (hl : ψ.place = none) :
    Agrees k z.pid (some (.zombie none)) := by
  obtain ⟨χ, hχ, hft, ha⟩ := h.phase_of_get hz
  have ht := hft.state
  rw [hsa] at ht
  cases χ with
  | zombie server =>
    cases server with
    | none => exact hχ
    | some c' =>
      have := congrArg About.serves (ha c')
      cases hs : (k.task c').duty.serves with
      | none => simp [Duty.about, hs, Phase.expects] at this
      | some x =>
        obtain ⟨s', p⟩ := x
        obtain rfl : s' = s := by simpa [Duty.about, hs, Phase.expects] using this
        obtain ⟨hf, z', hz', -, hp'⟩ := (h.sound c').serves s' p hs
        obtain rfl := mem_unique hz hz'
        obtain rfl := mem_unique hp hp'
        obtain ⟨_, -, -, -, -, hd, -⟩ := hφ.elim
        have hc := congrArg About.flight (hd c')
        simp [Duty.about, expects, hl] at hc
        exact absurd hf (count_eq_zero.mp hc)
  | _ => cases ht

/-! ## Waiting -/

lemma wait_safe (h : Inv k) (ht : k.task c = .user slot) (target flags : Nat) : (wait k c slot target flags).Safe := by
  have ho : (k.task c).duty.owns = some slot := by rw [ht]; rfl
  obtain ⟨r, hg, -, -, hrun, -⟩ := h.of_owns rfl ho
  have hφ := hrun (ht ▸ rfl)
  have hf := h.fits hg hφ
  unfold wait
  split
  next record packed t hst =>
    obtain ⟨me, code, he, hr, hpr, hzm, -, -, -, rfl⟩ := ProcessTable.waitpidStep_collect hst
    obtain rfl := mem_unique hg he
    have hz := h.unserved hr hzm hpr hφ rfl
    have hne : slot ≠ record.slot := by
      rintro rfl
      obtain rfl := mem_unique hg hr
      have := hf.state
      rw [hzm] at this
      cases this
    refine (h.remove (S := [record.slot]) (t := .waitDestroy slot record.addrSpace) ?_ ?_ ?_ ?_ ?_ ?_
      (by intros; contradiction)).congr rfl rfl rfl rfl (fun _ => rfl)
      fun _ => rfl
    · intro s hs
      obtain rfl : s = record.slot := by simpa using hs
      exact get_take_self _ _
    · intro i hi
      rw [get_take_of_ne _ (by simpa using hi)]
    · intro s hs
      obtain rfl : s = record.slot := by simpa using hs
      exact ⟨record, _, hr, hz, .inr (.inl rfl)⟩
    · intro p s _; rw [ht]; rfl
    · intro s hs
      obtain rfl : s = record.slot := by simpa using hs
      simp [claims, Task.duty, hne]
    · exact .owner hg
  next t hst =>
    have hb : t = k.table.modify slot fun r =>
        { r with waitTarget := some (if target = 0 then .any else .pid target) } := by
      unfold waitpidStep at hst
      rw [hg] at hst
      dsimp only at hst
      split at hst
      · split at hst <;> cases hst
      · exact (Prod.mk.inj hst).2.symm
      · cases hst
      · cases hst
    subst hb
    have hm : Moves k ({ k with procs := k.procs.modify slot fun r =>
        { r with waitTarget := some (if target = 0 then .any else .pid target) } }.goto c
        (.registered slot)) c slot r
        { r with waitTarget := some (if target = 0 then .any else .pid target) } (.running c)
        (.parking c .target) := by
      refine .of_modify hg hφ rfl ⟨hf.state, hf.owner_eq, hf.latch, rfl, trivial⟩
        ?_ ?_ ?_ (by simp) (by simp [place]) rfl
      · intro p s hp hs; simp [ht, Task.duty, about, hs.symm]
      · simp [Task.duty, about, expects, owner, place]
      · intro c' hc; simp [expects, owner, place, hc.symm]
    refine hm.inv h (fun c' hc => by simp [cpu, hc.symm]) ?_ (by simp [Task.duty])
    rw [goto_self]
    exact ⟨(by intros; contradiction), fun s hs => by cases hs; exact ⟨_, hm.get_new, (by intros; contradiction)⟩, (by intros; contradiction), (by intros; contradiction), (by intros; contradiction)⟩
  · exact h

/-! ## Exiting -/

lemma exitRelease_safe (h : Inv k) (ht : k.task c = .exitRelease slot status) : (go k c ok).Safe := by
  obtain ⟨r, hg, ho, hst, hrun, -⟩ := h.of_owns ht rfl
  have hφ := hrun rfl
  have hf := h.fits hg hφ
  obtain ⟨t, hd, hgo⟩ : ∃ t : Task, t.duty = { leaves := some slot } ∧
      go k c ok = next ({ k with procs := k.procs.setOwner slot none }.goto c t) := by
    have hr := Procs.releaseOwnerForExit_owned hg hst ho
    cases status with
    | none => exact ⟨.reapSeed slot, rfl, by simp only [go, ht, hr]⟩
    | some status => exact ⟨.exitDecide slot status, rfl, by simp only [go, ht, hr]⟩
  rw [hgo, Outcome.safe_next]
  have hm : Moves k ({ k with procs := k.procs.setOwner slot none }.goto c t) c slot r r (.running c)
      (.leaving c) := by
    refine .of_procs hg hφ hg rfl ⟨hf.state, ?_, hf.latch, hf.target, trivial⟩
      (fun _ _ => rfl) (fun i hi => by simp [Procs.setOwner, hi]) ?_ ?_ ?_ (by simp)
      (by simp [place]) (fun _ _ => rfl) hφ.balance_eq
    · simp [Procs.setOwner, owner]
    · intro p s hp hs
      rw [hd, ht]
      simp [Task.duty, about, hs.symm]
    · simp [hd, about, expects, owner, place]
    · intro c' hc; simp [expects, owner, place, hc.symm]
  refine hm.inv h (fun c' hc => by simp [cpu, hc.symm]) ?_ (by simp [hd])
  rw [goto_self, hd]
  refine ⟨(by intros; contradiction), (by intros; contradiction), fun s hs => ?_, (by intros; contradiction), (by intros; contradiction)⟩
  cases hs
  exact ⟨r, hg⟩

lemma core_transfer {t t' : ProcessTable} (h : t.transferIfAny tgid dying space = (out, t')) (i : Nat) :
    (t'.get i).map core = (t.get i).map core := by
  rcases transferIfAny_cases h with ⟨-, rfl, -⟩ | ⟨sp, idx, r, -, -, -, -, -, -, -, -, rfl⟩
  · rfl
  · exact core_modify (f := fun r => { r with addrSpace := some sp }) (fun _ _ => rfl) i

lemma Inv.zombify (h : Inv k) {r : ProcessRecord} {status : Int} {t' : ProcessTable} {t : Task}
    (hg : k.table.get slot = some r) (hφ : Agrees k r.pid (some (.leaving c)))
    (hr : ∀ i, (t'.get i).map core = ((k.table.modify slot (·.zombify status)).get i).map core)
    (hd : (k.task c).duty = { leaves := some slot }) (ht : t.duty = {}) :
    Inv ((k.setTable t').goto c t) ∧
    ∃ z, t'.get slot = some z ∧ core z = core (r.zombify status) ∧
      Agrees ((k.setTable t').goto c t) r.pid (some (.zombie none)) := by
  have hf := h.fits hg hφ
  obtain ⟨z, hz, hcr⟩ : ∃ z, t'.get slot = some z ∧ core z = core (r.zombify status) := by
    have := hr slot
    rw [get_modify, if_pos rfl, hg] at this
    exact map_eq_some_iff.mp this
  have hm : Moves k ((k.setTable t').goto c t) c slot r z (.leaving c) (.zombie none) := by
    refine .of_procs (p := { k.procs with table := t' }) hg hφ hz (congrArg Core.pid hcr) ?_ ?_
      (fun _ _ => rfl) ?_ ?_ ?_ (by simp) (by simp [place]) (fun _ _ => rfl) hφ.balance_eq
    · exact ⟨congrArg Core.state hcr, hf.owner_eq, (congrArg Core.wakePending hcr).trans hf.latch,
        (congrArg Core.waiting hcr).trans hf.target, trivial⟩
    · intro i hi
      rw [hr, ProcessTable.get_modify, if_neg hi]
    · intro p s hp hs; simp [ht, hd, Duty.about, hs.symm]
    · simp [ht, Duty.about, Phase.expects, Phase.owner, Phase.place]
    · intro c' hc; simp [Phase.expects, Phase.owner, Phase.place, hc.symm]
  have hn : Inv ((k.setTable t').goto c t) := by
    refine hm.inv h (fun c' hc => by simp [cpu, hc.symm]) ?_ (by simp [ht])
    rw [goto_self, ht]
    exact .unbound
  exact ⟨hn, z, hz, hcr, hm.agrees h hn.unique⟩

lemma Inv.claimWaiter (h : Inv k) (hq : k.table.get ps = some q) (hw : q.waitTarget.isSome) (hd : (k.task c).duty = {})
    (hk' : k' = ((k.note (.consumed q.pid)).setTable
      (k.table.modify ps fun r => { r with waitTarget := none })).goto c (.waking [q.pid] .sched)) :
    Inv k' ∧ ∀ p φ, p ≠ q.pid → Agrees k p φ → Agrees k' p φ := by
  obtain ⟨χ, hχ, hf, ha⟩ := h.phase_of_get hq
  have hl : χ.place = some .target := by simpa [hw] using hf.target
  have hl' : (χ.withPlace (.flight c)).place = some (.flight c) := by cases χ <;> simp_all [place, withPlace]
  have hm : Moves k k' c ps q { q with waitTarget := none } χ (χ.withPlace (.flight c)) := by
    rw [hk']
    refine .of_procs hq hχ (by simp [get_modify, hq]) rfl ⟨?_, ?_, ?_, ?_, ?_⟩
      (fun i hi => by simp [get_modify, hi]) (fun _ _ => rfl) ?_ ?_ (fun c' hc => ?_) ?_ ?_ ?_ ?_
    · exact hf.state.trans (by cases χ <;> rfl)
    · exact hf.owner_eq.trans (by cases χ <;> rfl)
    · simp [hf.latch, hl, hl']
    · simp [hl']
    · cases χ <;> simp_all [Phase.withPlace, Phase.wellPlaced]
    · intro p s hp _
      rw [hd]
      simp [Task.duty, Back.duty, Duty.about, hp.symm]
    · rw [Phase.expects_withPlace hl, ← ha c, hd]
      simp [Task.duty, Back.duty, Duty.about]
    · rw [Phase.expects_withPlace hl]
      simp [expects, hl, Ne.symm hc]
    · cases χ <;> simp_all [place, withPlace]
    · simp [hl, hl']
    · intro p hp
      simp [note, hp.symm]
    · have ho : χ.owed = false ∧ (χ.withPlace (.flight c)).owed = true := by
        cases χ <;> simp_all [place, withPlace, owed, Place.consumed]
      simp [note, hχ.balance_eq, ho]
  have ht : (k'.task c).duty = { flight := [q.pid] } := by
    rw [hk', goto_self]
    rfl
  have hn : Inv k' := by
    refine hm.inv h (fun _ _ _ r hr => ?_) (ht ▸ .unbound) (by simp [ht])
    obtain rfl := mem_unique hr hq
    exact ⟨_, hm.get_new, rfl, rfl, fun hz => ⟨hz, rfl⟩⟩
  exact ⟨hn, fun p φ hp => hm.touches.frame hn.unique (by simpa using hp)⟩

lemma Inv.serve (h : Inv k) (hz : k.table.get slot = some z) (hφ : Agrees k z.pid (some (.zombie none)))
    (hq : k.table.get ps = some q) (hw : q.waitTarget.isSome) (hpr : z.parent = some q.pid)
    (hd : (k.task c).duty = {}) (ht : t.duty = { serves := some (slot, q.pid), flight := [q.pid] }) :
    Inv (((k.note (.consumed q.pid)).setTable
      (k.table.modify ps fun r => { r with waitTarget := none })).goto c t) := by
  have hps : ps ≠ slot := by
    rintro rfl
    obtain rfl := mem_unique hz hq
    simpa [hw, place] using (h.fits hz hφ).target
  have hpd : q.pid ≠ z.pid := fun he => hps (h.unique _ _ _ _ hq hz he)
  obtain ⟨k₁, hk₁⟩ : ∃ k₁, k₁ = ((k.note (.consumed q.pid)).setTable
    (k.table.modify ps fun r => { r with waitTarget := none })).goto c (.waking [q.pid] .sched) := ⟨_, rfl⟩
  obtain ⟨h₁, hfr⟩ := h.claimWaiter hq hw hd hk₁
  have hφ₁ := hfr z.pid _ hpd.symm hφ
  have hz₁ : k₁.table.get slot = some z := by
    simp [hk₁, State.table, State.goto, State.setTable, ProcessTable.get_modify, hps.symm, hz]
  have hd₁ : (k₁.task c).duty = { flight := [q.pid] } := by
    rw [hk₁, goto_self]
    rfl
  have hf := h₁.fits hz₁ hφ₁
  obtain ⟨-, -, -, -, -, -, hn, hr, hl⟩ := hφ₁.elim
  have hm : Moves k₁ (k₁.goto c t) c slot z z (.zombie none) (.zombie (some c)) := by
    refine .of_queues hz₁ hφ₁ ⟨hf.state, hf.owner_eq, hf.latch, hf.target, trivial⟩ ?_ ?_ ?_
      (fun _ _ => rfl) hn (fun _ _ => rfl) hr (fun _ _ => rfl) hl
    · intro p s hp hs
      simp [ht, hd₁, Duty.about, hs.symm]
    · simp [ht, Duty.about, Phase.expects, Phase.owner, Phase.place, hpd]
    · intro c' hc
      simp [Phase.expects, Phase.owner, Phase.place, Ne.symm hc]
  have hin : Inv (k₁.goto c t) := by
    refine hm.inv h₁ (fun _ _ hcp => by cases hcp) ?_ (by simp [ht])
    rw [goto_self, ht]
    refine ⟨(by intros; contradiction), (by intros; contradiction), (by intros; contradiction), fun s p hsp => ?_, (by intros; contradiction)⟩
    cases hsp
    exact ⟨mem_singleton_self _, z, hz₁, hf.state, hpr⟩
  simpa [hk₁, State.goto] using hin

lemma exitDecide_safe (h : Inv k) (ht : k.task c = .exitDecide slot status) : (go k c ok).Safe := by
  obtain ⟨r, hg, hφ⟩ := h.of_leaves ht rfl
  have hd : (k.task c).duty = { leaves := some slot } := by rw [ht]; rfl
  -- the exiting process has no registration left that `futex_detach` could find
  have hf : (k.waiters.filter fun w =>
      !(w.kind = .futex && some w.pid = (k.table.get slot).map (·.pid))) = k.waiters := by
    refine filter_eq_self.mpr fun w hw => ?_
    obtain ⟨-, -, -, -, -, -, -, hrg, -⟩ := hφ.elim
    have hne : w.pid ≠ r.pid := fun he => count_eq_zero.mp (hrg.trans rfl) (he ▸ mem_map_of_mem hw)
    simp [hg, hne]
  simp only [go, ht, exitStep, hf]
  rcases het : k.table.exitDecide slot status with ⟨plan, t'⟩
  rcases exitDecide_cases hg het with
    ⟨space, t₂, wake, rfl, -, htr, hk⟩ | ⟨out, rfl, htr⟩
  · rcases takeWait_cases hk with ⟨rfl, rfl⟩ | ⟨ps, q, hps, hq, hdc, rfl, rfl⟩
    · exact (h.zombify (t := .zombieDestroy slot space none (packWaitResult r.pid status)) hg hφ
        (core_transfer htr) hd rfl).1.congr rfl rfl rfl rfl (fun _ => rfl) fun _ => rfl
    · obtain ⟨hin, z, hz, hcr, hφz⟩ := h.zombify
        (t := .zombieDestroy slot space none (packWaitResult r.pid status)) hg hφ
        (core_transfer htr) hd rfl
      have hwt : q.waitTarget.isSome := by
        obtain ⟨w, hw, -⟩ := (Option.any_eq_true ..).mp hdc
        exact Option.isSome_of_eq_some hw
      have hpr : z.parent = some q.pid := by
        obtain ⟨parent, hp, hn⟩ := bind_eq_some_iff.mp hps
        obtain ⟨q₀, hq₀, rfl⟩ := find_eq_some hn
        have hqp : q.pid = q₀.pid := by
          have hr := core_transfer htr ps
          rw [hq, get_modify, hq₀] at hr
          split at hr
          · exact congrArg Core.pid (some.inj hr)
          · exact congrArg Core.pid (some.inj hr)
        have hzp := congrArg Core.parent hcr
        have hzs : z.state = .zombie := congrArg Core.state hcr
        simp only [core, hzs, if_true] at hzp
        rw [hzp, hp, hqp]
      have hpd : z.pid = r.pid := congrArg Core.pid hcr
      have hs := hin.serve (c := c)
        (t := .zombieDestroy slot space (some (ps, q.pid)) (packWaitResult r.pid status)) hz
        (by rw [hpd]; exact hφz) hq hwt hpr (by rw [goto_self]; rfl) rfl
      refine hs.congr rfl rfl rfl rfl (fun _ => rfl) fun c' => ?_
      by_cases hc : c' = c
      · subst hc; rw [goto_self, goto_self]
      · rw [goto_of_ne _ _ hc, goto_of_ne _ _ hc]
        exact congrArg Task.duty (goto_of_ne _ _ hc).symm
  · refine (h.recore (t := .reapSeed slot) (fun i => ?_) (by rw [hd]; rfl)).congr rfl rfl rfl rfl
      (fun _ => rfl) fun _ => rfl
    rw [core_transfer htr i]
    exact core_modify (f := (·.retire status)) (fun _ _ => rfl) i

lemma deliver_safe (h : Inv k) (ht : k.task c = .deliver slot parent packed) : (go k c ok).Safe := by
  obtain ⟨z, hz, -, hφ⟩ := h.of_serves (c := c) (s := slot) (p := parent) (ht ▸ rfl)
  simp only [go, ht, Outcome.safe_next]
  refine (h.remove (S := [slot]) (t := .waking [parent] .sched) ?_ ?_ ?_ ?_ ?_ ?_ ?_).congr
    rfl rfl rfl rfl (fun _ => rfl) fun _ => rfl
  · intro s hs
    obtain rfl : s = slot := by simpa using hs
    exact get_take_self _ _
  · intro i hi
    rw [get_take_of_ne _ (by simpa using hi)]
  · intro s hs
    obtain rfl : s = slot := by simpa using hs
    exact ⟨z, _, hz, hφ, .inr (.inr rfl)⟩
  · intro p s hs
    have hne : slot ≠ s := by simpa using Ne.symm (by simpa using hs)
    simp [ht, Task.duty, Back.duty, about, hne]
  · simp [claims, Task.duty, Back.duty]
  · exact .unbound
  · simp [Task.duty, Back.duty]

/-! ## Reaping -/

lemma reapSeed_safe (h : Inv k) (ht : k.task c = .reapSeed slot) : (go k c ok).Safe := by
  obtain ⟨r, hg, hφ⟩ := h.of_leaves ht rfl
  simp only [go, ht, reapRound]
  rcases hr : k.table.reapOne slot with _ | ⟨record, casc, t'⟩
  · simp [reapOne, hg] at hr
  obtain ⟨hrc, hc, hw⟩ := reapOne_spec hr
  obtain rfl := mem_unique hg hrc
  have hh : ∀ z ∈ casc, z.slot ≠ slot ∧ k.table.get z.slot = some z ∧ Agrees k z.pid (some (.zombie none)) := by
    intro z hz
    obtain ⟨i, hne, hi, hpr, hm⟩ := (hc z).mp hz
    obtain rfl := slot_of_get hi
    exact ⟨hne, hi, h.unserved hi hm hpr hφ rfl⟩
  refine h.remove (S := slot :: casc.map (·.slot)) ?_ ?_ ?_ ?_ ?_ .unbound ?_
  · intro s hs
    rw [hw]
    split
    · rfl
    · rename_i hne
      obtain ⟨z, hz, rfl⟩ := mem_map.mp ((mem_cons.mp hs).resolve_left hne)
      obtain ⟨i, -, hi, hpr, hm⟩ := (hc z).mp hz
      rw [slot_of_get hi, hi]
      simp [orphaned, orphanAction, hpr, hm]
  · intro i hi
    obtain ⟨hne, hn⟩ := not_or.mp (mt mem_cons.mpr hi)
    rw [hw, if_neg hne]
    cases hq : k.table.get i with
    | none => rfl
    | some q =>
      rcases @orphaned_cases r.pid q with
        ⟨hp, hz, -⟩ | ⟨-, hz, ho⟩ | ⟨-, ho⟩
      · refine absurd (mem_map.mpr ⟨q, (hc q).mpr ⟨i, hne, hq, hp, hz⟩, ?_⟩) hn
        exact slot_of_get hq
      · simp [ho, core, hz]
      · simp [ho]
  · intro s hs
    rcases mem_cons.mp hs with rfl | hs
    · exact ⟨r, _, hg, hφ, .inl rfl⟩
    · obtain ⟨z, hz, rfl⟩ := mem_map.mp hs
      obtain ⟨-, hgz, hφz⟩ := hh z hz
      exact ⟨z, _, hgz, hφz, .inr (.inl rfl)⟩
  · intro p s hs
    have hne : slot ≠ s := fun he => hs (he ▸ mem_cons_self)
    simp [ht, Task.duty, about, hne]
  · simp [claims, Task.duty]
  · simp [Task.duty]

end ZeroOS.Kernel
