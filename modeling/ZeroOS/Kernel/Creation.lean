import ZeroOS.Kernel.Dispatch

/-!
# Creating processes and replacing images

`spawn`, `fork` and `create_thread` put a record with a new pid into a free slot; the CPU then
carries the pid to the run queue. Between the allocation of the pid and the insertion the pid is in
the CPU's reserve. `exec` changes address spaces only, which the protocol does not depend on.
-/

namespace ZeroOS.Kernel

open ZeroOS.Process ZeroOS.Scheduler ProcessTable Phase State

/-! ## Free slots, unused pids -/

lemma Inv.gone (h : Inv k) (hn : k.table.lookup pid = none) : Agrees k pid none := by
  obtain ⟨φ, hφ⟩ := h.phase pid
  cases hφ with
  | gone h₁ h₂ h₃ h₄ h₅ h₆ => exact .gone h₁ h₂ h₃ h₄ h₅ h₆
  | here _ _ hr => rw [hn] at hr; cases hr

lemma Inv.not_claims_free (h : Inv k) (hs : k.table.get slot = none) (c : Nat) :
    ¬(k.task c).duty.claims slot := by
  have hn := h.sound c
  rintro (hd | hd | ⟨p, hd⟩ | ⟨p, hd⟩)
  · obtain ⟨r, hr, -⟩ := hn.owns slot hd
    rw [hs] at hr; cases hr
  · obtain ⟨r, hr⟩ := hn.leaves slot hd
    rw [hs] at hr; cases hr
  · obtain ⟨-, r, hr, -⟩ := hn.serves slot p hd
    rw [hs] at hr; cases hr
  · obtain ⟨-, r, hr, -⟩ := hn.builds slot p hd
    rw [hs] at hr; cases hr

lemma Inv.lookup_nextPid (h : Inv k) : k.table.lookup k.nextPid = none := by
  by_contra hne
  obtain ⟨r, hr⟩ := Option.ne_none_iff_exists'.mp hne
  obtain ⟨hg, hp⟩ := lookup_eq_some hr
  exact lt_irrefl _ (hp ▸ h.pid_lt hg)

lemma Inv.nextPid_not_reserved (h : Inv k) (c : Nat) : (k.task c).duty.reserved ≠ some k.nextPid :=
  fun hr => lt_irrefl _ ((h.sound c).reserved _ hr).1

/-! ## The new record -/

/-- A record as `spawn`, `fork` and `create_thread` write it. -/
structure NewRecord (r : ProcessRecord) (pid : Nat) : Prop where
  pid : r.pid = pid
  state : r.state = .runnable
  latch : r.wakePending = false
  target : r.waitTarget = none

lemma Inv.insert (h : Inv k) {mk : Nat → ProcessRecord} {hm : ∀ i, (mk i).slot = i} {p : Procs} {n : Nat}
    (hin : k.procs.insert mk hm = some (slot, p)) (hn : NewRecord (mk slot) pid)
    (hun : k.table.lookup pid = none) (hle : k.nextPid ≤ n) (hlt : pid < n)
    (hrs : ∀ c', c' ≠ c → (k.task c').duty.reserved ≠ some pid) (hcr : (k.task c).duty.carries = none)
    {b : Option (Nat × Nat)} (hb : ∀ s q, b = some (s, q) → s = slot ∧ q = pid)
    (hw : (k.task c).duty.woken = false)
    (ht : t.duty = { (k.task c).duty with carries := some pid, reserved := none, builds := b }) :
    Inv ({ k with procs := p, nextPid := n }.goto c t) := by
  obtain ⟨⟨i, t'⟩, htb, hp⟩ := Option.map_eq_some_iff.mp hin
  obtain ⟨rfl, rfl⟩ : i = slot ∧ { table := t', owner := Function.update k.procs.owner i none } = p := Prod.mk.inj hp
  obtain ⟨hf, hg⟩ := insert_spec htb
  generalize hk' : State.goto _ _ _ = k'
  have hg' : ∀ j, k'.table.get j = if j = i then some (mk i) else k.table.get j := by rw [← hk']; exact hg
  have hts : (k'.task c).duty = t.duty := by rw [← hk', goto_self]
  have ho : ∀ c', c' ≠ c → k'.task c' = k.task c' := fun c' hc => by
    rw [← hk']; exact goto_of_ne _ _ hc
  have hpi := hn.pid
  have htc : Touches k k' c [pid] [i] := by
    constructor
    case others => intro c' hc; rw [ho c' hc]
    case mine =>
      intro q s hq hs
      have hq' : pid ≠ q := by simpa using Ne.symm (by simpa using hq)
      simp [hts, ht, Duty.about, hcr, hq']
    case rows => intro j hj; rw [hg', if_neg (by simpa using hj)]
    case owner =>
      intro j hj
      rw [← hk']
      exact Function.update_of_ne (by simpa using hj) _ _
    case queue => intro q _; rw [← hk']; rfl
    case registry => intro q _; rw [← hk']; rfl
    case log => intro q _; rw [← hk']; rfl
    case nextPid => rw [← hk']; exact hle
    case at_old =>
      intro j r hr hj
      obtain rfl : j = i := by simpa using hj
      rw [hf] at hr; cases hr
    case at_new =>
      intro j r hr hj
      obtain rfl : j = i := by simpa using hj
      rw [hg', if_pos rfl] at hr
      cases hr
      simp [hpi]
  have hgn := h.gone hun
  obtain ⟨-, hy, hfl, hqu, hrg, hl⟩ := hgn
  refine h.step_rule htc ?_ ?_ (fun c' hc => htc.sound (h.sound c') ?_ ?_) ?_ ?_ ?_ ?_
  · intro q hq hu
    obtain rfl : q = pid := by simpa using hq
    have hrw : k'.table.get i = some (mk i) := by rw [hg', if_pos rfl]
    refine ⟨some (.carried c false), .here _ (mk i) (hpi ▸ hu.lookup_of_get hrw) ?_ (fun c' => ?_)
      ?_ ?_ ?_⟩
    · rw [hm, ← hk']
      refine ⟨hn.state, ?_, ?_, ?_, trivial⟩
      · exact Function.update_self ..
      · simp [hn.latch, place]
      · simp [hn.target, place]
    · rw [hm]
      have hnt := h.not_claims_free hf c'
      simp only [Duty.claims, not_or, not_exists] at hnt
      obtain ⟨h₁, h₂, h₃, -⟩ := hnt
      have h₃' : (k.task c').duty.serves.any (·.1 == i) = false := by
        cases hs : (k.task c').duty.serves with
        | none => rfl
        | some x =>
          obtain ⟨s, p⟩ := x
          have : s ≠ i := fun he => h₃ p (by rw [hs, he])
          simpa using this
      have h₄ := List.count_eq_zero.mpr (hfl c')
      by_cases hc : c' = c
      · subst hc
        simp [hts, ht, Duty.about, expects, owner, place, h₁, h₂, h₃', h₄, hw]
      · rw [ho c' hc]
        have h₅ := hy c'
        simp [Duty.about, expects, owner, place, h₁, h₂, h₃', h₄, h₅, Ne.symm hc]
    · rw [← hk']
      exact List.count_eq_zero.mpr hqu
    · rw [← hk']
      exact List.count_eq_zero.mpr hrg
    · rw [← hk']
      exact hl
  · have hs := h.sound c
    let d : Duty := { (k.task c).duty with carries := some pid, reserved := none, builds := none }
    have hd : d.Sound k.table k.nextPid := ⟨(by intros; contradiction), hs.owns, hs.leaves, hs.serves, (by intros; contradiction)⟩
    have hd' : d.Sound k'.table k'.nextPid := by
      refine htc.sound hd (by rintro _ _ ⟨⟩) fun s hs hcl => ?_
      obtain rfl : s = i := by simpa using hs
      rcases hcl with hc | hc | hc | ⟨_, hc⟩
      · exact absurd (.inl hc) (h.not_claims_free hf c)
      · exact absurd (.inr (.inl hc)) (h.not_claims_free hf c)
      · exact absurd (.inr (.inr (.inl hc))) (h.not_claims_free hf c)
      · cases hc
    rw [hts, ht]
    refine ⟨(by intros; contradiction), hd'.owns, hd'.leaves, hd'.serves, fun s q hsq => ?_⟩
    obtain ⟨rfl, rfl⟩ := hb s q hsq
    exact ⟨rfl, _, by rw [hg', if_pos rfl], hpi⟩
  · simpa using hrs c' hc
  · intro s hs hcl
    obtain rfl : s = i := by simpa using hs
    exact absurd hcl (h.not_claims_free hf c')
  · simp [hts, ht]
  · intro j hj j' r r' hr hr' hpd
    obtain rfl : j = i := by simpa using hj
    by_contra hne
    rw [hg', if_pos rfl] at hr
    rw [hg', if_neg (Ne.symm hne)] at hr'
    cases hr
    exact lookup_eq_none hun hr' (hpd.symm.trans hpi)
  · intro q hq
    obtain rfl : q = pid := by simpa using hq
    rw [← hk']
    exact hlt
  · intro s hs hno
    obtain rfl : s = i := by simpa using hs
    rw [hg', if_pos rfl] at hno
    cases hno

/-! ## Reserving a pid -/

lemma Inv.bump (h : Inv k) (hn : k.nextPid ≤ n) : Inv { k with nextPid := n } := by
  refine h.stutter (c := 0) (fun _ _ => rfl) (fun _ _ => rfl) (fun _ => rfl) rfl rfl rfl (fun _ => rfl) hn ?_ ?_
  · exact (h.sound 0).of_kept hn (fun _ _ r hr => ⟨r, hr, rfl, rfl, fun hz => ⟨hz, rfl⟩⟩)
      fun pid hp => ((h.sound 0).reserved pid hp).2
  · intro pid c' hc hp hp'
    exact hc (h.reserved_inj hp' hp)

lemma Inv.reserve (h : Inv k) (hd : (k.task c).duty = { owns := some slot }) (hn : k.nextPid < n)
    (ht : t.duty = { owns := some slot, reserved := some k.nextPid }) :
    Inv ({ k with nextPid := n }.goto c t) := by
  refine h.stutter (c := c) (fun c' hc => by rw [goto_of_ne _ _ hc]) (fun _ _ => ?_)
    (fun _ => rfl) rfl rfl rfl (fun _ => rfl) (le_of_lt hn) ?_ ?_
  · rw [goto_self, ht, hd]; rfl
  · rw [goto_self, ht]
    have hs := h.sound c
    rw [hd] at hs
    refine ⟨?_, hs.owns, nofun, nofun, nofun⟩
    rintro pid ⟨⟩
    exact ⟨hn, h.lookup_nextPid⟩
  · intro pid c' _ hp
    rw [goto_self, ht] at hp
    cases hp
    exact h.nextPid_not_reserved c'

lemma Inv.unreserve (h : Inv k) (hd : (k.task c).duty = { owns := some slot, reserved := some pid })
    (ht : t.duty = { owns := some slot }) : Inv (k.goto c t) := by
  refine h.stutter (c := c) (fun c' hc => by rw [goto_of_ne _ _ hc]) (fun _ _ => ?_)
    (fun _ => rfl) rfl rfl rfl (fun _ => rfl) (le_refl _) ?_ ?_
  · rw [goto_self, ht, hd]; rfl
  · rw [goto_self, ht]
    have hs := h.sound c
    rw [hd] at hs
    exact ⟨nofun, hs.owns, nofun, nofun, nofun⟩
  · rw [goto_self, ht]
    exact nofun

/-! ## System calls -/

lemma spawn_safe (h : Inv k) (hd : (k.task c).duty = back.duty) (kind : SpawnKind) : (spawn k c kind back).Safe := by
  unfold spawn
  split
  · exact .inl rfl
  next pid n ha =>
    obtain ⟨rfl, hlt⟩ := allocPid_spec ha
    split
    · exact h.bump (le_of_lt hlt)
    next slot p hin =>
      have hn : NewRecord (ProcessRecord.spawned k.nextPid slot) k.nextPid := ⟨rfl, rfl, rfl, rfl⟩
      refine h.insert (b := if kind = .kernelFn then none else some (slot, k.nextPid)) hin
        hn h.lookup_nextPid (le_of_lt hlt) hlt
        (fun c' _ => h.nextPid_not_reserved c') (by simp [hd]) ?_ (by simp [hd]) ?_
      · intro s q hb
        cases kind with
        | kernelFn => cases hb
        | bootfs | image =>
          cases hb
          exact ⟨rfl, rfl⟩
      · rw [hd]
        cases kind <;> cases back <;> rfl

lemma fork_safe (h : Inv k) (ht : k.task c = .user slot) (clones : Bool) : (fork k c slot clones).Safe := by
  unfold fork
  split
  · exact h
  next parent hg =>
    split
    · exact .inl rfl
    next pid n ha =>
      obtain ⟨rfl, hlt⟩ := allocPid_spec ha
      split
      · exact h.reserve (ht ▸ rfl) hlt rfl
      · split
        · exact (h.reserve (t := .forkInsert slot parent k.nextPid (some k.spaces.length))
            (ht ▸ rfl) hlt rfl).congr rfl rfl rfl rfl (fun _ => rfl) fun _ => rfl
        · exact h.bump (le_of_lt hlt)

lemma forkInsert_safe (h : Inv k) (ht : k.task c = .forkInsert slot parent pid space) : (go k c ok).Safe := by
  have hr : (k.task c).duty.reserved = some pid := by rw [ht]; rfl
  obtain ⟨hlt, hu⟩ := (h.sound c).reserved pid hr
  simp only [go, ht]
  split
  · exact h.unreserve (by rw [ht]; rfl) rfl
  next s p hn =>
    have := h.insert (b := none) (t := .enqueueing pid (.user slot)) hn ⟨rfl, rfl, rfl, rfl⟩ hu
      (le_refl _) hlt (fun c' hc hr' => hc (h.reserved_inj hr' hr)) (ht ▸ rfl) (by intros; contradiction)
      (ht ▸ rfl) (ht ▸ rfl)
    refine this.congr ?_ ?_ ?_ ?_ (fun p => ?_) fun c' => ?_ <;> cases space <;> rfl

lemma threadInsert_safe (h : Inv k) (ht : k.task c = .threadInsert slot parent pid) : (go k c ok).Safe := by
  have hr : (k.task c).duty.reserved = some pid := by rw [ht]; rfl
  obtain ⟨hlt, hu⟩ := (h.sound c).reserved pid hr
  simp only [go, ht]
  split
  · exact h.unreserve (by rw [ht]; rfl) rfl
  next s p hn =>
    exact h.insert (b := none) hn ⟨rfl, rfl, rfl, rfl⟩ hu
      (le_refl _) hlt (fun c' hc hr' => hc (h.reserved_inj hr' hr)) (ht ▸ rfl) (by intros; contradiction)
      (ht ▸ rfl) (ht ▸ rfl)

lemma threadCheck_safe (h : Inv k) (ht : k.task c = .threadCheck slot parent) : (go k c ok).Safe := by
  simp only [go, ht]
  split
  · exact h.goto (ht ▸ rfl)
  · split
    · split
      · exact .inl rfl
      next pid n ha =>
        obtain ⟨rfl, hlt⟩ := allocPid_spec ha
        exact h.reserve (ht ▸ rfl) hlt rfl
    · exact h.goto (ht ▸ rfl)

/-! ## Images and address spaces -/

lemma core_modify {t : ProcessTable} {f : ProcessRecord → ProcessRecord}
    {hf : ∀ r, (f r).slot = r.slot} (h : ∀ r, t.get slot = some r → core (f r) = core r) (i : Nat) :
    ((t.modify slot f hf).get i).map core = (t.get i).map core := by
  rw [get_modify]
  split
  next heq =>
    subst heq
    cases hr : t.get i with
    | none => rfl
    | some r => exact congrArg some (h r hr)
  · rfl

lemma Inv.recore (h : Inv k) (hr : ∀ i, (t'.get i).map core = (k.table.get i).map core)
    (ht : t.duty = { (k.task c).duty with builds := none }) : Inv ((k.setTable t').goto c t) := by
  refine h.stutter (c := c) (fun c' hc => by rw [goto_of_ne _ _ hc]; rfl) (fun _ _ => ?_)
    hr rfl rfl rfl (fun _ => rfl) (le_refl _) ?_ ?_
  · rw [goto_self, ht]; rfl
  · rw [goto_self, ht]
    have hs := h.sound c
    exact ⟨hs.reserved, hs.owns, hs.leaves, hs.serves, nofun⟩
  · rw [goto_self, ht]
    intro pid c' hc hp hp'
    exact hc (h.reserved_inj hp' hp)

lemma spawnBuild_safe (h : Inv k) {parent : Option Nat} (ht : k.task c = .spawnBuild slot pid parent back) :
    (go k c ok).Safe := by
  simp only [go, ht]
  split
  · have hrw : ∀ i, ((k.table.configureUserProcess slot k.spaces.length).get i).map core
        = (k.table.get i).map core := core_modify fun _ _ => rfl
    exact (h.recore (t := .spawnParent pid parent back) hrw (by rw [ht]; cases back <;> rfl)).congr
      rfl rfl rfl rfl (fun _ => rfl) fun _ => rfl
  · -- the record stays behind, runnable and in no queue
    have hφ : Agrees k pid (some (.carried c (k.task c).duty.woken)) := h.of_carries (ht ▸ rfl)
    have hw : (k.task c).duty.woken = false := by rw [ht]; simp [Task.duty]
    rw [hw] at hφ
    obtain ⟨r, -, hg, rfl, hf, hd, hn, hr, hl⟩ := hφ.elim
    have ha := hd c
    have hm : Moves k (k.goto c back.task) c r.slot r r (.carried c false) .loose := by
      refine .of_queues hg hφ ⟨hf.state, hf.owner_eq, hf.latch, hf.target, trivial⟩
        ?_ ?_ ?_ (fun _ _ => rfl) (by simpa using hn) (fun _ _ => rfl) (hr.trans rfl)
        (fun _ _ => rfl) hl
      · intro p s hp hs
        rw [Back.task_duty, ht]
        simp [Task.duty, Duty.about, hp.symm]
      · simp only [ht, Task.duty, Duty.about, expects, owner, About.mk.injEq] at ha
        simp [Duty.about, expects, owner, place, ha]
      · intro c' hc; simp [expects, owner, place, hc.symm]
    refine hm.inv h (fun c' hc => by simp [cpu, hc.symm]) ?_ (by simp)
    rw [goto_self, Back.task_duty]
    have hb : ∀ s, back.duty.owns = some s → ∃ r, k.table.get s = some r := by
      intro s hs
      obtain ⟨q, hq, -⟩ := (h.sound c).owns s (by rw [ht]; exact hs)
      exact ⟨q, hq⟩
    have hsn := Duty.Sound.back (n := k.nextPid) hb none false []
    cases back <;> exact hsn

lemma spawnParent_safe (h : Inv k) {parent : Option Nat} (ht : k.task c = .spawnParent pid parent back) :
    (go k c ok).Safe := by
  have hφ : Agrees k pid (some (.carried c (k.task c).duty.woken)) := h.of_carries (ht ▸ rfl)
  obtain ⟨r, hc, hg, -, hf, -⟩ := hφ.elim
  simp only [go, ht]
  cases parent with
  | none => exact h.goto (ht ▸ rfl)
  | some parent =>
    have hs : k.table.setParent pid (some parent)
        = k.table.modify r.slot fun r => { r with parent := some parent, adopted := false } := by
      rw [setParent, hc]
    simp only [hs, Outcome.safe_next]
    refine h.recore (core_modify fun r' hr' => ?_) (by rw [ht]; cases back <;> rfl)
    obtain rfl := Option.mem_unique hg hr'
    simp [core, hf.state, state]

lemma execRebind_safe (h : Inv k) (ht : k.task c = .execRebind slot space) : (go k c ok).Safe := by
  simp only [go, ht, rebindAddressSpace]
  cases hg : k.table.get slot with
  | none => exact (h.goto (t := .user slot) (ht ▸ rfl)).congr rfl rfl rfl rfl (fun _ => rfl) fun _ => rfl
  | some r =>
    have hr : ∀ i, ((k.table.modify slot fun r => { r with addrSpace := some space }).get i).map
        core = (k.table.get i).map core := core_modify fun _ _ => rfl
    exact (h.recore (t := .execActivate slot space r.addrSpace) hr (ht ▸ rfl)).congr
      rfl rfl rfl rfl (fun _ => rfl) fun _ => rfl

end ZeroOS.Kernel
