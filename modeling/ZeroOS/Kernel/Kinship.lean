import ZeroOS.Kernel.Family

/-!
# What the paths of the machine do to the family

Dispatching, blocking and waking leave the family alone; creation and `Exec` change it as
`LifeStep` says.
-/

namespace ZeroOS.Kernel

open Function Option ZeroOS.Process ZeroOS.Scheduler ProcessTable State Life Nat

variable {k k' : State} {c slot : Nat} {a : Act} {f : ProcessRecord → ProcessRecord} {r parent : ProcessRecord}
  {t : Task} {pid : Nat} {back : Back} {ok : Bool} {space : Option Nat}

def Outcome.Lives (k : State) (c : Nat) (a : Act) : Outcome → Prop
  | some (.ok k') => LifeStep k c a k'.family
  | _ => True

/-! ## Families of changed states -/

lemma Family.ext' {f g : Family} (hr : ∀ i, f.row i = g.row i)
    (hh : ∀ c, f.hand c = g.hand c) (hg : f.group = g.group) (ht : f.ttbr = g.ttbr) (ha : f.attached = g.attached)
    (hgr : f.graves = g.graves) (hn : f.next = g.next) : f = g := by
  cases f; cases g
  simp_all [funext_iff]

lemma hand_update (task : Nat → Task) (c : Nat) (t : Task) (c' : Nat) :
    (update task c t c').hand = update (fun c => (task c).hand) c t.hand c' := by
  by_cases h : c' = c
  · subst h; simp
  · simp [h]

lemma rows_modify {t : ProcessTable} (hf : ∀ r, (f r).slot = r.slot)
    (hl : ∀ r, t.get slot = some r → Life.of (f r) = Life.of r) (i : Nat) :
    ((t.modify slot f hf).get i).map Life.of = (t.get i).map Life.of := by
  rw [get_modify]
  split
  · subst i
    cases hr : t.get slot with
    | none => rfl
    | some r => simp [hl r hr]
  · rfl

lemma rows_settle {p : Procs} (hr : p.table.get slot = some r) (hl : r.state ≠ .zombie) (hs : st ≠ .zombie) (i : Nat) :
    ((p.settle slot st o).table.get i).map Life.of = (p.table.get i).map Life.of := by
  refine rows_modify (f := (·.settle st)) (fun _ => rfl) (fun r' hr' => ?_) i
  obtain rfl := mem_unique hr hr'
  simp [of, ProcessRecord.settle, hl, hs]

lemma LifeStep.idle (hw : ∀ i, (k'.table.get i).map Life.of = (k.table.get i).map Life.of)
    (hts : k'.task = update k.task c t) (hfrom : (k.task c).hand.reaped = none)
    (hd : (k.task c).hand.doomed = []) (ho : t.hand = { runs := t.hand.runs })
    (hr : t.hand.runs = none ∨ t.hand.runs = (k.task c).hand.runs)
    (hst : k'.spaces = k.spaces ∧ k'.ttbr = k.ttbr ∧ attachedIn k'.log = attachedIn k.log ∧ gravesIn k'.log = gravesIn k.log ∧ k.nextPid ≤ k'.nextPid)
    : LifeStep k c a k'.family := by
  obtain ⟨hs, ht, ha, hg, hn⟩ := hst
  have h := LifeStep.rest (a := a) (k := k) (o := t.hand.runs) hfrom hd hr hn
  rwa [show k'.family = { k.family.take c { runs := t.hand.runs } with next := k'.nextPid } from ?_]
  refine Family.ext' hw (fun c' => ?_) hs ht ha hg rfl
  simp only [family, hts, hand_update, Family.take, ← ho]

/-! ## Hands and duties -/

lemma Task.owns_of_runs (h : t.hand.runs = some slot) : t.duty.owns = some slot := by
  cases t with
  | waking _ back | wakePush _ _ _ back | enqueueing _ back | spawnBuild _ _ _ back
  | spawnParent _ _ back => cases back <;> simp_all [Task.hand, Task.duty, Back.runs, Back.duty]
  | _ => simp_all [Task.hand, Task.duty]

lemma Task.hand_builds (t : Task) : t.hand.builds = t.duty.builds := by
  cases t with
  | waking _ back | wakePush _ _ _ back | enqueueing _ back | spawnBuild _ _ _ back
  | spawnParent _ _ back => cases back <;> rfl
  | zombieDestroy _ _ wake _ => cases wake <;> rfl
  | _ => rfl

lemma Task.hand_reserved (t : Task) : t.hand.reserved = t.duty.reserved := by
  cases t with
  | waking _ back | wakePush _ _ _ back | enqueueing _ back | spawnBuild _ _ _ back
  | spawnParent _ _ back => cases back <;> rfl
  | zombieDestroy _ _ wake _ => cases wake <;> rfl
  | _ => rfl

@[simp] lemma Back.hand_task (back : Back) : back.task.hand = { runs := back.runs } := by
  cases back <;> rfl

lemma Inv.row_of_owns (h : Inv k) (ht : k.task c = t) (hd : t.duty.owns = some s) :
    ∃ r ψ, k.table.get s = some r ∧ r.state = .running ∧ k.family.row s = some (Life.of r) ∧ (Life.of r).zombie = false ∧
      Agrees k r.pid (some ψ) ∧ ψ.cpu = some c := by
  obtain ⟨r, hr, -, hs, hrun, hpr⟩ := h.of_owns ht hd
  have hw : k.family.row s = some (Life.of r) := by simp [family, hr]
  have hz : (Life.of r).zombie = false := by simp [of, hs]
  cases hp : t.duty.parks with
  | false => exact ⟨r, _, hr, hs, hw, hz, hrun hp, rfl⟩
  | true =>
    obtain ⟨p, hφ⟩ := hpr hp
    exact ⟨r, _, hr, hs, hw, hz, hφ, rfl⟩

lemma Inv.not_others (h : Inv k) (hr : k.table.get slot = some r) (hφ : Agrees k r.pid (some ψ))
    (hc : ψ.cpu = some c) (hne : c' ≠ c) :
    (k.family.hand c').runs ≠ some slot ∧ ∀ p, (k.family.hand c').builds ≠ some (slot, p) := by
  have hn : ¬(k.task c').duty.claims slot := h.not_claims hr hφ (by simp [hc, Ne.symm hne])
  refine ⟨fun hrn => hn (.inl (Task.owns_of_runs hrn)), fun p hb => hn ?_⟩
  exact .inr (.inr (.inr ⟨p, (Task.hand_builds _).symm.trans hb⟩))

lemma Inv.runBy (h : Inv k) (hrn : (k.task c).hand.runs = some slot)
    (hl : (k.task c).hand.builds = none) : k.family.RunBy c slot := by
  obtain ⟨r, ψ, hr, -, -, -, hφ, hc⟩ := h.row_of_owns rfl (Task.owns_of_runs hrn)
  refine ⟨hrn, fun c' => ?_⟩
  by_cases hne : c' = c
  · subst hne
    exact ⟨fun _ => rfl, fun p hb => nomatch hl.symm.trans hb⟩
  · have hn := h.not_others hr hφ hc hne
    exact ⟨fun hrn' => absurd hrn' hn.1, hn.2⟩

lemma Inv.unused (h : Inv k) (hr : k.table.get slot = some r) (hφ : Agrees k r.pid (some (.leaving c)))
    (hh : (k.task c).hand = {}) :
    k.family.Unused slot := by
  intro c'
  by_cases hne : c' = c
  · subst hne
    rw [show k.family.hand c' = {} from hh]
    exact ⟨nofun, nofun⟩
  · exact h.not_others hr hφ rfl hne

/-! ## Dispatching, blocking, waking -/

lemma family_goto (t : Task) : (k.goto c t).family = k.family.take c t.hand := by
  refine Family.ext' (fun _ => rfl) (fun c' => ?_) rfl rfl rfl rfl rfl
  simp only [family, goto, hand_update, Family.take]

section

variable (hfrom : (k.task c).hand = { runs := (k.task c).hand.runs })
include hfrom

lemma goto_lives (ht : t.hand = { runs := t.hand.runs }) (hr : t.hand.runs = none ∨ t.hand.runs = (k.task c).hand.runs) :
    LifeStep k c a (k.goto c t).family :=
  .idle (fun _ => rfl) rfl (by rw [hfrom]) (by rw [hfrom]) ht hr
  ⟨rfl, rfl, rfl, rfl, le_refl _⟩

lemma enqueue_lives (ht : t.hand = { runs := t.hand.runs }) (hr : t.hand.runs = none ∨ t.hand.runs = (k.task c).hand.runs) :
    (enqueue k c pid t).Lives k c a := by
  unfold enqueue
  split
  · trivial
  · exact .idle (fun _ => rfl) rfl (by rw [hfrom]) (by rw [hfrom]) ht hr
      ⟨rfl, rfl, rfl, rfl, le_refl _⟩

lemma detachCurrent_lives (ht : t.hand = { runs := t.hand.runs })
    (hr : t.hand.runs = none ∨ t.hand.runs = (k.task c).hand.runs) :
    (detachCurrent k c slot t).Lives k c a := by
  unfold detachCurrent
  split
  · exact .idle (fun _ => rfl) rfl (by rw [hfrom]) (by rw [hfrom]) ht hr
      ⟨rfl, rfl, rfl, rfl, le_refl _⟩
  · trivial

end

lemma logs_consumed (pids : List Nat) (log : List Obs) :
    attachedIn (pids.map Obs.consumed ++ log) = attachedIn log ∧ gravesIn (pids.map Obs.consumed ++ log) = gravesIn log := by
  induction pids with
  | nil => exact ⟨rfl, rfl⟩
  | cons p pids ih => exact ih

lemma consume_lives (hfrom : (k.task c).hand = { runs := back.runs }) : (consume k c mask back).Lives k c a := by
  unfold consume
  refine .idle (t := .waking ((splitMask k.waiters mask).1.map (·.pid)) back)
    (fun _ => rfl) rfl (by rw [hfrom]) (by rw [hfrom]) rfl (.inr (by rw [hfrom]; rfl))
    ⟨rfl, rfl, ?_, ?_, le_refl _⟩
  · exact (logs_consumed _ _).1
  · exact (logs_consumed _ _).2

lemma claim_lives (ht : k.task c = .dispatching pid) : (go k c ok).Lives k c a := by
  simp only [go, ht]
  split
  · trivial
  next slot procs hc =>
    obtain ⟨r, hr, -, hs, -, rfl⟩ := Procs.claimRunnable_some hc
    exact .idle (rows_settle hr (by simp [hs]) (by simp)) rfl (ht ▸ rfl) (ht ▸ rfl) rfl
      (.inl rfl) ⟨rfl, rfl, rfl, rfl, le_refl _⟩
  · exact goto_lives (ht ▸ rfl) rfl (.inl rfl)

lemma addressSpace_carried {t : ProcessTable} {space : Nat} (hr : t.get slot = some r)
    (h : t.addressSpace slot = some space) :
    ∃ j q, t.get j = some q ∧ q.tgid = r.tgid ∧ q.addrSpace = some space := by
  simp only [addressSpace, hr] at h
  split at h
  next ho => exact ⟨slot, r, hr, rfl, ho.trans h⟩
  · split at h
    · cases h
    · obtain ⟨q, hq, hs⟩ := List.exists_of_findSome?_eq_some h
      obtain ⟨j, hj⟩ := mem_records.mp hq
      split at hs
      · exact ⟨j, q, hj, ‹_›, hs⟩
      · cases hs

lemma activating_lives (h : Inv k) (ht : k.task c = .activating slot) : (go k c ok).Lives k c a := by
  simp only [go, ht]
  obtain ⟨r, -, hr, -, hw, hz, -⟩ := h.row_of_owns ht rfl
  have hst := LifeStep.load (k := k) (c := c) (a := a) (q := k.table.addressSpace slot)
    (show k.family.hand c = {} by simp [family, ht, Task.hand]) hw hz fun σ hσ => by
      obtain ⟨j, q, hj, hg, hs⟩ := addressSpace_carried hr hσ
      exact ⟨j, of q, by simp [family, hj], hg, hs⟩
  change LifeStep k c a (State.goto _ c (.user slot)).family
  rw [family_goto]
  exact hst

lemma blockFinish_lives (h : Inv k) (ht : k.task c = .blockFinish slot) : (go k c ok).Lives k c a := by
  obtain ⟨r, -, hr, hs, -⟩ := h.row_of_owns ht rfl
  simp only [go, ht, Procs.finishBlock, show k.procs.table.get slot = some r from hr]
  have hl : r.state ≠ .zombie := by simp [hs]
  by_cases hn : r.state ≠ .running ∨ r.blockIntent = false
  · simp only [hn, if_true]; trivial
  by_cases ho : k.procs.owner slot ≠ some c
  · simp only [hn, ho, if_true, if_false, ne_eq, not_false_eq_true]; trivial
  · simp only [hn, ho, if_false]
    cases r.wakePending with
    | true | false =>
      exact .idle (rows_settle hr hl (by simp)) rfl (ht ▸ rfl) (ht ▸ rfl) rfl
        (.inl rfl) ⟨rfl, rfl, rfl, rfl, le_refl _⟩

lemma yieldRelease_lives (h : Inv k) (ht : k.task c = .yieldRelease slot) : (go k c ok).Lives k c a := by
  obtain ⟨r, hr, ho, hs, -⟩ := h.of_owns ht rfl
  simp only [go, ht, Procs.releaseRunning_owned hr hs ho]
  exact .idle (rows_settle hr (by simp [hs]) (by simp)) rfl (ht ▸ rfl) (ht ▸ rfl) rfl
    (.inl rfl) ⟨rfl, rfl, rfl, rfl, le_refl _⟩

lemma registered_lives (h : Inv k) (ht : k.task c = .registered slot) : (go k c ok).Lives k c a := by
  obtain ⟨r, hr, ho, hs, -⟩ := h.of_owns ht rfl
  simp only [go, ht, Procs.beginBlock_owned hr hs ho]
  exact .idle (rows_modify (f := fun r => { r with blockIntent := true }) (fun _ => rfl)
    fun _ _ => rfl) rfl (ht ▸ rfl) (ht ▸ rfl) rfl (.inr (ht ▸ rfl))
    ⟨rfl, rfl, rfl, rfl, le_refl _⟩

lemma waking_lives (ht : k.task c = .waking (pid :: pids) back) : (go k c ok).Lives k c a := by
  simp only [go, ht]
  cases hw : k.procs.requestWake pid with
  | error => trivial
  | ok res =>
    obtain ⟨w, procs⟩ := res
    obtain ⟨r, hr, -, hs, -, rfl, rfl⟩ | ⟨r, -, -, -, rfl, rfl⟩ | ⟨rfl, rfl, -⟩ := Procs.requestWake_cases hw
    · refine .idle (t := .wakePush pid r.slot pids back)
        (rows_modify (f := (·.settle .runnable)) (fun _ => rfl) fun r' hr' => ?_) rfl
        (ht ▸ rfl) (ht ▸ rfl) rfl (.inr (ht ▸ rfl))
        ⟨rfl, rfl, rfl, rfl, le_refl _⟩
      obtain rfl := mem_unique hr hr'
      simp [of, ProcessRecord.settle, hs]
    · exact .idle (t := .waking pids back)
        (rows_modify (f := fun r => { r with wakePending := true }) (fun _ => rfl) fun _ _ => rfl)
        rfl (ht ▸ rfl) (ht ▸ rfl) rfl (.inr (ht ▸ rfl))
        ⟨rfl, rfl, rfl, rfl, le_refl _⟩
    · exact .idle (t := .waking pids back) (fun _ => rfl) rfl (ht ▸ rfl) (ht ▸ rfl)
        rfl (.inr (ht ▸ rfl)) ⟨rfl, rfl, rfl, rfl, le_refl _⟩

lemma exitRelease_lives (h : Inv k) (ht : k.task c = .exitRelease slot status) : (go k c ok).Lives k c a := by
  obtain ⟨r, hr, ho, hs, -⟩ := h.of_owns ht rfl
  simp only [go, ht, Procs.releaseOwnerForExit_owned hr hs ho]
  cases status <;>
    exact goto_lives (ht ▸ rfl) rfl (.inl rfl)

/-! ## Creation -/

lemma LifeStep.goto {f : Family} (hf : k'.family = f) (h : LifeStep k c a (f.take c t.hand)) :
    LifeStep k c a (k'.goto c t).family := by
  rwa [family_goto, hf]

lemma hand_eq (ht : k.task c = t) : k.family.hand c = t.hand := by
  rw [← ht]; rfl

lemma stay_lives (hfrom : (k.task c).hand = { runs := (k.task c).hand.runs })
    (hr : k'.table = k.table) (hts : k'.task = k.task) (hs : k'.spaces = k.spaces)
    (ht : k'.ttbr = k.ttbr) (hl : k'.log = k.log) (hn : k.nextPid ≤ k'.nextPid) :
    LifeStep k c a k'.family :=
  .idle (t := k.task c) (fun i => by rw [hr]) (by rw [hts, update_eq_self]) (by rw [hfrom])
    (by rw [hfrom]) hfrom (.inr rfl) ⟨hs, ht, by rw [hl], by rw [hl], hn⟩

lemma family_insert {p : Procs} {mk : Nat → ProcessRecord} {hm : ∀ i, (mk i).slot = i}
    (hn : k.procs.insert mk hm = some (slot, p)) :
    k.family.row slot = none ∧ ({ k with procs := p } : State).family = k.family.put slot (some (Life.of (mk slot))) := by
  obtain ⟨⟨i, t⟩, ht, heq⟩ := map_eq_some_iff.mp hn
  obtain ⟨rfl, rfl⟩ := Prod.mk.inj heq
  obtain ⟨hf, hg⟩ := insert_spec ht
  refine ⟨by simp [family, hf], ?_⟩
  refine Family.ext' (fun j => ?_) (fun _ => rfl) rfl rfl rfl rfl rfl
  simp only [family, hg, Family.put]
  by_cases hj : j = i
  · subst hj; simp
  · simp [hj]

lemma family_modify {hf : ∀ r, (f r).slot = r.slot} (hr : k.table.get slot = some r) :
    (k.setTable (k.table.modify slot f hf)).family = k.family.put slot (some (Life.of (f r))) := by
  refine Family.ext' (fun j => ?_) (fun _ => rfl) rfl rfl rfl rfl rfl
  change ((k.table.modify slot f hf).get j).map Life.of = update k.family.row slot _ j
  rw [get_modify]
  by_cases hj : j = slot
  · subst hj; simp [hr]
  · simp [hj, family]

lemma spawn_lives (h : Inv k) (ht : k.task c = back.task) : (spawn k c kind back).Lives k c a := by
  have hh : k.family.hand c = { runs := back.runs } := by rw [hand_eq ht, Back.hand_task]
  unfold spawn
  split
  · trivial
  next pid n ha =>
    obtain ⟨rfl, hn⟩ := allocPid_spec ha
    split
    · exact stay_lives (by rw [ht, Back.hand_task]) rfl rfl rfl rfl rfl (le_of_lt hn)
    next s procs hin =>
      obtain ⟨hf, hw⟩ := family_insert hin
      have hs {o b} := LifeStep.spawn (k := k) (c := c) (a := a) (o := o) (b := b) hh hf hn
      refine .goto (f := { k.family.put s (some (of (ProcessRecord.spawned k.nextPid s))) with
        next := n }) ?_ ?_
      · rw [← hw]; rfl
      cases kind with
      | kernelFn => exact hs nofun nofun
      | bootfs => exact hs nofun fun q hq => (some.inj hq).symm
      | image =>
        refine hs (fun o ho => ?_) fun q hq => (some.inj hq).symm
        cases back with
        | boot | sched => cases ho
        | user s' =>
          obtain ⟨r, -, hr, -, hl, hz, -⟩ := h.row_of_owns ht rfl
          simp only [hr, map_some, Option.some.injEq] at ho
          exact ⟨s', of r, rfl, hl, hz, ho.symm⟩

lemma fork_lives (h : Inv k) (ht : k.task c = .user slot) : (fork k c slot clones).Lives k c a := by
  obtain ⟨r, -, hr, -, hl, hz, -⟩ := h.row_of_owns ht rfl
  simp only [fork, hr]
  split
  · trivial
  next pid n ha =>
    obtain ⟨rfl, hn⟩ := allocPid_spec ha
    split
    · exact .goto rfl (.fork (hand_eq ht) hl hz hn)
    · split
      · exact .goto rfl (.forkClone (hand_eq ht) hl hz hn)
      · exact stay_lives (ht ▸ rfl) rfl rfl rfl rfl rfl (le_of_lt hn)

lemma spawnBuild_lives (h : Inv k) {parent : Option Nat} (ht : k.task c = .spawnBuild slot pid parent back) :
    (go k c ok).Lives k c a := by
  have hb : (k.task c).duty.builds = some (slot, pid) := by rw [ht]; rfl
  obtain ⟨hc, r, hr, hp⟩ := (h.sound c).builds slot pid hb
  simp only [go, ht]
  cases ok with
  | false =>
    exact .idle (fun _ => rfl) rfl (ht ▸ rfl) (ht ▸ rfl) (by simp)
      (.inr (by rw [ht, Back.hand_task]; rfl)) ⟨rfl, rfl, rfl, rfl, le_refl _⟩
  | true =>
    refine .goto (f :=
      { k.family.put slot (some { Life.of r with space := some k.spaces.length }) with
        group := k.spaces ++ [pid], attached := k.spaces.length :: k.family.attached }) ?_ ?_
    · rw [show k.family.put slot (some { of r with space := some k.spaces.length }) = _ from
        (family_modify (f := fun r => { r with addrSpace := some k.spaces.length }) hr).symm]
      rfl
    · refine .configure (hand_eq ht) (l := of r) (by simp [family, hr]) ?_
      intro c' hne
      have hφ := h.of_carries hc
      rw [← hp] at hφ
      exact (h.not_others hr hφ rfl hne).2

lemma spawnParent_lives (h : Inv k) {parent : Option Nat} (ht : k.task c = .spawnParent pid parent back) :
    (go k c ok).Lives k c a := by
  simp only [go, ht]
  cases parent with
  | none => exact goto_lives (ht ▸ rfl) rfl (.inr (ht ▸ rfl))
  | some p =>
    have hc : (k.task c).duty.carries = some pid := by rw [ht]; rfl
    obtain ⟨r, hl, hr, -⟩ := (h.of_carries hc).elim
    refine .goto (f := k.family.put r.slot (some { of r with parent := some p })) ?_ ?_
    · simp only [setParent, hl]
      exact family_modify (f := fun r => { r with parent := some p, adopted := false }) hr
    · exact .setParent (hand_eq ht) (by simp [family, hr])

lemma forkInsert_lives (ht : k.task c = .forkInsert slot parent pid space) : (go k c ok).Lives k c a := by
  simp only [go, ht]
  split
  · exact .idle (fun _ => rfl) rfl (ht ▸ rfl) (ht ▸ rfl) rfl
      (.inr (ht ▸ rfl)) ⟨rfl, rfl, rfl, rfl, le_refl _⟩
  next s procs hn =>
    obtain ⟨hf, hr⟩ := family_insert hn
    refine .goto (f := { k.family.put s (some (of (parent.forked pid space s))) with
      attached := space.toList ++ k.family.attached }) ?_ (.insertFork (hand_eq ht) hf)
    rw [← hr]
    cases space <;> rfl

lemma threadCheck_lives (ht : k.task c = .threadCheck slot parent) : (go k c ok).Lives k c a := by
  have hb : LifeStep k c a (k.goto c (.user slot)).family :=
    .idle (fun _ => rfl) rfl (ht ▸ rfl) (ht ▸ rfl) rfl (.inr (ht ▸ rfl))
    ⟨rfl, rfl, rfl, rfl, le_refl _⟩
  simp only [go, ht]
  split
  · exact hb
  · split
    · split
      · trivial
      next pid n ha =>
        obtain ⟨rfl, hn⟩ := allocPid_spec ha
        exact .goto rfl (.reserve (hand_eq ht) hn)
    · exact hb

lemma threadInsert_lives (h : Inv k) (ht : k.task c = .threadInsert slot parent pid) : (go k c ok).Lives k c a := by
  simp only [go, ht]
  split
  · exact .idle (fun _ => rfl) rfl (ht ▸ rfl) (ht ▸ rfl) rfl
      (.inr (ht ▸ rfl)) ⟨rfl, rfl, rfl, rfl, le_refl _⟩
  next s procs hn =>
    obtain ⟨hf, hr⟩ := family_insert hn
    refine .goto hr ?_
    exact .insertThread (hand_eq ht) rfl rfl (h.runBy (ht ▸ rfl) (ht ▸ rfl)) hf

/-! ## Exec -/

lemma exec_lives (h : Inv k) (ht : k.task c = .user slot) : (userStep k c slot .exec).Lives k c .exec := by
  simp only [userStep]
  split
  next ho =>
    obtain ⟨r, -, hr, -, hl, hz, -⟩ := h.row_of_owns ht rfl
    refine .goto rfl (.exec ht rfl hl hz ?_)
    simpa [ownsAddressSpace, hr, of, isSome_iff_ne_none] using ho
  · exact stay_lives (ht ▸ rfl) rfl rfl rfl rfl rfl (le_refl _)

lemma execBuild_lives (h : Inv k) (ht : k.task c = .execBuild slot) : (go k c ok).Lives k c a := by
  simp only [go, ht]
  cases ok with
  | false =>
    exact .idle (fun _ => rfl) rfl (ht ▸ rfl) (ht ▸ rfl) rfl (.inr (ht ▸ rfl))
      ⟨rfl, rfl, rfl, rfl, le_refl _⟩
  | true =>
    obtain ⟨r, -, hr, -, hl, -⟩ := h.row_of_owns ht rfl
    simp only [hr, map_some, getD_some, if_true]
    exact .goto rfl (.execBuilt (hand_eq ht) hl (h.runBy (ht ▸ rfl) (ht ▸ rfl)))

lemma execRebind_lives (h : Inv k) {space : Nat} (ht : k.task c = .execRebind slot space) : (go k c ok).Lives k c a := by
  obtain ⟨r, -, hr, -, hl, -⟩ := h.row_of_owns ht rfl
  simp only [go, ht, rebindAddressSpace, hr]
  refine .goto (f := { k.family.put slot (some { of r with space := some space }) with
    attached := space :: k.family.attached }) ?_ ?_
  · rw [show k.family.put slot (some { of r with space := some space }) = _ from
      (family_modify (f := fun r => { r with addrSpace := some space }) hr).symm]
    rfl
  · exact .rebind (hand_eq ht) hl (h.runBy (ht ▸ rfl) (ht ▸ rfl))

lemma destroy_lives (hp : (k.task c).hand.reaped = none) (hr : (k.task c).hand.runs = o)
    (hd : (k.task c).hand.doomed = space.toList) (ht : t.hand = { runs := o }) :
    LifeStep k c a ((k.noteDestroyed space).goto c t).family := by
  cases space with
  | none =>
    exact .idle (fun _ => rfl) rfl hp hd (by rw [ht]) (.inr (by rw [ht, hr]))
      ⟨rfl, rfl, rfl, rfl, le_refl _⟩
  | some σ =>
    refine .goto (f := { k.family with graves := σ :: k.family.graves }) rfl ?_
    have hs := LifeStep.destroy (k := k) (c := c) (a := a) (s := σ) (d := []) hp hd
    rwa [show (k.family.hand c).runs = o from hr, ← ht] at hs

end ZeroOS.Kernel
