import ZeroOS.Process.Table

/-!
# Creation, exit, reaping and waiting

The critical sections of `process.rs` that create records, move address spaces inside a thread
group, and take records out of the table. Each is a function from the table to the table and what
the section hands to the code that runs after the lock is released; what that code then does, and
what other CPUs may do in between, is the business of the kernel machine built on top.
-/

namespace ZeroOS.Process

open Option

/-! ## New records -/

namespace ProcessRecord

/-- The record `spawn` writes: a group of its own, no parent, no address space yet. -/
def spawned (pid slot : Nat) : ProcessRecord where
  pid := pid
  state := .runnable
  slot := slot
  addrSpace := none
  tgid := pid
  capabilities := 0
  blockIntent := false
  wakePending := false
  parent := none
  adopted := false
  exitCode := none
  waitTarget := none
  session := 0

/-- The record `fork` writes: a group of its own, child of `parent`. -/
def forked (parent : ProcessRecord) (pid : Nat) (space : Option Nat) (slot : Nat) :
    ProcessRecord where
  pid := pid
  state := .runnable
  slot := slot
  addrSpace := space
  tgid := pid
  capabilities := parent.capabilities
  blockIntent := false
  wakePending := false
  parent := some parent.pid
  adopted := false
  exitCode := none
  waitTarget := none
  session := parent.session

/-- The record `create_thread` writes: the creator's group, no address space of its own. -/
def thread (parent : ProcessRecord) (pid slot : Nat) : ProcessRecord where
  pid := pid
  state := .runnable
  slot := slot
  addrSpace := none
  tgid := parent.tgid
  capabilities := parent.capabilities
  blockIntent := false
  wakePending := false
  parent := some parent.pid
  adopted := false
  exitCode := none
  waitTarget := none
  session := parent.session

@[reducible] def zombify (status : Int) (r : ProcessRecord) : ProcessRecord :=
  { r with exitCode := some status, state := .zombie, addrSpace := none }

/-- The record of an exiting process that is put back for `full_reap`. -/
@[reducible] def retire (status : Int) (r : ProcessRecord) : ProcessRecord :=
  { r with exitCode := some status, addrSpace := none }

def view (r : ProcessRecord) (i : Nat) : ProcView := ⟨i, r.pid, r.parent, r.state, r.exitCode⟩

end ProcessRecord

namespace ProcessTable

variable {t t' : ProcessTable} {dying : Nat} {parentSlot : Option Nat} {wake : Option (Nat × Nat)}
  {me record : ProcessRecord} {casc : List ProcessRecord}

/-! ## Parents, address spaces -/

def setParent (t : ProcessTable) (pid : Nat) (parent : Option Nat) : ProcessTable :=
  match t.lookup pid with
  | some r => t.modify r.slot fun r => { r with parent := parent, adopted := false }
  | none => t

/-- `configure_user_process`: the new image's address space goes into the record. -/
def configureUserProcess (t : ProcessTable) (slot space : Nat) : ProcessTable :=
  t.modify slot fun r => { r with addrSpace := some space }

/-- `address_space`: the record's own, else the one its group carries. -/
def addressSpace (t : ProcessTable) (slot : Nat) : Option Nat :=
  match t.get slot with
  | none => none
  | some rec =>
    match rec.addrSpace with
    | some space => some space
    | none =>
      if rec.tgid = rec.pid then none
      else t.records.findSome? fun r => if r.tgid = rec.tgid then r.addrSpace else none

/-- `owns_address_space`: does the record at `slot` carry a space itself? -/
def ownsAddressSpace (t : ProcessTable) (slot : Nat) : Bool := (t.get slot).any (·.addrSpace.isSome)

/-- `rebind_address_space`: swap in the space of a new image and hand back the old one. `none` when
the record is gone. -/
def rebindAddressSpace (t : ProcessTable) (slot space : Nat) :
    Option (Option Nat × ProcessTable) :=
  match t.get slot with
  | some r => some (r.addrSpace, t.modify slot fun r => { r with addrSpace := some space })
  | none => none

/-- `group_survivor_index`: the first record of the group that is not the dying one, not `Dying`,
and carries no space. A `Zombie` qualifies. -/
def groupSurvivorIndex (t : ProcessTable) (tgid dying : Nat) : Option Nat := t.position fun r =>
    r.tgid == tgid && r.pid != dying && r.state != .dying && r.addrSpace.isNone

/-- `transfer_group_space_locked`: hand the space to the survivor, or give it back. -/
def transferGroupSpace (t : ProcessTable) (tgid dying space : Nat) : Option Nat × ProcessTable :=
  match t.groupSurvivorIndex tgid dying with
  | some idx => (none, t.modify idx fun r => { r with addrSpace := some space })
  | none => (some space, t)

/-- The transfer of the space a dying record carried, if it carried one. -/
def transferIfAny (t : ProcessTable) (tgid dying : Nat) (space : Option Nat) :
    Option Nat × ProcessTable :=
  match space with
  | some space => t.transferGroupSpace tgid dying space
  | none => (none, t)

lemma transferIfAny_cases (h : t.transferIfAny tgid dying space = (out, t')) :
    (out = space ∧ t' = t ∧ (space.isSome → t.groupSurvivorIndex tgid dying = none)) ∨
    ∃ sp idx r, space = some sp ∧ out = none ∧ t.groupSurvivorIndex tgid dying = some idx ∧
      t.get idx = some r ∧ r.tgid = tgid ∧ r.pid ≠ dying ∧ r.state ≠ .dying ∧
      r.addrSpace = none ∧ t' = t.modify idx fun r => { r with addrSpace := some sp } := by
  cases space with
  | none =>
    cases h
    exact .inl ⟨rfl, rfl, nofun⟩
  | some sp =>
    simp only [transferIfAny, transferGroupSpace] at h
    split at h
    next idx hx =>
      cases h
      obtain ⟨r, hr, hp⟩ := position_eq_some hx
      simp only [Bool.and_eq_true, beq_iff_eq, bne_iff_ne, isNone_iff_eq_none] at hp
      obtain ⟨⟨⟨h₁, h₂⟩, h₃⟩, h₄⟩ := hp
      exact .inr ⟨sp, idx, r, rfl, rfl, hx, hr, h₁, h₂, h₃, h₄, rfl⟩
    next hn =>
      cases h
      exact .inl ⟨rfl, rfl, fun _ => hn⟩

/-! ## Exit -/

/-- What the critical section of an exit leaves to be done after the lock. -/
inductive ExitPlan
  | /-- The record was already gone. -/
    gone
  | /-- Zombie: a space to destroy, and the slot and pid of a parent whose wait this completes. -/
    zombie (wakeParent : Option (Nat × Nat)) (packed : Nat) (space : Option Nat)
  | /-- Hand the slot to `full_reap`. -/
    reapNow
  deriving DecidableEq, Repr

/-- Give the parent's wait registration the chance to match, and take it if it does. -/
def takeWait (t : ProcessTable) (parentSlot : Option Nat) (dying : Nat) :
    Option (Nat × Nat) × ProcessTable :=
  match parentSlot.bind fun ps => (t.get ps).map (ps, ·) with
  | some (ps, parent) =>
    if waitWakeDecision parent.waitTarget dying then
      (some (ps, parent.pid), t.modify ps fun r => { r with waitTarget := none })
    else (none, t)
  | none => (none, t)

lemma takeWait_cases (h : t.takeWait parentSlot dying = (wake, t')) : (wake = none ∧ t' = t) ∨
    ∃ ps parent, parentSlot = some ps ∧ t.get ps = some parent ∧
      waitWakeDecision parent.waitTarget dying = true ∧ wake = some (ps, parent.pid) ∧
      t' = t.modify ps fun r => { r with waitTarget := none } := by
  unfold takeWait at h
  split at h
  next ps parent hp =>
    obtain ⟨ps', rfl, hm⟩ := bind_eq_some_iff.mp hp
    obtain ⟨parent', hg, heq⟩ := map_eq_some_iff.mp hm
    obtain ⟨rfl, rfl⟩ := Prod.mk.inj heq
    split at h
    · obtain ⟨rfl, rfl⟩ := Prod.mk.inj h
      exact .inr ⟨ps', parent', rfl, hg, ‹_›, rfl, rfl⟩
    · obtain ⟨rfl, rfl⟩ := Prod.mk.inj h
      exact .inl ⟨rfl, rfl⟩
  · obtain ⟨rfl, rfl⟩ := Prod.mk.inj h
    exact .inl ⟨rfl, rfl⟩

lemma get_takeWait (h : t.takeWait parentSlot dying = (wake, t')) (i : Nat) :
    t'.get i = (t.get i).map fun r =>
      if parentSlot = some i ∧ waitWakeDecision r.waitTarget dying then { r with waitTarget := none }
      else r := by
  obtain ⟨rfl, rfl⟩ | ⟨ps, parent, rfl, hp, hd, -, rfl⟩ := takeWait_cases h
  · cases hr : t'.get i with
    | none => rfl
    | some r =>
      have hn : ¬(parentSlot = some i ∧ waitWakeDecision r.waitTarget dying = true) := by
        rintro ⟨rfl, hd⟩
        simp [takeWait, hr, hd] at h
      simp [hn]
  · rw [get_modify]
    by_cases hi : i = ps
    · subst hi
      simp [hp, hd]
    · simp [hi, Ne.symm hi]

/-- The critical section of `exit_current_with_status_on_scheduler_stack`. On the immediate path
the record goes back without the space it carried, whether or not a survivor took it over. -/
def exitDecide (t : ProcessTable) (slot : Nat) (status : Int) : ExitPlan × ProcessTable :=
  match t.get slot with
  | none => (.gone, t)
  | some me =>
    let parentSlot := me.parent.bind t.find
    let parentAlive := (parentSlot.bind t.get).any (·.state != .zombie)
    match exitDisposition me.parent parentAlive me.adopted with
    | .becomeZombie =>
      let t₁ := t.modify slot (·.zombify status)
      let (space, t₂) := t₁.transferIfAny me.tgid me.pid me.addrSpace
      let (wakeParent, t₃) := t₂.takeWait parentSlot me.pid
      (.zombie wakeParent (packWaitResult me.pid status) space, t₃)
    | .reapImmediately =>
      let t₁ := t.modify slot (·.retire status)
      let (_, t₂) := t₁.transferIfAny me.tgid me.pid me.addrSpace
      (.reapNow, t₂)

/-- What `exit_disposition` says about the record `me`. -/
def dispositionOf (t : ProcessTable) (me : ProcessRecord) : ExitDisposition :=
  exitDisposition me.parent (((me.parent.bind t.find).bind t.get).any (·.state != .zombie)) me.adopted

lemma exitDecide_reapNow (hm : t.get slot = some me) (h : t.exitDecide slot status = (.reapNow, t')) :
    t.dispositionOf me = .reapImmediately := by
  rw [exitDecide, hm] at h
  dsimp only at h
  split at h
  · cases h
  · assumption

lemma exitDecide_cases (hm : t.get slot = some me) (h : t.exitDecide slot status = (plan, t')) :
    (∃ space t₂ wake, plan = .zombie wake (packWaitResult me.pid status) space ∧
      (∃ parent r, me.parent = some parent ∧ t.lookup parent = some r ∧ r.state ≠ .zombie) ∧
      (t.modify slot (·.zombify status)).transferIfAny me.tgid me.pid me.addrSpace = (space, t₂) ∧
      t₂.takeWait (me.parent.bind t.find) me.pid = (wake, t')) ∨
    (∃ out, plan = .reapNow ∧ (t.modify slot (·.retire status)).transferIfAny me.tgid me.pid me.addrSpace = (out, t')) := by
  rw [exitDecide, hm] at h
  dsimp only at h
  split at h
  next hd =>
    cases h
    refine .inl ⟨_, _, _, rfl, ?_, rfl, rfl⟩
    obtain ⟨-, ⟨parent, hp⟩, ha⟩ := exitDisposition_zombie hd
    obtain ⟨r, hr, hz⟩ := (any_eq_true ..).mp ha
    rw [hp] at hr
    exact ⟨parent, r, hp, hr, by simpa using hz⟩
  · cases h
    exact .inr ⟨_, rfl, rfl⟩

/-! ## Reaping -/

/-- What becomes of a record when `dying` is reaped. -/
def orphaned (dying : Nat) (r : ProcessRecord) : Option ProcessRecord :=
  match orphanAction r.parent r.state dying with
  | .cascadeReap => none
  | .adoptToInit => some { r with parent := some initPid, adopted := true }
  | .ignore => some r

lemma orphaned_slot (h : orphaned dying r = some r') :
    r'.slot = r.slot := by
  unfold orphaned at h
  split at h <;> cases h <;> rfl

/-- The locked part of one round of `full_reap`: the record at `s`, the zombie children that go
with it, and the table without them and with the other children adopted. `none` when the slot is
already empty. -/
def reapOne (t : ProcessTable) (s : Nat) :
    Option (ProcessRecord × List ProcessRecord × ProcessTable) :=
  match t.get s with
  | none => none
  | some record =>
    let t₁ := t.take s
    let casc := t₁.records.filter fun r => orphanAction r.parent r.state record.pid = .cascadeReap
    some (record, casc, t₁.mapAll (orphaned record.pid) fun _ _ => orphaned_slot)

lemma reapOne_spec (h : t.reapOne s = some (record, casc, t')) :
    t.get s = some record ∧
    (∀ r, r ∈ casc ↔ ∃ i, i ≠ s ∧ t.get i = some r ∧ r.parent = some record.pid ∧ r.state = .zombie) ∧
    ∀ i, t'.get i = if i = s then none else (t.get i).bind (orphaned record.pid) := by
  unfold reapOne at h
  split at h
  · cases h
  next rec hr =>
    obtain ⟨rfl, hs⟩ := Prod.mk.inj (some.inj h)
    cases hs
    refine ⟨hr, fun r => ?_, fun i => ?_⟩
    · rw [List.mem_filter, mem_records]
      constructor
      · rintro ⟨⟨i, hi⟩, ha⟩
        rw [get_take] at hi
        split at hi
        · cases hi
        · refine ⟨i, ‹_›, hi, ?_⟩
          simp only [orphanAction] at ha
          grind
      · rintro ⟨i, hne, hi, hp, hz⟩
        exact ⟨⟨i, by rw [get_take, if_neg hne]; exact hi⟩, by simp [orphanAction, hp, hz]⟩
    · rw [get_mapAll, get_take]
      split <;> rfl

lemma reapOne_nodup (h : t.reapOne s = some (record, casc, t')) : (casc.map (·.slot)).Nodup := by
  unfold reapOne at h
  split at h
  · cases h
  · obtain ⟨-, hr⟩ := Prod.mk.inj (some.inj h)
    cases hr
    exact (records_slots_nodup _).sublist (List.filter_sublist.map _)

lemma orphaned_cases {dying : Nat} {r : ProcessRecord} :
    (r.parent = some dying ∧ r.state = .zombie ∧ orphaned dying r = none) ∨
    (r.parent = some dying ∧ r.state ≠ .zombie ∧ orphaned dying r = some { r with parent := some initPid, adopted := true }) ∨
    (r.parent ≠ some dying ∧ orphaned dying r = some r) := by
  unfold orphaned orphanAction
  by_cases hp : r.parent = some dying
  · by_cases hz : r.state = .zombie
    · exact .inl ⟨hp, hz, by simp [hp, hz]⟩
    · exact .inr (.inl ⟨hp, hz, by simp [hp, hz]⟩)
  · exact .inr (.inr ⟨hp, by simp [hp]⟩)

/-! ## Waiting -/

def views (t : ProcessTable) : List (Option ProcView) := t.entries.mapIdx fun i e => e.map (·.view i)

/-- The outcome of the critical section of `waitpid_step`. -/
inductive WaitStep
  | /-- A zombie was taken out of the table. -/
    collect (record : ProcessRecord) (packed : Nat)
  | /-- The wait target is registered; the caller goes on to block. -/
    blocked
  | wouldBlock
  | notFound
  | permissionDenied
  deriving DecidableEq, Repr

/-- The critical section of `waitpid_step`. -/
def waitpidStep (t : ProcessTable) (caller target flags : Nat) : WaitStep × ProcessTable :=
  match t.get caller with
  | none => (.permissionDenied, t)
  | some me =>
    match waitPlan me.pid target flags t.views with
    | .collect slot packed =>
      match t.get slot with
      | some record => (.collect record packed, t.take slot)
      | none => (.notFound, t)
    | .sleep =>
      (.blocked, t.modify caller fun r => { r with waitTarget := some (if target = 0 then .any else .pid target) })
    | .pollMiss => (.wouldBlock, t)
    | .noChild => (.notFound, t)

lemma mem_views (h : some v ∈ t.views) : ∃ r, t.get v.slot = some r ∧ v = r.view v.slot := by
  obtain ⟨i, hi⟩ := List.mem_iff_getElem?.mp h
  rw [views, List.getElem?_mapIdx] at hi
  obtain ⟨e, he, hv⟩ := map_eq_some_iff.mp hi
  obtain ⟨r, rfl, rfl⟩ := map_eq_some_iff.mp hv
  exact ⟨r, get_eq_some.mpr he, rfl⟩

lemma waitpidStep_collect (h : t.waitpidStep caller target flags = (.collect record packed, t')) :
    ∃ me code, t.get caller = some me ∧ t.get record.slot = some record ∧
      record.parent = some me.pid ∧ record.state = .zombie ∧ record.exitCode = some code ∧
      packed = packWaitResult record.pid code ∧ (target = 0 ∨ record.pid = target) ∧
      t' = t.take record.slot := by
  unfold waitpidStep at h
  split at h
  · cases h
  next me hm =>
    split at h
    next slot packed' hp =>
      split at h
      next hr =>
        obtain ⟨h₁, rfl⟩ := Prod.mk.inj h
        cases h₁
        have hs := slot_of_get hr
        unfold waitPlan at hp
        split at hp
        next slot' pid code hsc =>
          cases hp
          obtain ⟨v, hv, rfl, rfl, hpr, hz, hc, ht⟩ := Decided.of_waitScan hsc
          obtain ⟨r', hr', hw⟩ := mem_views hv
          obtain rfl := mem_unique hr hr'
          rw [hw] at hpr hz hc ht
          refine ⟨me, code, hm, by rw [hs]; exact hr, hpr, hz, hc, ?_, ht,
            by rw [hs]⟩
          rw [hw]; rfl
        · split at hp <;> cases hp
        · cases hp
      · cases h
    · cases h
    · cases h
    · cases h

end ProcessTable

end ZeroOS.Process
