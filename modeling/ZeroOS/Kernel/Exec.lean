import ZeroOS.Kernel.Groups

/-!
# `execve` in a thread group

`Exec` is accepted from the thread that carries the space of its group. It builds the new image,
rebinds the record to it, loads it on its own CPU and destroys the old space. Nothing stops the other
threads of the group. One that is on another CPU meanwhile keeps the old space in `TTBR0_EL1`, and
executes in it after it has been destroyed.

`solitary` is the condition the code does not check: when the record is rebound, no other thread of
the group is on a CPU.
-/

namespace ZeroOS.Kernel

open Family Function Option Transition ZeroOS.Process

/-- No other thread of the group of the process at `slot` is on a CPU. -/
def othersOff (k : State) (slot : Nat) : Bool :=
  k.table.records.all fun r => r.slot == slot || (k.table.get slot).all (·.tgid != r.tgid) || (k.procs.owner r.slot).isNone

/-- When `rebind_address_space` runs, no other thread of the group is on a CPU. -/
def solitary (k : State) (e : Event) : Bool := calm k e && match k.task e.cpu with
    | .execRebind slot _ => othersOff k slot
    | _ => true

lemma calm_of_solitary (h : solitary k e = true) : calm k e = true := (Bool.and_eq_true_iff.mp h).1

lemma Task.eq_execRebind {t : Task} {s σ : Nat} (hs : t.hand.execs = some s)
    (hσ : t.hand.fresh = some σ) : t = .execRebind s σ := by
  cases t <;> simp_all [Task.hand]

lemma Inv.solitary_rebind (h : Inv k) (hsl : solitary k ⟨c, a⟩ = true) (hs : (k.family.hand c).execs = some s)
    (hσ : (k.family.hand c).fresh = some σ) (hl : k.family.row s = some l)
    (hc : c' ≠ c) (hn : (k.family.hand c').runs = some s') (hm : k.family.row s' = some m) :
    m.tgid ≠ l.tgid := by
  have ht : k.task c = .execRebind s σ := Task.eq_execRebind hs hσ
  have hf : othersOff k s = true := by simpa [solitary, ht] using (Bool.and_eq_true_iff.mp hsl).2
  obtain ⟨r, hr, ho, -⟩ := h.of_owns rfl (Task.owns_of_runs hn)
  obtain ⟨me, he, rfl⟩ := map_eq_some_iff.mp hl
  obtain rfl := mem_unique hm (State.row_of_get hr)
  have hne : s' ≠ s := by
    rintro rfl
    obtain ⟨q, -, ho', -⟩ := h.of_owns ht rfl
    exact hc (mem_unique ho ho')
  have hh := List.all_eq_true.mp hf r (ProcessTable.mem_records.mpr ⟨s', hr⟩)
  rw [ProcessTable.slot_of_get hr] at hh
  intro hg
  have hg : me.tgid = r.tgid := hg.symm
  simp [hne, he, ho, hg] at hh

/-- No CPU runs another process in a space that `execve` is about to destroy. -/
def Detached (f : Family) : Prop := ∀ c s σ, (f.hand c).execs = some s → σ ∈ (f.hand c).doomed →
    ∀ c' s', c' ≠ c → (f.hand c').runs = some s' → f.ttbr c' ≠ some σ

lemma LifeStep.detached (h : Inv k) (hg : k.family.Grouped) (hcs : k.family.Custody)
    (hk : k.family.Kin) (hd : Detached k.family) (hsl : solitary k ⟨c, a⟩ = true)
    (ht : LifeStep k c a f) : Detached f := by
  intro c₁ s σ hs hσ c' s' hne hr hld
  by_cases hc₁ : c₁ = c
  · -- the CPU that executes `execve` takes the step
    subst hc₁
    rw [ht.hand_of_ne hne] at hr
    rw [ht.ttbr_of_ne hne] at hld
    cases ht.execs_new hs with
    | accepted _ hh | built _ hh => simp [hh] at hσ
    | rebound hs' hf hh hl =>
      rw [hh] at hσ
      obtain ⟨m, hm, -⟩ := hk.runs hr
      have hgr := hg.row hl (mem_toList.mp hσ)
      have hsm := mem_unique (hg.loaded hr hld hm) hgr
      exact h.solitary_rebind hsl hs' hf hl hne hr hm hsm
    | loaded hs' hdm hh =>
      rw [hh] at hσ
      exact hd c₁ s σ hs' (hdm ▸ hσ) c' s' hne hr hld
  · -- another CPU does: it can only load a space that some record carries
    rw [ht.hand_of_ne hc₁] at hs hσ
    by_cases hc : c' = c
    · subst hc
      obtain ⟨hr', hld'⟩ | ⟨l, j, m, -, hm, -, hp⟩ | ⟨hs', hig⟩ := ht.ttbr_new hr hld
      · exact hd c₁ s σ hs hσ c' s' hne hr' hld'
      · exact (Active.row hm hp).not_doomed hcs hσ
      · obtain ⟨-, m, hm, -, hp, -⟩ := hg.execs hs'
        exact (Active.row hm (hp σ hig)).not_doomed hcs hσ
    · rw [ht.hand_of_ne hc] at hr
      rw [ht.ttbr_of_ne hc] at hld
      exact hd c₁ s σ hs hσ c' s' hne hr hld

/-! ## Runs -/

abbrev SolitaryRun := Run (Guarded (fun k e => solitary k e) Step) State.init

lemma SolitaryRun.calmRun (h : SolitaryRun es k) : CalmRun es k := h.mono fun _ _ _ hs => ⟨calm_of_solitary hs.1, hs.2⟩

lemma SolitaryRun.detached (h : SolitaryRun es k) : Detached k.family := by
  induction h with
  | nil =>
    intro c s σ hs
    simp [init_hand] at hs
  | snoc hrun ht ih =>
    have hc := SolitaryRun.calmRun hrun
    have hl := step_life hc.inv (calm_of_solitary ht.1) ht.2
    exact hl.detached hc.inv hc.grouped hc.custody hc.kin ih ht.1

lemma CalmRun.carrier_unique (h : CalmRun es k)
    (hr : k.table.get s = some r) (hr' : k.table.get s' = some r') (hg : r.tgid = r'.tgid)
    (hs : r.addrSpace ≠ none) (hs' : r'.addrSpace ≠ none) : s = s' := by
  obtain ⟨σ, hσ⟩ := ne_none_iff_exists'.mp hs
  obtain ⟨σ', hσ'⟩ := ne_none_iff_exists'.mp hs'
  have hw := State.row_of_get hr
  have hw' := State.row_of_get hr'
  have hgr : k.family.group[σ]? = some r.tgid := h.grouped.row hw hσ
  have hgr' : k.family.group[σ']? = some r.tgid := hg ▸ h.grouped.row hw' hσ'
  obtain rfl := h.grouped.active (.row hw hσ) (.row hw' hσ') hgr hgr'
  have ho : k.family.Holds σ (.row s) := ⟨_, hw, hσ⟩
  have ho' : k.family.Holds σ (.row s') := ⟨_, hw', hσ'⟩
  exact Holder.row.inj (h.custody.sole ho ho')

/-- `execve` in a thread group. In every state of a solitary run a group has one carrier at most;
and when `exec_load` destroys the old space, no other live thread has it as its address space, in
the table or in the register of the CPU it runs on. -/
theorem exec_detaches (hrun : SolitaryRun es k) :
    (∀ s s' r r', k.table.get s = some r → k.table.get s' = some r' → r.tgid = r'.tgid →
      r.addrSpace ≠ none → r'.addrSpace ≠ none → s = s') ∧
    ∀ c slot σ, k.task c = .execDestroy slot (some σ) → ∀ s r, s ≠ slot → k.table.get s = some r → r.state ≠ .zombie →
      k.table.addressSpace s ≠ some σ ∧
      ∀ c', (k.task c').hand.runs = some s → k.ttbr c' ≠ some σ := by
  have hl := hrun.calmRun
  refine ⟨fun s s' r r' hr hr' hg hs hs' => hl.carrier_unique hr hr' hg hs hs',
    fun c slot σ ht s r hne hr _ => ⟨fun hp => ?_, fun c' hn => ?_⟩⟩
  · obtain ⟨j, q, hq, -, hσ⟩ := addressSpace_carried hr hp
    have ha : k.family.Active σ := .row (State.row_of_get hq) hσ
    refine ha.not_doomed (c := c) hl.custody ?_
    simp [hand_eq ht, Task.hand]
  · have hh : k.family.hand c = { runs := some slot, execs := some slot, doomed := [σ] } := hand_eq ht
    have hc : c' ≠ c := by
      rintro rfl
      have hn' : (k.family.hand c').runs = some s := hn
      rw [hh] at hn'
      exact hne (some.inj hn').symm
    exact hrun.detached c slot σ (by rw [hh]) (by simp [hh]) c' s hc hn

/-- The first process has an image and a second thread, which is dispatched on CPU 1. -/
def twoThreads : List Event := [⟨0, .spawn .bootfs⟩, ⟨0, .go true⟩, ⟨0, .go true⟩, ⟨0, .go true⟩, ⟨0, .startScheduler⟩,
    ⟨0, .pop⟩, ⟨0, .go true⟩, ⟨0, .go true⟩, ⟨0, .go true⟩, ⟨0, .createThread⟩, ⟨0, .go true⟩,
    ⟨0, .go true⟩, ⟨0, .go true⟩, ⟨1, .pop⟩, ⟨1, .go true⟩, ⟨1, .go true⟩, ⟨1, .go true⟩]

def secondYields : List Event := [⟨1, .yield⟩, ⟨1, .go true⟩, ⟨1, .go true⟩, ⟨1, .go true⟩]

/-- The first thread executes `execve` up to the destruction of the old space. -/
def leaderExecs : List Event := [⟨0, .exec⟩, ⟨0, .go true⟩, ⟨0, .go true⟩, ⟨0, .go true⟩]

theorem exec_detaches_yielded : ∃ k r, SolitaryRun (twoThreads ++ secondYields ++ leaderExecs) k ∧
      k.task 0 = .execDestroy 0 (some 0) ∧ k.table.get 1 = some r ∧ r.state ≠ .zombie ∧
      k.table.addressSpace 1 ≠ some 0 ∧
      ∀ c', (k.task c').hand.runs = some 1 → k.ttbr c' ≠ some 0 := by
  obtain ⟨k, hrun, hc⟩ := exists_guardedRun solitary (twoThreads ++ secondYields ++ leaderExecs)
    (fun k => k.task 0 == .execDestroy 0 (some 0) && (k.table.get 1).any (·.state == .runnable)) (by decide)
  obtain ⟨ht, hg⟩ := Bool.and_eq_true_iff.mp hc
  obtain ⟨r, hr, hs⟩ := (any_eq_true ..).mp hg
  have ht : k.task 0 = .execDestroy 0 (some 0) := by simpa using ht
  have hl : r.state ≠ .zombie := by
    have hs : r.state = .runnable := by simpa using hs
    simp [hs]
  exact ⟨k, r, hrun, ht, hr, hl, (exec_detaches hrun).2 0 0 0 ht 1 r (by decide) hr hl⟩

/-- An address space is carried by one record at most, and while it is, it is not destroyed and no CPU has it to destroy. -/
theorem space_carried_once (hrun : CalmRun es k) (hr : k.table.get s = some r) (hσ : r.addrSpace = some σ) :
    (∀ s' r', k.table.get s' = some r' → r'.addrSpace = some σ → s' = s) ∧ σ ∉ gravesIn k.log ∧
      ∀ c, σ ∉ (k.task c).hand.doomed := by
  have hs := hrun.custody.sole
  have ho : k.family.Holds σ (.row s) := ⟨_, State.row_of_get hr, hσ⟩
  refine ⟨fun s' r' hr' hσ' => ?_, fun hg => ?_, fun c hd => ?_⟩
  · exact Holder.row.inj (hs (d := .row s') ⟨_, State.row_of_get hr', hσ'⟩ ho)
  · cases hs (e := .grave) ho hg
  · cases hs (e := .doomed c) ho hd

theorem space_carried_once_threads : ∃ k r, CalmRun twoThreads k ∧ k.table.get 0 = some r ∧ r.addrSpace = some 0 ∧
      0 ∉ gravesIn k.log := by
  obtain ⟨k, hrun, hc⟩ := exists_guardedRun calm twoThreads (fun k => (k.table.get 0).any (·.addrSpace == some 0)) (by decide)
  obtain ⟨r, hr, hσ⟩ := (any_eq_true ..).mp hc
  have hσ : r.addrSpace = some 0 := by simpa using hσ
  exact ⟨k, r, hrun, hr, hσ, (space_carried_once hrun hr hσ).2.1⟩

/-- The second thread runs on in a space that is about to be destroyed. -/
theorem sibling_keeps_old_space :
    ¬∀ es k c slot σ s r, Run Step State.init es k → k.task c = .execDestroy slot (some σ) →
      s ≠ slot → k.table.get s = some r → r.state ≠ .zombie →
      ∀ c', (k.task c').hand.runs = some s → k.ttbr c' ≠ some σ := by
  intro ha
  obtain ⟨k, hrun, hc⟩ := exists_run (twoThreads ++ leaderExecs)
    (fun k => k.task 0 == .execDestroy 0 (some 0) && (k.table.get 1).any (·.state == .running) &&
      ((k.task 1).hand.runs == some 1 && k.ttbr 1 == some 0)) (by decide)
  simp only [Bool.and_eq_true, beq_iff_eq] at hc
  obtain ⟨⟨ht, hg⟩, hn, hl⟩ := hc
  obtain ⟨r, hr, hs⟩ := (any_eq_true ..).mp hg
  have hs : r.state = .running := by simpa using hs
  exact ha _ k 0 0 0 1 r hrun ht (by decide) hr (by simp [hs]) 1 hn hl

end ZeroOS.Kernel
