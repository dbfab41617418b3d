import ZeroOS.Kernel.Phase

/-!
# Rules for the protocol invariant

What one CPU's duty says about the phase of a process, and how a step preserves the invariant. Most
steps move a single process from one phase to the next; `Moves` lists what such a step does, and
`Moves.inv` is the rule for it.
-/

namespace ZeroOS.Kernel
open List Option ZeroOS.Process ZeroOS.Scheduler

variable {k k' : State} {pid c : Nat} {φ : Option Phase} {ψ : Phase} {s : Nat} {r : ProcessRecord}

/-! ## What a duty tells -/

lemma Agrees.elim (h : Agrees k pid (some ψ)) :
    ∃ r, k.table.lookup pid = some r ∧ k.table.get r.slot = some r ∧ r.pid = pid ∧ Fits ψ r (k.procs.owner r.slot) ∧
      (∀ c, (k.task c).duty.about pid r.slot = ψ.expects c) ∧
      k.runqueue.pids.count pid = (if ψ = .queued then 1 else 0) ∧
      k.waiting.count pid = (if ψ.place = some .registry then 1 else 0) ∧
      balance k.log pid = if ψ.owed then 1 else 0 := by
  cases h with
  | here φ r hr hf hd hq hrg hl =>
    obtain ⟨hg, hp⟩ := ProcessTable.lookup_eq_some hr
    exact ⟨r, hr, hg, hp, hf, hd, hq, hrg, hl⟩

lemma Agrees.balance_eq (h : Agrees k pid (some ψ)) :
    balance k.log pid = if ψ.owed then 1 else 0 := by
  obtain ⟨-, -, -, -, -, -, -, -, hl⟩ := h.elim
  exact hl

section

variable (h : Inv k)
include h

lemma Inv.phase_of_get (hr : k.table.get s = some r) : ∃ ψ, Agrees k r.pid (some ψ) ∧ Fits ψ r (k.procs.owner s) ∧
      ∀ c, (k.task c).duty.about r.pid s = ψ.expects c := by
  obtain ⟨φ, hφ⟩ := h.phase r.pid
  have hl := h.unique.lookup_of_get hr
  cases φ with
  | none => cases hφ with | gone hc => rw [hl] at hc; cases hc
  | some ψ =>
    obtain ⟨r', hc, -, -, hf, hd, -⟩ := hφ.elim
    obtain rfl := mem_unique hl hc
    rw [ProcessTable.slot_of_get hr] at hf hd
    exact ⟨ψ, hφ, hf, hd⟩

lemma Inv.fits (hr : k.table.get s = some r) (hφ : Agrees k r.pid (some ψ)) :
    Fits ψ r (k.procs.owner s) := by
  obtain ⟨r', hc, -, -, hf, -⟩ := hφ.elim
  obtain rfl := mem_unique (h.unique.lookup_of_get hr) hc
  rwa [ProcessTable.slot_of_get hr] at hf

lemma Inv.about (hr : k.table.get s = some r) (hφ : Agrees k r.pid (some ψ)) (c' : Nat) :
    (k.task c').duty.about r.pid s = ψ.expects c' := by
  obtain ⟨r', hc, -, -, -, hd, -⟩ := hφ.elim
  obtain rfl := mem_unique (h.unique.lookup_of_get hr) hc
  exact ProcessTable.slot_of_get hr ▸ hd c'

lemma Inv.of_owns (ht : k.task c = t) (hd : t.duty.owns = some s) :
    ∃ r, k.table.get s = some r ∧ k.procs.owner s = some c ∧ r.state = .running ∧
      (t.duty.parks = false → Agrees k r.pid (some (.running c))) ∧
      (t.duty.parks = true → ∃ p, Agrees k r.pid (some (.parking c p))) := by
  subst ht
  obtain ⟨r, hr, -⟩ := (h.sound c).owns s hd
  obtain ⟨φ, hφ, hf, hdt⟩ := h.phase_of_get hr
  have hc := hdt c
  have ho : φ.owner = some c := by
    have := congrArg About.owns hc
    simpa [Duty.about, hd, Phase.expects] using this.symm
  have hpr := congrArg About.parks hc
  simp only [Duty.about, hd, beq_self_eq_true, Bool.and_true, Phase.expects] at hpr
  have hs := hf.state
  refine ⟨r, hr, hf.owner_eq.trans ho, ?_, fun hp => ?_, fun hp => ?_⟩ <;>
    cases φ <;> simp_all [Phase.owner, Phase.state]
  exact ⟨_, hφ⟩

lemma Inv.of_carries (hd : (k.task c).duty.carries = some pid) :
    Agrees k pid (some (.carried c (k.task c).duty.woken)) := by
  obtain ⟨φ, hφ⟩ := h.phase pid
  cases φ with
  | none => cases hφ with | gone _ hr => exact absurd hd (hr c)
  | some ψ =>
    obtain ⟨r, -, -, -, -, hdt, -⟩ := hφ.elim
    have hc := congrArg About.carries (hdt c)
    have hw := congrArg About.woken (hdt c)
    cases ψ with
    | carried c' w =>
      obtain rfl : c' = c := by simpa [Duty.about, hd, Phase.expects] using hc.symm
      obtain rfl : (k.task c').duty.woken = w := by simpa [Duty.about, hd, Phase.expects] using hw
      exact hφ
    | _ => simp [Duty.about, hd, Phase.expects] at hc

lemma Inv.of_flight (hd : pid ∈ (k.task c).duty.flight) : ∃ ψ, Agrees k pid (some ψ) ∧ ψ.place = some (.flight c) := by
  obtain ⟨φ, hφ⟩ := h.phase pid
  cases φ with
  | none => cases hφ with | gone _ _ hf => exact absurd hd (hf c)
  | some ψ =>
    obtain ⟨r, -, -, -, -, hdt, -⟩ := hφ.elim
    have hc := congrArg About.flight (hdt c)
    have hp := count_pos_iff.mpr hd
    refine ⟨ψ, hφ, ?_⟩
    by_contra hne
    simp [Duty.about, Phase.expects, hne] at hc
    exact absurd hc (Nat.ne_of_gt hp)

lemma Inv.of_leaves (ht : k.task c = t) (hd : t.duty.leaves = some s) :
    ∃ r, k.table.get s = some r ∧ Agrees k r.pid (some (.leaving c)) := by
  subst ht
  obtain ⟨r, hr⟩ := (h.sound c).leaves s hd
  obtain ⟨φ, hφ, hf, hdt⟩ := h.phase_of_get hr
  have := congrArg About.leaves (hdt c)
  obtain rfl : φ = .leaving c := by simpa [Duty.about, hd, Phase.expects] using this.symm
  exact ⟨r, hr, hφ⟩

lemma Inv.of_serves (hd : (k.task c).duty.serves = some (s, p)) :
    ∃ r, k.table.get s = some r ∧ r.parent = some p ∧ Agrees k r.pid (some (.zombie (some c))) := by
  obtain ⟨-, r, hr, -, hp⟩ := (h.sound c).serves s p hd
  obtain ⟨φ, hφ, hf, hdt⟩ := h.phase_of_get hr
  have := congrArg About.serves (hdt c)
  obtain rfl : φ = .zombie (some c) := by simpa [Duty.about, hd, Phase.expects] using this.symm
  exact ⟨r, hr, hp, hφ⟩

lemma Inv.of_queue (hq : pid ∈ k.runqueue.pids) : Agrees k pid (some .queued) := by
  obtain ⟨φ, hφ⟩ := h.phase pid
  cases φ with
  | none => cases hφ with | gone _ _ _ hu => exact absurd hq hu
  | some ψ =>
    obtain ⟨r, -, -, -, -, -, hc, -⟩ := hφ.elim
    have hp := count_pos_iff.mpr hq
    obtain rfl : ψ = .queued := by
      by_contra hne
      simp [hne] at hc
      exact absurd hc (Nat.ne_of_gt hp)
    exact hφ

lemma Inv.of_registry (hq : pid ∈ k.waiting) : ∃ ψ, Agrees k pid (some ψ) ∧ ψ.place = some .registry := by
  obtain ⟨φ, hφ⟩ := h.phase pid
  cases φ with
  | none => cases hφ with | gone _ _ _ _ hr => exact absurd hq hr
  | some ψ =>
    obtain ⟨r, -, -, -, -, -, -, hc, -⟩ := hφ.elim
    refine ⟨ψ, hφ, ?_⟩
    by_contra hne
    simp [hne] at hc
    exact absurd hc (Nat.ne_of_gt (count_pos_iff.mpr hq))

end

/-! ## Steps that touch few processes -/

/-- The part of a record the protocol depends on. -/
structure Core where
  pid : Nat
  state : ProcessState
  wakePending : Bool
  blockIntent : Bool
  waiting : Bool
  /-- The parent of a zombie; that of a live process may change hands. -/
  parent : Option Nat
  deriving DecidableEq

def core (r : ProcessRecord) : Core := ⟨r.pid, r.state, r.wakePending, r.blockIntent, r.waitTarget.isSome,
    if r.state = .zombie then r.parent else none⟩

def Duty.claims (d : Duty) (slot : Nat) : Prop :=
  d.owns = some slot ∨ d.leaves = some slot ∨ (∃ p, d.serves = some (slot, p)) ∨ ∃ p, d.builds = some (slot, p)

/-- The row at a slot keeps what a duty that claims the slot relies on. -/
def Kept (t t' : ProcessTable) (slot : Nat) : Prop :=
  ∀ r, t.get slot = some r → ∃ r', t'.get slot = some r' ∧ r'.pid = r.pid ∧ r'.blockIntent = r.blockIntent ∧
    (r.state = .zombie → r'.state = .zombie ∧ r'.parent = r.parent)

lemma Duty.Sound.of_kept {d : Duty} (h : d.Sound t n) (hn : n ≤ n') (hk : ∀ s, d.claims s → Kept t t' s)
    (hrs : ∀ pid, d.reserved = some pid → t'.lookup pid = none) : d.Sound t' n' := by
  constructor
  case reserved =>
    intro pid hp
    exact ⟨lt_of_lt_of_le (h.reserved pid hp).1 hn, hrs pid hp⟩
  case owns =>
    intro slot hs
    obtain ⟨r, hr, hint⟩ := h.owns slot hs
    obtain ⟨r', hr', -, hin, -⟩ := hk slot (.inl hs) r hr
    exact ⟨r', hr', fun hi => hin.trans (hint hi)⟩
  case leaves =>
    intro slot hs
    obtain ⟨r, hr⟩ := h.leaves slot hs
    obtain ⟨r', hr', -⟩ := hk slot (.inr (.inl hs)) r hr
    exact ⟨r', hr'⟩
  case serves =>
    intro slot parent hsr
    obtain ⟨hf, r, hr, hzm, hpr⟩ := h.serves slot parent hsr
    obtain ⟨r', hr', -, -, hz⟩ := hk slot (.inr (.inr (.inl ⟨_, hsr⟩))) r hr
    exact ⟨hf, r', hr', (hz hzm).1, (hz hzm).2.trans hpr⟩
  case builds =>
    intro slot pid hb
    obtain ⟨hc, r, hr, hp⟩ := h.builds slot pid hb
    obtain ⟨r', hr', hp', -⟩ := hk slot (.inr (.inr (.inr ⟨_, hb⟩))) r hr
    exact ⟨hc, r', hr', hp'.trans hp⟩

/-- A step of CPU `c` that changes nothing for processes other than `P`, which sit at the slots
`S`. -/
structure Touches (k k' : State) (c : Nat) (P S : List Nat) : Prop where
  others : ∀ c', c' ≠ c → (k'.task c').duty = (k.task c').duty
  mine : ∀ pid slot, pid ∉ P → slot ∉ S → (k'.task c).duty.about pid slot = (k.task c).duty.about pid slot
  rows : ∀ i, i ∉ S → (k'.table.get i).map core = (k.table.get i).map core
  owner : ∀ i, i ∉ S → k'.procs.owner i = k.procs.owner i
  queue : ∀ pid, pid ∉ P → k'.runqueue.pids.count pid = k.runqueue.pids.count pid
  registry : ∀ pid, pid ∉ P → k'.waiting.count pid = k.waiting.count pid
  log : ∀ pid, pid ∉ P → balance k'.log pid = balance k.log pid
  nextPid : k.nextPid ≤ k'.nextPid
  /-- `P` are the processes at `S`, before and after. -/
  at_old : ∀ i r, k.table.get i = some r → i ∈ S → r.pid ∈ P
  at_new : ∀ i r, k'.table.get i = some r → i ∈ S → r.pid ∈ P

namespace Touches

variable {P S : List Nat} {i : Nat} {r : ProcessRecord}

section

variable (ht : Touches k k' c P S)
include ht

lemma row (hi : i ∉ S) (hr : k.table.get i = some r) : ∃ r', k'.table.get i = some r' ∧ core r' = core r := by
  have := ht.rows i hi
  rw [hr] at this
  exact map_eq_some_iff.mp this

lemma row_old (hi : i ∉ S) (hr : k'.table.get i = some r) : ∃ r', k.table.get i = some r' ∧ core r' = core r := by
  have := ht.rows i hi
  rw [hr] at this
  exact map_eq_some_iff.mp this.symm

lemma lookup_none (hp : pid ∉ P) (hn : k.table.lookup pid = none) :
    k'.table.lookup pid = none := by
  by_contra hne
  obtain ⟨r, hr⟩ := ne_none_iff_exists'.mp hne
  obtain ⟨hg, rfl⟩ := ProcessTable.lookup_eq_some hr
  have hi : r.slot ∉ S := mt (ht.at_new _ _ hg) hp
  obtain ⟨r', hr', hc⟩ := ht.row_old hi hg
  exact ProcessTable.lookup_eq_none hn hr' (congrArg Core.pid hc)

lemma unique (hu : k.table.PidsUnique)
    (hS : ∀ i ∈ S, ∀ j r r', k'.table.get i = some r → k'.table.get j = some r' → r.pid = r'.pid → i = j) :
    k'.table.PidsUnique := by
  intro i j r r' hr hr' hp
  by_cases hi : i ∈ S
  · exact hS i hi j r r' hr hr' hp
  by_cases hj : j ∈ S
  · exact (hS j hj i r' r hr' hr hp.symm).symm
  · obtain ⟨q, hq, hc⟩ := ht.row_old hi hr
    obtain ⟨q', hq', hc'⟩ := ht.row_old hj hr'
    have hd : q.pid = q'.pid := (congrArg Core.pid hc).trans (hp.trans (congrArg Core.pid hc').symm)
    exact hu i j q q' hq hq' hd

lemma about (hp : pid ∉ P) (hs : slot ∉ S) (c' : Nat) :
    (k'.task c').duty.about pid slot = (k.task c').duty.about pid slot := by
  by_cases hc : c' = c
  · subst hc; exact ht.mine pid slot hp hs
  · rw [ht.others c' hc]

lemma frame (hu : k'.table.PidsUnique) (hp : pid ∉ P) (h : Agrees k pid φ) : Agrees k' pid φ := by
  cases h with
  | gone hrc hy hfl hqu hrg hl =>
    obtain ⟨n, hn⟩ := Infinite.exists_notMem_finset S.toFinset
    have ha := fun c' => ht.about hp (mt mem_toFinset.mpr hn) c'
    refine .gone (ht.lookup_none hp hrc) (fun c' hc => hy c' ?_) (fun c' hc => hfl c' ?_)
      (fun hq => hqu ?_) (fun hr => hrg ?_) ((ht.log pid hp).trans hl)
    · have := congrArg About.carries (ha c')
      simpa [Duty.about, hc] using this
    · have := congrArg About.flight (ha c')
      simp only [Duty.about] at this
      rwa [← count_pos_iff, ← this, count_pos_iff]
    · rwa [← count_pos_iff, ← ht.queue pid hp, count_pos_iff]
    · rwa [← count_pos_iff, ← ht.registry pid hp, count_pos_iff]
  | here φ r hrc hf hd hqu hrg hl =>
    obtain ⟨hg, rfl⟩ := ProcessTable.lookup_eq_some hrc
    have hs : r.slot ∉ S := mt (ht.at_old _ _ hg) hp
    obtain ⟨r', hr', hcr⟩ := ht.row hs hg
    have hpd : r'.pid = r.pid := congrArg Core.pid hcr
    have hsl : r'.slot = r.slot := ProcessTable.slot_of_get hr'
    refine .here φ r' (hpd ▸ hu.lookup_of_get hr') ?_ (fun c' => ?_)
      ((ht.queue _ hp).trans hqu) ((ht.registry _ hp).trans hrg) ((ht.log _ hp).trans hl)
    · rw [hsl, ht.owner _ hs]
      exact ⟨(congrArg Core.state hcr).trans hf.state, hf.owner_eq, (congrArg Core.wakePending hcr).trans hf.latch,
        (congrArg Core.waiting hcr).trans hf.target, hf.placed⟩
    · rw [hsl, ht.about hp hs c']
      exact hd c'

lemma kept (hi : i ∉ S) : Kept k.table k'.table i := by
  intro r hr
  obtain ⟨r', hr', hc⟩ := ht.row hi hr
  refine ⟨r', hr', congrArg Core.pid hc, congrArg Core.blockIntent hc, fun hz => ?_⟩
  have hz' : r'.state = .zombie := (congrArg Core.state hc).trans hz
  have hp := congrArg Core.parent hc
  simp only [core, hz, hz', if_true] at hp
  exact ⟨hz', hp⟩

lemma sound {d : Duty} (h : d.Sound k.table k.nextPid) (hr : ∀ pid ∈ P, d.reserved ≠ some pid)
    (hc : ∀ s ∈ S, d.claims s → Kept k.table k'.table s) :
    d.Sound k'.table k'.nextPid := by
  refine h.of_kept ht.nextPid (fun s hs => ?_) fun pid hd => ?_
  · by_cases he : s ∈ S
    · exact hc s he hs
    · exact ht.kept he
  · exact ht.lookup_none (fun hp => hr pid hp hd) (h.reserved pid hd).2

end

end Touches

/-- The step rule. A step preserves the invariant if it gives every process it touches a phase,
leaves its own CPU a sound duty and takes no slot from another CPU. -/
lemma Inv.step_rule (h : Inv k) (ht : Touches k k' c P S) (hh : ∀ pid ∈ P, k'.table.PidsUnique → ∃ φ, Agrees k' pid φ)
    (hn : (k'.task c).duty.Sound k'.table k'.nextPid)
    (ho : ∀ c', c' ≠ c → (k.task c').duty.Sound k'.table k'.nextPid)
    (hrs : ∀ pid c', c' ≠ c → (k'.task c).duty.reserved = some pid → (k.task c').duty.reserved ≠ some pid)
    (hun : ∀ i ∈ S, ∀ j r r', k'.table.get i = some r → k'.table.get j = some r' → r.pid = r'.pid → i = j)
    (hlt : ∀ pid ∈ P, pid < k'.nextPid)
    (hf : ∀ s ∈ S, k'.table.get s = none → k'.procs.owner s = none) : Inv k' := by
  have hu := ht.unique h.unique hun
  constructor
  case unique => exact hu
  case phase =>
    intro pid
    by_cases hp : pid ∈ P
    · exact hh pid hp hu
    · obtain ⟨φ, hφ⟩ := h.phase pid
      exact ⟨φ, ht.frame hu hp hφ⟩
  case sound =>
    intro c'
    by_cases hc : c' = c
    · subst hc; exact hn
    · rw [ht.others c' hc]; exact ho c' hc
  case pid_lt =>
    intro i r hr
    by_cases hi : i ∈ S
    · exact hlt _ (ht.at_new i r hr hi)
    · obtain ⟨r', hr', hcr⟩ := ht.row_old hi hr
      rw [← show r'.pid = r.pid from congrArg Core.pid hcr]
      exact lt_of_lt_of_le (h.pid_lt hr') ht.nextPid
  case reserved_inj =>
    intro c₁ c₂ pid h₁ h₂
    by_cases hc₁ : c₁ = c <;> by_cases hc₂ : c₂ = c
    · rw [hc₁, hc₂]
    · subst hc₁
      rw [ht.others c₂ hc₂] at h₂
      exact absurd h₂ (hrs pid c₂ hc₂ h₁)
    · subst hc₂
      rw [ht.others c₁ hc₁] at h₁
      exact absurd h₁ (hrs pid c₁ hc₁ h₂)
    · rw [ht.others c₁ hc₁] at h₁
      rw [ht.others c₂ hc₂] at h₂
      exact h.reserved_inj h₁ h₂
  case free_unowned =>
    intro slot hl
    by_cases hs : slot ∈ S
    · exact hf slot hs hl
    · rw [ht.owner slot hs]
      refine h.free_unowned ?_
      have := ht.rows slot hs
      rw [hl] at this
      exact map_eq_none_iff.mp this.symm

lemma Inv.stutter (h : Inv k) (ho : ∀ c', c' ≠ c → (k'.task c').duty = (k.task c').duty)
    (hmn : ∀ pid slot, (k'.task c).duty.about pid slot = (k.task c).duty.about pid slot)
    (hrw : ∀ i, (k'.table.get i).map core = (k.table.get i).map core)
    (hon : k'.procs.owner = k.procs.owner) (hq : k'.runqueue = k.runqueue)
    (hw : k'.waiters = k.waiters) (hl : ∀ pid, balance k'.log pid = balance k.log pid)
    (hn : k.nextPid ≤ k'.nextPid) (hs : (k'.task c).duty.Sound k.table k'.nextPid)
    (hr : ∀ pid c', c' ≠ c → (k'.task c).duty.reserved = some pid → (k.task c').duty.reserved ≠ some pid) : Inv k' := by
  have ht : Touches k k' c [] [] := {
    others := ho
    mine := fun pid slot _ _ => hmn pid slot
    rows := fun i _ => hrw i
    owner := fun i _ => by rw [hon]
    queue := fun pid _ => by rw [hq]
    registry := fun pid _ => by rw [State.waiting, State.waiting, hw]
    log := fun pid _ => hl pid
    nextPid := hn
    at_old := fun _ _ _ hi => nomatch hi
    at_new := fun _ _ _ hi => nomatch hi }
  have hs' : (k'.task c).duty.Sound k'.table k'.nextPid := hs.of_kept (le_refl _) (fun s _ => ht.kept not_mem_nil) fun pid hp =>
      ht.lookup_none not_mem_nil (hs.reserved pid hp).2
  refine h.step_rule ht ?_ hs' (fun c' _ => ht.sound (h.sound c') ?_ ?_) hr ?_ ?_ ?_
  all_goals exact fun _ he => nomatch he

lemma Inv.congr (h : Inv k) (hr : k'.procs = k.procs) (hq : k'.runqueue = k.runqueue)
    (hw : k'.waiters = k.waiters) (hn : k'.nextPid = k.nextPid)
    (hl : ∀ pid, balance k'.log pid = balance k.log pid)
    (hd : ∀ c', (k'.task c').duty = (k.task c').duty) : Inv k' := by
  refine h.stutter (c := 0) (fun c' _ => hd c') (fun pid slot => by rw [hd])
    (fun i => by rw [State.table, hr]) (by rw [hr]) hq hw hl
    (le_of_eq hn.symm)    ?_ fun pid c' hc hp hp' => hc ?_
  · rw [hd, hn]
    exact h.sound 0
  · rw [hd] at hp
    exact h.reserved_inj hp' hp

/-! ## Moving a wake-up call -/

section

variable {p : Place}

lemma Phase.expects_withPlace (hp : ψ.place = some p) (p' : Place) (c : Nat) : (ψ.withPlace p').expects c
      = { ψ.expects c with flight := if p' = .flight c then 1 else 0 } := by
  cases ψ <;> simp_all [Phase.place, Phase.withPlace, Phase.expects, Phase.owner]

lemma Agrees.moved (h : Agrees k pid (some ψ)) (hp : ψ.place = some p) (p' : Place)
    (hr : ∀ r, k.table.lookup pid = some r → ∃ r', k'.table.lookup pid = some r' ∧
      r'.slot = r.slot ∧ r'.state = r.state ∧ k'.procs.owner r.slot = k.procs.owner r.slot ∧
      r'.wakePending = decide (p' = .latch) ∧ r'.waitTarget.isSome = decide (p' = .target) ∧
      ∀ c, (k'.task c).duty.about pid r.slot
        = { (k.task c).duty.about pid r.slot with flight := if p' = .flight c then 1 else 0 })
    (hq : k'.runqueue.pids.count pid = k.runqueue.pids.count pid)
    (hrg : k'.waiting.count pid = if p' = .registry then 1 else 0)
    (hg : balance k'.log pid = if p'.consumed then 1 else 0)
    (hpd : (ψ.withPlace p').wellPlaced) : Agrees k' pid (some (ψ.withPlace p')) := by
  obtain ⟨r, hl, -, -, hf, hd, hc, -, -⟩ := h.elim
  obtain ⟨r', hl', hs, hst, hn, hlc, htr, ha⟩ := hr r hl
  have hpl : (ψ.withPlace p').place = some p' := by cases ψ <;> simp_all [Phase.place, Phase.withPlace]
  refine .here _ r' hl' ⟨?_, ?_, ?_, ?_, hpd⟩ (fun c => ?_) ?_ ?_ ?_
  · rw [hst, hf.state]
    cases ψ <;> rfl
  · rw [hs, hn, hf.owner_eq]
    cases ψ <;> rfl
  · simp [hlc, hpl]
  · simp [htr, hpl]
  · rw [hs, ha c, Phase.expects_withPlace hp, hd c]
  · rw [hq, hc]
    cases ψ <;> simp_all [Phase.place, Phase.withPlace]
  · simp [hrg, hpl]
  · have ho : (ψ.withPlace p').owed = p'.consumed := by cases ψ <;> simp_all [Phase.place, Phase.withPlace, Phase.owed]
    rw [hg, ho]

end

/-! ## Steps that move one process -/

lemma Inv.not_claims (h : Inv k) (hr : k.table.get s = some r) (hφ : Agrees k r.pid (some ψ)) (hc : ψ.cpu ≠ some c') :
    ¬(k.task c').duty.claims s := by
  have ha := h.about hr hφ c'
  rintro (ho | hl | ⟨p, hs⟩ | ⟨p, hb⟩)
  · have := congrArg About.owns ha
    cases ψ <;> simp_all [Duty.about, Phase.expects, Phase.owner, Phase.cpu]
  · have := congrArg About.leaves ha
    cases ψ <;> simp_all [Duty.about, Phase.expects, Phase.cpu]
  · have := congrArg About.serves ha
    cases ψ <;> simp_all [Duty.about, Phase.expects, Phase.cpu]
  · obtain ⟨hcr, r₂, hr₂, rfl⟩ := (h.sound c').builds s p hb
    obtain rfl := mem_unique hr hr₂
    have := congrArg About.carries ha
    cases ψ <;> simp_all [Duty.about, Phase.expects, Phase.cpu]

lemma Inv.not_reserved (h : Inv k) (hr : k.table.get s = some r) (c' : Nat) : (k.task c').duty.reserved ≠ some r.pid := by
  intro hs
  have := ((h.sound c').reserved _ hs).2
  rw [h.unique.lookup_of_get hr] at this
  cases this

/-- A step of CPU `c` that moves the process at slot `s` from phase `φ` to `φ'` and touches nothing
else. -/
structure Moves (k k' : State) (c s : Nat) (r r' : ProcessRecord) (φ φ' : Phase) : Prop where
  get : k.table.get s = some r
  phase : Agrees k r.pid (some φ)
  get_new : k'.table.get s = some r'
  pid : r'.pid = r.pid
  fits : Fits φ' r' (k'.procs.owner s)
  others : ∀ c', c' ≠ c → (k'.task c').duty = (k.task c').duty
  mine : ∀ pid slot, pid ≠ r.pid → slot ≠ s → (k'.task c).duty.about pid slot = (k.task c).duty.about pid slot
  about : (k'.task c).duty.about r.pid s = φ'.expects c
  expects : ∀ c', c' ≠ c → φ'.expects c' = φ.expects c'
  rows : ∀ i, i ≠ s → (k'.table.get i).map core = (k.table.get i).map core
  owner : ∀ i, i ≠ s → k'.procs.owner i = k.procs.owner i
  queue : ∀ pid, pid ≠ r.pid → k'.runqueue.pids.count pid = k.runqueue.pids.count pid
  queued : k'.runqueue.pids.count r.pid = if φ' = .queued then 1 else 0
  registry : ∀ pid, pid ≠ r.pid → k'.waiting.count pid = k.waiting.count pid
  registered : k'.waiting.count r.pid = if φ'.place = some .registry then 1 else 0
  log : ∀ pid, pid ≠ r.pid → balance k'.log pid = balance k.log pid
  logged : balance k'.log r.pid = if φ'.owed then 1 else 0
  nextPid : k.nextPid ≤ k'.nextPid

namespace Moves

variable {s : Nat} {r r' : ProcessRecord} {ψ' : Phase} {l : List Obs} {t : Task}

section

variable (hm : Moves k k' c s r r' ψ ψ')
include hm

lemma touches :
    Touches k k' c [r.pid] [s] where
  others := hm.others
  mine pid slot hp hs := hm.mine pid slot (by simpa using hp) (by simpa using hs)
  rows i hi := hm.rows i (by simpa using hi)
  owner i hi := hm.owner i (by simpa using hi)
  queue pid hp := hm.queue pid (by simpa using hp)
  registry pid hp := hm.registry pid (by simpa using hp)
  log pid hp := hm.log pid (by simpa using hp)
  nextPid := hm.nextPid
  at_old i q hq hi := by
    obtain rfl : i = s := by simpa using hi
    obtain rfl := mem_unique hq hm.get
    simp
  at_new i q hq hi := by
    obtain rfl : i = s := by simpa using hi
    obtain rfl := mem_unique hq hm.get_new
    simp [hm.pid]

lemma taken (hq : k.table.get i = some q) : ∃ q', k'.table.get i = some q' := by
  by_cases hi : i = s
  · exact ⟨r', hi ▸ hm.get_new⟩
  · obtain ⟨q', hq', -⟩ := hm.touches.row (by simpa using hi) hq
    exact ⟨q', hq'⟩

lemma unique_new (h : Inv k) : ∀ i ∈ [s], ∀ j q q', k'.table.get i = some q → k'.table.get j = some q' →
      q.pid = q'.pid → i = j := by
  intro i hi j q q' hq hq' hd
  obtain rfl : i = s := by simpa using hi
  by_contra hne
  obtain rfl := mem_unique hq hm.get_new
  obtain ⟨q₂, hq₂, hc⟩ := hm.touches.row_old (by simpa using Ne.symm hne) hq'
  have hp : r.pid = q₂.pid := (hm.pid.symm.trans hd).trans (congrArg Core.pid hc).symm
  exact hne (h.unique _ _ _ _ hm.get hq₂ hp)

lemma agrees (h : Inv k) (hu : k'.table.PidsUnique) :
    Agrees k' r.pid (some ψ') := by
  refine .here ψ' r' (hm.pid ▸ hu.lookup_of_get hm.get_new) ?_ (fun c' => ?_) hm.queued
    hm.registered hm.logged
  · rw [ProcessTable.slot_of_get hm.get_new]
    exact hm.fits
  · rw [ProcessTable.slot_of_get hm.get_new]
    by_cases hc : c' = c
    · subst hc; exact hm.about
    · rw [hm.others c' hc, hm.expects c' hc, h.about hm.get hm.phase c']

/-- The rule for moves. The invariant holds after a move that leaves its CPU a sound duty and, if
another CPU has the process in its hands, keeps what that CPU relies on. -/
lemma inv (h : Inv k) (hq : ∀ c', c' ≠ c → ψ.cpu = some c' → Kept k.table k'.table s)
    (hn : (k'.task c).duty.Sound k'.table k'.nextPid)
    (hr : ∀ pid, (k'.task c).duty.reserved = some pid → (k.task c).duty.reserved = some pid) : Inv k' := by
  refine h.step_rule hm.touches ?_ hn (fun c' hc => hm.touches.sound (h.sound c') ?_ ?_) ?_
    (hm.unique_new h) ?_ ?_
  · intro pid hp hu
    obtain rfl : pid = r.pid := by simpa using hp
    exact ⟨_, hm.agrees h hu⟩
  · simpa using h.not_reserved hm.get c'
  · intro s' hs' hl
    obtain rfl : s' = s := by simpa using hs'
    by_cases hcp : ψ.cpu = some c'
    · exact hq c' hc hcp
    · exact absurd hl (h.not_claims hm.get hm.phase hcp)
  · intro pid c' hc hd hd'
    exact hc (h.reserved_inj hd' (hr pid hd))
  · intro pid hp
    obtain rfl : pid = r.pid := by simpa using hp
    exact lt_of_lt_of_le (h.pid_lt hm.get) hm.nextPid
  · simp [hm.get_new]

end

lemma of_procs (hg : k.table.get s = some r) (hφ : Agrees k r.pid (some ψ))
    (hg' : p.table.get s = some r') (hp : r'.pid = r.pid) (hf : Fits ψ' r' (p.owner s))
    (hrw : ∀ i, i ≠ s → (p.table.get i).map core = (k.table.get i).map core)
    (ho : ∀ i, i ≠ s → p.owner i = k.procs.owner i)
    (hn : ∀ pid slot, pid ≠ r.pid → slot ≠ s → t.duty.about pid slot = (k.task c).duty.about pid slot)
    (ha : t.duty.about r.pid s = ψ'.expects c) (he : ∀ c', c' ≠ c → ψ'.expects c' = ψ.expects c')
    (hu : ψ' = .queued ↔ ψ = .queued) (hr : ψ'.place = some .registry ↔ ψ.place = some .registry)
    (hlg : ∀ pid, pid ≠ r.pid → balance l pid = balance k.log pid)
    (hl : balance l r.pid = if ψ'.owed then 1 else 0) :
    Moves k ({ k with procs := p, log := l }.goto c t) c s r r' ψ ψ' := by
  obtain ⟨-, -, -, -, -, -, hq, hw, -⟩ := hφ.elim
  constructor
  case get => exact hg
  case phase => exact hφ
  case get_new => exact hg'
  case pid => exact hp
  case fits => exact hf
  case others => intro c' hc; simp [State.goto, hc]
  case mine => simpa [State.goto] using hn
  case about => simpa [State.goto] using ha
  case expects => exact he
  case rows => exact hrw
  case owner => exact ho
  case queue => exact fun _ _ => rfl
  case queued => simp only [hu]; exact hq
  case registry => exact fun _ _ => rfl
  case registered => simp only [hr]; exact hw
  case log => exact hlg
  case logged => exact hl
  case nextPid => exact le_refl _

lemma of_modify {hf : ∀ r, (f r).slot = r.slot}
    (hg : k.table.get s = some r) (hφ : Agrees k r.pid (some ψ)) (hp : (f r).pid = r.pid)
    (hft : Fits ψ' (f r) (k.procs.owner s))
    (hn : ∀ pid slot, pid ≠ r.pid → slot ≠ s → t.duty.about pid slot = (k.task c).duty.about pid slot)
    (ha : t.duty.about r.pid s = ψ'.expects c) (he : ∀ c', c' ≠ c → ψ'.expects c' = ψ.expects c')
    (hq : ψ' = .queued ↔ ψ = .queued) (hr : ψ'.place = some .registry ↔ ψ.place = some .registry)
    (ho : ψ'.owed = ψ.owed) :
    Moves k ({ k with procs := k.procs.modify s f hf }.goto c t) c s r (f r) ψ ψ' :=
  of_procs hg hφ (by simp [Procs.modify, ProcessTable.get_modify, hg]) hp hft
    (fun i hi => by simp [Procs.modify, ProcessTable.get_modify, hi]) (fun _ _ => rfl) hn ha
    he hq hr (fun _ _ => rfl) (ho ▸ hφ.balance_eq)

lemma of_settle (h : Inv k) (hg : k.table.get s = some r)
    (hφ : Agrees k r.pid (some ψ)) (hs : st = ψ'.state) (ho : o = ψ'.owner)
    (hc : ψ'.place ≠ some .latch) (htr : ψ'.place = some .target ↔ ψ.place = some .target)
    (hn : ∀ pid slot, pid ≠ r.pid → slot ≠ s → t.duty.about pid slot = (k.task c).duty.about pid slot)
    (ha : t.duty.about r.pid s = ψ'.expects c) (he : ∀ c', c' ≠ c → ψ'.expects c' = ψ.expects c')
    (hq : ψ' = .queued ↔ ψ = .queued) (hr : ψ'.place = some .registry ↔ ψ.place = some .registry)
    (hlg : ∀ pid, pid ≠ r.pid → balance l pid = balance k.log pid)
    (hl : balance l r.pid = if ψ'.owed then 1 else 0) :
    Moves k ({ k with procs := k.procs.settle s st o, log := l }.goto c t) c s r (r.settle st) ψ
      ψ' := by
  refine of_procs hg hφ ?_ rfl ?_ ?_ ?_ hn ha he hq hr hlg hl
  · simp [Procs.settle_get, hg]
  · constructor
    case state => exact hs
    case owner_eq => simpa [Procs.settle_owner] using ho
    case latch => simp [ProcessRecord.settle, hc]
    case target => simpa [htr] using (h.fits hg hφ).target
    case placed =>
      cases ψ' with
      | blocked p => cases p <;> simp_all [Phase.wellPlaced, Phase.place]
      | _ => trivial
  · intro i hi; simp [Procs.settle_get, hi]
  · intro i hi; simp [Procs.settle_owner, hi]

lemma of_queues (hg : k.table.get s = some r) (hφ : Agrees k r.pid (some ψ)) (hf : Fits ψ' r (k.procs.owner s))
    (hn : ∀ pid slot, pid ≠ r.pid → slot ≠ s → t.duty.about pid slot = (k.task c).duty.about pid slot)
    (ha : t.duty.about r.pid s = ψ'.expects c) (he : ∀ c', c' ≠ c → ψ'.expects c' = ψ.expects c')
    (hu : ∀ pid, pid ≠ r.pid → q.pids.count pid = k.runqueue.pids.count pid)
    (hq : q.pids.count r.pid = if ψ' = .queued then 1 else 0)
    (hr : ∀ pid, pid ≠ r.pid → (w.map (·.pid)).count pid = k.waiting.count pid)
    (hrg : (w.map (·.pid)).count r.pid = if ψ'.place = some .registry then 1 else 0)
    (hlg : ∀ pid, pid ≠ r.pid → balance l pid = balance k.log pid)
    (hl : balance l r.pid = if ψ'.owed then 1 else 0) :
    Moves k ({ k with runqueue := q, waiters := w, log := l }.goto c t) c s r r ψ ψ' where
  get := hg
  phase := hφ
  get_new := hg
  pid := rfl
  fits := hf
  others c' hc := by simp [State.goto, hc]
  mine := by simpa [State.goto] using hn
  about := by simpa [State.goto] using ha
  expects := he
  rows _ _ := rfl
  owner _ _ := rfl
  queue := hu
  queued := hq
  registry := hr
  registered := hrg
  log := hlg
  logged := hl
  nextPid := le_refl _

end Moves

end ZeroOS.Kernel
