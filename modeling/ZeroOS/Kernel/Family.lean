import ZeroOS.Kernel.Protocol

/-!
# Families of processes and the spaces they share

The results about parents, thread groups and address spaces do not look at queues, owner words or
wake-ups. `Family` keeps what they do look at: of each record its pid, group, space, parent and
whether it is dead; of each task the records and spaces the CPU has in its hands; the group every
space was built for; what is loaded in `TTBR0_EL1`; and which spaces were attached and destroyed.

`LifeStep` lists what one step of the machine can do to a family. Most steps do nothing to it.
-/

namespace ZeroOS.Kernel

open ZeroOS.Process Function

/-! ## The abstract state -/

/-- What a record says about the life of a process. -/
structure Life where
  pid : Nat
  tgid : Nat
  space : Option Nat
  parent : Option Nat
  zombie : Bool
  deriving DecidableEq

/-- The record a new process is made from. `tgid` is known where the new process joins the group. -/
structure Origin where
  slot : Option Nat
  pid : Nat
  tgid : Option Nat
  deriving DecidableEq

/-- A record `full_reap` has taken out of the table. -/
structure Reaped where
  pid : Nat
  tgid : Nat
  space : Option Nat
  deriving DecidableEq

structure Hand where
  /-- The slot of the process whose address space is loaded. -/
  runs : Option Nat := none
  origin : Option Origin := none
  /-- A pid allocated for a record that is not in the table yet. -/
  reserved : Option Nat := none
  /-- A space that is built and belongs to no record yet. -/
  fresh : Option Nat := none
  /-- The slot and pid of a spawned record whose image is being built. -/
  builds : Option (Nat × Nat) := none
  /-- The slot whose `Exec` was accepted. -/
  execs : Option Nat := none
  /-- The space of a new image, about to be loaded. -/
  image : Option Nat := none
  reaped : Option Reaped := none
  /-- Spaces to be destroyed. -/
  doomed : List Nat := []
  deriving DecidableEq

/-- Processes, the spaces of their groups, and what the CPUs have in hand. -/
structure Family where
  row : Nat → Option Life
  hand : Nat → Hand
  /-- The group each space was built for. -/
  group : List Nat
  ttbr : Nat → Option Nat
  attached : List Nat
  graves : List Nat
  next : Nat

/-! ## What the machine shows of it -/

def Life.of (r : ProcessRecord) : Life := ⟨r.pid, r.tgid, r.addrSpace, r.parent, r.state == .zombie⟩

/-- A CPU that returns to a process has its space loaded. -/
def Back.runs : Back → Option Nat
  | .user slot => some slot
  | _ => none

def Task.hand : Task → Hand
  | .boot | .sched | .dispatching _ | .entering _ | .activating _ | .requeue _ | .yieldPush _ _
  | .exitDecide _ _ | .deliver _ _ _ | .reapSeed _ | .reapNext _ _ => {}
  | .user slot | .registered slot | .blockSwitch slot | .blockFinish slot | .yieldSwitch slot
  | .yieldRelease slot | .exitSwitch slot _ | .exitRelease slot _ => { runs := some slot }
  | .waking _ back | .wakePush _ _ _ back | .enqueueing _ back => { runs := back.runs }
  | .spawnBuild slot pid parent back =>
    { runs := back.runs, origin := parent.map (⟨back.runs, ·, none⟩), builds := some (slot, pid) }
  | .spawnParent _ parent back => { runs := back.runs, origin := parent.map (⟨back.runs, ·, none⟩) }
  | .forkInsert slot parent pid space =>
    { runs := some slot, origin := some ⟨some slot, parent.pid, some parent.tgid⟩, reserved := some pid, fresh := space }
  | .threadCheck slot parent => { runs := some slot, origin := some ⟨some slot, parent.pid, some parent.tgid⟩ }
  | .threadInsert slot parent pid =>
    { runs := some slot, origin := some ⟨some slot, parent.pid, some parent.tgid⟩, reserved := some pid }
  | .execBuild slot => { runs := some slot, execs := some slot }
  | .execRebind slot space => { runs := some slot, execs := some slot, fresh := some space }
  | .execActivate slot space old => { runs := some slot, execs := some slot, image := some space, doomed := old.toList }
  | .execDestroy slot old => { runs := some slot, execs := some slot, doomed := old.toList }
  | .waitDestroy slot space => { runs := some slot, doomed := space.toList }
  | .zombieDestroy _ space _ _ => { doomed := space.toList }
  | .reapTransfer _ _ record casc =>
    { reaped := some ⟨record.pid, record.tgid, record.addrSpace⟩
      doomed := casc.filterMap (·.addrSpace) }
  | .reapDestroy _ _ pending => { doomed := pending }

/-- The spaces an event log says were attached. -/
def attachedIn (log : List Obs) : List Nat := log.filterMap fun
    | .attached space => some space
    | _ => none

/-- The spaces an event log says were destroyed. -/
def gravesIn (log : List Obs) : List Nat := log.filterMap fun
    | .destroyed space => some space
    | _ => none

def State.family (k : State) : Family where
  row i := (k.table.get i).map Life.of
  hand c := (k.task c).hand
  group := k.spaces
  ttbr := k.ttbr
  attached := attachedIn k.log
  graves := gravesIn k.log
  next := k.nextPid

lemma State.row_of_get {k : State} (hr : k.table.get s = some r) :
    k.family.row s = some (Life.of r) := by
  simp [State.family, hr]

/-! ## Steps -/

namespace Family

@[simps] def take (f : Family) (c : Nat) (h : Hand) : Family :=
  { f with hand := update f.hand c h }

@[simps] def put (f : Family) (i : Nat) (l : Option Life) : Family :=
  { f with row := update f.row i l }

/-- No CPU runs the process at the slot or builds its image. -/
def Unused (f : Family) (s : Nat) : Prop := ∀ c, (f.hand c).runs ≠ some s ∧ ∀ p, (f.hand c).builds ≠ some (s, p)

/-- The slot is run by this CPU, and no CPU builds its image. -/
def RunBy (f : Family) (c s : Nat) : Prop := (f.hand c).runs = some s ∧
    ∀ c', ((f.hand c').runs = some s → c' = c) ∧ ∀ p, (f.hand c').builds ≠ some (s, p)

/-- A space that a dying record carried goes to the member of its group that `heir` names, or stays
in hand if it names none. -/
inductive Transfer (f : Family) (tgid dying : Nat) :
    Option Nat → Option Nat → Option Nat → Family → Prop
  | nothing (heir : Option Nat) : Transfer f tgid dying heir none none f
  | kept {space : Nat} (hnone : ∀ j m, f.row j = some m → m.tgid = tgid → m.pid ≠ dying →
      m.space ≠ none) : Transfer f tgid dying none (some space) (some space) f
  | given {space j : Nat} {m : Life} (hm : f.row j = some m) (hg : m.tgid = tgid)
      (hp : m.pid ≠ dying) (hs : m.space = none) :
      Transfer f tgid dying (some j) (some space) none
        (f.put j (some { m with space := some space }))

end Family

def Life.zombify (l : Life) : Life := { l with space := none, zombie := true }

/-- The row of a process that is put back for `full_reap`. -/
def Life.retire (l : Life) : Life := { l with space := none }

/-- What becomes of a row when `dying` is reaped. -/
def Life.orphan (dying : Nat) (l : Life) : Option Life :=
  if l.parent = some dying then
    if l.zombie then none else some { l with parent := some initPid }
  else some l

/-- What a step of CPU `c` does to the family. -/
inductive LifeStep (k : State) (c : Nat) (a : Act) : Family → Prop
  | /-- Nothing but the CPU's own task changes, and it holds on to no more than its process. -/
    rest {o : Option Nat} {n : Nat} (hreaped : (k.family.hand c).reaped = none)
      (hdoomed : (k.family.hand c).doomed = []) (ho : o = none ∨ o = (k.family.hand c).runs)
      (hn : k.family.next ≤ n) : LifeStep k c a { k.family.take c { runs := o } with next := n }
  | /-- A dispatched process gets its address space loaded. -/
    load {s : Nat} {l : Life} {q : Option Nat} (hhand : k.family.hand c = {})
      (hl : k.family.row s = some l) (hlive : l.zombie = false)
      (hsp : ∀ σ, q = some σ → ∃ j m, k.family.row j = some m ∧ m.tgid = l.tgid ∧ m.space = some σ) :
      LifeStep k c a { k.family.take c { runs := some s } with ttbr := update k.family.ttbr c q }
  | snapshot {s : Nat} {l : Life} (hhand : k.family.hand c = { runs := some s })
      (hl : k.family.row s = some l) (hlive : l.zombie = false) :
      LifeStep k c a (k.family.take c
        { runs := some s, origin := some ⟨some s, l.pid, some l.tgid⟩ })
  | reserve {s : Nat} {o : Origin} {n : Nat}
      (hhand : k.family.hand c = { runs := some s, origin := some o }) (hn : k.family.next < n) :
      LifeStep k c a { k.family.take c
        { runs := some s, origin := some o, reserved := some k.family.next } with next := n }
  | /-- `fork` of a process that carries no space. -/
    fork {s n : Nat} {l : Life} (hhand : k.family.hand c = { runs := some s })
      (hl : k.family.row s = some l) (hlive : l.zombie = false) (hn : k.family.next < n) :
      LifeStep k c a { k.family.take c
        { runs := some s, origin := some ⟨some s, l.pid, some l.tgid⟩
          reserved := some k.family.next } with next := n }
  | /-- `fork` with the clone of the parent's space. -/
    forkClone {s n : Nat} {l : Life} (hhand : k.family.hand c = { runs := some s })
      (hl : k.family.row s = some l) (hlive : l.zombie = false) (hn : k.family.next < n) :
      LifeStep k c a { k.family.take c
        { runs := some s, origin := some ⟨some s, l.pid, some l.tgid⟩
          reserved := some k.family.next, fresh := some k.family.group.length } with
        next := n, group := k.family.group ++ [k.family.next] }
  | spawn {i n : Nat} {r : Option Nat} {o : Option Origin} {b : Option (Nat × Nat)}
      (hhand : k.family.hand c = { runs := r }) (hi : k.family.row i = none) (hn : k.family.next < n)
      (ho : ∀ o', o = some o' → ∃ s l, r = some s ∧ k.family.row s = some l ∧ l.zombie = false ∧ o' = ⟨some s, l.pid, none⟩)
      (hb : ∀ q, b = some q → q = (i, k.family.next)) :
      LifeStep k c a { (k.family.take c { runs := r, origin := o, builds := b }).put i
        (some ⟨k.family.next, k.family.next, none, none, false⟩) with next := n }
  | configure {i p : Nat} {l : Life} {r : Option Nat} {o : Option Origin}
      (hhand : k.family.hand c = { runs := r, origin := o, builds := some (i, p) })
      (hl : k.family.row i = some l)
      (hinj : ∀ c', c' ≠ c → ∀ q, (k.family.hand c').builds ≠ some (i, q)) :
      LifeStep k c a { (k.family.take c { runs := r, origin := o }).put i
        (some { l with space := some k.family.group.length }) with
        group := k.family.group ++ [p], attached := k.family.group.length :: k.family.attached }
  | setParent {i : Nat} {l : Life} {r : Option Nat} {o : Origin}
      (hhand : k.family.hand c = { runs := r, origin := some o }) (hl : k.family.row i = some l) :
      LifeStep k c a ((k.family.take c { runs := r }).put i (some { l with parent := some o.pid }))
  | insertFork {i s p : Nat} {o : Origin} {sp : Option Nat}
      (hhand : k.family.hand c =
        { runs := some s, origin := some o, reserved := some p, fresh := sp })
      (hi : k.family.row i = none) :
      LifeStep k c a { (k.family.take c { runs := some s }).put i
        (some ⟨p, p, sp, some o.pid, false⟩) with attached := sp.toList ++ k.family.attached }
  | insertThread {i s p g : Nat} {o : Origin}
      (hhand : k.family.hand c = { runs := some s, origin := some o, reserved := some p })
      (ho : o.slot = some s) (hg : o.tgid = some g) (hrun : k.family.RunBy c s)
      (hi : k.family.row i = none) :
      LifeStep k c a ((k.family.take c { runs := some s }).put i
        (some ⟨p, g, none, some o.pid, false⟩))
  | /-- The guard of `Exec` passes. -/
    exec {s : Nat} {l : Life} (ht : k.task c = .user s) (ha : a = .exec)
      (hl : k.family.row s = some l) (hlive : l.zombie = false) (hcarries : l.space ≠ none) :
      LifeStep k c a (k.family.take c { runs := some s, execs := some s })
  | execBuilt {s : Nat} {l : Life} (hhand : k.family.hand c = { runs := some s, execs := some s })
      (hl : k.family.row s = some l) (hrun : k.family.RunBy c s) :
      LifeStep k c a { k.family.take c
        { runs := some s, execs := some s, fresh := some k.family.group.length } with
        group := k.family.group ++ [l.tgid] }
  | rebind {s σ : Nat} {l : Life}
      (hhand : k.family.hand c = { runs := some s, execs := some s, fresh := some σ })
      (hl : k.family.row s = some l) (hrun : k.family.RunBy c s) :
      LifeStep k c a { (k.family.take c
        { runs := some s, execs := some s, image := some σ, doomed := l.space.toList }).put s
          (some { l with space := some σ }) with attached := σ :: k.family.attached }
  | execLoad {s σ : Nat} {d : List Nat} (hhand : k.family.hand c =
        { runs := some s, execs := some s, image := some σ, doomed := d }) :
      LifeStep k c a { k.family.take c { runs := some s, execs := some s, doomed := d } with
        ttbr := update k.family.ttbr c (some σ) }
  | destroy {s : Nat} {d : List Nat} (hreaped : (k.family.hand c).reaped = none)
      (hdoomed : (k.family.hand c).doomed = s :: d) :
      LifeStep k c a { k.family.take c { runs := (k.family.hand c).runs, doomed := d } with
        graves := s :: k.family.graves }
  | /-- `waitpid` takes a zombie child. -/
    collect {s i target flags packed : Nat} {me : ProcessRecord} {l : Life}
      (ht : k.task c = .user s) (ha : a = .wait target flags) (hme : k.table.get s = some me)
      (hplan : waitPlan me.pid target flags k.table.views = .collect i packed)
      (hl : k.family.row i = some l) (hz : l.zombie = true) :
      LifeStep k c a ((k.family.take c { runs := some s, doomed := l.space.toList }).put i none)
  | zombify {s : Nat} {status : Int} {me : ProcessRecord} {out : Option Nat} {f : Family}
      (ht : k.task c = .exitDecide s status) (hme : k.table.get s = some me)
      (hlive : me.state ≠ .zombie) (hfree : k.family.Unused s)
      (hparent : ∃ p r, me.parent = some p ∧ k.table.lookup p = some r ∧ r.state ≠ .zombie)
      (hmove : Family.Transfer (k.family.put s (some (Life.of me).zombify)) me.tgid me.pid
        ((k.table.modify s (·.zombify status)).groupSurvivorIndex me.tgid me.pid)
        me.addrSpace out f) :
      LifeStep k c a (f.take c { doomed := out.toList })
  | retire {s : Nat} {status : Int} {me : ProcessRecord} {out : Option Nat} {f : Family}
      (ht : k.task c = .exitDecide s status) (hme : k.table.get s = some me)
      (hlive : me.state ≠ .zombie) (hfree : k.family.Unused s)
      (hplan : k.table.dispositionOf me = .reapImmediately)
      (hmove : Family.Transfer (k.family.put s (some (Life.of me).retire)) me.tgid me.pid
        ((k.table.modify s (·.retire status)).groupSurvivorIndex me.tgid me.pid)
        me.addrSpace out f) :
      LifeStep k c a f
  | /-- The result of a zombie is delivered and its record consumed. -/
    deliver {s p packed : Nat} {l : Life} (ht : k.task c = .deliver s p packed)
      (hl : k.family.row s = some l) (hz : l.zombie = true) :
      LifeStep k c a ((k.family.take c {}).put s none)
  | /-- The first round of `full_reap`. -/
    reap {s : Nat} {me : ProcessRecord} {zs : List Nat} (ht : k.task c = .reapSeed s)
      (hme : k.table.get s = some me) (hfree : k.family.Unused s) (hlt : me.pid < k.family.next)
      (hpid : ∀ j m, k.family.row j = some m → m.pid = me.pid → j = s)
      (hres : ∀ c', (k.family.hand c').reserved ≠ some me.pid)
      (hzs : zs.Nodup) (hmem : ∀ i, i ∈ zs ↔ i ≠ s ∧ ∃ l, k.family.row i = some l ∧ l.parent = some me.pid ∧ l.zombie = true) :
      LifeStep k c a { k.family.take c
        { reaped := some ⟨me.pid, me.tgid, me.addrSpace⟩
          doomed := zs.filterMap fun i => (k.family.row i).bind Life.space } with
        row := fun i => if i = s then none else (k.family.row i).bind (Life.orphan me.pid) }
  | transfer {seed : Nat} {stack : List Nat} {record : ProcessRecord} {casc : List ProcessRecord}
      {out : Option Nat} {f : Family} (ht : k.task c = .reapTransfer seed stack record casc)
      (hmove : Family.Transfer k.family record.tgid record.pid
        (k.table.groupSurvivorIndex record.tgid record.pid) record.addrSpace out f) :
      LifeStep k c a (f.take c { doomed := out.toList ++ casc.filterMap (·.addrSpace) })

end ZeroOS.Kernel
