import ZeroOS.Lib.Prog
import ZeroOS.Memory.Refs
import ZeroOS.Memory.Space

/-!
# The paging code

The code that maps, forks and takes apart user address spaces, as programs over the calls and stores
it makes: a call of the page allocator, a read of an entry of a page table, a store to one, a copy of
a page. Every such action is atomic, and none of the code holds a lock across two of them.

Three things are taken together because nobody else can see them half done. A new space is a set of
pages only its creator knows until `newSpace` puts it among the others, and `takeSpace` takes one out
again before its pages are given back. A page table page is zeroed before it is hung into its slot,
and the slot is empty before. `bbm_update_page` makes a leaf invalid, waits, and writes it: one store.

An action without a result is an assertion of the kernel that fails.
-/

namespace ZeroOS.Memory

open Atomic Atomic.Prog Function List

abbrev Page := Nat → BitVec 8

/-- Physical memory, and the user address spaces by the address of their root table. -/
structure Mm where
  phys : PhysBitmap
  mem : Nat → Page
  live : Finset Nat
  space : Nat → Space

inductive MapError
  | outOfMemory
  | alreadyMapped
  | kernelRegion
  deriving DecidableEq, Repr

/-! ## Actions -/

inductive Act
  | allocPage
  | freePage (pa : Nat)
  | retainPage (pa : Nat)
  | refCount (pa : Nat)
  | writePage (pa : Nat) (f : Page → Page)
  | copyPage (src dst : Nat)
  | readTable (root : Nat) (sl : Slot)
  | setTable (root : Nat) (sl : Slot) (t : Nat)
  | readPte (root v : Nat)
  | setPte (root v : Nat) (desc : BitVec 64)
  | bbmUpdatePage (root v : Nat) (desc : BitVec 64)
  | newSpace (root : Nat) (s : Space)
  | takeSpace (root : Nat)
  | assert (holds : Bool)

def Resp : Act → Type
  | .allocPage => Option Nat
  | .refCount _ => Nat
  | .readTable _ _ => Option Nat
  | .readPte _ _ => BitVec 64
  | .takeSpace _ => Space
  | _ => Unit

namespace Mm

def withSpace (m : Mm) (root : Nat) (s : Space) : Mm :=
  { m with space := update m.space root s }

def storePte (m : Mm) (root v : Nat) (desc : BitVec 64) : Option Mm :=
  if h : root ∈ m.live ∧ (m.space root).table (.l3 (v / 512)) ≠ none then
    some (m.withSpace root ((m.space root).setPte v desc h.2))
  else none

def exec : (a : Act) → Mm → Option (Resp a × Mm)
  | .allocPage, m =>
    match m.phys.allocPage with
    | .ok (x, b) => some (x, { m with phys := b })
    | .error _ => none
  | .freePage pa, m =>
    match m.phys.freePage pa with
    | .ok b => some ((), { m with phys := b })
    | .error _ => none
  | .retainPage pa, m =>
    match m.phys.retainPage pa with
    | .ok b => some ((), { m with phys := b })
    | .error _ => none
  | .refCount pa, m => some (m.phys.refCount pa, m)
  | .writePage pa f, m => some ((), { m with mem := update m.mem pa (f (m.mem pa)) })
  | .copyPage src dst, m => some ((), { m with mem := update m.mem dst (m.mem src) })
  | .readTable root sl, m => if root ∈ m.live then some ((m.space root).table sl, m) else none
  | .setTable root sl t, m =>
    if h : root ∈ m.live ∧ (m.space root).Accepts sl then
      some ((), m.withSpace root ((m.space root).setTable sl t h.2))
    else none
  | .readPte root v, m => if root ∈ m.live then some ((m.space root).pte v, m) else none
  | .setPte root v desc, m => (m.storePte root v desc).map fun m' => ((), m')
  | .bbmUpdatePage root v desc, m =>
    if isValid ((m.space root).pte v) then (m.storePte root v desc).map fun m' => ((), m') else none
  | .newSpace root s, m =>
    if root ∈ m.live then none
    else some ((), { m.withSpace root s with live := insert root m.live })
  | .takeSpace root, m => if root ∈ m.live then some (m.space root, { m with live := m.live.erase root }) else none
  | .assert holds, m => if holds then some ((), m) else none

end Mm

/-- Kernel code that returns an `α`. -/
abbrev Code := Prog Act Resp

def allocPage : Code (Option Nat) := .act .allocPage .ret
def freePage (pa : Nat) : Code Unit := .act (.freePage pa) .ret
def retainPage (pa : Nat) : Code Unit := .act (.retainPage pa) .ret
def refCount (pa : Nat) : Code Nat := .act (.refCount pa) .ret
def writePage (pa : Nat) (f : Page → Page) : Code Unit := .act (.writePage pa f) .ret
def copyPage (src dst : Nat) : Code Unit := .act (.copyPage src dst) .ret
def readTable (root : Nat) (sl : Slot) : Code (Option Nat) := .act (.readTable root sl) .ret
def setTable (root : Nat) (sl : Slot) (t : Nat) : Code Unit := .act (.setTable root sl t) .ret
def readPte (root v : Nat) : Code (BitVec 64) := .act (.readPte root v) .ret
def setPte (root v : Nat) (desc : BitVec 64) : Code Unit := .act (.setPte root v desc) .ret
def bbmUpdatePage (root v : Nat) (desc : BitVec 64) : Code Unit := .act (.bbmUpdatePage root v desc) .ret
def newSpace (root : Nat) (s : Space) : Code Unit := .act (.newSpace root s) .ret
def takeSpace (root : Nat) : Code Space := .act (.takeSpace root) .ret
def assert (holds : Bool) : Code Unit := .act (.assert holds) .ret

def zeroes : Page := fun _ => 0#8

/-! ## Creating a space -/

/-- The body of the loop of `clone_kernel_l2_0_snapshot`: the copies so far, or the error after they
were given back. -/
def copyKernelTables (K : Kernel) (dst : Nat) :
    List Nat → List (Nat × Nat) → Code (Except MapError (List (Nat × Nat)))
  | [], l3s => return .ok l3s
  | i :: rest, l3s =>
    match K.l2 i with
    | .word _ => copyKernelTables K dst rest l3s
    | .pages _ => do
        match ← allocPage with
        | some t => copyKernelTables K dst rest (l3s ++ [(i, t)])
        | none =>
          each (fun e => freePage e.2) l3s
          freePage dst
          return .error .outOfMemory

/-- `clone_kernel_l2_0_snapshot`: the page of the new table, and those of the tables below. -/
def cloneKernelL20Snapshot (K : Kernel) : Code (Except MapError (Nat × List (Nat × Nat))) := do
  match ← allocPage with
  | none => return .error .outOfMemory
  | some dst => (copyKernelTables K dst (range 512) []).tryBind fun l3s => return .ok (dst, l3s)

/-- `create_user_address_space_fallible`. -/
def createUserAddressSpace (K : Kernel) : Code (Except MapError Nat) := do
  match ← allocPage with
  | none => return .error .outOfMemory
  | some l0 =>
    match ← allocPage with
    | none =>
      freePage l0
      return .error .outOfMemory
    | some l1 =>
      match ← cloneKernelL20Snapshot K with
      | .error e =>
        freePage l1
        freePage l0
        return .error e
      | .ok (l2, l3s) =>
        newSpace l0 (Space.snapshot K l1 l2 l3s)
        return .ok l0

/-! ## Mapping -/

/-- The table below an entry, which is made if there is none. -/
def ensureTable (root : Nat) (sl : Slot) : Code (Except MapError Nat) := do
  match ← readTable root sl with
  | some t => return .ok t
  | none =>
    match ← allocPage with
    | none => return .error .outOfMemory
    | some t =>
      setTable root sl t
      return .ok t

def ensureChildTable (root : Nat) (sl : Slot) : Code (Except MapError Nat) := ensureTable root sl

/-- `ensure_user_leaf_table`: a block of the kernel counts as no table. -/
def ensureUserLeafTable (root : Nat) (sl : Slot) : Code (Except MapError Nat) := ensureTable root sl

/-- The end of `install_leaf_descriptor`: only a borrowed leaf is replaced. -/
def installLeaf (root v : Nat) (desc : BitVec 64) : Code (Except MapError Unit) := do
  let old ← readPte root v
  if isValid old then
    if old &&& descSwBorrowed = 0#64 then return .error .alreadyMapped
    else
      bbmUpdatePage root v desc
      return .ok ()
  else
    setPte root v desc
    return .ok ()

def installLeafDescriptor (root virt : Nat) (desc : BitVec 64) : Code (Except MapError Unit) := do
  assert (virt % pageSize = 0)
  let v := vpn virt
  if l0Idx v = 0 ∧ isKernelSharedL1 (l1Idx v) then return .error .kernelRegion
  else
    (ensureChildTable root (.l1 (v / 512 ^ 3))).tryBind fun _ =>
      (ensureChildTable root (.l2 (v / 512 ^ 2))).tryBind fun _ =>
        (ensureUserLeafTable root (.l3 (v / 512))).tryBind fun _ => installLeaf root v desc

def mapPhysicalPage (root virt phys : Nat) (ap : BitVec 64) (executable : Bool) :
    Code (Except MapError Unit) :=
  installLeafDescriptor root virt (makeLeafDescriptor phys ap executable)

/-- `map_page_phys`, which is `map_user_phys_page`. -/
def mapPagePhys (root virt phys : Nat) (writable executable : Bool) : Code (Except MapError Unit) :=
  mapPhysicalPage root virt phys (if writable then userApRw else userApRx) executable

/-- `align_up` to a page, in pages. -/
def pagesOf (size : Nat) : Nat := (size + (pageSize - 1)) / pageSize

/-- The body of the loop of `map_zero_region`. An error comes with the page that is in hand. -/
def mapZeroPage (root virt : Nat) (ap : BitVec 64) : Code (Except (MapError × Option Nat) Unit) := do
  match ← allocPage with
  | none => return .error (.outOfMemory, none)
  | some phys =>
    writePage phys fun _ => zeroes
    match ← mapPhysicalPage root virt phys ap false with
    | .error e => return .error (e, some phys)
    | .ok () => return .ok ()

/-- The loop of `map_zero_region`. -/
def mapZeroPages (root base size : Nat) (ap : BitVec 64) : Code (Except (MapError × Option Nat) Unit) := do
  assert (base % pageSize = 0)
  forEach (fun i => mapZeroPage root (base + i * pageSize) ap) (range (pagesOf size))

/-- `map_zero_region`, which returns the error alone. -/
def mapZeroRegion (root base size : Nat) (ap : BitVec 64) : Code (Except MapError Unit) :=
  if size = 0 then return .ok ()
  else do
    match ← mapZeroPages root base size ap with
    | .error (e, _) => return .error e
    | .ok () => return .ok ()

/-! ## Taking spaces apart -/

/-- The leaves of one table, in `destroy_user_address_space`. -/
def freeLeaves (s : Space) (k : Nat) : Code Unit := each (fun i3 =>
    let pte := s.pte (k * 512 + i3)
    if isValid pte ∧ pte &&& (descSwDevice ||| descSwBorrowed) = 0#64 then freePage (physOf pte)
    else return ()) (range 512)

def destroyUserAddressSpace (root : Nat) : Code Unit := do
  let s ← takeSpace root
  match s.table (.l1 0) with
  | none => freePage root
  | some l1 =>
    each (fun i1 =>
      if isKernelSharedL1 i1 then return ()
      else
        match s.table (.l2 i1) with
        | none => return ()
        | some l2 => do
            each (fun i2 =>
              match s.table (.l3 (i1 * 512 + i2)) with
              | none => return ()
              | some l3 => do
                  freeLeaves s (i1 * 512 + i2)
                  freePage l3) (range 512)
            freePage l2) (range 512)
    freePage l1
    freePage root

/-- The body of the loop of `clear_user_leaf_range`. -/
def clearUserLeaf (root va : Nat) : Code Unit := do
  let v := vpn va
  if isKernelSharedL1 (l1Idx v) then return ()
  else
    match ← readTable root (.l1 (v / 512 ^ 3)) with
    | none => return ()
    | some _ =>
      match ← readTable root (.l2 (v / 512 ^ 2)) with
      | none => return ()
      | some _ =>
        match ← readTable root (.l3 (v / 512)) with
        | none => return ()
        | some _ =>
          let pte ← readPte root v
          if isValid pte ∧ isTable pte then
            setPte root v 0#64
            freePage (physOf pte)
          else return ()

def unmapUserRange (root start stop : Nat) : Code Unit := do
  assert (start ≤ stop && start % pageSize == 0 && stop % pageSize == 0)
  each (fun i => clearUserLeaf root (start + i * pageSize)) (range ((stop - start) / pageSize))

/-! ## Fork and copy on write -/

/-- What `clone_user_address_space` does with one leaf of the parent. -/
def cloneLeaf (parent child v : Nat) : Code (Except MapError Unit) := do
  let pte ← readPte parent v
  if isValid pte = false then return .ok ()
  else
    let src := physOf pte
    let va := v * pageSize
    let executable := decide (pte &&& descUxn = 0#64)
    match classifyLeaf pte with
    | .borrowedDirect => installLeafDescriptor child va pte
    | .cowShare =>
      retainPage src
      match ← installLeafDescriptor child va (cowShareLeaf pte) with
      | .error e =>
        freePage src
        return .error e
      | .ok () =>
        bbmUpdatePage parent v (cowShareLeaf pte)
        return .ok ()
    | .readOnlyDirect =>
      retainPage src
      match ← installLeafDescriptor child va (makeLeafDescriptor src userApRx executable) with
      | .error e =>
        freePage src
        return .error e
      | .ok () => return .ok ()
    | .skipDevice => return .ok ()
    | .eagerCopy =>
      match ← allocPage with
      | none => return .error .outOfMemory
      | some dst =>
        copyPage src dst
        match ← installLeafDescriptor child va (makeLeafDescriptor dst (apOf pte) executable) with
        | .error e =>
          freePage dst
          return .error e
        | .ok () => return .ok ()

/-- The loops of `clone_user_address_space`. -/
@[irreducible]
def cloneLeaves (parent child : Nat) : Code (Except MapError Unit) := forEach (fun i1 =>
    if isKernelSharedL1 i1 then return .ok ()
    else do
      match ← readTable parent (.l2 i1) with
      | none => return .ok ()
      | some _ =>
        forEach (fun i2 => do
          match ← readTable parent (.l3 (i1 * 512 + i2)) with
          | none => return .ok ()
          | some _ => forEach (fun i3 => cloneLeaf parent child ((i1 * 512 + i2) * 512 + i3)) (range 512))
          (range 512)) (range 512)

def cloneUserAddressSpace (K : Kernel) (parent : Nat) : Code (Except MapError Nat) :=
  (createUserAddressSpace K).tryBind fun child => do
    match ← readTable parent (.l1 0) with
    | none =>
      destroyUserAddressSpace child
      return .error .outOfMemory
    | some _ =>
      match ← cloneLeaves parent child with
      | .error e =>
        destroyUserAddressSpace child
        return .error e
      | .ok () => return .ok child

def handleCowFault (root va : Nat) : Code Bool := do
  let v := vpn va
  if l0Idx v ≠ 0 ∨ isKernelSharedL1 (l1Idx v) then return false
  else
    match ← readTable root (.l1 (v / 512 ^ 3)) with
    | none => return false
    | some _ =>
      match ← readTable root (.l2 (v / 512 ^ 2)) with
      | none => return false
      | some _ =>
        match ← readTable root (.l3 (v / 512)) with
        | none => return false
        | some _ =>
          let pte ← readPte root v
          if isValid pte = false ∨ isCowLeaf pte = false then return false
          else
            let oldPa := physOf pte
            let rc ← refCount oldPa
            if 1 < rc then
              match ← allocPage with
              | none => return false
              | some dst =>
                copyPage oldPa dst
                freePage oldPa
                bbmUpdatePage root v (cowBreakLeaf pte dst)
                return true
            else
              bbmUpdatePage root v (cowBreakLeaf pte oldPa)
              return true

end ZeroOS.Memory
