import ZeroOS.Fs.Allocator
import ZeroOS.Fs.Banks

/-!
# A mounted volume

A volume has the directory, the allocator and the snapshots in memory, and the device has the data
blocks and the banks. An operation is a function of the volume; what it does to the device is the list
of its writes, in their order. The device may refuse a write, and then the operation undoes what it
has done in memory. `fault` says how many writes of an operation the device takes before it refuses
one; a write it refuses leaves the block as it was.

Every change of the directory is one transaction: write the data to new blocks, change the directory
in memory, store it (`persistMetadata`), and only then give back the blocks nobody needs any more.
Snapshots are in memory only, and so is what `restoreSnapshot` does.

The digest and the checksum are parameters. Failures to read a block are left out, and so is the
journal in memory, which only statistics read.
-/

namespace ZeroOS.Fs

open Wire Disk

/-! ## The superblock -/

/-- The fields of the superblock that are read. -/
structure SuperBlock where
  blockSize : UInt32
  clusterSize : UInt32
  deriving DecidableEq

def superblockMagic : Bytes := "ZFS00   ".toList.map fun c => UInt8.ofNat c.toNat

def superblockSize : Nat := 120

def parseSuperblock (raw : Bytes) : Option SuperBlock :=
  if raw.length < superblockSize then none
  else if raw.take 8 ≠ superblockMagic then none
  else some ⟨UInt32.ofNat (ofLe ((raw.drop 12).take 4)), UInt32.ofNat (ofLe ((raw.drop 16).take 4))⟩

def createDefaultSuperblock (blockSize : Nat) : SuperBlock := ⟨UInt32.ofNat blockSize, 4096⟩

/-- The bytes of a superblock; the fields that nothing reads are those of `create_default_superblock`. -/
def superblockBytes (sb : SuperBlock) : Bytes :=
  superblockMagic ++ (le 4 2 ++ (le 4 sb.blockSize.toNat ++ (le 4 sb.clusterSize.toNat ++ (le 4 0 ++
    (le 8 1 ++ (le 8 1 ++ (le 8 0 ++ (List.replicate 16 0 ++ (le 8 1 ++ (le 8 4 ++ (le 8 0 ++
    (le 4 0 ++ (le 4 0 ++ List.replicate 24 0)))))))))))))

/-! ## Volumes -/

structure Snapshot where
  id : UInt64
  logicalTime : UInt64
  allocator : BlockAllocator
  directory : Entries

structure MountOptions where
  reservedBlocks : List Nat
  verifySignatures : Bool

structure Volume where
  allocator : BlockAllocator
  directory : DirectoryIndex
  snapshots : List Snapshot
  nextSnapshot : UInt64
  options : MountOptions
  blockSize : Nat
  nextInode : UInt64
  logicalTime : UInt64
  generation : UInt64

/-- What an operation returns, the volume after it, and the writes the device has taken. -/
structure Outcome where
  result : Except ZfsError Unit
  volume : Volume
  writes : List (Nat × Bytes)

def accepted (fault : Option Nat) (ws : List (Nat × Bytes)) : List (Nat × Bytes) :=
  match fault with
  | none => ws
  | some n => ws.take n

/-- The device refuses one of the writes. -/
def refuses (fault : Option Nat) (ws : List (Nat × Bytes)) : Bool :=
  match fault with
  | none => false
  | some n => decide (n < ws.length)

/-- What is left of the patience of the device. -/
def later (fault : Option Nat) (ws : List (Nat × Bytes)) : Option Nat := fault.map (· - ws.length)

/-- `DirectoryEntry::new` for a new inode. -/
def newEntry (v : Volume) (kind : InodeKind) (mode : UInt32) (size : Nat) (blocks : List Nat)
    (signature : Option Digest) : DirectoryEntry where
  inode :=
    { id := v.nextInode
      kind := kind
      size := UInt64.ofNat size
      mode := mode
      uid := 0
      gid := 0
      links := 1
      ctime := satSucc v.logicalTime
      mtime := satSucc v.logicalTime }
  blocks := blocks
  signature := signature

/-- `saturating_sub(1).max(2)`. -/
def backInode (n : UInt64) : UInt64 := max (if n.toNat = 0 then n else n - 1) 2

/-- A slice of bytes: no object in memory is longer than `isize::MAX`. -/
def Slice : Type := { data : Bytes // data.length < 2 ^ 63 }

namespace Volume

variable (G : Geometry) (crc : Bytes → UInt32) (sha : Bytes → Digest) (v : Volume)

def persistMetadata (fault : Option Nat) : Outcome :=
  match store G crc v.generation v.directory.entries v.nextInode v.logicalTime with
  | .error e => ⟨.error e, v, []⟩
  | .ok (next, ws) =>
    if refuses fault ws then ⟨.error .device, v, accepted fault ws⟩
    else ⟨.ok (), { v with generation := next }, ws⟩

/-- The end of a transaction: the directory is stored, and then the transaction is undone or
finished. -/
def commit (fault : Option Nat) (before : List (Nat × Bytes)) (undo finish : Volume → Volume) : Outcome :=
  let out := v.persistMetadata G crc (later fault before)
  match out.result with
  | .error e => ⟨.error e, undo out.volume, before ++ out.writes⟩
  | .ok () => ⟨.ok (), finish out.volume, before ++ out.writes⟩

/-- The operation returns before it has changed anything. -/
def refuse (e : ZfsError) : Outcome := ⟨.error e, v, []⟩

def readFile (d : Nat → Bytes) (path : Path) : Except ZfsError Bytes :=
  match v.directory.get path with
  | none => .error .notFound
  | some entry =>
    if entry.kind ≠ .file then .error .unsupported
    else if v.blockSize ≠ G.blockSize ∧ entry.blocks ≠ [] then .error .device
    else .ok (read v.blockSize d entry.blocks entry.size)

def references (block : Nat) : Bool :=
  v.snapshots.any fun s => s.directory.toList.any fun item => decide (block ∈ item.2.blocks)

/-- The blocks of an entry that no snapshot needs are given back. -/
def giveBack (blocks : List Nat) : Volume :=
  { v with allocator := v.allocator.freeAll (blocks.filter fun block => !v.references block) }

def writeFile (path : Path) (data : Slice) (expected : Option Bytes) (fault : Option Nat) : Outcome :=
  let digest := sha data.1
  if v.options.verifySignatures = true ∧ ∃ signature ∈ expected, signature ≠ digest.bytes then
    v.refuse .signatureMismatch
  else
    let old := v.directory.get path
    match v.allocator.takeBlocks (blocksNeeded v.blockSize data.1.length) [] with
    | .error a => ⟨.error .allocationFailed, { v with allocator := a }, []⟩
    | .ok (blocks, a) =>
      let ws := writes v.blockSize blocks data.1
      -- a buffer that is not as long as a block of the device is refused at once
      if v.blockSize ≠ G.blockSize ∧ blocks ≠ [] then
        ⟨.error .device, { v with allocator := a.freeAll blocks }, []⟩
      else if refuses fault ws then
        ⟨.error .device, { v with allocator := a.freeAll blocks }, accepted fault ws⟩
      else
        let entry := newEntry v .file 0o644 data.1.length blocks (some digest)
        let changed :=
          { v with
            allocator := a
            logicalTime := satSucc v.logicalTime
            nextInode := satSucc v.nextInode
            directory := v.directory.insert path entry }
        changed.commit G crc fault ws
          (fun v =>
            { v with
              directory := match old with
                | some entry => (v.directory.remove path).insert path entry
                | none => v.directory.remove path
              allocator := v.allocator.freeAll blocks
              nextInode := backInode v.nextInode })
          (fun v => v.giveBack (match old with | some entry => entry.blocks | none => []))

def removeFile (path : Path) (fault : Option Nat) : Outcome :=
  match v.directory.get path with
  | none => v.refuse .notFound
  | some entry =>
    if entry.kind ≠ .file then v.refuse .unsupported
    else
      { v with directory := v.directory.remove path }.commit G crc fault []
        (fun v => { v with directory := v.directory.insert path entry })
        (fun v => v.giveBack entry.blocks)

def createDir (path : Path) (fault : Option Nat) : Outcome :=
  if path = [] ∨ path = ['/'] ∨ startsWithSlash path = false ∨ hasDotDot path = true then
    v.refuse .pathInvalid
  else if (v.directory.get path).isSome then v.refuse .directoryConflict
  else
    let entry := newEntry v .directory 0o755 0 [] none
    { v with
      logicalTime := satSucc v.logicalTime
      nextInode := satSucc v.nextInode
      directory := v.directory.insert path entry }.commit G crc fault []
      (fun v => { v with directory := v.directory.remove path, nextInode := backInode v.nextInode })
      id

/-- `ends_with('/')`. -/
def endsWithSlash (p : Path) : Bool := p.getLast? == some '/'

def childPrefix (path : Path) : Path := if endsWithSlash path then path else path ++ ['/']

def removeDir (path : Path) (fault : Option Nat) : Outcome :=
  match v.directory.get path with
  | none => v.refuse .notFound
  | some entry =>
    if entry.kind ≠ .directory then v.refuse .unsupported
    else if v.directory.entries.toList.any fun item => (childPrefix path).isPrefixOf item.1 then
      v.refuse .directoryConflict
    else
      { v with directory := v.directory.remove path }.commit G crc fault []
        (fun v => { v with directory := v.directory.insert path entry }) id

/-- One entry that a rename moves: from where, to where, and the entry. -/
structure Move where
  src : Path
  dst : Path
  entry : DirectoryEntry

def below (m : Entries) (old new : Path) : List Move :=
  let pre := trimEnd old ++ ['/']
  let newPre := trimEnd new ++ ['/']
  (m.toList.filter fun item => pre.isPrefixOf item.1).map fun item => ⟨item.1, newPre ++ item.1.drop pre.length, item.2⟩

/-- The sources of some moves are taken out, and their targets put in. -/
def moveAll (dir : DirectoryIndex) (moves : List Move) : DirectoryIndex :=
  moves.foldl (fun dir m => dir.insert m.dst m.entry) (moves.foldl (fun dir m => dir.remove m.src) dir)

def moveBack (dir : DirectoryIndex) (moves : List Move) : DirectoryIndex :=
  moves.foldl (fun dir m => dir.insert m.src m.entry) (moves.foldl (fun dir m => dir.remove m.dst) dir)

def renamePath (old new : Path) (fault : Option Nat) : Outcome :=
  if old = new ∨ new = [] ∨ startsWithSlash new = false ∨ hasDotDot new = true then
    v.refuse .invalidArgument
  else if (v.directory.get new).isSome then v.refuse .directoryConflict
  else
    match v.directory.get old with
    | none => v.refuse .notFound
    | some root =>
      if root.kind ≠ .directory then
        { v with directory := (v.directory.remove old).insert new root }.commit G crc fault []
          (fun v => { v with directory := (v.directory.remove new).insert old root }) id
      else
        let children := below v.directory.entries old new
        if children.any fun m => (v.directory.entries[m.dst]?).isSome then v.refuse .directoryConflict
        else
          let moves := ⟨old, new, root⟩ :: children
          { v with directory := moveAll v.directory moves }.commit G crc fault []
            (fun v => { v with directory := moveBack v.directory moves }) id

def createSnapshot : Snapshot × Volume :=
  let snapshot := ⟨v.nextSnapshot, satSucc v.logicalTime, v.allocator, v.directory.entries⟩
  (snapshot,
    { v with
      logicalTime := satSucc v.logicalTime
      nextSnapshot := v.nextSnapshot + 1
      snapshots := v.snapshots ++ [snapshot] })

def restoreSnapshot (id : UInt64) : Outcome :=
  match v.snapshots.find? fun s => s.id == id with
  | none => v.refuse .snapshotNotFound
  | some s => ⟨.ok (), { v with allocator := s.allocator, directory := ⟨s.directory⟩ }, []⟩

def allBlocks (m : Entries) : List Nat := m.toList.flatMap fun item => item.2.blocks

def deleteSnapshot (id : UInt64) : Outcome :=
  match v.snapshots.find? fun s => s.id == id with
  | none => v.refuse .snapshotNotFound
  | some removed =>
    let rest := v.snapshots.eraseP fun s => s.id == id
    let live := allBlocks v.directory.entries ++ rest.flatMap fun s => allBlocks s.directory
    ⟨.ok (),
      { v with
        snapshots := rest
        allocator := v.allocator.freeAll
          ((allBlocks removed.directory).filter fun block => decide (block ∉ live)) }, []⟩

end Volume

inductive Op
  | writeFile (path : Path) (data : Slice) (expected : Option Bytes)
  | removeFile (path : Path)
  | createDir (path : Path)
  | removeDir (path : Path)
  | renamePath (old new : Path)
  | createSnapshot
  | restoreSnapshot (id : UInt64)
  | deleteSnapshot (id : UInt64)

def Volume.exec (G : Geometry) (crc : Bytes → UInt32) (sha : Bytes → Digest) (v : Volume) (op : Op)
    (fault : Option Nat) : Outcome :=
  match op with
  | .writeFile path data expected => v.writeFile G crc sha path data expected fault
  | .removeFile path => v.removeFile G crc path fault
  | .createDir path => v.createDir G crc path fault
  | .removeDir path => v.removeDir G crc path fault
  | .renamePath old new => v.renamePath G crc old new fault
  | .createSnapshot => ⟨.ok (), v.createSnapshot.2, []⟩
  | .restoreSnapshot id => v.restoreSnapshot id
  | .deleteSnapshot id => v.deleteSnapshot id

/-! ## Mounting -/

section

variable (G : Geometry) (crc : Bytes → UInt32)

/-- The number of blocks a volume is laid out for. -/
def totalBlocks (sb : SuperBlock) : Nat :=
  match G.blockCount.filter (reservedEnd < ·) with
  | some n => n
  | none => max sb.clusterSize.toNat 4096

lemma totalBlocks_bounds (sb : SuperBlock) :
    reservedEnd < totalBlocks G sb ∧ totalBlocks G sb + 64 ≤ 2 ^ 64 := by
  unfold totalBlocks
  split
  next n hn =>
    obtain ⟨hc, hl⟩ := Option.filter_eq_some_iff.mp hn
    exact ⟨by simpa using hl, G.count_lt n hc⟩
  · have hlt := sb.clusterSize.toNat_lt
    simp only [reservedEnd, bankB, bankA, bankBlocks]
    omega

/-- The blocks that no file gets: block 0, the banks, and what the options ask for. -/
def reservedBlocks (options : MountOptions) : List Nat :=
  let reserved := options.reservedBlocks ++ (if 0 ∈ options.reservedBlocks then [] else [0])
  ((reserved ++ List.range' 1 (reservedEnd - 1)).insertionSort (· ≤ ·)).dedup

def markReserved (a : BlockAllocator) : List Nat → Except ZfsError BlockAllocator
  | [] => .ok a
  | block :: blocks =>
    if a.inRange block then
      match a.markUsedIdempotent block with
      | .ok a' => markReserved a' blocks
      | .error _ => .error .corruptEntry
    else markReserved a blocks

def markBlocks (a : BlockAllocator) : List Nat → Except ZfsError BlockAllocator
  | [] => .ok a
  | block :: blocks =>
    if a.inRange block = false ∨ block < reservedEnd then .error .corruptEntry
    else
      match a.markUsedIdempotent block with
      | .ok a' => markBlocks a' blocks
      | .error _ => .error .corruptEntry

def restoreEntries (a : BlockAllocator) (dir : DirectoryIndex) :
    List (Path × DirectoryEntry) → Except ZfsError (BlockAllocator × DirectoryIndex)
  | [] => .ok (a, dir)
  | (path, entry) :: items => do
      let a ← markBlocks a entry.blocks
      restoreEntries a (dir.insert path entry) items

/-- The volume that is on a device, before anything is written. -/
def assemble (d : Nat → Bytes) (sb : SuperBlock) (options : MountOptions) : Except ZfsError Volume := do
  let reserved := reservedBlocks options
  let a ← markReserved (.new 1 (totalBlocks G sb - 1) (by have := totalBlocks_bounds G sb; omega)) reserved
  let state := (← load G crc d).getD ⟨0, ∅, 2, 1⟩
  let (a, directory) ← restoreEntries a .new state.entries.toList
  return {
    allocator := a
    directory := directory
    snapshots := []
    nextSnapshot := 1
    options := { options with reservedBlocks := reserved }
    blockSize := if sb.blockSize = 0 then G.blockSize else sb.blockSize.toNat
    nextInode := state.nextInode
    logicalTime := state.logicalTime
    generation := state.generation }

/-- `mount`: the volume, and the writes the device has taken. -/
def mount (d : Nat → Bytes) (options : MountOptions) (fault : Option Nat) :
    Except ZfsError Volume × List (Nat × Bytes) :=
  let superblock := parseSuperblock (d 0)
  let sb := superblock.getD (createDefaultSuperblock G.blockSize)
  match assemble G crc d sb options with
  | .error e => (.error e, [])
  | .ok v =>
    let ws := if superblock.isNone then [(0, pad G.blockSize (superblockBytes sb))] else []
    if refuses fault ws then (.error .device, accepted fault ws)
    else if v.generation = 0 then
      let out := v.persistMetadata G crc (later fault ws)
      (out.result.map fun _ => out.volume, ws ++ out.writes)
    else (.ok v, ws)

end

end ZeroOS.Fs
