import ZeroOS.Fs.Moves

/-!
# Transactions

What an operation can do, said once. An operation is refused before it has done anything; or the device
refuses to take its data; or the directory it wants cannot be stored; or it succeeds. In the first three
cases memory is as it was, up to the clock and the inode counter, and the device has some of the writes.

`Change` is what an operation that succeeds does to the directory, `Effect` all that it can do.
-/

namespace ZeroOS.Fs

open Wire Disk Volume

variable {G : Geometry} {crc : Bytes → UInt32} {sha : Bytes → Digest}

def blocksAt (m : Entries) (k : Path) : List Nat :=
  match m[k]? with
  | some entry => entry.blocks
  | none => []

def HasBlock (m : Entries) (b : Nat) : Prop := ∃ (k : Path) (e : DirectoryEntry), m[k]? = some e ∧ b ∈ e.blocks

/-- What the operations do to the directory: the blocks they bring in, the entries they leave, the
blocks of the entry they drop, and the inode counter. -/
inductive Change (sha : Bytes → Digest) (v : Volume) : Op → List Nat → Entries → List Nat → UInt64 → Prop
  | write {path : Path} {data : Slice} {expected : Option Bytes} {fresh : List Nat} :
      fresh.length = blocksNeeded v.blockSize data.1.length →
      Change sha v (.writeFile path data expected) fresh
        (v.directory.entries.insert (normalize path)
          (newEntry v .file 0o644 data.1.length fresh (some (sha data.1))))
        (blocksAt v.directory.entries (normalize path)) (satSucc v.nextInode)
  | remove {path : Path} {entry : DirectoryEntry} :
      v.directory.entries[normalize path]? = some entry → entry.kind = .file →
      Change sha v (.removeFile path) [] (v.directory.entries.erase (normalize path)) entry.blocks v.nextInode
  | mkdir {path : Path} :
      path ≠ ['/'] → startsWithSlash path = true → hasDotDot path = false →
      v.directory.entries[normalize path]? = none →
      Change sha v (.createDir path) []
        (v.directory.entries.insert (normalize path) (newEntry v .directory 0o755 0 [] none)) []
        (satSucc v.nextInode)
  | rmdir {path : Path} {entry : DirectoryEntry} :
      v.directory.entries[normalize path]? = some entry → entry.kind = .directory →
      (∀ (k : Path) (e : DirectoryEntry), v.directory.entries[k]? = some e → ¬childPrefix path <+: k) →
      Change sha v (.removeDir path) [] (v.directory.entries.erase (normalize path)) [] v.nextInode
  | rename {old new : Path} {root : DirectoryEntry} {moves : List Move} :
      startsWithSlash new = true → hasDotDot new = false →
      v.directory.entries[normalize old]? = some root →
      (root.kind ≠ .directory ∧ moves = [⟨old, new, root⟩] ∨
        root.kind = .directory ∧ moves = ⟨old, new, root⟩ :: below v.directory.entries old new) →
      Movable v.directory.entries moves →
      Change sha v (.renamePath old new) [] (moveAll v.directory moves).entries [] v.nextInode

/-- A transaction: the blocks it has taken for its data, and the change of the directory. -/
structure Transaction (G : Geometry) (sha : Bytes → Digest) (v : Volume) (op : Op) where
  fresh : List Nat
  data : Bytes
  taken : BlockAllocator
  entries : Entries
  old : List Nat
  nextInode : UInt64
  logicalTime : UInt64
  takes : v.allocator.takeBlocks fresh.length [] = .ok (fresh, taken)
  size : fresh ≠ [] → v.blockSize = G.blockSize
  time : logicalTime = v.logicalTime ∨ logicalTime = satSucc v.logicalTime
  change : Change sha v op fresh entries old nextInode

namespace Transaction

variable {v : Volume} {op : Op} (t : Transaction G sha v op)

def dataWrites : List (Nat × Bytes) := writes v.blockSize t.fresh t.data

def changed : Volume :=
  { v with
    allocator := t.taken
    directory := ⟨t.entries⟩
    nextInode := t.nextInode
    logicalTime := t.logicalTime }

end Transaction

/-- Some of the writes of a store that does not go through. -/
inductive Torn (G : Geometry) (crc : Bytes → UInt32) (v : Volume) : List (Nat × Bytes) → Prop
  | nothing : Torn G crc v []
  | part {next : UInt64} {ws : List (Nat × Bytes)} {n : Nat} :
      store G crc v.generation v.directory.entries v.nextInode v.logicalTime = .ok (next, ws) →
      n < ws.length → Torn G crc v (ws.take n)

/-- What an operation can do. -/
inductive Effect (G : Geometry) (crc : Bytes → UInt32) (sha : Bytes → Digest) (v : Volume) (op : Op) :
    Outcome → Prop
  | refused (e : ZfsError) : Effect G crc sha v op ⟨.error e, v, []⟩
  | unwritten (t : Transaction G sha v op) (n : Nat) :
      Effect G crc sha v op ⟨.error .device, v, t.dataWrites.take n⟩
  | uncommitted (t : Transaction G sha v op) (e : ZfsError) (ws : List (Nat × Bytes)) (inode : UInt64) :
      Torn G crc t.changed ws → (inode = v.nextInode ∨ inode = backInode (satSucc v.nextInode)) →
      Effect G crc sha v op
        ⟨.error e, { v with nextInode := inode, logicalTime := t.logicalTime }, t.dataWrites ++ ws⟩
  | committed (t : Transaction G sha v op) (next : UInt64) (ws : List (Nat × Bytes)) :
      store G crc v.generation t.entries t.nextInode t.logicalTime = .ok (next, ws) →
      Effect G crc sha v op
        ⟨.ok (), { t.changed with generation := next }.giveBack t.old, t.dataWrites ++ ws⟩
  | created : op = .createSnapshot → Effect G crc sha v op ⟨.ok (), v.createSnapshot.2, []⟩
  | restored {id : UInt64} {s : Snapshot} : op = .restoreSnapshot id → v.snapshots.find? (fun s => s.id == id) = some s →
      Effect G crc sha v op ⟨.ok (), { v with allocator := s.allocator, directory := ⟨s.directory⟩ }, []⟩
  | deleted {id : UInt64} {s : Snapshot} : op = .deleteSnapshot id → v.snapshots.find? (fun s => s.id == id) = some s →
      Effect G crc sha v op (v.deleteSnapshot id)

section

variable {v : Volume} {fault : Option Nat}

lemma persistMetadata_cases : (∃ e ws, v.persistMetadata G crc fault = ⟨.error e, v, ws⟩ ∧ Torn G crc v ws) ∨
      ∃ next ws, store G crc v.generation v.directory.entries v.nextInode v.logicalTime = .ok (next, ws) ∧
        v.persistMetadata G crc fault = ⟨.ok (), { v with generation := next }, ws⟩ := by
  unfold persistMetadata
  cases hs : store G crc v.generation v.directory.entries v.nextInode v.logicalTime with
  | error e => exact .inl ⟨e, [], rfl, .nothing⟩
  | ok stored =>
    obtain ⟨next, ws⟩ := stored
    dsimp only
    split
    next hr =>
      refine .inl ⟨.device, _, rfl, ?_⟩
      unfold refuses at hr
      unfold accepted
      cases fault with
      | none => cases hr
      | some n => exact .part hs (by simpa using hr)
    · exact .inr ⟨next, ws, rfl, rfl⟩

lemma effect_commit {op : Op} (t : Transaction G sha v op) {undo finish : Volume → Volume} {inode : UInt64}
    (hn : inode = v.nextInode ∨ inode = backInode (satSucc v.nextInode))
    (hu : undo t.changed = { v with nextInode := inode, logicalTime := t.logicalTime })
    (hf : ∀ v, finish v = v.giveBack t.old) :
    Effect G crc sha v op (t.changed.commit G crc fault t.dataWrites undo finish) := by
  unfold commit
  rcases @persistMetadata_cases G crc t.changed (later fault t.dataWrites) with
    ⟨e, ws, heq, ht⟩ | ⟨next, ws, hs, heq⟩
  · rw [heq]
    dsimp only
    rw [hu]
    exact .uncommitted t e ws inode ht hn
  · rw [heq]
    dsimp only
    rw [hf]
    exact .committed t next ws hs

/-- A transaction that takes no blocks. -/
def Transaction.plain {op : Op} (entries : Entries) (old : List Nat) (nextInode logicalTime : UInt64)
    (time : logicalTime = v.logicalTime ∨ logicalTime = satSucc v.logicalTime)
    (change : Change sha v op [] entries old nextInode) : Transaction G sha v op where
  fresh := []
  data := []
  taken := v.allocator
  entries := entries
  old := old
  nextInode := nextInode
  logicalTime := logicalTime
  takes := rfl
  size := fun h => absurd rfl h
  time := time
  change := change

lemma get_eq (path : Path) : v.directory.get path = v.directory.entries[normalize path]? := rfl

lemma effect_removeFile (path : Path) :
    Effect G crc sha v (.removeFile path) (v.removeFile G crc path fault) := by
  unfold removeFile
  split
  · exact .refused _
  next entry he =>
    split
    · exact .refused _
    next hk =>
      rw [get_eq] at he
      have hb : (v.directory.remove path).insert path entry = v.directory :=
        congrArg DirectoryIndex.mk (insert_erase he)
      refine @effect_commit G crc sha v fault _
        (.plain (v.directory.entries.erase (normalize path)) entry.blocks v.nextInode v.logicalTime (.inl rfl)
          (.remove he (not_ne_iff.mp hk))) _ _ v.nextInode (.inl rfl) ?_ fun _ => rfl
      change { v with directory := (v.directory.remove path).insert path entry } = v
      rw [hb]

lemma effect_removeDir (path : Path) :
    Effect G crc sha v (.removeDir path) (v.removeDir G crc path fault) := by
  unfold removeDir
  split
  · exact .refused _
  next entry he =>
    split
    · exact .refused _
    next hn =>
      split
      · exact .refused _
      next hc =>
        rw [get_eq] at he
        have hb : (v.directory.remove path).insert path entry = v.directory :=
          congrArg DirectoryIndex.mk (insert_erase he)
        have hm : ∀ (k : Path) (e : DirectoryEntry), v.directory.entries[k]? = some e → ¬childPrefix path <+: k := by
          intro k e hk hp
          refine hc (List.any_eq_true.mpr ⟨(k, e), mem_toList.mpr hk, ?_⟩)
          exact List.isPrefixOf_iff_prefix.mpr hp
        refine @effect_commit G crc sha v fault _
          (.plain (v.directory.entries.erase (normalize path)) [] v.nextInode v.logicalTime (.inl rfl)
            (.rmdir he (not_ne_iff.mp hn) hm)) _ _ v.nextInode (.inl rfl) ?_ fun _ => rfl
        change { v with directory := (v.directory.remove path).insert path entry } = v
        rw [hb]

lemma effect_createDir (path : Path) :
    Effect G crc sha v (.createDir path) (v.createDir G crc path fault) := by
  unfold createDir
  split
  · exact .refused _
  next hp =>
    split
    · exact .refused _
    next hf =>
      simp only [not_or, Bool.not_eq_false, Bool.not_eq_true] at hp
      have hn : v.directory.entries[normalize path]? = none := by simpa [get_eq] using hf
      have hb : (v.directory.insert path (newEntry v .directory 0o755 0 [] none)).remove path =
          v.directory := congrArg DirectoryIndex.mk (erase_insert hn)
      refine @effect_commit G crc sha v fault _
        (.plain _ [] (satSucc v.nextInode) (satSucc v.logicalTime) (.inr rfl)
          (.mkdir hp.2.1 hp.2.2.1 hp.2.2.2 hn)) _ _ (backInode (satSucc v.nextInode)) (.inr rfl)
        ?_ fun _ => rfl
      change { v with
        directory := (v.directory.insert path (newEntry v .directory 0o755 0 [] none)).remove path
        nextInode := backInode (satSucc v.nextInode)
        logicalTime := satSucc v.logicalTime } = _
      rw [hb]
      rfl

lemma effect_renamePath (hy : KeysNormal v.directory.entries) (old new : Path) :
    Effect G crc sha v (.renamePath old new) (v.renamePath G crc old new fault) := by
  unfold renamePath
  split
  · exact .refused _
  next hp =>
    split
    · exact .refused _
    next hf =>
      simp only [not_or, Bool.not_eq_false, Bool.not_eq_true] at hp
      obtain ⟨-, -, hs, hd⟩ := hp
      have hn : v.directory.entries[normalize new]? = none := by simpa [get_eq] using hf
      split
      · exact .refused _
      next root hr =>
        rw [get_eq] at hr
        split
        next hk =>
          have hm := movable_single hn hr
          refine @effect_commit G crc sha v fault _
            (.plain (moveAll v.directory [⟨old, new, root⟩]).entries [] v.nextInode v.logicalTime (.inl rfl)
              (.rename hs hd hr (.inl ⟨hk, rfl⟩) hm)) _ _ v.nextInode (.inl rfl)
            ?_ fun _ => rfl
          change { v with
            directory := moveBack (moveAll v.directory [⟨old, new, root⟩]) [⟨old, new, root⟩] } = v
          rw [hm.moveBack_moveAll]
        next hk =>
          dsimp only
          split
          · exact .refused _
          next hc =>
            have hm := movable_tree hy hs hn hr (by
              intro mv hv
              by_contra hsm
              refine hc (List.any_eq_true.mpr ⟨mv, hv, ?_⟩)
              exact Option.isSome_iff_ne_none.mpr hsm)
            refine @effect_commit G crc sha v fault _
              (.plain (moveAll v.directory (⟨old, new, root⟩ :: below v.directory.entries old new)).entries []
                v.nextInode v.logicalTime (.inl rfl)
                (.rename hs hd hr (.inr ⟨not_ne_iff.mp hk, rfl⟩) hm)) _ _ v.nextInode
              (.inl rfl) ?_ fun _ => rfl
            change { v with
              directory := moveBack (moveAll v.directory (⟨old, new, root⟩ :: below v.directory.entries old new))
                (⟨old, new, root⟩ :: below v.directory.entries old new) } = v
            rw [hm.moveBack_moveAll]

lemma effect_writeFile (path : Path) (data : Slice) (expected : Option Bytes) :
    Effect G crc sha v (.writeFile path data expected) (v.writeFile G crc sha path data expected fault) := by
  unfold writeFile
  dsimp only
  split
  · exact .refused _
  · split
    next a ht =>
      obtain rfl := BlockAllocator.takeBlocks_error ht .rfl (by simp) (by simp)
      exact .refused _
    next blocks a ht =>
      have hg := BlockAllocator.freeAll_takeBlocks ht
      obtain ⟨fresh, hf, hl, -⟩ := BlockAllocator.takeBlocks_spec ht
      obtain rfl : blocks = fresh := hf
      split
      · rw [hg]
        exact .refused _
      next hs =>
        let t : Transaction G sha v (.writeFile path data expected) :=
          { fresh := blocks
            data := data.1
            taken := a
            entries := _
            old := _
            nextInode := _
            logicalTime := satSucc v.logicalTime
            takes := hl ▸ ht
            size := fun hne => not_ne_iff.mp fun h => hs ⟨h, hne⟩
            time := .inr rfl
            change := .write hl }
        split
        next hr =>
          rw [hg]
          cases fault with
          | none => cases hr
          | some n => exact .unwritten t n
        · refine @effect_commit G crc sha v fault _ t _ _ (backInode (satSucc v.nextInode)) (.inr rfl) ?_ ?_
          · have hb : (match v.directory.get path with
                | some entry => ((v.directory.insert path
                    (newEntry v .file 0o644 data.1.length blocks (some (sha data.1)))).remove path).insert path entry
                | none => (v.directory.insert path
                    (newEntry v .file 0o644 data.1.length blocks (some (sha data.1)))).remove path) =
                v.directory := by
              split
              next entry he => exact congrArg DirectoryIndex.mk (insert_insert he)
              next hn => exact congrArg DirectoryIndex.mk (erase_insert hn)
            change { v with
              directory := match v.directory.get path with
                | some entry => ((v.directory.insert path
                    (newEntry v .file 0o644 data.1.length blocks (some (sha data.1)))).remove path).insert path entry
                | none => (v.directory.insert path
                    (newEntry v .file 0o644 data.1.length blocks (some (sha data.1)))).remove path
              allocator := a.freeAll blocks
              nextInode := backInode (satSucc v.nextInode)
              logicalTime := satSucc v.logicalTime } = _
            rw [hb, hg]
          · exact fun _ => rfl

lemma effect (hk : KeysNormal v.directory.entries) (op : Op) :
    Effect G crc sha v op (v.exec G crc sha op fault) := by
  cases op with
  | writeFile path data expected => exact effect_writeFile path data expected
  | removeFile path => exact effect_removeFile path
  | createDir path => exact effect_createDir path
  | removeDir path => exact effect_removeDir path
  | renamePath old new => exact effect_renamePath hk old new
  | createSnapshot => exact .created rfl
  | restoreSnapshot id =>
    simp only [exec, restoreSnapshot]
    split
    · exact .refused _
    next s hs => exact .restored rfl hs
  | deleteSnapshot id =>
    simp only [exec]
    cases hs : v.snapshots.find? fun s => s.id == id with
    | none =>
      have heq : v.deleteSnapshot id = v.refuse .snapshotNotFound := by simp only [deleteSnapshot, hs]
      rw [heq]
      exact .refused _
    | some s => exact .deleted rfl hs

end

/-! ## What becomes of the entries -/

namespace Change

section

variable (h : Change sha v op fresh entries old inode)
include h

lemma cases : (∃ (k : Path) (e : DirectoryEntry), NormalPath k ∧ e.blocks = fresh ∧ e.inode.id = v.nextInode ∧
      (e.kind = .directory → v.directory.entries[k]? = none ∧ fresh = []) ∧
      entries = v.directory.entries.insert k e ∧ old = blocksAt v.directory.entries k ∧
      inode = satSucc v.nextInode) ∨
    (∃ (k : Path) (e : DirectoryEntry), v.directory.entries[k]? = some e ∧ (old = e.blocks ∨ e.kind = .directory ∧ old = []) ∧
      fresh = [] ∧ entries = v.directory.entries.erase k ∧ inode = v.nextInode) ∨
    ∃ moves, Movable v.directory.entries moves ∧ entries = (moveAll v.directory moves).entries ∧
      fresh = [] ∧ old = [] ∧ inode = v.nextInode := by
  cases h with
  | write hl =>
    refine .inl ⟨_, newEntry v .file 0o644 _ fresh _, normalPath_normalize _, rfl, rfl, fun h => ?_, rfl,
      rfl, rfl⟩
    cases (h : InodeKind.file = .directory)
  | remove he _ => exact .inr (.inl ⟨_, _, he, .inl rfl, rfl, rfl, rfl⟩)
  | mkdir _ _ _ hn =>
    refine .inl ⟨_, newEntry v .directory 0o755 0 [] none, normalPath_normalize _, rfl, rfl,
      fun _ => ⟨hn, rfl⟩, rfl, ?_, rfl⟩
    rw [blocksAt, hn]
  | rmdir he hk _ => exact .inr (.inl ⟨_, _, he, .inr ⟨hk, rfl⟩, rfl, rfl, rfl⟩)
  | rename _ _ _ _ hm => exact .inr (.inr ⟨_, hm, rfl, rfl, rfl, rfl⟩)

lemma entry {k : Path} {e : DirectoryEntry} (hk : entries[k]? = some e) :
    (∃ k₀ : Path, v.directory.entries[k₀]? = some e) ∨ e.blocks = fresh := by
  obtain ⟨k', e', -, hb, -, -, rfl, -⟩ | ⟨k', e', -, -, -, rfl, -⟩ | ⟨moves, hm, rfl, -⟩ := h.cases
  · rw [getElem?_insert'] at hk
    split at hk
    · cases hk
      exact .inr hb
    · exact .inl ⟨k, hk⟩
  · rw [getElem?_erase'] at hk
    split at hk
    · cases hk
    · exact .inl ⟨k, hk⟩
  · obtain ⟨k₀, hk₀, -⟩ := (hm.rekeys.get k e).mp hk
    exact .inl ⟨k₀, hk₀⟩

lemma old_mem (hb : b ∈ old) :
    HasBlock v.directory.entries b := by
  obtain ⟨k, e, -, -, -, -, -, rfl, -⟩ | ⟨k, e, hk, rfl | ⟨-, rfl⟩, -⟩ | ⟨moves, -, -, -, rfl, -⟩ := h.cases
  · unfold blocksAt at hb
    split at hb
    next e' he' => exact ⟨k, e', he', hb⟩
    · cases hb
  · exact ⟨k, e, hk, hb⟩
  · cases hb
  · cases hb

lemma keysNormal (hy : KeysNormal v.directory.entries) : KeysNormal entries := by
  intro k e hk
  obtain ⟨k', e', hn, -, -, -, rfl, -⟩ | ⟨k', e', -, -, -, rfl, -⟩ | ⟨moves, hm, rfl, -⟩ := h.cases
  · rw [getElem?_insert'] at hk
    split at hk
    next heq => exact heq ▸ hn
    · exact hy k e hk
  · rw [getElem?_erase'] at hk
    split at hk
    · cases hk
    · exact hy k e hk
  · obtain ⟨k₀, hk₀, rfl⟩ := (hm.rekeys.get k e).mp hk
    unfold destination
    split
    · exact normalPath_normalize _
    · exact hy k₀ e hk₀

end

end Change

end ZeroOS.Fs
