import ZeroOS.Fs.Directory
import ZeroOS.Lib.Disk

/-!
# The metadata payload

The directory is written as a whole, as one string of bytes: the counters, the number of entries, and
the entries. Reading it back gives the directory again, as long as the decoder accepts all of its
paths; the encoder does not ask that of them.
-/

namespace ZeroOS.Fs

open Disk List Wire

inductive ZfsError
  | device
  | allocationFailed
  | notFound
  | signatureMismatch
  | snapshotNotFound
  | directoryConflict
  | unsupported
  | invalidArgument
  | journalCorrupt
  | checkpointTooLarge
  | pathInvalid
  | corruptEntry
  deriving DecidableEq, Repr

/-- A device: the size of its blocks (`BLOCK_SIZE`) and how many it has, if it says so. The bounds hold
of the devices there are: a block has room for a superblock, and a bank is no longer than a `u32`. -/
structure Geometry where
  blockSize : Nat
  blockCount : Option Nat
  large : 120 ≤ blockSize
  small : 32 * blockSize < 2 ^ 32
  count_lt : ∀ n ∈ blockCount, n + 64 ≤ 2 ^ 64

lemma Geometry.pos (G : Geometry) : 0 < G.blockSize := lt_of_lt_of_le (by decide) G.large

def bankBlocks : Nat := 32

def bankA : Nat := 1

def bankB : Nat := bankA + bankBlocks

def reservedEnd : Nat := bankB + bankBlocks

def magic : Bytes := "ZMDT0001".toList.map fun c => UInt8.ofNat c.toNat

structure MetadataState where
  generation : UInt64
  entries : Entries
  nextInode : UInt64
  logicalTime : UInt64

/-! ## The payload -/

def signatureBytes : Option Digest → Bytes
  | some digest => digest.bytes
  | none => []

/-- The fields of an entry that have a fixed place, and its path. -/
def encodeHead (path : Path) (entry : DirectoryEntry) : Bytes :=
  le 2 (utf8 path).length ++ (le 2 entry.blocks.length ++ (le 1 entry.inode.kind.toNat ++
    (le 1 (if entry.signature.isSome then 1 else 0) ++ (le 4 entry.inode.mode.toNat ++
    (le 8 entry.inode.id.toNat ++ (le 8 entry.inode.size.toNat ++ (le 4 entry.inode.uid.toNat ++
    (le 4 entry.inode.gid.toNat ++ (le 4 entry.inode.links.toNat ++ (le 8 entry.inode.ctime.toNat ++
    (le 8 entry.inode.mtime.toNat ++ utf8 path)))))))))))

def encodeEntry (path : Path) (entry : DirectoryEntry) : Bytes :=
  encodeHead path entry ++ (entry.blocks.flatMap (le 8) ++ signatureBytes entry.signature)

def tooLong (item : Path × DirectoryEntry) : Bool :=
  decide (65535 < (utf8 item.1).length) || decide (65535 < item.2.blocks.length)

def encode (entries : Entries) (nextInode logicalTime : UInt64) : Except ZfsError Bytes :=
  if entries.toList.any tooLong then .error .checkpointTooLarge
  else .ok (le 8 nextInode.toNat ++ (le 8 logicalTime.toNat ++ (le 4 entries.toList.length ++
    entries.toList.flatMap fun item => encodeEntry item.1 item.2)))

/-- The reads of `Cursor`. -/
def cursor (width : Nat) : Reader ZfsError Nat := number .journalCorrupt width

def decodeKind : Nat → Reader ZfsError InodeKind
  | 1 => pure .file
  | 2 => pure .directory
  | 3 => pure .symlink
  | 4 => pure .appBundle
  | _ => throw .corruptEntry

def decodePath (bytes : Bytes) : Reader ZfsError Path :=
  match fromUtf8 bytes with
  | some path => if validPath path then pure path else throw .pathInvalid
  | none => throw .corruptEntry

def decodeSignature (hasSig : Nat) : Reader ZfsError (Option Digest) :=
  if hasSig ≠ 0 then do
    let bytes ← take .journalCorrupt 32
    if h : bytes.length = 32 then return some ⟨bytes, h⟩ else throw .journalCorrupt
  else return none

/-- The fields of an entry that have a fixed place, and the bytes of its path. -/
structure EntryHead where
  inode : Inode
  blocksLen : Nat
  hasSig : Nat
  pathBytes : Bytes

/-- The first part of a round of the loop of `decode`. -/
def decodeHead : Reader ZfsError EntryHead := do
  let pathLen ← cursor 2
  let blocksLen ← cursor 2
  let kindByte ← cursor 1
  let kind ← decodeKind kindByte
  let hasSig ← cursor 1
  let mode ← cursor 4
  let id ← cursor 8
  let size ← cursor 8
  let uid ← cursor 4
  let gid ← cursor 4
  let links ← cursor 4
  let ctime ← cursor 8
  let mtime ← cursor 8
  let pathBytes ← take .journalCorrupt pathLen
  return {
    inode := {
      id := UInt64.ofNat id
      kind := kind
      size := UInt64.ofNat size
      mode := UInt32.ofNat mode
      uid := UInt32.ofNat uid
      gid := UInt32.ofNat gid
      links := UInt32.ofNat links
      ctime := UInt64.ofNat ctime
      mtime := UInt64.ofNat mtime }
    blocksLen := blocksLen
    hasSig := hasSig
    pathBytes := pathBytes }

/-- One round of the loop of `decode`. -/
def decodeEntry : Reader ZfsError (Path × DirectoryEntry) := do
  let head ← decodeHead
  let path ← decodePath head.pathBytes
  let blocks ← times (cursor 8) head.blocksLen
  let signature ← decodeSignature head.hasSig
  return (path, ⟨head.inode, blocks, signature⟩)

/-- The reads of `decode`. -/
def decodeAll : Reader ZfsError (Nat × Nat × List (Path × DirectoryEntry)) := do
  let nextInode ← cursor 8
  let logicalTime ← cursor 8
  let count ← cursor 4
  let items ← times decodeEntry count
  return (nextInode, logicalTime, items)

def decode (data : Bytes) : Except ZfsError (Entries × UInt64 × UInt64) := do
  let ((nextInode, logicalTime, items), rest) ← decodeAll data
  if rest ≠ [] then throw .journalCorrupt
  return (insertAll ∅ items, max (UInt64.ofNat nextInode) 2, max (UInt64.ofNat logicalTime) 1)

/-! ### Round trip -/

section

variable {path : Path} {entry : DirectoryEntry}

lemma reads_cursor (h : n < 256 ^ width) : Reads (cursor width) (le width n) n := reads_number h

lemma reads_kind (kind : InodeKind) : Reads (decodeKind kind.toNat) [] kind := by
  cases kind <;> exact reads_pure _

lemma reads_path (h : validPath path = true) : Reads (decodePath (utf8 path)) [] path := by
  unfold decodePath
  rw [fromUtf8_utf8]
  simp only [h, if_true]
  exact reads_pure _

lemma fails_path (h : validPath path = false) : Fails (decodePath (utf8 path)) [] .pathInvalid := by
  unfold decodePath
  rw [fromUtf8_utf8]
  simp only [h, Bool.false_eq_true, if_false]
  exact fun _ => rfl

lemma reads_signature (signature : Option Digest) :
    Reads (decodeSignature (if signature.isSome then 1 else 0)) (signatureBytes signature) signature := by
  cases signature with
  | none => exact reads_pure _
  | some digest =>
    have hb := reads_take (e := ZfsError.journalCorrupt) digest.length_eq
    intro rest
    simp only [decodeSignature, Option.isSome_some, if_true, ne_eq, one_ne_zero, not_false_eq_true]
    change (take _ 32 (digest.bytes ++ rest)).bind _ = _
    rw [hb]
    simp only [Except.bind, digest.length_eq, dif_pos]
    rfl

/-- What the format has room for. -/
structure Fits (path : Path) (entry : DirectoryEntry) : Prop where
  path : (utf8 path).length < 65536
  blocks : entry.blocks.length < 65536
  block : ∀ b ∈ entry.blocks, b < 2 ^ 64

/-- Block numbers are `u64`. -/
def BlocksFit (entries : Entries) : Prop := ∀ (k : Path) (e : DirectoryEntry), entries[k]? = some e → ∀ b ∈ e.blocks, b < 2 ^ 64

/-- The decoder accepts the paths. -/
def PathsValid (entries : Entries) : Prop := ∀ (k : Path) (e : DirectoryEntry), entries[k]? = some e → validPath k = true

lemma reads_head (hf : Fits path entry) :
    Reads decodeHead (encodeHead path entry)
      ⟨entry.inode, entry.blocks.length, if entry.signature.isSome then 1 else 0, utf8 path⟩ := by
  have h32 : ∀ x : UInt32, x.toNat < 256 ^ 4 := fun x => x.toNat_lt
  have h64 : ∀ x : UInt64, x.toNat < 256 ^ 8 := fun x => x.toNat_lt
  have hk : entry.inode.kind.toNat < 256 ^ 1 := by cases entry.inode.kind <;> decide
  have hs : (if entry.signature.isSome then 1 else 0) < 256 ^ 1 := by split <;> decide
  unfold decodeHead encodeHead
  refine (reads_cursor hf.path).bind ((reads_cursor hf.blocks).bind ((reads_cursor hk).bind
    (Reads.bind (w := []) (reads_kind _) ((reads_cursor hs).bind ((reads_cursor (h32 _)).bind
    ((reads_cursor (h64 _)).bind ((reads_cursor (h64 _)).bind ((reads_cursor (h32 _)).bind
    ((reads_cursor (h32 _)).bind ((reads_cursor (h32 _)).bind ((reads_cursor (h64 _)).bind
    ((reads_cursor (h64 _)).bind ?_))))))))))))
  have hp := (reads_take (e := ZfsError.journalCorrupt) (@rfl _ (utf8 path).length)).bind
    (f := fun bytes => pure (⟨entry.inode, entry.blocks.length,
      if entry.signature.isSome then 1 else 0, bytes⟩ : EntryHead)) (reads_pure _)
  rw [append_nil] at hp
  simpa using hp

lemma reads_entry (hf : Fits path entry) (hv : validPath path = true) :
    Reads decodeEntry (encodeEntry path entry) (path, entry) := by
  have hl : Reads (times (cursor 8) entry.blocks.length) (entry.blocks.flatMap (le 8)) entry.blocks :=
    reads_times fun b hb => reads_cursor (hf.block b hb)
  have ht := (reads_signature entry.signature).bind
    (f := fun signature => pure (path, (⟨entry.inode, entry.blocks, signature⟩ : DirectoryEntry)))
    (reads_pure _)
  rw [append_nil] at ht
  exact (reads_head hf).bind (Reads.bind (w := []) (reads_path hv) (hl.bind ht))

lemma fails_entry (hf : Fits path entry) (hv : validPath path = false) :
    Fails decodeEntry (encodeEntry path entry) .pathInvalid :=
  (reads_head hf).bind_fails ((fails_path hv).bind _)

lemma length_encodeEntry_pos : 0 < (encodeEntry path entry).length := by
  simp only [encodeEntry, encodeHead, length_append, length_le]
  omega

lemma fits_of_encode (h : encode entries nextInode logicalTime = .ok data) (hb : BlocksFit entries) :
    ∀ item ∈ entries.toList, Fits item.1 item.2 := by
  unfold encode at h
  split at h
  · cases h
  next hl =>
    intro item ht
    have hs : tooLong item = false := by
      have := (any_eq_true.not.mp hl)
      simp only [not_exists, not_and, Bool.not_eq_true] at this
      exact this item ht
    simp only [tooLong, Bool.or_eq_false_iff, decide_eq_false_iff_not, not_lt] at hs
    exact ⟨by omega, by omega, hb item.1 item.2 (mem_toList.mp ht)⟩

lemma length_le_of_flatMap {α : Type} {l : List α} {f : α → Bytes} (h : ∀ a ∈ l, 0 < (f a).length) :
    l.length ≤ (l.flatMap f).length := by
  induction l with
  | nil => simp
  | cons a l ih =>
    have ha := h a mem_cons_self
    have hl := ih fun b hb => h b (mem_cons_of_mem _ hb)
    simp only [flatMap_cons, length_append, length_cons]
    omega

lemma encode_eq (h : encode entries nextInode logicalTime = .ok data) :
    data = le 8 nextInode.toNat ++ (le 8 logicalTime.toNat ++ (le 4 entries.toList.length ++
      entries.toList.flatMap fun item => encodeEntry item.1 item.2)) := by
  unfold encode at h
  split at h
  · cases h
  · exact (Except.ok.inj h).symm

lemma length_toList_lt (h : encode entries nextInode logicalTime = .ok data) (hl : data.length < 2 ^ 32) :
    entries.toList.length < 256 ^ 4 := by
  have hle := length_le_of_flatMap (l := entries.toList) (f := fun item => encodeEntry item.1 item.2)
    fun _ _ => length_encodeEntry_pos
  rw [encode_eq h] at hl
  simp only [length_append, length_le] at hl
  omega

lemma max_of_le {a b : UInt64} (h : b ≤ a) : max a b = a := by
  change (if a ≤ b then b else a) = a
  split
  next hle => exact UInt64.le_antisymm h hle
  · rfl

lemma reads_count (n : Nat) : Reads (cursor 4) (le 4 n) (n % 2 ^ 32) := by
  have hn : ofLe (le 4 n) = n % 2 ^ 32 := by
    simp only [le, ofLe, UInt8.toNat_ofNat']
    omega
  have hr := reads_number_le (e := ZfsError.journalCorrupt) 4 n
  rwa [hn] at hr

lemma decodeAll_encode (h : encode entries nextInode logicalTime = .ok data) (hb : BlocksFit entries)
    (hv : PathsValid entries) : decodeAll data = .ok
      ((nextInode.toNat, logicalTime.toNat, entries.toList.take (entries.toList.length % 2 ^ 32)),
        (entries.toList.drop (entries.toList.length % 2 ^ 32)).flatMap fun item => encodeEntry item.1 item.2) := by
  have hf := fits_of_encode h hb
  generalize hk : entries.toList.length % 2 ^ 32 = k
  have hl : (entries.toList.take k).length = k := length_take_of_le (by omega)
  have hm : Reads (times decodeEntry (entries.toList.take k).length)
      ((entries.toList.take k).flatMap fun item => encodeEntry item.1 item.2) (entries.toList.take k) :=
    reads_times fun item hi =>
      reads_entry (hf item (mem_of_mem_take hi)) (hv item.1 item.2 (mem_toList.mp (mem_of_mem_take hi)))
  rw [hl] at hm
  have htl := hm.bind (f := fun items => pure (nextInode.toNat, logicalTime.toNat, items)) (reads_pure _)
  rw [append_nil] at htl
  have hc := reads_count entries.toList.length
  rw [hk] at hc
  have ha : Reads decodeAll (le 8 nextInode.toNat ++ (le 8 logicalTime.toNat ++ (le 4 entries.toList.length ++
      (entries.toList.take k).flatMap fun item => encodeEntry item.1 item.2)))
      (nextInode.toNat, logicalTime.toNat, entries.toList.take k) :=
    (reads_cursor nextInode.toNat_lt).bind ((reads_cursor logicalTime.toNat_lt).bind (hc.bind htl))
  have hr := ha ((entries.toList.drop k).flatMap fun item => encodeEntry item.1 item.2)
  simp only [append_assoc, ← flatMap_append, take_append_drop] at hr
  rw [encode_eq h]
  exact hr

lemma decode_encode_of_length (h : encode entries nextInode logicalTime = .ok data)
    (hl : entries.toList.length < 2 ^ 32) (hb : BlocksFit entries) (hv : PathsValid entries) (hn : 2 ≤ nextInode)
    (ht : 1 ≤ logicalTime) : decode data = .ok (entries, nextInode, logicalTime) := by
  unfold decode
  rw [decodeAll_encode h hb hv, Nat.mod_eq_of_lt hl, take_length, drop_length]
  change Except.ok (insertAll ∅ entries.toList, max (UInt64.ofNat nextInode.toNat) 2,
    max (UInt64.ofNat logicalTime.toNat) 1) = _
  rw [insertAll_toList, UInt64.ofNat_toNat, UInt64.ofNat_toNat, max_of_le hn, max_of_le ht]

lemma decode_encode (h : encode entries nextInode logicalTime = .ok data) (hl : data.length < 2 ^ 32)
    (hb : BlocksFit entries) (hv : PathsValid entries) (hn : 2 ≤ nextInode) (ht : 1 ≤ logicalTime) :
    decode data = .ok (entries, nextInode, logicalTime) :=
  decode_encode_of_length h (length_toList_lt h hl) hb hv hn ht

lemma decode_encode_invalid (h : encode entries nextInode logicalTime = .ok data) (hn : data.length < 2 ^ 32)
    (hl : BlocksFit entries) (hm : entries[path]? = some bad)
    (hb : validPath path = false) :
    decode data = .error .pathInvalid := by
  have hf := fits_of_encode h hl
  have hitm : Fails (times decodeEntry entries.toList.length)
      (entries.toList.flatMap fun item => encodeEntry item.1 item.2) .pathInvalid := by
    refine fails_times (fun item he => ?_) ⟨(path, bad), mem_toList.mpr hm, ?_⟩
    · cases hv : validPath item.1 with
      | true => exact .inl (reads_entry (hf item he) hv)
      | false => exact .inr (fails_entry (hf item he) hv)
    · exact fails_entry (hf _ (mem_toList.mpr hm)) hb
  have ha : Fails decodeAll data .pathInvalid := by
    have ht := hitm.bind
      (f := fun items => pure (nextInode.toNat, logicalTime.toNat, items)) []
    rw [append_nil] at ht
    rw [encode_eq h]
    exact (reads_cursor nextInode.toNat_lt).bind_fails ((reads_cursor logicalTime.toNat_lt).bind_fails
      ((reads_cursor (length_toList_lt h hn)).bind_fails ht))
  have hrun := ha []
  rw [append_nil] at hrun
  unfold decode
  rw [hrun]
  rfl

end

end ZeroOS.Fs
