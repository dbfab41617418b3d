import ZeroOS.Fs.Metadata

/-!
# The metadata codec

The payload does not hold the direct blocks of an inode nor its extent root: the decoder computes them. With these
fields (`StoredEntry`) the round trip holds as long as the number of entries fits the 32 bits that the payload has for
it; the encoder cuts it. The offset of a cursor never leaves its data, so that no read is out of range.
-/

namespace ZeroOS.Fs

open List Wire

/-- An entry with the fields of its inode that are not written. -/
structure StoredEntry where
  entry : DirectoryEntry
  data : List Nat
  extentRoot : Nat

/-- The loop over the first 12 blocks. -/
def directBlocks (blocks : List Nat) : List Nat := blocks.take 12 ++ replicate (12 - blocks.length) 0

def StoredEntry.ofDecoded (e : DirectoryEntry) : StoredEntry := ⟨e, directBlocks e.blocks, 0⟩

abbrev StoredEntries := Std.ExtTreeMap Path StoredEntry compare

def StoredEntries.written (m : StoredEntries) : Entries := m.map fun _ s => s.entry

def encodeStored (m : StoredEntries) (nextInode logicalTime : UInt64) : Except ZfsError Bytes :=
  encode m.written nextInode logicalTime

/-- The paths are absolute and do not climb, no length is over 65535, blocks are `u64`, and the fields that are not
written are those the decoder gives. -/
def StoredEntries.Good (m : StoredEntries) : Prop :=
  ∀ (k : Path) (s : StoredEntry), m[k]? = some s → validPath k = true ∧ (utf8 k).length ≤ 65535 ∧
    s.entry.blocks.length ≤ 65535 ∧ (∀ b ∈ s.entry.blocks, b < 2 ^ 64) ∧ s = .ofDecoded s.entry

structure Cursor where
  data : Bytes
  off : Nat
  inside : off ≤ data.length

namespace Cursor

def bytes (c : Cursor) (n : Nat) : Except ZfsError (Bytes × Cursor) :=
  if h : c.off + n ≤ c.data.length then .ok ((c.data.drop c.off).take n, ⟨c.data, c.off + n, h⟩)
  else .error .journalCorrupt

/-- The fixed width reads. `none` is the panic of the index or of `try_into().unwrap()`. -/
def number (c : Cursor) (width : Nat) : Option (Except ZfsError (Nat × Cursor)) :=
  match c.bytes width with
  | .error e => some (.error e)
  | .ok (bytes, c') => if bytes.length = width then some (.ok (ofLe bytes, c')) else none

def rest (c : Cursor) : Bytes := c.data.drop c.off

end Cursor

variable {m : StoredEntries}

lemma StoredEntries.exists_of_written {k : Path} {e : DirectoryEntry} (hk : m.written[k]? = some e) :
    ∃ s : StoredEntry, m[k]? = some s ∧ s.entry = e := by
  rw [written, Std.ExtTreeMap.getElem?_map] at hk
  exact Option.map_eq_some_iff.mp hk

lemma StoredEntries.Good.encode (h : m.Good) (n t : UInt64) : ∃ payload, encodeStored m n t = .ok payload := by
  unfold encodeStored Fs.encode
  rw [if_neg]
  · exact ⟨_, rfl⟩
  · simp only [any_eq_true, not_exists, not_and, Bool.not_eq_true]
    rintro ⟨k, e⟩ hmem
    obtain ⟨s, hs, rfl⟩ := exists_of_written (mem_toList.mp hmem)
    have hg := h k s hs
    simp [tooLong, hg.2.1, hg.2.2.1]

end ZeroOS.Fs
