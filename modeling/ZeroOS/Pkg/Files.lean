import ZeroOS.Fs.Names
import ZeroOS.Pkg.Format

/-!
# The files that the package manager sees

The file service keeps a flat map from paths to directories and files; a path is the list of its names.
`below q` is the part of the map at a path and under it. An operation on a path that is neither above
nor below `q` leaves `below q` as it is, and what is read under `q` depends on nothing else.

The messages of the file service are left out, with their limits. A path that it refuses, or that has a
zero byte in it, is an error here.
-/

namespace ZeroOS.Pkg

open List Option Wire
open Fs (utf8 fromUtf8)
open Security (Text lines)

abbrev Key := List Text

inductive Node
  | dir
  | file (data : Bytes)
  deriving DecidableEq

abbrev Files := List (Key × Node)

def names (path : Text) : Key := (path.splitOn '/').filter (· ≠ [])

def resolve (path : Text) : Option Key :=
  if '\x00' ∈ path then none else (Fs.canonicalPath path).map fun _ => names path

namespace Files

variable (s : Files)

def get (k : Key) : Option Node := s.lookup k

def erase (k : Key) : Files := s.filter (·.1 ≠ k)

def insert (k : Key) (n : Node) : Files := (k, n) :: s.erase k

def isDir (k : Key) : Bool := k == [] || s.get k == some .dir

/-- The part of the map at a path and below it. -/
def below (q : Key) : Files := s.filter fun e => q.isPrefixOf e.1

/-! ## Operations -/

def mkdir (path : Text) : Option Files := (resolve path).bind fun k =>
    if k = [] ∨ s.get k ≠ none ∨ ¬s.isDir k.dropLast then none else some (s.insert k .dir)

def writeFile (path : Text) (data : Bytes) : Option Files := (resolve path).map fun k => s.insert k (.file data)

/-- `read_file`: a file that is not shorter than `maxLen` is an error. -/
def readFile (path : Text) (maxLen : Nat) : Option Bytes := (resolve path).bind fun k =>
    match s.get k with
    | some (.file data) => if data.length < maxLen then some data else none
    | _ => none

def unlink (path : Text) : Option Files := (resolve path).bind fun k =>
    match s.get k with
    | some (.file _) => some (s.erase k)
    | _ => none

def rmdir (path : Text) : Option Files := (resolve path).bind fun k =>
    if s.get k = some .dir ∧ (s.erase k).below k = [] then some (s.erase k) else none

def moved (old new k : Key) : Key :=
  if old.isPrefixOf k then new ++ k.drop old.length else k

def rename (oldPath newPath : Text) : Option Files := (resolve oldPath).bind fun old => (resolve newPath).bind fun new =>
    if old = new ∨ s.get new ≠ none ∨ ¬s.isDir new.dropLast then none
    else
      match s.get old with
      | none => none
      | some (.file data) => some ((s.erase old).insert new (.file data))
      | some .dir =>
        -- where an entry is moved to, there must not be one
        if (s.below old).any fun e => (s.get (moved old new e.1)).isSome then none
        else some (s.map fun e => (moved old new e.1, e.2))

/-- The names that fit into an answer; the message has 128 bytes. -/
def fill (offset : Nat) : List Text → List Text
  | [] => []
  | name :: rest =>
    if 128 ≤ offset + (utf8 name).length + 1 then []
    else name :: fill (offset + (utf8 name).length + 1) rest

/-- The entry as a name of its directory: a directory ends with a slash. -/
def shown (e : Key × Node) : Text := e.1.getLastD [] ++ if e.2 = .dir then ['/'] else []

/-- `list_directory`, and the lines of its answer. -/
def list (path : Text) : Option (List Text) := (resolve path).bind fun k =>
    if s.isDir k then
      let children := s.filter fun e => e.1 ≠ [] && e.1.dropLast == k
      let sorted := children.insertionSort fun a b => utf8 (a.1.getLastD []) ≤ utf8 (b.1.getLastD [])
      some (lines ((fill 0 (sorted.map shown)).flatMap (· ++ ['\n'])))
    else none

end Files

/-! ## Paths as lists of names -/

lemma names_of_resolve (h : resolve path = some k) : k = names path := by
  unfold resolve at h
  split at h
  · cases h
  · obtain ⟨-, -, rfl⟩ := map_eq_some_iff.mp h
    rfl

/-- Neither path is above the other. -/
def Apart (k q : Key) : Prop := ¬k <+: q ∧ ¬q <+: k

instance (k q : Key) : Decidable (Apart k q) := inferInstanceAs (Decidable (_ ∧ _))

lemma Apart.mono (h : Apart k q) (hk : k <+: k') : Apart k' q := by
  refine ⟨fun hq => h.1 (hk.trans hq), fun hq => ?_⟩
  rcases prefix_or_prefix_of_prefix hk hq with h' | h'
  · exact h.1 h'
  · exact h.2 h'

namespace Files

variable {s s' : Files} {q : Key} {path oldPath newPath : Text}

/-! ## What an operation leaves alone -/

variable {k : Key}

lemma get_below (h : q <+: k) : (s.below q).get k = s.get k := by
  induction s with
  | nil => rfl
  | cons e s ih =>
    obtain ⟨k', n⟩ := e
    unfold below get at ih ⊢
    by_cases hk : k' = k
    · subst hk
      have hq : q.isPrefixOf k' = true := isPrefixOf_iff_prefix.mpr h
      rw [filter_cons, if_pos hq]
      simp
    · have hne : (k == k') = false := beq_eq_false_iff_ne.mpr (Ne.symm hk)
      rw [lookup_cons, hne]
      by_cases hq : q.isPrefixOf k' = true
      · rw [filter_cons, if_pos hq, lookup_cons, hne]
        exact ih
      · rw [filter_cons, if_neg hq]
        exact ih

lemma get_congr (h : s'.below q = s.below q) (hk : q <+: k) : s'.get k = s.get k := by
  rw [← get_below hk, h, get_below hk]

lemma readFile_congr (h : s'.below q = s.below q) (hq : q <+: names path) :
    s'.readFile path maxLen = s.readFile path maxLen := by
  unfold readFile
  refine bind_congr fun k hk => ?_
  rw [get_congr h (names_of_resolve hk ▸ hq)]

end Files

end ZeroOS.Pkg
