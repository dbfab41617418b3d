import ZeroOS.Lib.Wire

/-!
# Paths and the directory index

A path is a string, here the list of its characters. The directory index is a flat map from paths
to entries, ordered by path: what is a directory is only said by the kind of an entry, and what is in
it only by the paths of the other entries. Every path goes through `normalize` before it is used as a
key.
-/

namespace ZeroOS.Fs

open List Wire

abbrev Path := List Char

/-! ## Paths -/

/-- `starts_with('/')`. -/
def startsWithSlash (p : Path) : Bool := p.head? == some '/'

/-- `trim_end_matches('/')`. -/
def trimEnd (p : Path) : Path := p.rdropWhile (· == '/')

/-- `contains("..")`. -/
def hasDotDot (p : Path) : Bool := decide (['.', '.'] <:+: p)

/-- `normalize`: it starts with a slash, and ends with one only if it is the root. -/
def normalize (p : Path) : Path :=
  let value := if startsWithSlash p then p else '/' :: p
  let trimmed := trimEnd value
  if trimmed = [] then ['/'] else trimmed

/-- What the decoder accepts as the path of an entry. -/
def validPath (p : Path) : Bool := !p.isEmpty && startsWithSlash p && !hasDotDot p

/-- `as_bytes`. -/
def utf8 (p : Path) : Bytes := p.flatMap String.utf8EncodeChar

def fromUtf8 (bytes : Bytes) : Option Path := bytes.toByteArray.utf8Decode?.map Array.toList

lemma fromUtf8_utf8 (p : Path) : fromUtf8 (utf8 p) = some p := by
  have h : (utf8 p).toByteArray = p.utf8Encode := rfl
  rw [fromUtf8, h, utf8Decode?_utf8Encode]
  rfl

variable {p : Path}

lemma hasDotDot_eq_false_iff :
    hasDotDot p = false ↔ p.IsChain fun a b => ¬(a = '.' ∧ b = '.') := by
  unfold hasDotDot
  rw [decide_eq_false_iff_not]
  induction p with
  | nil => simp
  | cons a l ih =>
    rw [infix_cons_iff, not_or, ih, isChain_cons]
    refine and_congr_left fun _ => ?_
    cases l with
    | nil => simp [prefix_cons_iff]
    | cons b l => simp [cons_prefix_cons, eq_comm]

lemma hasDotDot_of_part (h : p <:+: q) (hq : hasDotDot q = false) : hasDotDot p = false := by
  unfold hasDotDot at *
  rw [decide_eq_false_iff_not] at *
  exact fun hp => hq (hp.trans h)

lemma hasDotDot_append_slash (hp : hasDotDot p = false) (hq : hasDotDot q = false) :
    hasDotDot (p ++ '/' :: q) = false := by
  rw [hasDotDot_eq_false_iff] at *
  refine isChain_append.mpr ⟨hp, isChain_cons.mpr ⟨?_, hq⟩, ?_⟩
  · intro c _ h
    exact absurd h.1 (by decide)
  · intro c _ b hb h
    obtain rfl : '/' = b := by simpa using hb
    exact absurd h.2 (by decide)

lemma trimEnd_start (p : Path) : trimEnd p <+: p := List.rdropWhile_prefix ..

lemma startsWithSlash_of_start (h : p <+: q) (hne : p ≠ []) (hq : startsWithSlash q = true) :
    startsWithSlash p = true := by
  obtain ⟨c, l, rfl⟩ := exists_cons_of_ne_nil hne
  obtain ⟨t, rfl⟩ := h
  simpa [startsWithSlash] using hq

lemma validPath_normalize (h : hasDotDot p = false) : validPath (normalize p) = true := by
  have hl : hasDotDot (if startsWithSlash p then p else '/' :: p) = false := by
    split
    · exact h
    · exact hasDotDot_append_slash (p := []) (by decide) h
  have hb : startsWithSlash (if startsWithSlash p then p else '/' :: p) = true := by
    split
    next hs => exact hs
    · rfl
  unfold normalize
  generalize (if startsWithSlash p then p else '/' :: p) = value at hl hb
  dsimp only
  split
  · decide
  next hne =>
    have hp := trimEnd_start value
    have hd := hasDotDot_of_part hp.isInfix hl
    have hh := startsWithSlash_of_start hp hne hb
    simp [validPath, hne, hh, hd]

/-- A path of the index: it starts with a slash, and ends with one only if it is the root. -/
def NormalPath (p : Path) : Prop := startsWithSlash p = true ∧ (p = ['/'] ∨ p.getLast? ≠ some '/')

lemma trimEnd_eq_self (h : p.getLast? ≠ some '/') : trimEnd p = p := by
  unfold trimEnd
  rw [rdropWhile_eq_self_iff]
  intro hne hl
  refine h ?_
  rw [getLast?_eq_some_getLast hne]
  simpa using hl

lemma getLast?_trimEnd (p : Path) : (trimEnd p).getLast? ≠ some '/' := by
  unfold trimEnd
  intro h
  have hne : p.rdropWhile (· == '/') ≠ [] := by
    intro hn
    rw [hn] at h
    cases h
  have hl := rdropWhile_last_not (· == '/') p hne
  rw [getLast?_eq_some_getLast hne] at h
  exact hl (by simpa using h)

lemma trimEnd_cons_slash (p : Path) :
    trimEnd ('/' :: p) = if trimEnd p = [] then [] else '/' :: trimEnd p := by
  simp only [trimEnd, List.rdropWhile, List.reverse_cons, List.dropWhile_append, List.isEmpty_iff, List.reverse_eq_nil_iff]
  split
  · rfl
  · simp

lemma trimEnd_append_slash (p : Path) : trimEnd (p ++ ['/']) = trimEnd p := by
  simp [trimEnd]

lemma trimEnd_trimEnd (p : Path) : trimEnd (trimEnd p) = trimEnd p := trimEnd_eq_self (getLast?_trimEnd p)

lemma normalize_eq (p : Path) : normalize p =
    if trimEnd p = [] then ['/'] else if startsWithSlash p then trimEnd p else '/' :: trimEnd p := by
  unfold normalize
  dsimp only
  by_cases hs : startsWithSlash p = true
  · rw [if_pos hs, if_pos hs]
  · rw [if_neg hs, if_neg hs, trimEnd_cons_slash]
    by_cases ht : trimEnd p = [] <;> simp [ht]

lemma length_normalize_le (p : Path) : (normalize p).length ≤ (trimEnd p).length + 1 := by
  rw [normalize_eq]
  split
  · simp
  · split <;> simp

lemma normalPath_normalize (p : Path) : NormalPath (normalize p) := by
  have hb : startsWithSlash (if startsWithSlash p then p else '/' :: p) = true := by
    split
    next hs => exact hs
    · rfl
  unfold normalize
  generalize (if startsWithSlash p then p else '/' :: p) = value at hb
  dsimp only
  split
  · exact ⟨rfl, .inl rfl⟩
  next hne => exact ⟨startsWithSlash_of_start (trimEnd_start value) hne hb, .inr (getLast?_trimEnd value)⟩

lemma NormalPath.normalize_eq (h : NormalPath p) : normalize p = p := by
  obtain ⟨hb, rfl | hl⟩ := h
  · rfl
  · have hne : p ≠ [] := by
      rintro rfl
      cases hb
    simp [normalize, hb, trimEnd_eq_self hl, hne]

/-! ## Entries -/

inductive InodeKind
  | file
  | directory
  | symlink
  | appBundle
  deriving DecidableEq, Repr

/-- `kind as u8`. -/
def InodeKind.toNat : InodeKind → Nat
  | .file => 1
  | .directory => 2
  | .symlink => 3
  | .appBundle => 4

/-- An inode, without the copy of the first block numbers that only the disk format of older versions
uses. -/
structure Inode where
  id : UInt64
  kind : InodeKind
  size : UInt64
  mode : UInt32
  uid : UInt32
  gid : UInt32
  links : UInt32
  ctime : UInt64
  mtime : UInt64
  deriving DecidableEq

structure Digest where
  bytes : Bytes
  length_eq : bytes.length = 32
  deriving DecidableEq

structure DirectoryEntry where
  inode : Inode
  blocks : List Nat
  signature : Option Digest
  deriving DecidableEq

def DirectoryEntry.kind (e : DirectoryEntry) : InodeKind := e.inode.kind

def DirectoryEntry.size (e : DirectoryEntry) : Nat := e.inode.size.toNat

/-! ## The index -/

abbrev Entries := Std.ExtTreeMap Path DirectoryEntry compare

structure DirectoryIndex where
  entries : Entries

namespace DirectoryIndex

variable (d : DirectoryIndex)

def new : DirectoryIndex := ⟨∅⟩

def insert (path : Path) (entry : DirectoryEntry) : DirectoryIndex := ⟨d.entries.insert (normalize path) entry⟩

def get (path : Path) : Option DirectoryEntry := d.entries[normalize path]?

/-- `remove`, without the entry it returns. -/
def remove (path : Path) : DirectoryIndex := ⟨d.entries.erase (normalize path)⟩

end DirectoryIndex

section

variable {m m' : Entries} {k k' : Path} {e e' : DirectoryEntry}

lemma getElem?_insert' : (m.insert k e)[k']? = if k = k' then some e else m[k']? := by
  rw [Std.ExtTreeMap.getElem?_insert]
  simp only [Std.LawfulEqCmp.compare_eq_iff_eq]

lemma getElem?_erase' : (m.erase k)[k']? = if k = k' then none else m[k']? := by
  rw [Std.ExtTreeMap.getElem?_erase]
  simp only [Std.LawfulEqCmp.compare_eq_iff_eq]

lemma erase_insert (h : m[k]? = none) : (m.insert k e).erase k = m := by
  refine Std.ExtTreeMap.ext_getElem? fun k' => ?_
  rw [getElem?_erase', getElem?_insert']
  split
  next heq => rw [← heq, h]
  · rfl

lemma insert_erase (h : m[k]? = some e) : (m.erase k).insert k e = m := by
  refine Std.ExtTreeMap.ext_getElem? fun k' => ?_
  rw [getElem?_insert', getElem?_erase']
  split
  next heq => rw [← heq, h]
  · rfl

lemma insert_insert (h : m[k]? = some e') : ((m.insert k e).erase k).insert k e' = m := by
  refine Std.ExtTreeMap.ext_getElem? fun k' => ?_
  rw [getElem?_insert', getElem?_erase', getElem?_insert']
  split
  next heq => rw [← heq, h]
  · rfl

def insertAll (m : Entries) (l : List (Path × DirectoryEntry)) : Entries := l.foldl (fun m item => m.insert item.1 item.2) m

lemma insertAll_of_notMem {l : List (Path × DirectoryEntry)} (h : ∀ e, (k, e) ∉ l) : (insertAll m l)[k]? = m[k]? := by
  induction l generalizing m with
  | nil => rfl
  | cons item l ih =>
    have hne : item.1 ≠ k := by
      rintro rfl
      exact h item.2 mem_cons_self
    have hr := @ih (m.insert item.1 item.2) fun e he => h e (mem_cons_of_mem _ he)
    rw [getElem?_insert', if_neg hne] at hr
    exact hr

lemma insertAll_of_mem (hd : l.Pairwise fun a b => a.1 ≠ b.1) (h : (k, e) ∈ l) : (insertAll m l)[k]? = some e := by
  induction l generalizing m with
  | nil => cases h
  | cons item l ih =>
    obtain ⟨ht, hd⟩ := pairwise_cons.mp hd
    rcases mem_cons.mp h with rfl | h
    · have hr := @insertAll_of_notMem (m.insert k e) k l fun e' he' => ht _ he' rfl
      rw [getElem?_insert', if_pos rfl] at hr
      exact hr
    · exact ih hd h

lemma distinct_toList (m : Entries) : m.toList.Pairwise fun a b => a.1 ≠ b.1 := by
  have h := m.distinct_keys_toList
  simpa only [Std.LawfulEqCmp.compare_eq_iff_eq] using h

lemma mem_toList : (k, e) ∈ m.toList ↔ m[k]? = some e := Std.ExtTreeMap.mem_toList_iff_getElem?_eq_some

lemma insertAll_toList (m : Entries) : insertAll ∅ m.toList = m := by
  refine Std.ExtTreeMap.ext_getElem? fun k => ?_
  cases hk : m[k]? with
  | some e => exact insertAll_of_mem (distinct_toList m) (mem_toList.mpr hk)
  | none =>
    rw [insertAll_of_notMem fun e he => by simp [mem_toList.mp he] at hk]
    simp

end

end ZeroOS.Fs
