import ZeroOS.Lib.Run
import ZeroOS.Pkg.Files

/-!
# Installing and removing

A package is written into a temporary directory, which is then moved to the path of the bundle; a bundle
that was there before is moved away and deleted. What belongs to which package is only said by the
registry, a file for each identifier with the name of its bundle in it. Nothing looks there before a
bundle is replaced, and so two identifiers with one bundle name share their files.
-/

namespace ZeroOS.Pkg

open List Transition Wire
open Fs (utf8 fromUtf8)
open Security (Text lines hexText)

variable {s : Files}

/-! ## The operations -/

def dirs (cur : Text) : List Text → List Text
  | [] => []
  | part :: parts => (cur ++ '/' :: part) :: dirs (cur ++ '/' :: part) parts

def ensureDirs (path : Text) (s : Files) : Files :=
  let trimmed := (path.dropWhile (· == '/')).rdropWhile (· == '/')
  (dirs [] (trimmed.splitOn '/')).foldl (fun s cur => (s.mkdir cur).getD s) s

def parent (path : Text) : Text :=
  let upTo := path.rdropWhile (· != '/')
  if upTo.length ≤ 1 then ['/'] else upTo.dropLast

/-- The body of the loop of `remove_tree`; `descend` is the recursive call. -/
def removeNames (descend : Text → Files → Bool × Files) (path : Text) :
    List Text → Files → Bool × Files
  | [], s => (true, s)
  | name :: rest, s =>
    let out :=
      if name.getLast? = some '/' then descend (join path (name.rdropWhile (· == '/'))) s
      else
        match s.unlink (join path name) with
        | some s => (true, s)
        | none => (false, s)
    if out.1 then removeNames descend path rest out.2 else out

/-- `remove_tree`. Every call goes one name deeper, and the service refuses paths with more than
`maxPath` bytes. -/
def removeTree : Nat → Text → Files → Bool × Files
  | 0, _, s => (false, s)
  | fuel + 1, path, s =>
    match s.list path with
    | some entries =>
      let out := removeNames (removeTree fuel) path entries s
      if out.1 then
        match out.2.rmdir path with
        | some s => (true, s)
        | none => (false, out.2)
      else out
    | none =>
      match s.unlink path with
      | some s => (true, s)
      | none => (false, s)

def registry (m : Manifest) : Text :=
  "bundle=".toList ++ m.bundleName ++ "\nversion=".toList ++ m.version ++ "\nhash=".toList ++ m.bundleHash ++ ['\n']

def regValue (t : Text) (k : String) : Option Text := (lines t).findSome? fun line =>
    (splitOnce '=' line).bind fun (a, b) => if a = k.toList then some b else none

/-- The loop of `install_bytes`: the error it stops with. -/
def writeEntries (temp : Text) : List Entry → Files → Option Error × Files
  | [], s => (none, s)
  | e :: rest, s =>
    let dest := join temp e.path
    let s := ensureDirs (parent dest) s
    match s.writeFile dest e.data with
    | none => (some .fsWrite, s)
    | some s =>
      match s.readFile dest (e.data.length + 1) with
      | none => (some .fsRead, s)
      | some back => if back ≠ e.data then (some .fsCompare, s) else writeEntries temp rest s

def tempPath (rnd : Bytes) : Text := "/Applications/.pkg-".toList ++ hexText rnd

def backupPath (m : Manifest) : Text := bundlePath m.bundleName ++ ".old".toList

/-- `install_bytes` from the renames on. -/
def commit (p : Package) (temp : Text) (s : Files) : Except Error Manifest × Files :=
  let finalp := bundlePath p.manifest.bundleName
  let backup := backupPath p.manifest
  let renamed := s.rename finalp backup
  let hadOld := renamed.isSome
  let s := renamed.getD s
  match s.rename temp finalp with
  | none =>
    let s := if hadOld then (s.rename backup finalp).getD s else s
    (.error .fsCommit, (removeTree Fs.maxPath temp s).2)
  | some s =>
    let s := if hadOld then (removeTree Fs.maxPath backup s).2 else s
    match s.writeFile (registryPath p.manifest.identifier) (utf8 (registry p.manifest)) with
    | none => (.error .fsRegistry, s)
    | some s => (.ok p.manifest, s)

/-- `install_bytes` of a package that is valid; `rnd` are the random bytes. -/
def installValid (p : Package) (rnd : Bytes) (s : Files) : Except Error Manifest × Files :=
  let s := ensureDirs "/var/lib/zeropkg".toList (ensureDirs "/Applications".toList s)
  let temp := tempPath rnd
  let s := (removeTree Fs.maxPath temp s).2
  match s.mkdir temp with
  | none => (.error .fsTemp, s)
  | some s =>
    match writeEntries temp p.entries s with
    | (some e, s) => (.error e, (removeTree Fs.maxPath temp s).2)
    | (none, s) => commit p temp s

def installBytes (verifier : Verifier) (bytes rnd : Bytes) (s : Files) :
    Except Error Manifest × Files :=
  match parsePackage bytes with
  | .error e => (.error e, s)
  | .ok p =>
    match validate verifier p with
    | .error e => (.error e, s)
    | .ok () => installValid p rnd s

def readRegistry (id : Text) (s : Files) : Except Error Text :=
  match s.readFile (registryPath id) 4096 with
  | none => .error .notFound
  | some raw =>
    match fromUtf8 raw with
    | none => .error .format
    | some t => .ok t

def registryValue (id : Text) (k : String) (s : Files) : Except Error Text :=
  match readRegistry id s with
  | .error e => .error e
  | .ok t =>
    match regValue t k with
    | none => .error .format
    | some v => .ok v

def remove (id : Text) (s : Files) : Except Error Unit × Files :=
  match registryValue id "bundle" s with
  | .error e => (.error e, s)
  | .ok bundle =>
    match removeTree Fs.maxPath (bundlePath bundle) s with
    | (false, s) => (.error .fs, s)
    | (true, s) =>
      match s.unlink (registryPath id) with
      | none => (.error .fs, s)
      | some s => (.ok (), s)

/-- The body of the loop of `collect_installed`; `descend` is the recursive call. -/
def collectNames (descend : Text → Option (List Entry)) (root rel : Text) (s : Files) :
    List Text → Option (List Entry)
  | [] => some []
  | name :: rest => do
      let trimmed := name.rdropWhile (· == '/')
      let childRel := if rel = [] then trimmed else join rel trimmed
      let here ←
        if name.getLast? = some '/' then descend childRel
        else (s.readFile (join root childRel) maxPackage).map fun data => [⟨childRel, data⟩]
      let later ← collectNames descend root rel s rest
      return here ++ later

def collectInstalled (root : Text) (s : Files) : Nat → Text → Option (List Entry)
  | 0, _ => none
  | fuel + 1, rel =>
    (s.list (if rel = [] then root else join root rel)).bind
      (collectNames (collectInstalled root s fuel) root rel s)

def verify (id : Text) (s : Files) : Except Error Bool :=
  match registryValue id "bundle" s with
  | .error e => .error e
  | .ok bundle =>
    match registryValue id "hash" s with
    | .error e => .error e
    | .ok expected =>
      match collectInstalled (bundlePath bundle) s Fs.maxPath [] with
      | none => .error .fs
      | some entries => .ok (hexText (canonicalHash entries) == expected)

/-! ## What the operations leave alone -/

section

variable {s : Files} {q : Key}

end

/-! ## What `launch` and `verify` depend on -/

section

variable {s s' : Files} {id : Text}

end

/-! ## Runs -/

inductive Event
  | install (bytes rnd : Bytes)
  | remove (id : Text)

def apply (verifier : Verifier) (s : Files) : Event → Files
  | .install bytes rnd => (installBytes verifier bytes rnd s).2
  | .remove id => (remove id s).2

def Step (verifier : Verifier) (s : Files) (e : Event) (s' : Files) : Prop :=
  apply verifier s e = s'

/-- Where an identifier has its registry file and its bundle. -/
def area (s : Files) (id : Text) : List Key := names (registryPath id) ::
    match registryValue id "bundle" s with
    | .ok bundle => [names (bundlePath bundle)]
    | .error _ => []

/-- The trees that a request moves or deletes, and the registry file that it writes or deletes. -/
def touched (s : Files) : Event → List Key × List Key
  | .install bytes rnd =>
    match parsePackage bytes with
    | .ok p => ([tempPath rnd, bundlePath p.manifest.bundleName, backupPath p.manifest].map names,
        [names (registryPath p.manifest.identifier)])
    | .error _ => ([], [])
  | .remove id =>
    match registryValue id "bundle" s with
    | .ok bundle => ([names (bundlePath bundle)], [names (registryPath id)])
    | .error _ => ([], [])

/-- A request stays away from the files of an identifier. -/
def Spares (id : Text) (s : Files) (e : Event) : Prop :=
  ∀ q ∈ area s id, (∀ k ∈ (touched s e).1, Apart k q) ∧ ∀ k ∈ (touched s e).2, ¬q <+: k

instance (id : Text) (s : Files) (e : Event) : Decidable (Spares id s e) := inferInstanceAs (Decidable (∀ q ∈ area s id, _))

end ZeroOS.Pkg
