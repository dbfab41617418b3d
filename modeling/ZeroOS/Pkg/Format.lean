import ZeroOS.Crypto.Sha256
import ZeroOS.Security.Users

/-!
# Packages

A package is a manifest, a text of `key = value` lines, and files with their paths. The manifest says
under which name and identifier the files are to be installed, and has a hash of the files and a
signature. The hash is over the files in the order of their paths; the signature is over the origin,
the identifier, the version and that hash, each followed by a zero byte.

The errors of `install_url` are left out with it.
-/

namespace ZeroOS.Pkg

open Crypto List Wire
open Fs (utf8 fromUtf8)
open Security (Text trim lines hexText hexBytes)

variable {rest : Bytes}

inductive Error
  | format
  | hash
  | signature
  | fs
  | fsTemp
  | fsWrite
  | fsRead
  | fsCompare
  | fsCommit
  | fsRegistry
  | notFound
  | tooLarge
  deriving DecidableEq, Repr

def magic : Bytes := utf8 "ZEROPKG1\n".toList

def maxPackage : Nat := 8 * 1024 * 1024

structure Manifest where
  formatVersion : Nat
  bundleName : Text
  identifier : Text
  version : Text
  origin : Text
  bundleHash : Text
  signature : Text
  deriving DecidableEq

structure Entry where
  path : Text
  data : Bytes
  deriving DecidableEq

structure Package where
  manifest : Manifest
  entries : List Entry
  deriving DecidableEq

/-! ## The manifest -/

def splitOnce (c : Char) (text : Text) : Option (Text × Text) :=
  if c ∈ text then some (text.takeWhile (· != c), (text.dropWhile (· != c)).tail) else none

def unquote (v : Text) : Text :=
  if 2 ≤ (utf8 v).length ∧ v.head? = some '"' ∧ v.getLast? = some '"' then v.tail.dropLast else v

/-- The loop of `kv`: a line that is no comment and has no `=` ends it. -/
def kvLines (key : Text) : List Text → Option Text
  | [] => none
  | line :: rest =>
    let line := trim line
    if line.head? = some '#' then kvLines key rest
    else (splitOnce '=' line).bind fun (k, v) => if trim k = key then some (unquote (trim v)) else kvLines key rest

def kv (text : Text) (key : String) : Option Text := kvLines key.toList (lines text)

/-- One more digit of a `u32`. -/
def pushDigit (n : Nat) (c : Char) : Option Nat :=
  if '0' ≤ c ∧ c ≤ '9' ∧ n * 10 + (c.toNat - '0'.toNat) < 2 ^ 32 then
    some (n * 10 + (c.toNat - '0'.toNat))
  else none

/-- `str::parse::<u32>`. -/
def parseU32 (text : Text) : Option Nat :=
  let digits := if text.head? = some '+' then text.tail else text
  if digits = [] then none else digits.foldlM pushDigit 0

def parseManifest (t : Text) : Except Error Manifest :=
  let manifest := do
    let formatVersion ← (kv t "format_version").bind parseU32
    let bundleName ← kv t "bundle_name"
    let identifier ← kv t "identifier"
    let version ← kv t "version"
    let origin ← kv t "origin"
    let bundleHash ← kv t "bundle_hash"
    let signature ← kv t "signature"
    return ⟨formatVersion, bundleName, identifier, version, origin, bundleHash, signature⟩
  match manifest with
  | some m => .ok m
  | none => .error .format

/-! ## The files -/

def safeRel (p : Text) : Bool := !p.isEmpty && p.head? != some '/' &&
    !(p.splitOn '/').any fun x => x.isEmpty || x == ['.'] || x == ['.', '.']

/-- Go on if a check has passed. -/
def check (e : Error) (b : Bool) : Reader Error Unit :=
  if b then pure () else throw e

/-- A string of `n` bytes. -/
def text (n : Nat) : Reader Error Text := do
  match fromUtf8 (← take .format n) with
  | some p => pure p
  | none => throw .format

/-- One file of the package, behind the `earlier` ones. -/
def readEntry (earlier : List Entry) : Reader Error Entry := do
  let pl ← number .format 4
  check .format (0 < pl && pl ≤ 512)
  let p ← text pl
  check .format (safeRel p && earlier.all (·.path != p))
  let sz ← number .format 8
  check .tooLarge (sz ≤ maxPackage)
  let data ← take .format sz
  return ⟨p, data⟩

def readEntries : Nat → List Entry → Reader Error (List Entry)
  | 0, entries => pure entries
  | n + 1, entries => do
      let e ← readEntry entries
      readEntries n (entries ++ [e])

def readPackage : Reader Error Package := do
  let ml ← number .format 4
  check .format (ml ≤ 64 * 1024)
  let manifest ← StateT.lift (parseManifest (← text ml))
  check .format (manifest.formatVersion == 2 && ".app".toList.isSuffixOf manifest.bundleName)
  let n ← number .format 4
  check .format (0 < n && n ≤ 4096)
  let entries ← readEntries n []
  return ⟨manifest, entries⟩

def parsePackage (b : Bytes) : Except Error Package :=
  if maxPackage < b.length ∨ ¬magic <+: b then .error .format
  else
    match readPackage (b.drop magic.length) with
    | .error e => .error e
    | .ok (p, rest) => if rest ≠ [] ∨ ¬p.entries.any (·.path = "main".toList) then .error .format else .ok p

/-! ## Hashes -/

/-- The order of `sort_by`. -/
def Entry.before (a b : Entry) : Prop := utf8 a.path ≤ utf8 b.path

instance : DecidableRel Entry.before :=
  fun a b => inferInstanceAs (Decidable (utf8 a.path ≤ utf8 b.path))

/-- A file as it is hashed: its path and its data, each behind its length. -/
def Entry.bytes (e : Entry) : Bytes := le 4 (utf8 e.path).length ++ (utf8 e.path ++ (le 8 e.data.length ++ e.data))

/-- What `canonical_hash` hashes. -/
def canonicalBytes (entries : List Entry) : Bytes := (entries.insertionSort Entry.before).flatMap Entry.bytes

def canonicalHash (entries : List Entry) : Bytes := sha256 (canonicalBytes entries)

/-- What `message_hash` hashes. -/
def messageBytes (m : Manifest) : Bytes := utf8 "zero-pkg-v2\x00".toList ++
    [m.origin, m.identifier, m.version, m.bundleHash].flatMap fun s => utf8 s ++ [0]

def messageHash (m : Manifest) : Bytes := sha256 (messageBytes m)

/-- What the security service says about an origin, a hash and a signature. -/
abbrev Verifier := Text → Bytes → Bytes → Bool

def verifySignature (verifier : Verifier) (m : Manifest) : Except Error Unit :=
  if m.signature.length ≠ 128 then .error .format
  else
    match hexBytes m.signature with
    | none => .error .format
    | some sig =>
      if 30 < (utf8 m.origin).length then .error .format
      else if verifier m.origin (messageHash m) sig then .ok ()
      else .error .signature

def validate (verifier : Verifier) (p : Package) : Except Error Unit :=
  if hexText (canonicalHash p.entries) ≠ p.manifest.bundleHash then .error .hash
  else verifySignature verifier p.manifest

/-! ## Where a package goes -/

def join (a b : Text) : Text := a.rdropWhile (· == '/') ++ '/' :: b.dropWhile (· == '/')

def bundlePath (bundleName : Text) : Text := join "/Applications".toList bundleName

def registryPath (id : Text) : Text := "/var/lib/zeropkg/".toList ++ id ++ ".meta".toList

/-! ## What is accepted -/

/-- The lengths that the parser lets pass. -/
def Entry.Small (e : Entry) : Prop := (utf8 e.path).length ≤ 512 ∧ e.data.length ≤ maxPackage

lemma check_eq_ok (h : check e b input = .ok (u, rest)) :
    b = true := by
  unfold check at h
  split at h
  next hb => exact hb
  · cases h

lemma utf8_of_fromUtf8 (h : fromUtf8 bytes = some p) :
    utf8 p = bytes := by
  unfold fromUtf8 at h
  obtain ⟨a, ha, rfl⟩ := Option.map_eq_some_iff.mp h
  have he : (utf8 a.toList).toByteArray = bytes.toByteArray := by
    have hg : bytes.toByteArray.utf8Decode?.get (by rw [ha]; rfl) = a := by simp [ha]
    rw [← hg]
    exact ByteArray.utf8Encode_get_utf8Decode?
  have hd := congrArg (fun b => b.data.toList) he
  simpa using hd

lemma text_eq_ok (h : text n input = .ok (p, rest)) : (utf8 p).length = n := by
  obtain ⟨w, mid, hw, h⟩ := bind_eq_ok h
  obtain ⟨hl, -⟩ := take_eq_ok hw
  cases hp : fromUtf8 w with
  | none => rw [hp] at h; cases h
  | some q =>
    rw [hp] at h
    cases h
    rw [utf8_of_fromUtf8 hp, hl]

lemma readEntry_eq_ok (h : readEntry earlier input = .ok (e, rest)) :
    e.Small ∧ ∀ e' ∈ earlier, e'.path ≠ e.path := by
  obtain ⟨pl, in₁, -, h⟩ := bind_eq_ok h
  obtain ⟨_, in₂, hl, h⟩ := bind_eq_ok h
  obtain ⟨p, in₃, hp, h⟩ := bind_eq_ok h
  obtain ⟨_, in₄, hs, h⟩ := bind_eq_ok h
  obtain ⟨sz, in₅, -, h⟩ := bind_eq_ok h
  obtain ⟨_, in₆, hz, h⟩ := bind_eq_ok h
  obtain ⟨data, in₇, hd, h⟩ := bind_eq_ok h
  cases h
  have hl := check_eq_ok hl
  have hs := check_eq_ok hs
  have hz := check_eq_ok hz
  simp only [Bool.and_eq_true, decide_eq_true_eq] at hl hz
  rw [Bool.and_eq_true, all_eq_true] at hs
  refine ⟨⟨(text_eq_ok hp).trans_le hl.2, (take_eq_ok hd).1.trans_le hz⟩, fun e' he' => ?_⟩
  exact bne_iff_ne.mp (hs.2 e' he')

lemma readEntries_eq_ok (h : readEntries n acc input = .ok (entries, rest)) (hs : ∀ e ∈ acc, e.Small)
    (hp : (acc.map Entry.path).Nodup) :
    (∀ e ∈ entries, e.Small) ∧ (entries.map Entry.path).Nodup := by
  induction n generalizing acc input with
  | zero =>
    cases h
    exact ⟨hs, hp⟩
  | succ n ih =>
    obtain ⟨e, mid, he, h⟩ := bind_eq_ok h
    obtain ⟨hes, hn⟩ := readEntry_eq_ok he
    refine ih h ?_ ?_
    · simpa [or_imp, forall_and] using ⟨hs, hes⟩
    · rw [map_append, nodup_append]
      refine ⟨hp, nodup_singleton _, ?_⟩
      simpa using hn

lemma parsePackage_eq_ok (h : parsePackage b = .ok p) : (∀ e ∈ p.entries, e.Small) ∧ (p.entries.map Entry.path).Nodup := by
  unfold parsePackage at h
  split at h
  · cases h
  split at h
  · cases h
  next q rest hr =>
    split at h
    · cases h
    · cases h
      iterate 7 obtain ⟨_, _, -, hr⟩ := bind_eq_ok hr
      obtain ⟨entries, _, he, hr⟩ := bind_eq_ok hr
      cases hr
      exact readEntries_eq_ok he nofun nodup_nil

/-! ## Packing -/

def packageBytes (manifest : Text) (entries : List Entry) : Bytes :=
  magic ++ (le 4 (utf8 manifest).length ++ (utf8 manifest ++ (le 4 entries.length ++ entries.flatMap Entry.bytes)))

/-- The file can be put into a package behind the `earlier` ones. -/
def Entry.fits (earlier : List Entry) (e : Entry) : Bool :=
  0 < (utf8 e.path).length && (utf8 e.path).length ≤ 512 && safeRel e.path &&
    earlier.all (·.path != e.path) && e.data.length ≤ maxPackage

/-- Every file can be put behind those before it. -/
def fitsAll : List Entry → List Entry → Bool
  | _, [] => true
  | earlier, e :: es => e.fits earlier && fitsAll (earlier ++ [e]) es

lemma reads_check (h : b = true) : Reads (check e b) [] () := by
  rw [check, if_pos h]
  exact reads_pure ()

lemma reads_text (p : Text) : Reads (text (utf8 p).length) (utf8 p) p := by
  intro rest
  have ht := reads_take (e := Error.format) (w := utf8 p) rfl rest
  change (take Error.format (utf8 p).length (utf8 p ++ rest)).bind _ = _
  rw [ht]
  simp only [Except.bind, Fs.fromUtf8_utf8]
  rfl

lemma reads_readEntry (h : e.fits earlier = true) :
    Reads (readEntry earlier) e.bytes e := by
  simp only [Entry.fits, Bool.and_eq_true, decide_eq_true_eq] at h
  obtain ⟨⟨⟨⟨hps, hp⟩, hs⟩, hn⟩, hd⟩ := h
  have he : Reads (do
      let data ← take Error.format e.data.length
      return (⟨e.path, data⟩ : Entry)) (e.data ++ []) e := (reads_take rfl).bind (reads_pure e)
  rw [append_nil] at he
  have hz : e.data.length < 256 ^ 8 := lt_of_le_of_lt hd (by decide)
  have hl : (utf8 e.path).length < 256 ^ 4 := lt_of_le_of_lt hp (by decide)
  refine (reads_number hl).bind ((reads_check (by simp [hp, hps])).bind ((reads_text e.path).bind
    ((reads_check ?_).bind ((reads_number hz).bind ((reads_check ?_).bind he)))))
  · rw [hs, hn]
    rfl
  · exact decide_eq_true hd

lemma reads_readEntries (h : fitsAll acc es = true) :
    Reads (readEntries es.length acc) (es.flatMap Entry.bytes) (acc ++ es) := by
  induction es generalizing acc with
  | nil =>
    rw [append_nil]
    exact reads_pure acc
  | cons e es ih =>
    rw [fitsAll, Bool.and_eq_true] at h
    have hr := ih h.2
    rw [append_assoc] at hr
    exact (reads_readEntry h.1).bind hr

/-- What is packed is read back. -/
lemma parsePackage_packageBytes (hm : parseManifest manifest = .ok m) (hv : m.formatVersion = 2)
    (hnm : ".app".toList.isSuffixOf m.bundleName = true) (hl : (utf8 manifest).length ≤ 64 * 1024)
    (hc : 0 < entries.length ∧ entries.length ≤ 4096) (hf : fitsAll [] entries = true)
    (hmn : entries.any (·.path = "main".toList) = true)
    (hs : (packageBytes manifest entries).length ≤ maxPackage) :
    parsePackage (packageBytes manifest entries) = .ok ⟨m, entries⟩ := by
  have he : Reads (do
      let entries ← readEntries entries.length []
      return (⟨m, entries⟩ : Package)) (entries.flatMap Entry.bytes ++ []) ⟨m, entries⟩ :=
    (reads_readEntries hf).bind (reads_pure _)
  have hmf : Reads (StateT.lift (parseManifest manifest) : Reader Error Manifest) [] m := by
    intro rest
    rw [hm]
    rfl
  have hn : entries.length < 256 ^ 4 := lt_of_le_of_lt hc.2 (by decide)
  have hml : (utf8 manifest).length < 256 ^ 4 := lt_of_le_of_lt hl (by decide)
  have ha : Reads readPackage _ ⟨m, entries⟩ :=
    (reads_number hml).bind ((reads_check (decide_eq_true hl)).bind ((reads_text manifest).bind
      (hmf.bind ((reads_check (by rw [hv, hnm]; rfl)).bind ((reads_number hn).bind
        ((reads_check (by simp [hc])).bind he))))))
  have hr := ha []
  have hb : magic <+: packageBytes manifest entries := prefix_append _ _
  rw [parsePackage, if_neg (by rw [not_or, not_not]; exact ⟨not_lt.mpr hs, hb⟩)]
  have hd : (packageBytes manifest entries).drop magic.length = le 4 (utf8 manifest).length ++
      (utf8 manifest ++ (le 4 entries.length ++ entries.flatMap Entry.bytes)) := by
    rw [packageBytes, drop_left]
  rw [hd]
  simp only [nil_append, append_nil] at hr
  rw [hr]
  exact if_neg (by rw [hmn]; simp)

/-! ## Small packages -/

def manifestText (bundleName identifier version bundleHash : Text) : Text :=
  "format_version=2\nbundle_name=".toList ++ bundleName ++ "\nidentifier=".toList ++ identifier ++
    "\nversion=".toList ++ version ++ "\norigin=dev\nbundle_hash=".toList ++ bundleHash ++
    "\nsignature=".toList ++ List.replicate 128 '0' ++ ['\n']

def mainOnly : List Entry := [⟨"main".toList, [1]⟩]

def mainOnlyHash : Text := ['e', '4', '4', '6', '6', 'e', '5', '8', 'e', '0', '3', 'f', '0', 'c', '3', '3', 'd', '6',
    'd', '1', 'b', 'f', '8', 'a', '5', 'c', 'a', '9', '6', 'f', 'f', '5', '8', '4', 'a', '0',
    '4', '1', '6', '1', 'e', 'd', '8', '8', '0', 'a', 'a', '8', 'e', '9', 'e', '7', '5', '3',
    '4', 'e', '3', '3', '1', 'b', '1', '8', '6', '7']

lemma canonicalHash_mainOnly : hexText (canonicalHash mainOnly) = mainOnlyHash := by
  decide +kernel

def smallPackage (bundleName identifier version : Text) : Bytes :=
  packageBytes (manifestText bundleName identifier version mainOnlyHash) mainOnly

def smallManifest (bundleName identifier version : Text) : Manifest :=
  ⟨2, bundleName, identifier, version, "dev".toList, mainOnlyHash, List.replicate 128 '0'⟩

/-- What has to be evaluated to know that such a package is accepted. -/
def accepted (bundleName identifier version : Text) : Bool :=
  let manifest := manifestText bundleName identifier version mainOnlyHash
  (match parseManifest manifest with
    | .ok m => m == smallManifest bundleName identifier version
    | .error _ => false) &&
  ".app".toList.isSuffixOf bundleName && (utf8 manifest).length ≤ 1000

lemma parsePackage_smallPackage (h : accepted bundleName identifier version = true) :
    parsePackage (smallPackage bundleName identifier version) =
      .ok ⟨smallManifest bundleName identifier version, mainOnly⟩ := by
  simp only [accepted, Bool.and_eq_true, decide_eq_true_eq] at h
  obtain ⟨⟨hm, hn⟩, hl⟩ := h
  split at hm
  next m hp =>
    obtain rfl := beq_iff_eq.mp hm
    refine parsePackage_packageBytes hp rfl hn (by omega) (by decide) (by decide +kernel)
      (by decide +kernel) ?_
    have hr : magic.length + (4 + (4 + (mainOnly.flatMap Entry.bytes).length)) ≤ 1000 := by decide +kernel
    have hx : 2000 ≤ maxPackage := by decide
    simp only [packageBytes, length_append, Wire.length_le]
    omega
  · cases hm

/-- The packages of the examples: the name of the bundle, the identifier and the version. -/
def samples : List (Text × Text × Text) := [("A.app".toList, "a".toList, "1".toList), ("/A.app".toList, "a".toList, "1".toList),
    ("B.app".toList, "a".toList, "1".toList), ("B.app".toList, "b".toList, "1".toList),
    ("A.app".toList, "b".toList, "1".toList), ("A.app".toList, "a".toList, "b\x00c".toList),
    ("A.app".toList, "a\x00b".toList, "c".toList)]

lemma accepted_samples : ∀ x ∈ samples, accepted x.1 x.2.1 x.2.2 = true := by
  decide +kernel

lemma parsePackage_sample {bundleName identifier version : Text} (h : (bundleName, identifier, version) ∈ samples) :
    parsePackage (smallPackage bundleName identifier version) = .ok ⟨smallManifest bundleName identifier version, mainOnly⟩ :=
  parsePackage_smallPackage (accepted_samples (bundleName, identifier, version) h)

end ZeroOS.Pkg
