import ZeroOS.Pkg.Format

/-!
# What a signature covers

Two packages with the same signed message have the same files: the message has the hash of the files in
it, and the hashed bytes can be read back. They have the same identifier too, if no more zero bytes are
in the one than in the other; a zero byte also ends the identifier in the message. The name of the
bundle is not in the message at all.

That two of the hashed strings do not collide is an assumption about these strings (`NoCollision`).
-/

namespace ZeroOS.Pkg

open Crypto List Wire
open Fs (utf8 fromUtf8)
open Security (Text hexText hexBytes)

/-! ## Reading back what is hashed -/

def toEntry (raw data : Bytes) : Reader Unit Entry :=
  match fromUtf8 raw with
  | some path => pure ⟨path, data⟩
  | none => throw ()

/-- The reader of one file as it is hashed. -/
def readCanonical : Reader Unit Entry := do
  let raw ← take () (← number () 4)
  let data ← take () (← number () 8)
  toEntry raw data

lemma reads_bytes (h : e.Small) : Reads readCanonical e.bytes e := by
  have hp : (utf8 e.path).length < 256 ^ 4 := lt_of_le_of_lt h.1 (by decide)
  have hd : e.data.length < 256 ^ 8 := lt_of_le_of_lt h.2 (by decide)
  have he : Reads (toEntry (utf8 e.path) e.data) [] e := by
    rw [toEntry, Fs.fromUtf8_utf8]
    exact reads_pure e
  have hl := (reads_take (e := ()) (w := e.data) rfl).bind he
  rw [append_nil] at hl
  exact (reads_number hp).bind ((reads_take rfl).bind ((reads_number hd).bind hl))

lemma mem_iff_of_canonicalBytes (hes : ∀ e ∈ es, e.Small)
    (hf : ∀ e ∈ fs, e.Small) (h : canonicalBytes es = canonicalBytes fs) (e : Entry) :
    e ∈ es ↔ e ∈ fs := by
  have hr : ∀ l : List Entry, (∀ e ∈ l, e.Small) → ∀ e ∈ l.insertionSort Entry.before, Reads readCanonical e.bytes e :=
    fun l hl e he => reads_bytes (hl e ((mem_insertionSort _).mp he))
  have hs := flatMap_inj (hr es hes) (hr fs hf)
    (fun e he => by simp [Entry.bytes, le] at he) h
  rw [← mem_insertionSort Entry.before (l := es), hs, mem_insertionSort]

/-! ## The message -/

lemma utf8_inj (h : utf8 a = utf8 b) : a = b := by
  have ha := Fs.fromUtf8_utf8 a
  rw [h, Fs.fromUtf8_utf8] at ha
  exact (Option.some.inj ha).symm

lemma append_cons_inj {α : Type*} [DecidableEq α] {c : α} {a b a' b' : List α}
    (hc : a.count c = a'.count c) (h : a ++ c :: b = a' ++ c :: b') : a = a' ∧ b = b' := by
  rcases append_eq_append_iff.mp h with ⟨d, rfl, hd⟩ | ⟨d, rfl, hd⟩
  · cases d with
    | nil => simpa using hd
    | cons x d =>
      obtain ⟨rfl, -⟩ := List.cons.inj hd
      rw [count_append, count_cons_self] at hc
      omega
  · cases d with
    | nil => simpa [eq_comm] using hd
    | cons x d =>
      obtain ⟨rfl, -⟩ := List.cons.inj hd
      rw [count_append, count_cons_self] at hc
      omega

lemma messageBytes_eq (m : Manifest) :
    messageBytes m = (utf8 "zero-pkg-v2\x00".toList ++ (utf8 m.origin ++ [0])) ++
      (utf8 m.identifier ++ 0 :: utf8 m.version) ++ (0 :: (utf8 m.bundleHash ++ [0])) := by
  simp [messageBytes]

lemma fields_of_messageBytes (ho : m.origin = m'.origin) (hl : (utf8 m.bundleHash).length = (utf8 m'.bundleHash).length)
    (hz : (utf8 m.identifier).count 0 = (utf8 m'.identifier).count 0)
    (h : messageBytes m = messageBytes m') :
    m.identifier = m'.identifier ∧ m.bundleHash = m'.bundleHash := by
  rw [messageBytes_eq, messageBytes_eq, ho] at h
  obtain ⟨hf, hb⟩ := append_inj' h (by simp [hl])
  have hh : m.bundleHash = m'.bundleHash := utf8_inj (by simpa using hb)
  have hid := append_cancel_left hf
  exact ⟨utf8_inj (append_cons_inj hz hid).1, hh⟩

/-- Two strings are the same if their hashes are. -/
def NoCollision (a b : Bytes) : Prop := sha256 a = sha256 b → a = b

lemma hexText_inj (h : hexText a = hexText b) : a = b := by
  have ha := Security.hexBytes_hexText a
  rw [h, Security.hexBytes_hexText] at ha
  exact (Option.some.inj ha).symm

lemma length_hexDigit {n : Nat} (h : n < 16) : (String.utf8EncodeChar (Security.hexDigit n)).length = 1 := by
  have ha : ∀ i : Fin 16, (String.utf8EncodeChar (Security.hexDigit i)).length = 1 := by decide
  exact ha ⟨n, h⟩

lemma length_utf8_hexText (bytes : Bytes) : (utf8 (hexText bytes)).length = 2 * bytes.length := by
  induction bytes with
  | nil => rfl
  | cons b bytes ih =>
    have hlt := b.toNat_lt
    have hh := @length_hexDigit (b.toNat / 16) (by omega)
    have hl := @length_hexDigit (b.toNat % 16) (by omega)
    have hc : utf8 (hexText (b :: bytes)) = String.utf8EncodeChar (Security.hexDigit (b.toNat / 16)) ++
        (String.utf8EncodeChar (Security.hexDigit (b.toNat % 16)) ++ utf8 (hexText bytes)) := rfl
    rw [hc, length_append, length_append, hh, hl, ih, length_cons]
    omega

/-- A signature covers the effect of a package, up to the name of the bundle and to zero bytes in
the identifier. -/
theorem signed_message_fixes_effect {b b' : Bytes} {p p' : Package} (hp : parsePackage b = .ok p)
    (hp' : parsePackage b' = .ok p') (horigin : p.manifest.origin = p'.manifest.origin)
    (hmessage : messageHash p.manifest = messageHash p'.manifest)
    (hhash : hexText (canonicalHash p.entries) = p.manifest.bundleHash)
    (hhash' : hexText (canonicalHash p'.entries) = p'.manifest.bundleHash)
    (hm : NoCollision (messageBytes p.manifest) (messageBytes p'.manifest))
    (hc : NoCollision (canonicalBytes p.entries) (canonicalBytes p'.entries))
    (hname : p.manifest.bundleName.dropWhile (· == '/') = p'.manifest.bundleName.dropWhile (· == '/'))
    (hzero : (utf8 p.manifest.identifier).count 0 = (utf8 p'.manifest.identifier).count 0) :
    (∀ e, e ∈ p.entries ↔ e ∈ p'.entries) ∧ bundlePath p.manifest.bundleName = bundlePath p'.manifest.bundleName ∧
      p.manifest.identifier = p'.manifest.identifier := by
  have hl : (utf8 p.manifest.bundleHash).length = (utf8 p'.manifest.bundleHash).length := by
    rw [← hhash, ← hhash', length_utf8_hexText, length_utf8_hexText, canonicalHash, canonicalHash, length_sha256, length_sha256]
  obtain ⟨hid, hb⟩ := fields_of_messageBytes horigin hl hzero (hm hmessage)
  rw [← hhash, ← hhash'] at hb
  have hy : canonicalBytes p.entries = canonicalBytes p'.entries := hc (hexText_inj hb)
  refine ⟨?_, ?_, hid⟩
  · exact mem_iff_of_canonicalBytes (parsePackage_eq_ok hp).1 (parsePackage_eq_ok hp').1 hy
  · rw [bundlePath, bundlePath, join, join, hname]

/-- A leading slash in the name is not part of the path. -/
theorem signed_message_fixes_effect_slash : ∃ b b' p p', parsePackage b = .ok p ∧ parsePackage b' = .ok p' ∧
      p.manifest.bundleName ≠ p'.manifest.bundleName ∧ (∀ e, e ∈ p.entries ↔ e ∈ p'.entries) ∧
      bundlePath p.manifest.bundleName = bundlePath p'.manifest.bundleName ∧
      p.manifest.identifier = p'.manifest.identifier := by
  have hp := @parsePackage_sample "A.app".toList "a".toList "1".toList (by simp [samples])
  have hp' := @parsePackage_sample "/A.app".toList "a".toList "1".toList (by simp [samples])
  exact ⟨_, _, _, _, hp, hp', by decide, signed_message_fixes_effect hp hp' rfl rfl
    canonicalHash_mainOnly canonicalHash_mainOnly (fun _ => rfl) (fun _ => rfl) (by decide) rfl⟩

/-- The name of the bundle is not signed, and a zero byte moves the border between the identifier
and the version. -/
theorem unsigned_bundle_name : (∃ b b' p p', parsePackage b = .ok p ∧ parsePackage b' = .ok p' ∧
      p.manifest.origin = p'.manifest.origin ∧ messageBytes p.manifest = messageBytes p'.manifest ∧
      canonicalBytes p.entries = canonicalBytes p'.entries ∧
      hexText (canonicalHash p.entries) = p.manifest.bundleHash ∧
      hexText (canonicalHash p'.entries) = p'.manifest.bundleHash ∧
      bundlePath p.manifest.bundleName ≠ bundlePath p'.manifest.bundleName) ∧
    ∃ b b' p p', parsePackage b = .ok p ∧ parsePackage b' = .ok p' ∧
      p.manifest.origin = p'.manifest.origin ∧ messageBytes p.manifest = messageBytes p'.manifest ∧
      canonicalBytes p.entries = canonicalBytes p'.entries ∧
      hexText (canonicalHash p.entries) = p.manifest.bundleHash ∧
      hexText (canonicalHash p'.entries) = p'.manifest.bundleHash ∧
      p.manifest.identifier ≠ p'.manifest.identifier := by
  have hp := @parsePackage_sample "A.app".toList "a".toList "1".toList (by simp [samples])
  have hp' := @parsePackage_sample "B.app".toList "a".toList "1".toList (by simp [samples])
  have hq := @parsePackage_sample "A.app".toList "a".toList "b\x00c".toList (by simp [samples])
  have hq' := @parsePackage_sample "A.app".toList "a\x00b".toList "c".toList (by simp [samples])
  refine ⟨⟨_, _, _, _, hp, hp', rfl, rfl, rfl, canonicalHash_mainOnly, canonicalHash_mainOnly, ?_⟩,
    _, _, _, _, hq, hq', rfl, ?_, rfl, canonicalHash_mainOnly, canonicalHash_mainOnly, ?_⟩
  · decide +kernel
  · decide +kernel
  · decide +kernel

end ZeroOS.Pkg
