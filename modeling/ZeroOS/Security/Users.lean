import ZeroOS.Lib.Joined
import ZeroOS.Fs.Directory

/-!
# Users

The records of the users, and the text they are kept as: a line for each of them, with the name, the encoded
password and the role. A password is encoded by its hash, or is taken as it is if it looks like one that is
encoded already.
-/

namespace ZeroOS.Security

open List Wire
open Fs (utf8 fromUtf8 Digest)

abbrev Text : Type := List Char

def usernameMax : Nat := 16

/-- The longest password that is hashed, in bytes. -/
def passwordInputMax : Nat := 64

def userCapacity : Nat := 8

/-- What an encoded password starts with. -/
def passwordMark : Text := "$zero$sha256$".toList

inductive UserRole
  | admin
  | user
  deriving DecidableEq, Repr

namespace UserRole

/-- `as_str`. -/
def asText : UserRole → Text
  | .admin => "admin".toList
  | .user => "user".toList

/-- `from_str`. -/
def ofText (text : Text) : Option UserRole :=
  if text = "admin".toList then some .admin else if text = "user".toList then some .user else none

@[simp] lemma ofText_asText (r : UserRole) : ofText r.asText = some r := by
  cases r <;> rfl

end UserRole

/-! ## Passwords -/

def hexNibble (c : Char) : Option Nat :=
  if '0' ≤ c ∧ c ≤ '9' then some (c.toNat - '0'.toNat)
  else if 'a' ≤ c ∧ c ≤ 'f' then some (c.toNat - 'a'.toNat + 10)
  else if 'A' ≤ c ∧ c ≤ 'F' then some (c.toNat - 'A'.toNat + 10)
  else none

/-- The digits of `password_hash`. -/
def hexDigit (n : Nat) : Char := "0123456789abcdef".toList.getD n '0'

/-- Pairs of digits as bytes. -/
def hexBytes : Text → Option Bytes
  | [] => some []
  | [_] => none
  | a :: b :: rest => do
      let high ← hexNibble a
      let low ← hexNibble b
      let bytes ← hexBytes rest
      return UInt8.ofNat (16 * high + low) :: bytes

def parseEncodedDigest (field : Text) : Option Bytes :=
  if passwordMark <+: field ∧ (field.drop passwordMark.length).length = 64 then
    hexBytes (field.drop passwordMark.length)
  else none

def encodedPassword (field : Text) : Bool := (parseEncodedDigest field).isSome

variable (sha : Bytes → Digest) {c : Char}

def passwordDigest (username password : Text) : Option Digest :=
  if password = [] ∨ passwordInputMax < (utf8 password).length ∨ usernameMax < (utf8 username).length then none
  else
    let input := utf8 "zero-os-userdb-v2".toList ++ 0 :: (utf8 username ++ 0 :: utf8 password)
    if 160 < input.length then none else some (sha input)

def hexText (bytes : Bytes) : Text := bytes.flatMap fun b => [hexDigit (b.toNat / 16), hexDigit (b.toNat % 16)]

def passwordHash (username password : Text) : Option Text :=
  (passwordDigest sha username password).map fun digest => passwordMark ++ hexText digest.bytes

def normalizePassword (username field : Text) : Option Text :=
  if encodedPassword field then some field else passwordHash sha username field

lemma hexNibble_hexDigit (h : n < 16) : hexNibble (hexDigit n) = some n := by
  have ha : ∀ i : Fin 16, hexNibble (hexDigit i) = some i.val := by decide
  exact ha ⟨n, h⟩

lemma hexBytes_hexText (bytes : Bytes) : hexBytes (hexText bytes) = some bytes := by
  induction bytes with
  | nil => rfl
  | cons b bytes ih =>
    have hlt := b.toNat_lt
    have hb : UInt8.ofNat (16 * (b.toNat / 16) + b.toNat % 16) = b := by rw [Nat.div_add_mod, UInt8.ofNat_toNat]
    change hexBytes (hexDigit (b.toNat / 16) :: hexDigit (b.toNat % 16) :: hexText bytes) = _
    simp only [hexBytes, hexNibble_hexDigit (show b.toNat / 16 < 16 by omega),
      hexNibble_hexDigit (show b.toNat % 16 < 16 by omega), ih, Option.bind_eq_bind, Option.bind_some,
      hb]
    rfl

lemma length_hexText (bytes : Bytes) : (hexText bytes).length = 2 * bytes.length := by
  induction bytes with
  | nil => rfl
  | cons b bytes ih =>
    change (hexDigit (b.toNat / 16) :: hexDigit (b.toNat % 16) :: hexText bytes).length = _
    simp only [length_cons, ih]
    omega

lemma parseEncodedDigest_hexText (digest : Digest) :
    parseEncodedDigest (passwordMark ++ hexText digest.bytes) = some digest.bytes := by
  have hl : (hexText digest.bytes).length = 64 := by rw [length_hexText, digest.length_eq]
  unfold parseEncodedDigest
  rw [drop_left, if_pos ⟨prefix_append _ _, hl⟩, hexBytes_hexText]

lemma encodedPassword_of_hash (h : passwordHash sha username password = some pwd) : encodedPassword pwd = true := by
  obtain ⟨digest, -, rfl⟩ := Option.map_eq_some_iff.mp h
  rw [encodedPassword, parseEncodedDigest_hexText]
  rfl

lemma encodedPassword_of_normalize (h : normalizePassword sha username field = some pwd) : encodedPassword pwd = true := by
  unfold normalizePassword at h
  split at h
  next he =>
    cases h
    exact he
  · exact encodedPassword_of_hash sha h

/-! ## Records -/

def isNameChar (c : Char) : Bool := c.isAlphanum || c == '-' || c == '_' || c == '.'

def validName (name : Text) : Bool := !name.isEmpty && decide ((utf8 name).length ≤ usernameMax) && name.all isNameChar

/-- A record that has passed the checks of `UserRecord::build`. -/
structure UserRecord where
  username : Text
  password : Text
  role : UserRole
  name : validName username = true
  encoded : encodedPassword password = true
  deriving DecidableEq

def UserRecord.build (username password : Text) (role : UserRole) : Option UserRecord :=
  if hname : validName username = true ∧ password ≠ [] then
    match hpwd : normalizePassword sha username password with
    | some pwd => some ⟨username, pwd, role, hname.1, encodedPassword_of_normalize sha hpwd⟩
    | none => none
  else none

def UserRecord.line (r : UserRecord) : Text := r.username ++ ':' :: (r.password ++ ':' :: r.role.asText)

def isWhitespace (c : Char) : Bool :=
  decide (9 ≤ c.toNat ∧ c.toNat ≤ 13) || decide (c.toNat ∈ [0x20, 0x85, 0xA0, 0x1680]) ||
    decide (0x2000 ≤ c.toNat ∧ c.toNat ≤ 0x200A) ||
    decide (c.toNat ∈ [0x2028, 0x2029, 0x202F, 0x205F, 0x3000])

def trim (text : Text) : Text := (text.dropWhile isWhitespace).rdropWhile isWhitespace

/-- `str::lines`: the end of a line is a newline, and a return before it belongs to it. -/
def lines (text : Text) : List Text :=
  let parts := text.splitOn '\n'
  let ended := parts.dropLast.map fun line => if line.getLast? = some '\r' then line.dropLast else line
  match parts.getLast? with
  | some [] | none => ended
  | some rest => ended ++ [rest]

/-- What a line of `apply_user_blob` says, if it says anything. -/
def parseLine (line : Text) : Option (Text × Text × UserRole) :=
  let trimmed := trim line
  if trimmed = [] ∨ trimmed.head? = some '#' then none
  else
    match trimmed.splitOn ':' with
    | name :: password :: role :: _ => (UserRole.ofText (trim role)).map fun r => (name, password, r)
    | _ => none

/-- The loop of `apply_user_blob`: the records so far, and whether a password was not encoded. -/
def parseLines : List Text → List UserRecord → Bool → List UserRecord × Bool
  | [], parsed, migrated => (parsed, migrated)
  | line :: rest, parsed, migrated =>
    match parseLine line with
    | none => parseLines rest parsed migrated
    | some (name, password, role) =>
      if parsed.length = userCapacity then (parsed, migrated)
      else
        let migrated := migrated || !encodedPassword (trim password)
        match UserRecord.build sha (trim name) (trim password) role with
        | some record => parseLines rest (parsed ++ [record]) migrated
        | none => parseLines rest parsed migrated

lemma length_parseLines (texts : List Text) (parsed : List UserRecord) (migrated : Bool)
    (h : parsed.length ≤ userCapacity) : (parseLines sha texts parsed migrated).1.length ≤ userCapacity := by
  induction texts generalizing parsed migrated with
  | nil => exact h
  | cons line rest ih =>
    unfold parseLines
    split
    · exact ih parsed migrated h
    split
    · exact h
    dsimp only
    split
    · refine ih _ _ ?_
      rw [length_append, length_singleton]
      omega
    · exact ih _ _ h

@[ext]
structure UserStore where
  records : List UserRecord
  small : records.length ≤ userCapacity

/-- `apply_user_blob`: the users of a text, and whether their passwords have to be migrated. -/
def applyUserBlob (blob : Bytes) : Option (UserStore × Bool) :=
  match fromUtf8 blob with
  | none => none
  | some text =>
    let parsed := parseLines sha (lines text) [] false
    if parsed.1 = [] then none
    else some (⟨parsed.1, length_parseLines sha _ _ _ (Nat.zero_le _)⟩, parsed.2)

/-! ## Reading back -/

lemma UserRecord.build_self (r : UserRecord) : build sha r.username r.password r.role = some r := by
  have hne : r.password ≠ [] := by
    intro hn
    have he := r.encoded
    rw [hn] at he
    cases he
  have hp : normalizePassword sha r.username r.password = some r.password := by rw [normalizePassword, if_pos r.encoded]
  unfold build
  rw [dif_pos ⟨r.name, hne⟩]
  split
  next pwd heq =>
    rw [hp] at heq
    cases heq
    rfl
  next heq =>
    rw [hp] at heq
    cases heq

/-! ### The characters of a line -/

/-- A character that does not end a field. -/
def isPlain (c : Char) : Bool := !isWhitespace c && c != ':'

lemma isPlain_of_toNat (h : 33 ≤ c.toNat ∧ c.toNat ≤ 126 ∧ c.toNat ≠ 58) : isPlain c = true := by
  have hc : c ≠ ':' := by
    rintro rfl
    exact h.2.2 rfl
  simp only [isPlain, isWhitespace, Bool.and_eq_true, Bool.not_eq_true', bne_iff_ne, Bool.or_eq_false_iff,
    decide_eq_false_iff_not, mem_cons, not_mem_nil, or_false]
  refine ⟨⟨⟨⟨?_, ?_⟩, ?_⟩, ?_⟩, hc⟩ <;> omega

lemma toNat_of_isNameChar (h : isNameChar c = true) :
    45 ≤ c.toNat ∧ c.toNat ≤ 126 ∧ c.toNat ≠ 58 := by
  simp only [isNameChar, Char.isAlphanum, Char.isAlpha, Char.isUpper, Char.isLower, Char.isDigit,
    Bool.or_eq_true, Bool.and_eq_true, decide_eq_true_eq, beq_iff_eq, ge_iff_le,
    UInt32.le_iff_toNat_le] at h
  rcases h with ((((h | h) | h) | rfl) | rfl) | rfl
  · change 65 ≤ c.toNat ∧ c.toNat ≤ 90 at h
    omega
  · change 97 ≤ c.toNat ∧ c.toNat ≤ 122 at h
    omega
  · change 48 ≤ c.toNat ∧ c.toNat ≤ 57 at h
    omega
  · decide
  · decide
  · decide

lemma isPlain_of_isNameChar (h : isNameChar c = true) : isPlain c = true ∧ c ≠ '#' := by
  have hp := toNat_of_isNameChar h
  refine ⟨isPlain_of_toNat ⟨by omega, hp.2⟩, ?_⟩
  rintro rfl
  exact absurd hp.1 (by decide)

lemma toNat_of_hexNibble (h : (hexNibble c).isSome = true) :
    48 ≤ c.toNat ∧ c.toNat ≤ 102 ∧ c.toNat ≠ 58 := by
  unfold hexNibble at h
  split at h
  next hc =>
    change 48 ≤ c.toNat ∧ c.toNat ≤ 57 at hc
    omega
  · split at h
    next hc =>
      change 97 ≤ c.toNat ∧ c.toNat ≤ 102 at hc
      omega
    · split at h
      next hc =>
        change 65 ≤ c.toNat ∧ c.toNat ≤ 70 at hc
        omega
      · cases h

variable {text : Text}

lemma hexNibble_of_hexBytes (h : hexBytes text = some bytes) : ∀ c ∈ text, (hexNibble c).isSome = true := by
  fun_induction hexBytes text generalizing bytes with
  | case1 => exact fun c hc => absurd hc not_mem_nil
  | case2 => cases h
  | case3 a b rest ih =>
    cases ha : hexNibble a with
    | none => simp [ha] at h
    | some hg =>
      cases hb : hexNibble b with
      | none => simp [ha, hb] at h
      | some low =>
        cases hr : hexBytes rest with
        | none => simp [ha, hb, hr] at h
        | some more =>
          intro c hc
          rcases mem_cons.mp hc with rfl | hc
          · simp [ha]
          rcases mem_cons.mp hc with rfl | hc
          · simp [hb]
          · exact ih hr c hc

lemma exists_digits (h : encodedPassword field = true) :
    ∃ digits, field = passwordMark ++ digits ∧ digits.length = 64 ∧ ∀ c ∈ digits, (hexNibble c).isSome = true := by
  obtain ⟨bytes, hb⟩ := Option.isSome_iff_exists.mp h
  unfold parseEncodedDigest at hb
  split at hb
  next hm =>
    obtain ⟨⟨digits, rfl⟩, hl⟩ := hm
    rw [drop_left] at hl hb
    exact ⟨digits, rfl, hl, hexNibble_of_hexBytes hb⟩
  · cases hb

lemma UserRecord.plain_username (r : UserRecord) :
    r.username ≠ [] ∧ ∀ c ∈ r.username, isPlain c = true ∧ c ≠ '#' := by
  have hn := r.name
  simp only [validName, Bool.and_eq_true, Bool.not_eq_true', isEmpty_eq_false_iff, all_eq_true] at hn
  exact ⟨hn.1.1, fun c hc => isPlain_of_isNameChar (hn.2 c hc)⟩

lemma UserRecord.plain_password (r : UserRecord) : r.password ≠ [] ∧ ∀ c ∈ r.password, isPlain c = true := by
  obtain ⟨digits, heq, -, hd⟩ := exists_digits r.encoded
  rw [heq]
  have hm : passwordMark ≠ [] ∧ ∀ c ∈ passwordMark, isPlain c = true := ⟨by decide, all_eq_true.mp (by decide +kernel)⟩
  refine ⟨append_ne_nil_of_left_ne_nil hm.1 _, fun c hc => ?_⟩
  rcases mem_append.mp hc with hc | hc
  · exact hm.2 c hc
  · have hp := toNat_of_hexNibble (hd c hc)
    exact isPlain_of_toNat ⟨by omega, by omega, hp.2.2⟩

lemma UserRole.plain_asText (r : UserRole) : r.asText ≠ [] ∧ ∀ c ∈ r.asText, isPlain c = true := by
  refine ⟨by cases r <;> decide, all_eq_true.mp ?_⟩
  cases r <;> decide +kernel

/-! ### Lines -/

lemma colon_notMem (h : ∀ c ∈ text, isPlain c = true) : ':' ∉ text := by
  intro hc
  cases h _ hc

lemma trim_eq_self (h : ∀ c ∈ text, isWhitespace c = false) : trim text = text := by
  have hf : text.dropWhile isWhitespace = text := by
    cases text with
    | nil => rfl
    | cons c rest => rw [dropWhile_cons_of_neg (by simp [h c mem_cons_self])]
  unfold trim
  rw [hf, rdropWhile_eq_self_iff]
  intro hne
  rw [h _ (getLast_mem hne)]
  exact Bool.false_ne_true

lemma isWhitespace_of_isPlain (h : isPlain c = true) : isWhitespace c = false := by
  simp only [isPlain, Bool.and_eq_true, Bool.not_eq_true'] at h
  exact h.1

lemma trim_plain (h : ∀ c ∈ text, isPlain c = true) : trim text = text :=
  trim_eq_self fun c hc => isWhitespace_of_isPlain (h c hc)

lemma splitOn_line (r : UserRecord) : r.line.splitOn ':' = [r.username, r.password, r.role.asText] := by
  have hu := colon_notMem fun c hc => (r.plain_username.2 c hc).1
  have hp := colon_notMem r.plain_password.2
  have hr := colon_notMem r.role.plain_asText.2
  unfold UserRecord.line
  rw [splitOn_append_cons_self, splitOn_append_cons_self, splitOn_eq_singleton hu,
    splitOn_eq_singleton hp, splitOn_eq_singleton hr]
  rfl

lemma line_visible (r : UserRecord) : ∀ c ∈ r.line, isWhitespace c = false := by
  intro c hc
  unfold UserRecord.line at hc
  rcases mem_append.mp hc with hc | hc
  · exact isWhitespace_of_isPlain (r.plain_username.2 c hc).1
  rcases mem_cons.mp hc with rfl | hc
  · decide
  rcases mem_append.mp hc with hc | hc
  · exact isWhitespace_of_isPlain (r.plain_password.2 c hc)
  rcases mem_cons.mp hc with rfl | hc
  · decide
  · exact isWhitespace_of_isPlain (r.role.plain_asText.2 c hc)

lemma line_ascii (r : UserRecord) : ∀ c ∈ r.line, 1 ≤ c.toNat ∧ c.toNat ≤ 127 := by
  have hn := r.name
  simp only [validName, Bool.and_eq_true, all_eq_true] at hn
  obtain ⟨digits, heq, -, hd⟩ := exists_digits r.encoded
  have hm : passwordMark.all (fun c => decide (1 ≤ c.toNat ∧ c.toNat ≤ 127)) = true := by decide +kernel
  have hr : r.role.asText.all (fun c => decide (1 ≤ c.toNat ∧ c.toNat ≤ 127)) = true := by
    cases r.role <;> decide +kernel
  intro c hc
  rw [UserRecord.line, heq] at hc
  rcases mem_append.mp hc with hc | hc
  · have hp := toNat_of_isNameChar (hn.2 c hc)
    omega
  rcases mem_cons.mp hc with rfl | hc
  · decide
  rcases mem_append.mp hc with hc | hc
  · rcases mem_append.mp hc with hc | hc
    · exact of_decide_eq_true (all_eq_true.mp hm c hc)
    · have hp := toNat_of_hexNibble (hd c hc)
      omega
  rcases mem_cons.mp hc with rfl | hc
  · decide
  · exact of_decide_eq_true (all_eq_true.mp hr c hc)

lemma parseLine_line (r : UserRecord) : parseLine r.line = some (r.username, r.password, r.role) := by
  obtain ⟨hne, hp⟩ := r.plain_username
  obtain ⟨c, rest, heq⟩ := exists_cons_of_ne_nil hne
  have hh : ¬(r.line = [] ∨ r.line.head? = some '#') := by
    have hl : r.line = c :: (rest ++ ':' :: (r.password ++ ':' :: r.role.asText)) := by
      rw [UserRecord.line, heq]
      rfl
    have hc := (hp c (heq ▸ mem_cons_self)).2
    rw [hl]
    simpa using hc
  unfold parseLine
  dsimp only
  rw [trim_eq_self (line_visible r), if_neg hh, splitOn_line]
  dsimp only
  rw [trim_plain r.role.plain_asText.2, UserRole.ofText_asText]
  rfl

def recordsText (records : List UserRecord) : Text := records.flatMap fun r => r.line ++ ['\n']

lemma splitOn_recordsText (records : List UserRecord) (rest : Text) :
    (recordsText records ++ rest).splitOn '\n' = records.map UserRecord.line ++ rest.splitOn '\n' := by
  induction records with
  | nil => rfl
  | cons r records ih =>
    have hl : '\n' ∉ r.line := fun hc => by cases line_visible r _ hc
    have ht : recordsText (r :: records) ++ rest = r.line ++ '\n' :: (recordsText records ++ rest) := by
      simp [recordsText]
    rw [ht, splitOn_append_cons_self, splitOn_eq_singleton hl, ih]
    rfl

lemma lines_recordsText (records : List UserRecord) (rest : Text) :
    lines (recordsText records ++ rest) = records.map UserRecord.line ++ lines rest := by
  have hn : (records.map UserRecord.line).map (fun line =>
      if line.getLast? = some '\r' then line.dropLast else line) = records.map UserRecord.line := by
    refine (map_congr_left fun line hl => ?_).trans (map_id _)
    obtain ⟨r, -, rfl⟩ := mem_map.mp hl
    refine if_neg fun hs => ?_
    cases line_visible r _ (mem_of_getLast? hs)
  have hne := splitOn_ne_nil '\n' rest
  unfold lines
  rw [splitOn_recordsText]
  simp only [dropLast_append_of_ne_nil hne, getLast?_append_of_ne_nil _ hne, map_append, hn]
  split <;> simp

lemma parseLines_text (records parsed : List UserRecord) (more : List Text)
    (hl : parsed.length + records.length ≤ userCapacity) :
    parseLines sha (records.map UserRecord.line ++ more) parsed false = parseLines sha more (parsed ++ records) false := by
  induction records generalizing parsed with
  | nil => simp
  | cons r records ih =>
    rw [length_cons] at hl
    rw [map_cons, cons_append, parseLines, parseLine_line]
    dsimp only
    rw [if_neg (by omega), trim_plain fun c hc => (r.plain_username.2 c hc).1, trim_plain r.plain_password.2,
      r.encoded, UserRecord.build_self]
    dsimp only
    rw [Bool.not_true, Bool.or_self, ih _ (by rw [length_append, length_singleton]; omega), append_assoc]
    rfl

/-! ## The store -/

namespace UserStore

def new : UserStore := ⟨[], Nat.zero_le _⟩

variable (store : UserStore)

def findIndex (name : Text) : Option Nat := store.records.findIdx? fun r => decide (r.username = name)

def push (r : UserRecord) (h : store.records.length < userCapacity) : UserStore where
  records := store.records ++ [r]
  small := by
    rw [length_append, length_singleton]
    exact h

/-- `swap_remove`: the last record takes the place of the one that is removed. -/
def swapRemove (index : Nat) : UserStore where
  records := match store.records.getLast? with
    | some last => (store.records.set index last).dropLast
    | none => []
  small := by
    have hsmall := store.small
    split
    · rw [length_dropLast, length_set]
      omega
    · exact Nat.zero_le _

def setPassword (index : Nat) (pwd : Text) (henc : encodedPassword pwd = true) : UserStore where
  records := store.records.modify index fun r => { r with password := pwd, encoded := henc }
  small := by
    rw [length_modify]
    exact store.small

/-- `handle_add` up to the point where it persists: the answer and the store. -/
def handleAdd (fields : List Text) : Nat × UserStore :=
  match fields with
  | username :: password :: rest =>
    match UserRole.ofText (rest.head?.getD "user".toList) with
    | none => (2, store)
    | some role =>
      if hfull : store.records.length = userCapacity then (1, store)
      else if (store.findIndex username).isSome then (1, store)
      else
        match UserRecord.build sha username password role with
        | some record => (0, store.push record (Nat.lt_of_le_of_ne store.small hfull))
        | none => (2, store)
  | _ => (2, store)

/-- `handle_delete` up to the point where it persists. -/
def handleDelete (fields : List Text) : Nat × UserStore :=
  match fields with
  | [] => (2, store)
  | target :: _ =>
    match store.findIndex target with
    | none => (1, store)
    | some index => (0, store.swapRemove index)

/-- `handle_passwd` up to the point where it persists. -/
def handlePasswd (fields : List Text) : Nat × UserStore :=
  match fields with
  | username :: password :: _ =>
    match store.findIndex username with
    | none => (1, store)
    | some index =>
      match hpwd : passwordHash sha username password with
      | none => (2, store)
      | some pwd => (0, store.setPassword index pwd (encodedPassword_of_hash sha hpwd))
  | _ => (2, store)

end UserStore

/-- `parse_fields`: what stands between the zeros, if it is a text, and no more than four of them. -/
def parseFields (payload : Bytes) : List Text :=
  (((payload.splitOn 0).filter fun part => !part.isEmpty).filterMap fromUtf8).take 4

lemma length_blank : (List.replicate 32 (0 : UInt8)).length = 32 := rfl

def blankDigest : Bytes → Digest := fun _ => ⟨List.replicate 32 0, length_blank⟩

/-- The bytes of a text, as a field of a payload or as a file. -/
def bytesOf (text : String) : Bytes := utf8 text.toList

end ZeroOS.Security
