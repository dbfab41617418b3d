import ZeroOS.Security.GrantBook
import ZeroOS.Security.Users

/-!
# Who may command the security daemon

A process that names a user and its password gets the role of that user, and the daemon keeps the role in a table
of processes. It says nothing about the user: if the user is deleted, the processes that have its role keep it.

`Watch` adds to the daemon what it does not know itself, the user that each process has last authenticated as.
-/

namespace ZeroOS.Security

open Function List Transition Wire
open Fs (utf8 fromUtf8 Digest)

/-! ## Messages -/

def payloadSize : Nat := 128

structure Message where
  code : Nat
  payload : Bytes

inductive Command
  | userList
  | userAdd
  | userPasswd
  | userDelete
  | userVerify
  | capIssue
  | capRevoke
  | capList
  | capVerify
  | pkgVerify
  deriving DecidableEq, Repr

def Command.ofCode : Nat → Option Command
  | 0x10 => some .userList
  | 0x11 => some .userAdd
  | 0x12 => some .userPasswd
  | 0x13 => some .userDelete
  | 0x14 => some .userVerify
  | 0x20 => some .capIssue
  | 0x21 => some .capRevoke
  | 0x22 => some .capList
  | 0x23 => some .capVerify
  | 0x30 => some .pkgVerify
  | _ => none

def blankPayload : Bytes := List.replicate payloadSize 0

/-- A payload that starts with a text. Its last byte stays zero. -/
def textPayload (text : Text) : Bytes :=
  let bytes := (utf8 text).take (payloadSize - 1)
  bytes ++ List.replicate (payloadSize - bytes.length) 0

/-- `String::push_str` with a bound: what does not fit is left out. -/
def pushText (bound : Nat) (text more : Text) : Option Text :=
  if (utf8 text).length + (utf8 more).length ≤ bound then some (text ++ more) else none

def listBuffer : Nat := 256

/-- `Fields3::next_raw`: the next field, if there is one and it is not empty, and what comes after it. -/
def nextRaw (taken : Nat) (rest : Bytes) : Option (Bytes × Bytes) :=
  if 8 ≤ taken ∨ rest = [] then none
  else
    let field := rest.takeWhile (· ≠ 0)
    if field = [] then none else some (field, rest.drop (field.length + 1))

/-- The digits of a number that has to be less than `bound`. -/
def digitsValue (base bound : Nat) (digit : UInt8 → Option Nat) (field : Bytes) : Option Nat := field.foldlM (fun value b => do
    let d ← digit b
    if value * base + d < bound then some (value * base + d) else none) 0

def decDigit (b : UInt8) : Option Nat := if 0x30 ≤ b ∧ b ≤ 0x39 then some (b.toNat - 0x30) else none

def lowerHexDigit (b : UInt8) : Option Nat :=
  if 0x30 ≤ b ∧ b ≤ 0x39 then some (b.toNat - 0x30)
  else if 0x61 ≤ b ∧ b ≤ 0x66 then some (b.toNat - 0x61 + 10)
  else none

def nextU64 (taken : Nat) (rest : Bytes) : Option (Nat × Bytes) := do
  let (field, rest) ← nextRaw taken rest
  let value ← digitsValue 10 (2 ^ 64) decDigit field
  return (value, rest)

def nextHexU32 (taken : Nat) (rest : Bytes) : Option (Nat × Bytes) := do
  let (field, rest) ← nextRaw taken rest
  if 8 < field.length then none
  else
    let value ← digitsValue 16 (2 ^ 32) lowerHexDigit field
    return (value, rest)

structure CapIssueRequest where
  targetPid : Nat
  caps : BitVec 32
  ttl : Nat

def parseCapIssue (payload : Bytes) : Option CapIssueRequest := do
  let (targetPid, rest) ← nextU64 0 payload
  let (caps, rest) ← nextHexU32 1 rest
  let (ttl, _) ← nextU64 2 rest
  return ⟨targetPid, .ofNat 32 caps, ttl⟩

def parseToken (payload : Bytes) : Option Nat := (nextU64 0 payload).map Prod.fst

/-- `encode_token`: what it writes over the start of a payload. -/
def encodeToken (payload : Bytes) (token : Nat) : Option Bytes :=
  let field := utf8 (Nat.toDigits 10 token) ++ [0]
  if payload.length < field.length then none else some (field ++ payload.drop field.length)

/-! ## The processes that have authenticated -/

def authCapacity : Nat := 32

structure AuthRecord where
  pid : Nat
  role : UserRole
  deriving DecidableEq, Repr

/-- `AUTHZ`: there is one row for a process, and the oldest comes first. -/
structure AuthTable where
  rows : List AuthRecord
  distinct : (rows.map AuthRecord.pid).Nodup
  small : rows.length ≤ authCapacity

namespace AuthTable

variable (t : AuthTable)

def empty : AuthTable := ⟨[], List.nodup_nil, Nat.zero_le _⟩

/-- `authenticated_role`. -/
def role (pid : Nat) : Option UserRole := (t.rows.find? (·.pid == pid)).map AuthRecord.role

def isAdmin (pid : Nat) : Bool := t.role pid == some .admin

def setRole (pid : Nat) (r : UserRole) : AuthTable where
  rows := t.rows.map fun row => if row.pid = pid then { row with role := r } else row
  distinct := by
    have hpids : (t.rows.map fun row => if row.pid = pid then { row with role := r } else row).map AuthRecord.pid =
        t.rows.map AuthRecord.pid := by
      rw [map_map]
      refine map_congr_left fun row _ => ?_
      simp only [comp_apply]
      split <;> rfl
    rw [hpids]
    exact t.distinct
  small := by
    rw [length_map]
    exact t.small

/-- A row is put at the end; if the table is full, the oldest row goes. -/
def pushRow (pid : Nat) (r : UserRole) (h : pid ∉ t.rows.map AuthRecord.pid) : AuthTable where
  rows := (if t.rows.length = authCapacity then t.rows.tail else t.rows) ++ [⟨pid, r⟩]
  distinct := by
    have hsub : (if t.rows.length = authCapacity then t.rows.tail else t.rows).Sublist t.rows := by
      split
      · exact tail_sublist _
      · exact List.Sublist.refl _
    rw [map_append, nodup_append]
    refine ⟨t.distinct.sublist (hsub.map _), nodup_singleton _, ?_⟩
    intro a ha b hb heq
    rw [map_singleton, mem_singleton] at hb
    rw [heq, hb] at ha
    exact h ((hsub.map AuthRecord.pid).subset ha)
  small := by
    have hsmall := t.small
    have hcap : authCapacity = 32 := rfl
    rw [length_append, length_singleton]
    split
    · rw [length_tail]
      omega
    · omega

/-- `remember_authenticated`. -/
def remember (pid : Nat) (r : UserRole) : AuthTable :=
  if h : pid ∈ t.rows.map AuthRecord.pid then t.setRole pid r else t.pushRow pid r h

variable {t}

lemma role_eq_some : t.role pid = some r ↔ ⟨pid, r⟩ ∈ t.rows := by
  constructor
  · intro h
    obtain ⟨row, hf, rfl⟩ := Option.map_eq_some_iff.mp h
    have hp : row.pid = pid := by simpa using find?_some hf
    exact hp ▸ mem_of_find?_eq_some hf
  · intro h
    -- the row that is found is the only one of the process
    cases hf : t.rows.find? (·.pid == pid) with
    | none =>
      have hn := find?_eq_none.mp hf _ h
      simp at hn
    | some row =>
      have hp : row.pid = pid := by simpa using find?_some hf
      have hr : row = ⟨pid, r⟩ := inj_on_of_nodup_map t.distinct (mem_of_find?_eq_some hf) h hp
      rw [role, hf, hr]
      rfl

lemma role_remember (h : (t.remember pid r).role q = some r') : (q = pid ∧ r' = r) ∨ (q ≠ pid ∧ t.role q = some r') := by
  rw [role_eq_some] at h
  rw [role_eq_some]
  unfold remember at h
  split at h
  · obtain ⟨row, hr, heq⟩ := mem_map.mp h
    split at heq
    next hp =>
      obtain ⟨rfl, rfl⟩ := AuthRecord.mk.inj heq
      exact .inl ⟨hp, rfl⟩
    next hp =>
      obtain rfl := heq
      exact .inr ⟨hp, hr⟩
  next hn =>
    rcases mem_append.mp h with h | h
    · have ho : ⟨q, r'⟩ ∈ t.rows := by
        split at h
        · exact mem_of_mem_tail h
        · exact h
      refine .inr ⟨?_, ho⟩
      rintro rfl
      exact hn (mem_map_of_mem ho)
    · obtain ⟨rfl, rfl⟩ := AuthRecord.mk.inj (mem_singleton.mp h)
      exact .inl ⟨rfl, rfl⟩

end AuthTable

/-! ## The daemon -/

def capIssueAllowed (sender : Nat) (role : Option UserRole) (req : CapIssueRequest) : Bool :=
  let loginSelf := req.caps == capSession && req.targetPid == sender && role.isSome
  let adminGrant := role == some .admin && req.caps != capSession
  loginSelf || adminGrant

structure CapLedgerEntry where
  token : Nat
  targetPid : Nat
  caps : BitVec 32
  revoked : Bool

def capLedgerCap : Nat := 16

/-- What the kernel answers to `cap_revoke`. -/
inductive RevokeAnswer
  | ok
  | notFound
  | refused
  deriving DecidableEq, Repr

/-- A message of a process, with what the kernel answers if the daemon asks it for a capability: the token of a
new one, or whether one is revoked. -/
structure Request where
  sender : Nat
  msg : Message
  granted : Option Nat
  revoke : RevokeAnswer

/-- The state of the daemon, without the disk. -/
structure Server where
  users : UserStore
  authz : AuthTable
  ledger : List CapLedgerEntry

namespace Server

def answer (msg : Message) (code : Nat) : Message := { msg with code }

def handleList (s : Server) : Message :=
  let text := s.users.records.zipIdx.foldl (fun text (r, index) =>
    let text := if 0 < index then (pushText listBuffer text ['\n']).getD text else text
    [r.username, [':'], r.role.asText].foldl (fun text more => (pushText listBuffer text more).getD text) text) []
  ⟨0, textPayload text⟩

/-- A line of `handle_cap_list`, in a buffer of 64 bytes. -/
def ledgerLine (e : CapLedgerEntry) : Option Text :=
  pushText 64 [] ("token=".toList ++ Nat.toDigits 10 e.token ++ " pid=".toList ++ Nat.toDigits 10 e.targetPid ++
    " caps=0x".toList ++ Nat.toDigits 16 e.caps.toNat ++ ' ' :: (if e.revoked then "[revoked]" else "[active]").toList)

/-- The loop of `handle_cap_list`. It ends where a line does not fit. -/
def ledgerText : List CapLedgerEntry → Text → Text
  | [], text => text
  | e :: entries, text =>
    match ledgerLine e with
    | none => text
    | some line =>
      let text := if text = [] then text else (pushText listBuffer text ['\n']).getD text
      match pushText listBuffer text line with
      | none => text
      | some text => ledgerText entries text

def handleCapList (s : Server) : Message :=
  let text := ledgerText s.ledger []
  ⟨0, textPayload (if text = [] then "(no capability tokens issued)".toList else text)⟩

def handleCapVerify (s : Server) (msg : Message) : Message :=
  match parseToken msg.payload with
  | none => answer msg 2
  | some token =>
    match s.ledger.find? (·.token == token) with
    | some entry => answer msg (if entry.revoked then 1 else 0)
    | none => answer msg 1

def handleCapRevoke (s : Server) (req : Request) : Message × Server :=
  match parseToken req.msg.payload with
  | none => (answer req.msg 2, s)
  | some token =>
    match req.revoke with
    | .ok =>
      let index := s.ledger.findIdx (·.token == token)
      (⟨0, blankPayload⟩, { s with ledger := s.ledger.modify index fun e => { e with revoked := true } })
    | .notFound => (answer req.msg 1, s)
    | .refused => (answer req.msg 2, s)

def handleCapIssue (s : Server) (req : Request) : Message × Server :=
  match parseCapIssue req.msg.payload with
  | none => (answer req.msg 1, s)
  | some issue =>
    if capIssueAllowed req.sender (s.authz.role req.sender) issue = false then (⟨3, blankPayload⟩, s)
    else
      match req.granted with
      | none => (answer req.msg 2, s)
      | some token =>
        let entry : CapLedgerEntry := ⟨token, issue.targetPid, issue.caps, false⟩
        let ledger := if s.ledger.length < capLedgerCap then s.ledger ++ [entry] else s.ledger
        let msg := match encodeToken req.msg.payload token with
          | some payload => ⟨0, payload⟩
          | none => answer req.msg 2
        (msg, { s with ledger })

lemma handleCapRevoke_frame (s : Server) (req : Request) :
    (s.handleCapRevoke req).2.users = s.users ∧ (s.handleCapRevoke req).2.authz = s.authz := by
  unfold handleCapRevoke
  split
  · exact ⟨rfl, rfl⟩
  · split <;> exact ⟨rfl, rfl⟩

lemma handleCapIssue_frame (s : Server) (req : Request) :
    (s.handleCapIssue req).2.users = s.users ∧ (s.handleCapIssue req).2.authz = s.authz := by
  unfold handleCapIssue
  split
  · exact ⟨rfl, rfl⟩
  split
  · exact ⟨rfl, rfl⟩
  · split <;> exact ⟨rfl, rfl⟩

variable (sha : Bytes → Digest) (verifyStrict : Bytes → Bytes → Bool)

/-- `handle_pkg_verify`, with the check of a signature of a hash. -/
def handlePkgVerify (msg : Message) : Message :=
  let origin := utf8 "zero-os".toList
  let len := (msg.payload.headD 0).toNat
  let ok := len == origin.length && decide (1 + len + 32 + 64 ≤ msg.payload.length) &&
    (msg.payload.drop 1).take len == origin &&
    verifyStrict ((msg.payload.drop (1 + len)).take 32) ((msg.payload.drop (1 + len + 32)).take 64)
  ⟨if ok then 0 else 1, blankPayload⟩

/-- The user that `handle_verify` finds, with its role, or the code of the answer. -/
def verify (s : Server) (fields : List Text) : Except Nat (Text × UserRole) :=
  match fields with
  | username :: password :: _ =>
    match s.users.records.find? fun r => decide (r.username = username) with
    | none => .error 1
    | some record =>
      match passwordDigest sha username password, parseEncodedDigest record.password with
      | some candidate, some stored => if stored = candidate.bytes then .ok (username, record.role) else .error 1
      | _, _ => .error 1
  | _ => .error 2

def handleVerify (s : Server) (req : Request) : Message × Server :=
  match s.verify sha (parseFields req.msg.payload) with
  | .error code => (answer req.msg code, s)
  | .ok (_, role) => (answer req.msg 0, { s with authz := s.authz.remember req.sender role })

def changeUsers (s : Server) (msg : Message) (out : Nat × UserStore) : Message × Server :=
  (answer msg out.1, { s with users := out.2 })

def processCommand (s : Server) (req : Request) : Message × Server :=
  let fields := parseFields req.msg.payload
  let denied : Message × Server := (⟨3, blankPayload⟩, s)
  let admin := s.authz.isAdmin req.sender
  match Command.ofCode req.msg.code with
  | some .userVerify => s.handleVerify sha req
  | some .userList => if admin then (s.handleList, s) else denied
  | some .userAdd => if admin then s.changeUsers req.msg (s.users.handleAdd sha fields) else denied
  | some .userDelete => if admin then s.changeUsers req.msg (s.users.handleDelete fields) else denied
  | some .userPasswd => if admin then s.changeUsers req.msg (s.users.handlePasswd sha fields) else denied
  | some .capIssue => s.handleCapIssue req
  | some .capRevoke => if admin then s.handleCapRevoke req else denied
  | some .capList => if admin then (s.handleCapList, s) else denied
  | some .capVerify => if admin then (s.handleCapVerify req.msg, s) else denied
  | some .pkgVerify => (handlePkgVerify verifyStrict req.msg, s)
  | none => denied

/-- The command is one for administrators only, and it is executed: one of those that `process_command` guards,
or the issue of a capability that is not a session. -/
def executesAdmin (s : Server) (req : Request) : Bool :=
  match Command.ofCode req.msg.code with
  | some .userList | some .userAdd | some .userDelete | some .userPasswd
  | some .capRevoke | some .capList | some .capVerify => s.authz.isAdmin req.sender
  | some .capIssue =>
    match parseCapIssue req.msg.payload with
    | some issue => issue.caps != capSession && capIssueAllowed req.sender (s.authz.role req.sender) issue
    | none => false
  | some .userVerify | some .pkgVerify | none => false

end Server

/-! ## The users that have authenticated -/

def UserStore.HasAdmin (store : UserStore) (name : Text) : Prop := ∃ r ∈ store.records, r.username = name ∧ r.role = .admin

section

variable {sha : Bytes → Digest} {store store' : UserStore} {name username password : Text} {fields : List Text}

def SameAccount (name : Text) (store store' : UserStore) : Prop :=
  ∀ r : UserRecord, r.username = name → (r ∈ store'.records ↔ r ∈ store.records)

lemma build_eq_some (h : UserRecord.build sha username password role = some r) :
    r.username = username ∧ normalizePassword sha username password = some r.password := by
  unfold UserRecord.build at h
  split at h
  · split at h
    next hp => exact Option.some.inj h ▸ ⟨rfl, hp⟩
    · cases h
  · cases h

lemma handleAdd_cases (store : UserStore) (fields : List Text) :
    (store.handleAdd sha fields).1 ≠ 0 ∧ (store.handleAdd sha fields).2 = store ∨
    ∃ username password rest role r, fields = username :: password :: rest ∧
      (∀ x ∈ store.records, x.username ≠ username) ∧ UserRecord.build sha username password role = some r ∧
      (store.handleAdd sha fields).2.records = store.records ++ [r] := by
  unfold UserStore.handleAdd
  split
  next username password rest =>
    split
    · exact .inl ⟨nofun, rfl⟩
    next role _ =>
      split
      · exact .inl ⟨nofun, rfl⟩
      split
      · exact .inl ⟨nofun, rfl⟩
      next hn =>
        split
        next r hb =>
          refine .inr ⟨username, password, rest, role, r, rfl, fun x hx hm => ?_, hb, rfl⟩
          rw [Option.not_isSome_iff_eq_none, UserStore.findIndex, findIdx?_eq_none_iff] at hn
          exact of_decide_eq_false (hn x hx) hm
        · exact .inl ⟨nofun, rfl⟩
  · exact .inl ⟨nofun, rfl⟩

lemma SameAccount.add (hx : x ∈ store.records) (hnm : x.username = name) :
    SameAccount name store (store.handleAdd sha fields).2 := by
  intro r hr
  obtain ⟨-, h⟩ | ⟨username, _, _, _, new, -, hn, hb, h⟩ := @handleAdd_cases sha store fields
  · rw [h]
  · rw [h, mem_append, mem_singleton]
    refine ⟨fun hm => hm.resolve_right ?_, .inl⟩
    rintro rfl
    exact hn x hx (by rw [hnm, ← hr, (build_eq_some hb).1])

lemma UserStore.HasAdmin.congr (h : store.HasAdmin name) (hs : SameAccount name store store') :
    store'.HasAdmin name := by
  obtain ⟨r, hr, hn, hl⟩ := h
  exact ⟨r, (hs r hn).mpr hr, hn, hl⟩

lemma UserStore.HasAdmin.setPassword (h : store.HasAdmin name) (index : Nat) (pwd : Text)
    (he : encodedPassword pwd = true) : (store.setPassword index pwd he).HasAdmin name := by
  obtain ⟨r, hr, hn⟩ := h
  obtain ⟨i, hi, rfl⟩ := mem_iff_getElem.mp hr
  have hm := getElem_mem (show i < (store.setPassword index pwd he).records.length by
    rw [UserStore.setPassword, length_modify]
    exact hi)
  refine ⟨_, hm, ?_⟩
  simp only [UserStore.setPassword, getElem_modify]
  split <;> exact hn

lemma UserStore.HasAdmin.passwd (h : store.HasAdmin name) (fields : List Text) :
    (store.handlePasswd sha fields).2.HasAdmin name := by
  unfold handlePasswd
  split
  · split
    · exact h
    split
    · exact h
    · exact h.setPassword _ _ _
  · exact h

lemma UserStore.mem_swapRemove (hx : store.records[index]? = some x)
    (hr : r ∈ store.records) (hne : r ≠ x) : r ∈ (store.swapRemove index).records := by
  obtain ⟨hn, rfl⟩ := List.getElem?_eq_some_iff.mp hx
  obtain ⟨i, hi, rfl⟩ := List.mem_iff_getElem.mp hr
  have hii : index ≠ i := by
    rintro rfl
    exact hne rfl
  have hl : store.records.getLast? = some (store.records.get ⟨store.records.length - 1, by omega⟩) := by
    rw [getLast?_eq_getElem?, getElem?_eq_getElem (by omega)]
    rfl
  unfold swapRemove
  simp only [hl]
  refine mem_iff_getElem?.mpr ?_
  -- the last record is now in the place of the one that is removed
  by_cases he : i = store.records.length - 1
  · refine ⟨index, ?_⟩
    rw [getElem?_dropLast, length_set, if_pos (by omega), getElem?_set_self hn]
    subst he
    rfl
  · refine ⟨i, ?_⟩
    rw [getElem?_dropLast, length_set, if_pos (by omega), getElem?_set_ne hii, getElem?_eq_getElem hi]

lemma SameAccount.delete (hf : fields.head? ≠ some name) : SameAccount name store (store.handleDelete fields).2 := by
  intro r hr
  unfold UserStore.handleDelete
  split
  · rfl
  next target _ =>
    split
    · rfl
    next index hn =>
      obtain ⟨hin, ht, -⟩ := findIdx?_eq_some_iff_getElem.mp hn
      refine ⟨fun hm => ?_, fun hm => UserStore.mem_swapRemove (getElem?_eq_getElem hin) hm ?_⟩
      · unfold UserStore.swapRemove at hm
        dsimp only at hm
        split at hm
        next last hl =>
          rcases mem_or_eq_of_mem_set (mem_of_mem_dropLast hm) with hm | rfl
          · exact hm
          · exact mem_of_getLast? hl
        · cases hm
      · rintro rfl
        rw [head?_cons, ← hr, of_decide_eq_true ht] at hf
        exact hf rfl

def UserStore.names (store : UserStore) : List Text := store.records.map UserRecord.username

lemma UserStore.swapRemove_perm (hi : index < store.records.length) : (store.swapRemove index).records ~ store.records.eraseIdx index := by
  unfold swapRemove
  obtain hn | ⟨l, a, hl⟩ := eq_nil_or_concat store.records
  · simp [hn] at hi
  simp only [hl, concat_eq_append, getLast?_append, getLast?_singleton, Option.some_or]
  rw [hl, concat_eq_append, length_append, length_singleton] at hi
  obtain h | rfl : index < l.length ∨ index = l.length := by omega
  · rw [set_append_left _ _ h, dropLast_concat, eraseIdx_append_of_lt_length h]
    exact (set_perm_cons_eraseIdx h a).trans (perm_append_singleton ..).symm
  · simp [eraseIdx_append_of_length_le]

/-- The name is taken out, once. -/
lemma UserStore.names_swapRemove (h : store.findIndex target = some index) : target :: (store.swapRemove index).names ~ store.names := by
  obtain ⟨hi, ht, -⟩ := findIdx?_eq_some_iff_getElem.mp h
  rw [← of_decide_eq_true ht]
  exact ((swapRemove_perm hi).map _).cons _ |>.trans ((getElem_cons_eraseIdx_perm hi).map UserRecord.username)

lemma UserStore.names_passwd (store : UserStore) (fields : List Text) : (store.handlePasswd sha fields).2.names = store.names := by
  unfold handlePasswd
  repeat' split
  all_goals try rfl
  refine ext_getElem? fun i => ?_
  simp only [names, setPassword, getElem?_map, getElem?_modify]
  cases store.records[i]? <;> simp
  split <;> rfl

end

/-- The daemon and, for each process, the user that it has last authenticated as. -/
structure Watch where
  server : Server
  logins : Nat → Option Text

namespace Watch

variable (sha : Bytes → Digest) (verifyStrict : Bytes → Bytes → Bool)

def start (users : UserStore) : Watch := ⟨⟨users, .empty, []⟩, fun _ => none⟩

def login (s : Server) (req : Request) : Option Text :=
  match Command.ofCode req.msg.code, s.verify sha (parseFields req.msg.payload) with
  | some .userVerify, .ok (name, _) => some name
  | _, _ => none

def next (w : Watch) (req : Request) : Option Watch := some ⟨(w.server.processCommand sha verifyStrict req).2,
    match login sha w.server req with
    | some name => update w.logins req.sender (some name)
    | none => w.logins⟩

def Step (w : Watch) (req : Request) (w' : Watch) : Prop := w.next sha verifyStrict req = some w'

/-- A process that is an administrator has authenticated as a user that is still there, as an administrator. -/
def Backed (w : Watch) : Prop := ∀ pid, w.server.authz.role pid = some .admin →
    ∃ name, w.logins pid = some name ∧ w.server.users.HasAdmin name

def Spares (w : Watch) (req : Request) : Prop :=
  Command.ofCode req.msg.code = some .userDelete → w.server.authz.isAdmin req.sender = true →
    ∀ pid name, w.server.authz.role pid = some .admin → w.logins pid = some name →
      (parseFields req.msg.payload).head? ≠ some name

variable {sha verifyStrict} {w w' : Watch} {req : Request}

lemma step_cases (h : w.Step sha verifyStrict req w') :
    (∃ name role, w.server.verify sha (parseFields req.msg.payload) = .ok (name, role) ∧
      w'.server.users = w.server.users ∧ w'.server.authz = w.server.authz.remember req.sender role ∧
      w'.logins = update w.logins req.sender (some name)) ∨
    (w'.logins = w.logins ∧ w'.server.authz = w.server.authz ∧
      (w'.server.users = w.server.users ∨ w.server.authz.isAdmin req.sender = true ∧
        (w'.server.users = (w.server.users.handleAdd sha (parseFields req.msg.payload)).2 ∨
          Command.ofCode req.msg.code = some .userDelete ∧
            w'.server.users = (w.server.users.handleDelete (parseFields req.msg.payload)).2 ∨
          Command.ofCode req.msg.code = some .userPasswd ∧
            w'.server.users = (w.server.users.handlePasswd sha (parseFields req.msg.payload)).2))) := by
  cases h
  unfold Server.processCommand login
  cases hc : Command.ofCode req.msg.code with
  | none => exact .inr ⟨rfl, rfl, .inl rfl⟩
  | some cmd =>
    cases cmd with
    | userVerify =>
      cases hv : w.server.verify sha (parseFields req.msg.payload) with
      | error code =>
        simp only [Server.handleVerify, hv]
        exact .inr ⟨trivial, trivial, .inl trivial⟩
      | ok found =>
        simp only [Server.handleVerify, hv]
        exact .inl ⟨found.1, found.2, rfl, trivial, rfl, rfl⟩
    | capIssue =>
      obtain ⟨hu, hh⟩ := w.server.handleCapIssue_frame req
      exact .inr ⟨rfl, hh, .inl hu⟩
    | pkgVerify => exact .inr ⟨rfl, rfl, .inl rfl⟩
    | userList | capList | capVerify =>
      dsimp only
      split <;> exact .inr ⟨rfl, rfl, .inl rfl⟩
    | userAdd =>
      dsimp only
      split
      next ha => exact .inr ⟨rfl, rfl, .inr ⟨ha, .inl rfl⟩⟩
      · exact .inr ⟨rfl, rfl, .inl rfl⟩
    | userPasswd =>
      dsimp only
      split
      next ha => exact .inr ⟨rfl, rfl, .inr ⟨ha, .inr (.inr ⟨rfl, rfl⟩)⟩⟩
      · exact .inr ⟨rfl, rfl, .inl rfl⟩
    | userDelete =>
      dsimp only
      split
      next ha => exact .inr ⟨rfl, rfl, .inr ⟨ha, .inr (.inl ⟨rfl, rfl⟩)⟩⟩
      · exact .inr ⟨rfl, rfl, .inl rfl⟩
    | capRevoke =>
      dsimp only
      split
      · obtain ⟨hu, hh⟩ := w.server.handleCapRevoke_frame req
        exact .inr ⟨rfl, hh, .inl hu⟩
      · exact .inr ⟨rfl, rfl, .inl rfl⟩

lemma hasAdmin_of_verify {s : Server} (h : s.verify sha fields = .ok (name, .admin)) : s.users.HasAdmin name := by
  unfold Server.verify at h
  split at h
  · split at h
    · cases h
    next record hf =>
      split at h
      · split at h
        · obtain ⟨rfl, hr⟩ := Prod.mk.inj (Except.ok.inj h)
          have hn := find?_some hf
          exact ⟨record, mem_of_find?_eq_some hf, of_decide_eq_true hn, hr⟩
        · cases h
      · cases h
  · cases h

lemma Backed.step (h : Backed w) (hp : Spares w req) (ht : w.Step sha verifyStrict req w') :
    Backed w' := by
  intro pid ha
  rcases step_cases ht with ⟨name, role, hv, hu, hh, hl⟩ | ⟨hl, hh, hu⟩
  · rw [hh] at ha
    rw [hl, hu]
    rcases AuthTable.role_remember ha with ⟨rfl, rfl⟩ | ⟨hne, hrl⟩
    · rw [update_self]
      exact ⟨name, rfl, hasAdmin_of_verify hv⟩
    · rw [update_of_ne hne]
      exact h pid hrl
  · rw [hh] at ha
    obtain ⟨name, hln, hn⟩ := h pid ha
    refine ⟨name, hl ▸ hln, ?_⟩
    obtain hu | ⟨hs, hu | ⟨hc, hu⟩ | ⟨-, hu⟩⟩ := hu <;> rw [hu]
    · exact hn
    · have ⟨r, hr, hrn, _⟩ := hn
      exact hn.congr (.add hr hrn)
    · exact hn.congr (.delete (hp hc hs pid name ha hln))
    · exact hn.passwd _

lemma Backed.run (hrun : Run (Transition.Guarded Spares (Step sha verifyStrict)) (start users) reqs w) : Backed w := by
  induction hrun with
  | nil =>
    intro pid ha
    cases ha
  | snoc _ hs ih => exact ih.step hs.1 hs.2

lemma role_of_executesAdmin {s : Server} (h : s.executesAdmin req = true) :
    s.authz.role req.sender = some .admin := by
  unfold Server.executesAdmin at h
  split at h
  iterate 7 exact beq_iff_eq.mp h
  · split at h
    · simp only [capIssueAllowed, Bool.and_eq_true, Bool.or_eq_true, bne_iff_ne, beq_iff_eq] at h
      rcases h with ⟨hne, (⟨⟨heq, -⟩, -⟩ | ⟨hr, -⟩)⟩
      · exact absurd heq hne
      · exact hr
    · cases h
  iterate 3 cases h

/-- Privilege follows the account. A process whose command for administrators is executed has last
authenticated as a user that is still there and is an administrator. -/
theorem privilege_follows_account {users : UserStore} {reqs : List Request}
    (hrun : Run (Transition.Guarded Spares (Step sha verifyStrict)) (start users) reqs w)
    (hexec : w.server.executesAdmin req = true) :
    ∃ name, w.logins req.sender = some name ∧ ∃ r ∈ w.server.users.records, r.username = name ∧ r.role = .admin :=
  Backed.run hrun req.sender (role_of_executesAdmin hexec)

/-- `Spares`, by the rows of the table. -/
def spares (w : Watch) (req : Request) : Bool := w.server.authz.rows.all fun row => decide (w.logins row.pid = none) ||
    decide ((parseFields req.msg.payload).head? ≠ w.logins row.pid)

lemma Spares.of_spares (h : spares w req = true) : Spares w req := by
  intro _ _ pid name ha hl
  have hr := all_eq_true.mp h _ (AuthTable.role_eq_some.mp ha)
  simpa [hl] using hr

def request (sender code : Nat) (payload : String) : Request := ⟨sender, ⟨code, bytesOf payload⟩, none, .refused⟩

def twoAdmins : UserStore :=
  let first := (UserStore.new.handleAdd blankDigest ["a".toList, "p".toList, "admin".toList]).2
  (first.handleAdd blankDigest ["b".toList, "p".toList, "admin".toList]).2

/-- An administrator adds a user and deletes another one. -/
theorem privilege_follows_account_list : ∃ w,
    Run (Transition.Guarded Spares (Step blankDigest fun _ _ => false)) (start twoAdmins)
      [request 1 0x14 "a\x00p", request 1 0x11 "c\x00p", request 1 0x13 "b"] w ∧
    w.server.executesAdmin (request 1 0x10 "") = true ∧
    ∃ name, w.logins 1 = some name ∧ ∃ r ∈ w.server.users.records, r.username = name ∧ r.role = .admin :=
  exists_run_and (guarded_of_guardedNext Spares.of_spares id)
    (fun w => w.server.executesAdmin (request 1 0x10 "")) (by decide +kernel)
    fun hrun hexec => ⟨hexec, privilege_follows_account hrun hexec⟩

/-- An administrator is deleted by another one, and goes on as an administrator. -/
theorem deleted_user_stays_admin : ∃ w, Run (Step blankDigest fun _ _ => false) (start twoAdmins)
      [request 1 0x14 "a\x00p", request 2 0x14 "b\x00p", request 1 0x13 "b"] w ∧
    w.server.executesAdmin (request 2 0x11 "b\x00p\x00admin") = true ∧
    w.logins 2 = some "b".toList ∧ w.server.users.records.map UserRecord.username = ["a".toList] :=
  exists_run_decide id (by decide +kernel)

lemma names_step (h : w.server.users.names.Nodup) (hs : w.Step sha verifyStrict req w') : w'.server.users.names.Nodup := by
  obtain ⟨-, -, -, hu, -⟩ | ⟨-, -, hu | ⟨-, hu | ⟨-, hu⟩ | ⟨-, hu⟩⟩⟩ := step_cases hs <;> rw [hu]
  · exact h
  · exact h
  · obtain ⟨-, ha⟩ | ⟨username, _, _, _, r, -, hn, hb, ha⟩ := handleAdd_cases w.server.users (parseFields req.msg.payload)
    · rwa [ha]
    · rw [UserStore.names, ha, map_append, map_singleton, (perm_append_singleton ..).nodup_iff, nodup_cons, (build_eq_some hb).1]
      refine ⟨fun hm => ?_, h⟩
      obtain ⟨x, hx, hxn⟩ := mem_map.mp hm
      exact hn x hx hxn
  · unfold UserStore.handleDelete
    repeat' split
    · exact h
    · exact h
    next hi => exact (nodup_cons.mp ((UserStore.names_swapRemove hi).nodup_iff.mpr h)).2
  · rwa [UserStore.names_passwd]

/-- User names stay distinct, so that nobody is left under a name that was deleted. -/
theorem names_distinct {users : UserStore} (hn : users.names.Nodup) (hrun : Run (Step sha verifyStrict) (start users) reqs w) :
    w.server.users.names.Nodup ∧ ∀ target rest, (w.server.users.handleDelete (target :: rest)).1 = 0 →
      target ∉ (w.server.users.handleDelete (target :: rest)).2.names := by
  have h := hrun.invariant (fun _ _ _ h hs => names_step h hs) hn
  refine ⟨h, fun target rest hd => ?_⟩
  unfold UserStore.handleDelete at hd ⊢
  dsimp only at hd ⊢
  split at hd
  · cases hd
  next hi => exact (nodup_cons.mp ((UserStore.names_swapRemove hi).nodup_iff.mpr h)).1

theorem names_distinct_deleted : ∃ w, Run (Step blankDigest fun _ _ => false) (start twoAdmins)
      [request 1 0x14 "a\x00p", request 1 0x13 "b"] w ∧ w.server.users.names.Nodup :=
  exists_run_and id (fun _ => true) (by decide +kernel) fun hrun _ => (names_distinct (by decide) hrun).1

end Watch

end ZeroOS.Security
