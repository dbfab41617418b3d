import ZeroOS.Security.Authority

/-!
# The password of an account

A user that is added with a password is verified with this password and no other, for as long as the account
is not deleted and gets no other password. A text in the form of a stored digest is the exception:
`handle_add` stores it as it is, and nobody can authenticate with it.
-/

namespace ZeroOS.Security

open List Option Transition Watch Wire
open Fs (utf8 Digest)

variable {sha : Bytes → Digest} {verifyStrict : Bytes → Bytes → Bool} {store store' : UserStore}
  {name username password q pwd : Text} {fields rest : List Text} {w w' : Watch} {req : Request}

/-! ## Commands about other accounts -/

lemma SameAccount.passwd (hf : fields.head? ≠ some name) : SameAccount name store (store.handlePasswd sha fields).2 := by
  intro r hr
  unfold UserStore.handlePasswd
  split
  next target _ _ =>
    split
    · rfl
    next index hn =>
      obtain ⟨hin, ht, -⟩ := findIdx?_eq_some_iff_getElem.mp hn
      have ht : store.records[index].username ≠ name := by
        rw [of_decide_eq_true ht]
        exact fun h => hf (congrArg some h)
      split
      · rfl
      · simp only [UserStore.setPassword, mem_iff_getElem?, getElem?_modify]
        refine exists_congr fun i => ?_
        by_cases hi : index = i
        · subst hi
          simp only [getElem?_eq_getElem hin, ↓reduceIte, Option.map_eq_map, Option.map_some]
          constructor <;> rintro ⟨⟩ <;> exact absurd hr ht
        · simp [hi]
  · rfl

def HasPassword (store : UserStore) (name pwd : Text) : Prop :=
  (∃ r ∈ store.records, r.username = name) ∧ ∀ r ∈ store.records, r.username = name → r.password = pwd

/-- The request is not one to delete the account or to give it another password, or it is refused. -/
def LeavesAccount (name : Text) (w : Watch) (req : Request) : Prop :=
  Command.ofCode req.msg.code = some .userDelete ∨ Command.ofCode req.msg.code = some .userPasswd →
    w.server.authz.isAdmin req.sender = true → (parseFields req.msg.payload).head? ≠ some name

lemma HasPassword.congr (h : HasPassword store name pwd) (hs : SameAccount name store store') :
    HasPassword store' name pwd := by
  obtain ⟨⟨r, hr, hn⟩, ha⟩ := h
  exact ⟨⟨r, (hs r hn).mpr hr, hn⟩, fun x hx hn => ha x ((hs x hn).mp hx) hn⟩

lemma HasPassword.step (h : HasPassword w.server.users name pwd) (hl : LeavesAccount name w req)
    (hs : w.Step sha verifyStrict req w') : HasPassword w'.server.users name pwd := by
  obtain ⟨r, hr, hn⟩ := h.1
  rcases step_cases hs with ⟨_, _, -, hu, -⟩ | ⟨-, -, hu⟩
  · rwa [hu]
  · obtain hu | ⟨ha, hu | ⟨hc, hu⟩ | ⟨hc, hu⟩⟩ := hu <;> rw [hu]
    · exact h
    · exact h.congr (.add hr hn)
    · exact h.congr (.delete (hl (.inl hc) ha))
    · exact h.congr (.passwd (hl (.inr hc) ha))

/-! ## Adding and verifying -/

/-- What `password_digest` takes the digest of. -/
def passwordInput (username password : Text) : Bytes :=
  utf8 "zero-os-userdb-v2".toList ++ 0 :: (utf8 username ++ 0 :: utf8 password)

lemma passwordDigest_eq (h : passwordDigest sha username password = some digest) :
    digest = sha (passwordInput username password) := by
  unfold passwordDigest at h
  split at h
  · cases h
  dsimp only at h
  split at h
  · cases h
  · exact (some.inj h).symm

lemma passwordInput_inj (h : passwordInput username q = passwordInput username password) : q = password := by
  have hutf8 : utf8 q = utf8 password := (cons.inj (append_cancel_left (cons.inj (append_cancel_left h)).2)).2
  exact some.inj (by rw [← Fs.fromUtf8_utf8 q, hutf8, Fs.fromUtf8_utf8])

lemma code_verify (h : HasPassword w.server.users username (passwordMark ++ hexText digest.bytes))
    (hc : Command.ofCode req.msg.code = some .userVerify)
    (hf : parseFields req.msg.payload = username :: q :: rest) :
    (w.server.processCommand sha verifyStrict req).1.code = 0 ↔ passwordDigest sha username q = some digest := by
  obtain ⟨⟨r, hr, hn⟩, ha⟩ := h
  obtain ⟨x, hx⟩ : ∃ x, w.server.users.records.find? (fun r => decide (r.username = username)) = some x :=
    isSome_iff_exists.mp (find?_isSome.mpr ⟨r, hr, decide_eq_true hn⟩)
  have hfn := find?_some hx
  have hp := ha x (mem_of_find?_eq_some hx) (of_decide_eq_true hfn)
  simp only [Server.processCommand, hc, Server.handleVerify, Server.verify, hf, hx, hp, parseEncodedDigest_hexText]
  cases passwordDigest sha username q with
  | none => simp [Server.answer]
  | some candidate =>
    dsimp only
    by_cases heq : candidate = digest
    · rw [heq, if_pos rfl]
      exact ⟨fun _ => rfl, fun _ => rfl⟩
    · rw [if_neg fun hb => heq (by cases digest; cases candidate; cases hb; rfl)]
      exact ⟨(by intros; contradiction), fun h => absurd (some.inj h) heq⟩

/-- The password of an account is the one that it was added with, whatever is done to the other accounts
in between, unless this password has the form of a stored digest. -/
theorem password_round_trip {reqs : List Request} {rest' : List Text}
    (hadd : (store.handleAdd sha (username :: password :: rest)).1 = 0)
    (hstart : w.server.users = (store.handleAdd sha (username :: password :: rest)).2)
    (hrun : Run (Guarded (LeavesAccount username) (Step sha verifyStrict)) w reqs w')
    (hplain : encodedPassword password = false) (hcode : Command.ofCode req.msg.code = some .userVerify)
    (hfields : parseFields req.msg.payload = username :: q :: rest')
    (hinj : sha (passwordInput username q) = sha (passwordInput username password) →
      passwordInput username q = passwordInput username password) :
    (w'.server.processCommand sha verifyStrict req).1.code = 0 ↔ q = password := by
  obtain ⟨hne, -⟩ | ⟨_, _, _, role, r, heq, hw, hb, hr⟩ := @handleAdd_cases sha store (username :: password :: rest)
  · exact absurd hadd hne
  obtain ⟨rfl, rfl, rfl⟩ : username = _ ∧ password = _ ∧ rest = _ := by simpa using heq
  obtain ⟨hm, hn⟩ := build_eq_some hb
  rw [normalizePassword, if_neg (by simp [hplain]), passwordHash] at hn
  obtain ⟨digest, hd, hp⟩ := map_eq_some_iff.mp hn
  have hf : HasPassword w.server.users username (passwordMark ++ hexText digest.bytes) := by
    rw [hstart, HasPassword, hr, hp]
    refine ⟨⟨r, mem_append_right _ mem_cons_self, hm⟩, fun x hx hx' => ?_⟩
    rcases mem_append.mp hx with hx | hx
    · exact absurd hx' (hw x hx)
    · rw [mem_singleton.mp hx]
  have hl : HasPassword w'.server.users username (passwordMark ++ hexText digest.bytes) := by
    clear hfields hcode
    induction hrun with
    | nil => exact hf
    | snoc _ hs ih => exact ih.step hs.1 hs.2
  rw [code_verify hl hcode hfields]
  constructor
  · intro hq
    exact passwordInput_inj (hinj (by rw [← passwordDigest_eq hq, passwordDigest_eq hd]))
  · rintro rfl
    exact hd

/-- A digest that tells short texts apart: the last bytes. -/
def lastBytes (bytes : Bytes) : Digest := ⟨(bytes.reverse ++ List.replicate 32 0).take 32, by simp⟩

theorem password_round_trip_other : (twoAdmins.handleAdd lastBytes ["c".toList, "p".toList]).1 = 0 ∧
    (∀ s : Server, s.users = (twoAdmins.handleAdd lastBytes ["c".toList, "p".toList]).2 →
      (s.processCommand lastBytes (fun _ _ => false) (request 1 0x14 "c\x00p")).1.code = 0 ∧
      (s.processCommand lastBytes (fun _ _ => false) (request 1 0x14 "c\x00q")).1.code ≠ 0) := by
  have hadd : (twoAdmins.handleAdd lastBytes ["c".toList, "p".toList]).1 = 0 := by decide +kernel
  refine ⟨hadd, fun s hs => ⟨?_, fun h => ?_⟩⟩
  · exact (@password_round_trip _ _ _ _ _ "p".toList _ ⟨s, fun _ => none⟩ _ _ _ [] hadd hs .nil (by decide +kernel)
      (by decide) (by decide +kernel) (fun _ => rfl)).mpr rfl
  · have heq := (@password_round_trip _ _ _ _ _ "q".toList _ ⟨s, fun _ => none⟩ _ _ _ [] hadd hs .nil
      (by decide +kernel) (by decide) (by decide +kernel) (by decide +kernel)).mp h
    cases heq

/-- The password is the mark and the digits of a digest: the user is added, and not verified with it. -/
theorem encoded_password_locks_out :
    let pwd := passwordMark ++ List.replicate 64 '0'
    let out := UserStore.new.handleAdd blankDigest ["a".toList, pwd]
    let req : Request := ⟨1, ⟨0x14, utf8 ('a' :: '\x00' :: pwd)⟩, none, .refused⟩
    out.1 = 0 ∧ parseFields req.msg.payload = ["a".toList, pwd] ∧
      ((start out.2).server.processCommand blankDigest (fun _ _ => false) req).1.code = 1 := by
  decide +kernel

end ZeroOS.Security
