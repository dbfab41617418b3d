import ZeroOS.Lib.Run

/-!
# The grant book

`GrantBook` of `security.rs`: sixteen grants and eight sessions, as the code keeps them. A grant is
swept when its time has come and the book is next written to, a login token is used up by the
session it opens, and a session takes its grants with it.

`Ledger` is what the book stands for. It has no capacity and no sweeping: it keeps every grant that
was issued until the grant is revoked, used up, or lost with its session or its process.

The two counters are `u64`s; where one would overflow the call panics and has no successor.
-/

namespace ZeroOS.Security

open Transition List

def maxGrants : Nat := 16

def maxSessions : Nat := 8

/-- `u64::MAX`. -/
def u64Max : Nat := 2 ^ 64 - 1

def capIssuer : BitVec 32 := .twoPow 32 5

def capSession : BitVec 32 := .twoPow 32 6

inductive IssueError
  | invalidScope
  | noSuchProcess
  | tableFull
  deriving DecidableEq

inductive SessionError
  | noSuchToken
  | notYours
  | expired
  | tableFull
  deriving DecidableEq

structure Grant where
  token : Nat
  pid : Nat
  caps : BitVec 32
  expiresAt : Nat
  session : Nat
  loginOnce : Bool
  deriving DecidableEq

def Grant.covers (g : Grant) (pid session now : Nat) : Bool :=
  g.pid == pid && decide (now < g.expiresAt) && (g.session == 0 || g.session == session)

structure SessionRecord where
  id : Nat
  leader : Nat
  deriving DecidableEq

structure GrantBook where
  grants : List Grant
  sessions : List SessionRecord
  nextToken : Nat
  nextSession : Nat

/-- The grant that `issue` writes. -/
def grantOf (token target : Nat) (caps : BitVec 32) (ttl session now : Nat) : Grant where
  token := token
  pid := target
  caps := caps
  expiresAt := if ttl = 0 then u64Max else min (now + ttl) u64Max
  session := session
  loginOnce := caps &&& capSession != 0

namespace GrantBook

def new : GrantBook := ⟨[], [], 1, 1⟩

variable (b : GrantBook)

def sweep (now : Nat) : GrantBook := { b with grants := b.grants.filter (now < ·.expiresAt) }

def issue (target : Nat) (caps : BitVec 32) (ttl session now : Nat) :
    Option (Except IssueError Nat × GrantBook) :=
  if caps = 0 ∨ caps &&& capIssuer ≠ 0 then some (.error .invalidScope, b)
  else if maxGrants ≤ (b.sweep now).grants.length then some (.error .tableFull, b.sweep now)
  else if b.nextToken = u64Max then none
  else some (.ok b.nextToken,
    { b.sweep now with
      grants := (b.sweep now).grants ++ [grantOf b.nextToken target caps ttl session now]
      nextToken := b.nextToken + 1 })

def revoke (token : Nat) : Bool × GrantBook :=
  let grants := b.grants.filter (·.token ≠ token)
  (b.grants.length != grants.length, { b with grants := grants })

def effective (pid : Nat) (base : BitVec 32) (session now : Nat) : BitVec 32 :=
  b.grants.foldl (fun caps g => if g.covers pid session now then caps ||| g.caps else caps) base

def purgeSessionBook (sid : Nat) : GrantBook :=
  if sid = 0 then b
  else { b with
    grants := b.grants.filter (·.session ≠ sid)
    sessions := b.sessions.filter (·.id ≠ sid) }

@[simp] lemma purgeSessionBook_nextToken (sid : Nat) : (b.purgeSessionBook sid).nextToken = b.nextToken := by
  unfold purgeSessionBook
  split <;> rfl

@[simp] lemma elim_purge_nextToken (dead : Option Nat) : (dead.elim b b.purgeSessionBook).nextToken = b.nextToken := by
  cases dead <;> simp

def sessionOf (leader : Nat) : Option Nat := (b.sessions.find? (·.leader == leader)).map (·.id)

def beginSession (caller token now : Nat) :
    Option (Except SessionError (Nat × Option Nat) × GrantBook) :=
  match b.grants.find? (·.token == token) with
  | none => some (.error .noSuchToken, b)
  | some grant =>
    if grant.pid ≠ caller ∨ grant.loginOnce = false then some (.error .notYours, b)
    else if grant.expiresAt ≤ now then some (.error .expired, b)
    else if (b.sessionOf caller).isNone ∧ maxSessions ≤ b.sessions.length then
      some (.error .tableFull, b)
    else if b.nextSession = u64Max then none
    else
      let consumed := { b with grants := b.grants.eraseP (·.token == token) }
      let purged := (b.sessionOf caller).elim consumed consumed.purgeSessionBook
      some (.ok (b.nextSession, b.sessionOf caller),
        { purged with
          sessions := purged.sessions ++ [⟨b.nextSession, caller⟩]
          nextSession := b.nextSession + 1 })

def onProcessGone (pid : Nat) : Option Nat × GrantBook :=
  let gone := { b with grants := b.grants.filter (·.pid ≠ pid) }
  (b.sessionOf pid, (b.sessionOf pid).elim gone gone.purgeSessionBook)

end GrantBook

inductive BookEvent
  | issue (target : Nat) (caps : BitVec 32) (ttl session now : Nat) (r : Except IssueError Nat)
  | revoke (token : Nat) (r : Bool)
  | effective (pid : Nat) (base : BitVec 32) (session now : Nat) (r : BitVec 32)
  | beginSession (caller token now : Nat) (r : Except SessionError (Nat × Option Nat))
  | purge (sid : Nat)
  | processGone (pid : Nat) (r : Option Nat)

/-- The book and the time of the last call that read the clock. The clock does not go back. -/
inductive BookStep : GrantBook × Nat → BookEvent → GrantBook × Nat → Prop
  | issue {b b' : GrantBook} {t target ttl session now : Nat} {caps : BitVec 32}
      {r : Except IssueError Nat} (h : b.issue target caps ttl session now = some (r, b'))
      (ht : t ≤ now) : BookStep (b, t) (.issue target caps ttl session now r) (b', now)
  | revoke {b : GrantBook} {t token : Nat} :
      BookStep (b, t) (.revoke token (b.revoke token).1) ((b.revoke token).2, t)
  | effective {b : GrantBook} {t pid session now : Nat} {base : BitVec 32} (ht : t ≤ now) :
      BookStep (b, t) (.effective pid base session now (b.effective pid base session now)) (b, now)
  | beginSession {b b' : GrantBook} {t caller token now : Nat}
      {r : Except SessionError (Nat × Option Nat)}
      (h : b.beginSession caller token now = some (r, b')) (ht : t ≤ now) :
      BookStep (b, t) (.beginSession caller token now r) (b', now)
  | purge {b : GrantBook} {t sid : Nat} : BookStep (b, t) (.purge sid) (b.purgeSessionBook sid, t)
  | processGone {b : GrantBook} {t pid : Nat} :
      BookStep (b, t) (.processGone pid (b.onProcessGone pid).1) ((b.onProcessGone pid).2, t)

/-! ## The ledger -/

structure Ledger where
  standing : List Grant
  sessions : List SessionRecord

namespace Ledger

def endSessions (l : Ledger) (dead : SessionRecord → Bool) : Ledger where
  standing := l.standing.filter fun g => !l.sessions.any fun s => dead s && g.session == s.id
  sessions := l.sessions.filter (!dead ·)

/-- What a call means. -/
def record (l : Ledger) : BookEvent → Ledger
  | .issue target caps ttl session now (.ok token) =>
    { l with standing := l.standing ++ [grantOf token target caps ttl session now] }
  | .revoke token _ => { l with standing := l.standing.filter (·.token ≠ token) }
  | .beginSession caller token _ (.ok (sid, _)) =>
    let ended := { l with standing := l.standing.filter (·.token ≠ token) }.endSessions
      (·.leader == caller)
    { ended with sessions := ended.sessions ++ [⟨sid, caller⟩] }
  | .purge sid =>
    if sid = 0 then l
    else ⟨l.standing.filter (·.session ≠ sid), l.sessions.filter (·.id ≠ sid)⟩
  | .processGone pid _ => { l with standing := l.standing.filter (·.pid ≠ pid) }.endSessions (·.leader == pid)
  | _ => l

def of (es : List BookEvent) : Ledger := es.foldl record ⟨[], []⟩

lemma of_append (es : List BookEvent) (ev : BookEvent) : of (es ++ [ev]) = (of es).record ev := by
  rw [of, foldl_append]
  rfl

end Ledger

def BookEvent.issued : BookEvent → Option Grant
  | .issue target caps ttl session now (.ok token) => some (grantOf token target caps ttl session now)
  | _ => none

def BookEvent.time : BookEvent → Option Nat
  | .issue _ _ _ _ now _ | .effective _ _ _ now _ | .beginSession _ _ now _ => some now
  | _ => none

def issued (es : List BookEvent) : List Grant := es.filterMap BookEvent.issued

/-! ## The book agrees with the ledger -/

structure GrantBook.Orderly (b : GrantBook) : Prop where
  tokens : (b.grants.map (·.token)).Nodup
  token_lt : ∀ g ∈ b.grants, g.token < b.nextToken
  scope : ∀ g ∈ b.grants, g.caps &&& capIssuer = 0
  ids : (b.sessions.map (·.id)).Nodup
  id_lt : ∀ s ∈ b.sessions, s.id ≠ 0 ∧ s.id < b.nextSession
  leaders : (b.sessions.map (·.leader)).Nodup
  next_pos : 0 < b.nextToken ∧ 0 < b.nextSession

/-- The book has the grants of the ledger, as far as they can still cover anything. -/
structure Agrees (l : Ledger) (b : GrantBook) (t : Nat) : Prop where
  sessions : b.sessions = l.sessions
  grants : ∀ now, t ≤ now → b.grants.filter (now < ·.expiresAt) = l.standing.filter (now < ·.expiresAt)

namespace Agrees

variable {l : Ledger} {b : GrantBook} {t : Nat}

lemma later (h : Agrees l b t) (ht : t ≤ t') : Agrees l b t' := ⟨h.sessions, fun now hn => h.grants now (Nat.le_trans ht hn)⟩

lemma filter (h : Agrees l b t) (p : Grant → Bool) (q : SessionRecord → Bool) :
    Agrees ⟨l.standing.filter p, l.sessions.filter q⟩
      { b with grants := b.grants.filter p, sessions := b.sessions.filter q } t := by
  refine ⟨congrArg (List.filter q) h.sessions, fun now hn => ?_⟩
  simp only [filter_filter]
  have := congrArg (List.filter p) (h.grants now hn)
  simpa only [filter_filter, Bool.and_comm] using this

lemma filter_grants (h : Agrees l b t) (p : Grant → Bool) :
    Agrees { l with standing := l.standing.filter p } { b with grants := b.grants.filter p } t := by
  simpa using h.filter p fun _ => true

lemma sweep (h : Agrees l b t) (ht : t ≤ now) : Agrees l (b.sweep now) now := by
  refine ⟨h.sessions, fun later hl => ?_⟩
  rw [← h.grants later (Nat.le_trans ht hl), GrantBook.sweep, filter_filter]
  refine filter_congr fun g _ => ?_
  simp only [Bool.and_eq_left_iff_imp, decide_eq_true_eq]
  omega

lemma push (h : Agrees l b t) (g : Grant) (n : Nat) :
    Agrees { l with standing := l.standing ++ [g] }
      { b with grants := b.grants ++ [g], nextToken := n } t := by
  refine ⟨h.sessions, fun now hn => ?_⟩
  simp only [filter_append, h.grants now hn]

end Agrees

lemma nodup_append_new {α : Type} {l : List α} {a : α} (h : l.Nodup) (ha : a ∉ l) : (l ++ [a]).Nodup :=
  nodup_append_comm.mpr (nodup_cons.mpr ⟨ha, h⟩)

lemma eraseP_eq_filter {α : Type} {key : α → Nat} : ∀ {l : List α}, (l.map key).Nodup →
    ∀ k, l.eraseP (key · == k) = l.filter (key · ≠ k)
  | [], _, _ => rfl
  | a :: l, h, k => by
      obtain ⟨hnot, hnodup⟩ := nodup_cons.mp h
      by_cases hk : key a = k
      · have hall : l.filter (key · ≠ k) = l := by
          rw [filter_eq_self]
          intro b hb
          simpa using fun heq : key b = k => hnot (hk ▸ heq ▸ mem_map_of_mem hb)
        rw [eraseP_cons_of_pos (by simpa using hk), filter_cons_of_neg (by simpa using hk), hall]
      · rw [eraseP_cons_of_neg (by simpa using hk), filter_cons_of_pos (by simpa using hk), eraseP_eq_filter hnodup k]

namespace GrantBook

variable {b b' : GrantBook}

lemma Orderly.new : Orderly .new := by
  refine ⟨.nil, ?_, ?_, .nil, ?_, .nil, by decide⟩ <;> simp [GrantBook.new]

lemma Orderly.filter (h : b.Orderly) (p : Grant → Bool) (q : SessionRecord → Bool) :
    Orderly { b with grants := b.grants.filter p, sessions := b.sessions.filter q } where
  tokens := h.tokens.sublist (filter_sublist.map _)
  token_lt g hg := h.token_lt g (mem_of_mem_filter hg)
  scope g hg := h.scope g (mem_of_mem_filter hg)
  ids := h.ids.sublist (filter_sublist.map _)
  id_lt s hs := h.id_lt s (mem_of_mem_filter hs)
  leaders := h.leaders.sublist (filter_sublist.map _)
  next_pos := h.next_pos

lemma Orderly.filter_grants (h : b.Orderly) (p : Grant → Bool) :
    Orderly { b with grants := b.grants.filter p } := by
  simpa using h.filter p fun _ => true

lemma Orderly.eraseP_token (h : b.Orderly) (token : Nat) :
    b.grants.eraseP (·.token == token) = b.grants.filter (·.token ≠ token) :=
  eraseP_eq_filter h.tokens token

lemma Orderly.same_session (h : b.Orderly) (hs : s ∈ b.sessions) (hr : r ∈ b.sessions) : r.id = s.id ↔ r.leader = s.leader :=
  ⟨fun heq => (inj_on_of_nodup_map h.ids hr hs heq) ▸ rfl,
    fun heq => (inj_on_of_nodup_map h.leaders hr hs heq) ▸ rfl⟩

lemma Orderly.end_session (h : b.Orderly) (leader : Nat) : (b.sessionOf leader).elim b b.purgeSessionBook =
      { b with
        grants := b.grants.filter fun g => !b.sessions.any fun s => s.leader == leader && g.session == s.id
        sessions := b.sessions.filter (!·.leader == leader) } := by
  unfold sessionOf
  match hf : b.sessions.find? (·.leader == leader) with
  | none =>
    have hn : ∀ s ∈ b.sessions, (s.leader == leader) = false := by simpa using find?_eq_none.mp hf
    have hg : ∀ g : Grant, (!b.sessions.any fun s => s.leader == leader && g.session == s.id) = true := by
      intro g
      simp only [Bool.not_eq_true', any_eq_false]
      intro s hs
      simp [hn s hs]
    rw [filter_eq_self.mpr fun g _ => hg g, filter_eq_self.mpr fun s hs => by simp [hn s hs], hf]
    rfl
  | some s =>
    have hs : s ∈ b.sessions := mem_of_find?_eq_some hf
    obtain rfl : s.leader = leader := by simpa using find?_some hf
    rw [hf, Option.map_some, Option.elim_some, purgeSessionBook, if_neg (h.id_lt s hs).1]
    congr 1
    · refine filter_congr fun g _ => ?_
      rw [Bool.eq_iff_iff]
      simp only [decide_eq_true_eq, Bool.not_eq_true', any_eq_false, Bool.and_eq_true, beq_iff_eq, not_and]
      constructor
      · intro hne r hr hl heq
        exact hne (heq.trans ((h.same_session hs hr).mpr hl))
      · intro ha heq
        exact ha s hs rfl heq
    · refine filter_congr fun r hr => ?_
      rw [Bool.eq_iff_iff]
      simp [h.same_session hs hr]

lemma Orderly.end_session_agrees (hb : b.Orderly) (h : Agrees l b t) (leader : Nat) :
    Orderly ((b.sessionOf leader).elim b b.purgeSessionBook) ∧ Agrees (l.endSessions (·.leader == leader))
        ((b.sessionOf leader).elim b b.purgeSessionBook) t := by
  rw [hb.end_session]
  refine ⟨hb.filter _ _, ?_⟩
  simpa only [Ledger.endSessions, ← h.sessions] using h.filter _ _

lemma issue_cases (h : b.issue target caps ttl session now = some (r, b')) :
    (∃ e, r = .error e) ∧ (b' = b ∨ b' = b.sweep now) ∨
    r = .ok b.nextToken ∧ caps &&& capIssuer = 0 ∧ b' = { b.sweep now with
        grants := (b.sweep now).grants ++ [grantOf b.nextToken target caps ttl session now]
        nextToken := b.nextToken + 1 } := by
  unfold issue at h
  split at h
  · cases h
    exact .inl ⟨⟨_, rfl⟩, .inl rfl⟩
  next hs =>
    split at h
    · cases h
      exact .inl ⟨⟨_, rfl⟩, .inr rfl⟩
    split at h
    · cases h
    · cases h
      exact .inr ⟨rfl, by simpa using (not_or.mp hs).2, rfl⟩

lemma beginSession_cases (h : b.beginSession caller token now = some (r, b')) : (∃ e, r = .error e) ∧ b' = b ∨
    ∃ purged, purged = (b.sessionOf caller).elim
        { b with grants := b.grants.eraseP (·.token == token) }
        ({ b with grants := b.grants.eraseP (·.token == token) } : GrantBook).purgeSessionBook ∧
      r = .ok (b.nextSession, b.sessionOf caller) ∧
      b' = { purged with
        sessions := purged.sessions ++ [⟨b.nextSession, caller⟩]
        nextSession := b.nextSession + 1 } := by
  have hr {e : SessionError} (h : some (Except.error e, b) = some (r, b')) : (∃ e, r = .error e) ∧ b' = b := by
    cases h
    exact ⟨⟨_, rfl⟩, rfl⟩
  unfold beginSession at h
  split at h
  · exact .inl (hr h)
  split at h
  · exact .inl (hr h)
  split at h
  · exact .inl (hr h)
  split at h
  · exact .inl (hr h)
  split at h
  · cases h
  · cases h
    exact .inr ⟨_, rfl, rfl, rfl⟩

lemma Orderly.sweep (h : b.Orderly) (now : Nat) : (b.sweep now).Orderly := h.filter_grants _

lemma Orderly.open_session (h : b.Orderly) (hn : ∀ s ∈ b.sessions, s.leader ≠ leader) :
    Orderly { b with
      sessions := b.sessions ++ [⟨b.nextSession, leader⟩], nextSession := b.nextSession + 1 } where
  tokens := h.tokens
  token_lt := h.token_lt
  scope := h.scope
  ids := by
    rw [map_append, map_singleton]
    refine nodup_append_new h.ids fun hm => ?_
    obtain ⟨s, hs, heq⟩ := mem_map.mp hm
    exact Nat.ne_of_lt (h.id_lt s hs).2 heq
  id_lt s hs := by
    rcases mem_append.mp hs with hs | hs
    · exact ⟨(h.id_lt s hs).1, Nat.lt_succ_of_lt (h.id_lt s hs).2⟩
    · obtain rfl := mem_singleton.mp hs
      exact ⟨Nat.ne_of_gt h.next_pos.2, Nat.lt_succ_self _⟩
  leaders := by
    rw [map_append, map_singleton]
    refine nodup_append_new h.leaders fun hm => ?_
    obtain ⟨s, hs, heq⟩ := mem_map.mp hm
    exact hn s hs heq
  next_pos := ⟨h.next_pos.1, Nat.succ_pos _⟩

lemma Orderly.push (h : b.Orderly) (ht : g.token = b.nextToken) (hs : g.caps &&& capIssuer = 0) :
    Orderly { b with grants := b.grants ++ [g], nextToken := b.nextToken + 1 } where
  tokens := by
    rw [map_append, map_singleton]
    refine nodup_append_new h.tokens fun hm => ?_
    obtain ⟨g', hg', heq⟩ := mem_map.mp hm
    exact Nat.ne_of_lt (h.token_lt g' hg') (heq.trans ht)
  token_lt g' hg' := by
    rcases mem_append.mp hg' with hg' | hg'
    · exact Nat.lt_succ_of_lt (h.token_lt g' hg')
    · obtain rfl := mem_singleton.mp hg'
      exact ht ▸ Nat.lt_succ_self _
  scope g' hg' := by
    rcases mem_append.mp hg' with hg' | hg'
    · exact h.scope g' hg'
    · obtain rfl := mem_singleton.mp hg'
      exact hs
  ids := h.ids
  id_lt := h.id_lt
  leaders := h.leaders
  next_pos := ⟨Nat.succ_pos _, h.next_pos.2⟩

end GrantBook

variable {ev : BookEvent} {l : Ledger}

open GrantBook in
lemma BookStep.agrees (h : BookStep (b, t) ev (b', t')) (hb : b.Orderly) (hl : Agrees l b t) :
    b'.Orderly ∧ Agrees (l.record ev) b' t' := by
  cases h with
  | issue hc ht =>
    obtain ⟨⟨e, rfl⟩, rfl | rfl⟩ | ⟨rfl, hsc, rfl⟩ := issue_cases hc
    · exact ⟨hb, hl.later ht⟩
    · exact ⟨hb.sweep _, hl.sweep ht⟩
    · exact ⟨(hb.sweep _).push rfl hsc, (hl.sweep ht).push _ _⟩
  | revoke => exact ⟨hb.filter_grants _, hl.filter_grants _⟩
  | effective ht => exact ⟨hb, hl.later ht⟩
  | @beginSession _ _ _ caller token now r hc ht =>
    obtain ⟨⟨e, rfl⟩, rfl⟩ | ⟨purged, hp, rfl, rfl⟩ := beginSession_cases hc
    · exact ⟨hb, hl.later ht⟩
    · rw [hb.eraseP_token] at hp
      have hu := hb.filter_grants (·.token ≠ token)
      obtain ⟨ho, ha⟩ := hu.end_session_agrees ((hl.later ht).filter_grants (·.token ≠ token)) caller
      have heq := hp.trans (hu.end_session caller)
      replace ho : purged.Orderly := by
        rw [hp]
        exact ho
      replace ha := show Agrees _ purged t' by
        rw [hp]
        exact ha
      have hn : purged.nextSession = b.nextSession := by rw [heq]
      rw [← hn]
      refine ⟨ho.open_session fun s hs => ?_, ?_, ha.grants⟩
      · rw [heq] at hs
        simpa using (mem_filter.mp hs).2
      · exact congrArg (· ++ [_]) ha.sessions
  | @purge _ _ sid =>
    simp only [purgeSessionBook, Ledger.record]
    split
    · exact ⟨hb, hl⟩
    · exact ⟨hb.filter _ _, hl.filter _ _⟩
  | @processGone _ _ pid => exact (hb.filter_grants _).end_session_agrees (hl.filter_grants _) pid

/-! ## What a trace leaves -/

lemma BookStep.time_le (h : BookStep (b, t) ev (b', t')) :
    t ≤ t' ∧ ∀ now ∈ ev.time, now ≤ t' := by
  cases h with
  | issue _ ht | effective ht | beginSession _ ht => exact ⟨ht, by simp [BookEvent.time]⟩
  | revoke | purge | processGone => exact ⟨Nat.le_refl _, by simp [BookEvent.time]⟩

lemma BookStep.token (h : BookStep (b, t) ev (b', t')) :
    ev.issued = none ∧ b'.nextToken = b.nextToken ∨
    ∃ g, ev.issued = some g ∧ g.token = b.nextToken ∧ b'.nextToken = b.nextToken + 1 := by
  cases h with
  | issue hc ht =>
    obtain ⟨⟨e, rfl⟩, rfl | rfl⟩ | ⟨rfl, hs, rfl⟩ := GrantBook.issue_cases hc
    · exact .inl ⟨rfl, rfl⟩
    · exact .inl ⟨rfl, rfl⟩
    · exact .inr ⟨_, rfl, rfl, rfl⟩
  | revoke | effective => exact .inl ⟨rfl, rfl⟩
  | @beginSession _ _ _ caller token now r hc ht =>
    refine .inl ⟨rfl, ?_⟩
    obtain ⟨-, rfl⟩ | ⟨purged, rfl, -, rfl⟩ := GrantBook.beginSession_cases hc
    · rfl
    · exact GrantBook.elim_purge_nextToken _ _
  | purge => exact .inl ⟨rfl, GrantBook.purgeSessionBook_nextToken _ _⟩
  | processGone => exact .inl ⟨rfl, GrantBook.elim_purge_nextToken _ _⟩

lemma issued_append (es : List BookEvent) (ev : BookEvent) :
    issued (es ++ [ev]) = issued es ++ ev.issued.toList := by
  simp only [issued, filterMap_append]
  cases h : ev.issued <;> simp [h]

variable {g : Grant}

lemma Ledger.mem_record (h : g ∈ (l.record ev).standing) : g ∈ l.standing ∨ ev.issued = some g := by
  unfold Ledger.record at h
  split at h
  · rcases mem_append.mp h with h | h
    · exact .inl h
    · exact .inr (congrArg some (mem_singleton.mp h).symm)
  · exact .inl (mem_of_mem_filter h)
  · exact .inl (mem_of_mem_filter (mem_of_mem_filter h))
  · split at h
    · exact .inl h
    · exact .inl (mem_of_mem_filter h)
  · exact .inl (mem_of_mem_filter (mem_of_mem_filter h))
  · exact .inl h

lemma mem_issued_of_standing (h : g ∈ (Ledger.of es).standing) : g ∈ issued es := by
  induction es using List.reverseRecOn with
  | nil => cases h
  | append_singleton es ev ih =>
    rw [Ledger.of_append] at h
    rw [issued_append, mem_append, Option.mem_toList]
    exact (Ledger.mem_record h).imp ih id

lemma not_standing_append (hn : ((issued (pre ++ post)).map (·.token)).Nodup)
    (hg : g ∈ issued pre) (hs : g ∉ (Ledger.of pre).standing) : g ∉ (Ledger.of (pre ++ post)).standing := by
  induction post using List.reverseRecOn with
  | nil => simpa using hs
  | append_singleton post ev ih =>
    rw [← append_assoc, issued_append, map_append] at hn
    rw [← append_assoc, Ledger.of_append]
    intro hm
    rcases Ledger.mem_record hm with ho | hw
    · exact ih (nodup_append.mp hn).1 ho
    · have ho : g.token ∈ (issued (pre ++ post)).map (·.token) := by
        refine mem_map_of_mem ?_
        rw [issued, filterMap_append]
        exact mem_append_left _ hg
      rw [hw] at hn
      exact (nodup_append.mp hn).2.2 _ ho g.token (by simp) rfl

/-- Everything that holds along a run of the book. -/
structure Kept (es : List BookEvent) (b : GrantBook) (t : Nat) : Prop where
  orderly : b.Orderly
  agrees : Agrees (Ledger.of es) b t
  tokens : ((issued es).map (·.token)).Nodup
  token_pos : ∀ g ∈ issued es, g.token ≠ 0 ∧ g.token < b.nextToken
  times : ∀ ev ∈ es, ∀ now ∈ ev.time, now ≤ t

lemma Kept.step {es : List BookEvent} {ev : BookEvent} {b b' : GrantBook} {t t' : Nat}
    (h : Kept es b t) (hs : BookStep (b, t) ev (b', t')) : Kept (es ++ [ev]) b' t' := by
  obtain ⟨ho, ha⟩ := hs.agrees h.orderly h.agrees
  obtain ⟨hle, htm⟩ := hs.time_le
  refine ⟨ho, Ledger.of_append es ev ▸ ha, ?_, ?_, fun ev' he' now hw => ?_⟩
  · rw [issued_append, map_append]
    obtain ⟨hn, -⟩ | ⟨g, hm, ht, -⟩ := hs.token
    · simpa [hn] using h.tokens
    · rw [hm]
      refine nodup_append_new h.tokens fun hme => ?_
      obtain ⟨g', hg', heq⟩ := mem_map.mp hme
      exact Nat.ne_of_lt (h.token_pos g' hg').2 (heq.trans ht)
  · intro g hg
    rw [issued_append, mem_append, Option.mem_toList] at hg
    obtain ⟨hn, heq⟩ | ⟨g', hm, ht, heq⟩ := hs.token
    · rw [hn] at hg
      rw [heq]
      exact h.token_pos g (hg.resolve_right (by simp))
    · rcases hg with hg | hg
      · exact ⟨(h.token_pos g hg).1, heq ▸ Nat.lt_succ_of_lt (h.token_pos g hg).2⟩
      · obtain rfl := Option.mem_unique hm hg
        exact ⟨ht ▸ Nat.ne_of_gt h.orderly.next_pos.1, by omega⟩
  · rcases mem_append.mp he' with he' | he'
    · exact Nat.le_trans (h.times ev' he' now hw) hle
    · obtain rfl := mem_singleton.mp he'
      exact htm now hw

lemma kept {es : List BookEvent} {b : GrantBook} {t t₀ : Nat} (h : Run BookStep (.new, t₀) es (b, t)) : Kept es b t := by
  generalize hs : (b, t) = s at h
  induction h generalizing b t with
  | nil =>
    cases hs
    exact ⟨.new, ⟨rfl, fun _ _ => rfl⟩, .nil, by simp [issued], by simp⟩
  | @snoc es s u ev _ ht ih =>
    subst hs
    exact (ih rfl).step ht

/-! ## What the book gives -/

lemma GrantBook.effective_bit (b : GrantBook) (pid : Nat) (base : BitVec 32) (session now i : Nat) :
    (b.effective pid base session now).getLsbD i = true ↔ base.getLsbD i = true ∨
      ∃ g ∈ b.grants, g.covers pid session now = true ∧ g.caps.getLsbD i = true := by
  unfold effective
  generalize b.grants = grants
  induction grants generalizing base with
  | nil => simp
  | cons g grants ih =>
    rw [foldl_cons, ih]
    by_cases hg : g.covers pid session now = true
    · simp [hg, or_assoc]
    · simp [hg]

lemma Agrees.covers_iff (h : Agrees l b t) (ht : t ≤ now) (hc : g.covers pid session now = true) :
    g ∈ b.grants ↔ g ∈ l.standing := by
  have hlt : now < g.expiresAt := by
    simp only [Grant.covers, Bool.and_eq_true, decide_eq_true_eq] at hc
    exact hc.1.2
  have := congrArg (g ∈ ·) (h.grants now ht)
  simpa [hlt] using this

lemma and_capIssuer_ne_zero : x &&& capIssuer ≠ 0 ↔ x.getLsbD 5 = true := by
  rw [capIssuer, BitVec.and_twoPow]
  split
  next h =>
    simp only [h, iff_true]
    decide
  next h => exact iff_of_false (fun hne => hne rfl) h

def SessionIn (sessions : List SessionRecord) (sid : Nat) : Prop := sid = 0 ∨ ∃ s ∈ sessions, s.id = sid

/-- The sessions that grants are bound to, when they are issued, are there. -/
def BindsLive (es : List BookEvent) : Prop := ∀ pre ev post, es = pre ++ ev :: post → ∀ g, ev.issued = some g →
    SessionIn (Ledger.of pre).sessions g.session

lemma Ledger.sessionIn_endSessions (h : SessionIn l.sessions g.session) (hg : g ∈ (l.endSessions dead).standing) :
    SessionIn (l.endSessions dead).sessions g.session := by
  refine h.imp_right ?_
  rintro ⟨s, hs, hid⟩
  have hk := (mem_filter.mp hg).2
  simp only [Bool.not_eq_true', any_eq_false, Bool.and_eq_true, beq_iff_eq, not_and] at hk
  refine ⟨s, mem_filter.mpr ⟨hs, ?_⟩, hid⟩
  by_contra hd
  exact hk s hs (by simpa using hd) hid.symm

lemma Ledger.sessionIn_record (h : ∀ g ∈ l.standing, SessionIn l.sessions g.session)
    (hv : ∀ g, ev.issued = some g → SessionIn l.sessions g.session) :
    ∀ g ∈ (l.record ev).standing, SessionIn (l.record ev).sessions g.session := by
  intro g hg
  unfold Ledger.record at hg ⊢
  split at hg
  · rcases mem_append.mp hg with hg | hg
    · exact h g hg
    · exact hv g (congrArg some (mem_singleton.mp hg).symm)
  · exact h g (mem_of_mem_filter hg)
  · have ho := h g (mem_of_mem_filter (mem_of_mem_filter hg))
    have he := Ledger.sessionIn_endSessions
      (l := ⟨l.standing.filter (·.token ≠ _), l.sessions⟩) ho hg
    refine he.imp_right ?_
    rintro ⟨s, hs, hid⟩
    exact ⟨s, mem_append_left _ hs, hid⟩
  · split at hg
    next hd =>
      rw [if_pos hd]
      exact h g hg
    next hd =>
      rw [if_neg hd]
      obtain ⟨hg, hne⟩ := mem_filter.mp hg
      refine (h g hg).imp_right ?_
      rintro ⟨s, hs, hid⟩
      exact ⟨s, mem_filter.mpr ⟨hs, by simpa [hid] using hne⟩, hid⟩
  · exact Ledger.sessionIn_endSessions (h g (mem_of_mem_filter (mem_of_mem_filter hg))) hg
  · exact h g hg

lemma sessionIn_of_bindsLive (h : BindsLive es) :
    ∀ g ∈ (Ledger.of es).standing, SessionIn (Ledger.of es).sessions g.session := by
  induction es using List.reverseRecOn with
  | nil => exact fun _ hg => nomatch hg
  | append_singleton es ev ih =>
    rw [Ledger.of_append]
    refine Ledger.sessionIn_record (ih fun pre ev' post heq => ?_) (h es ev [] rfl)
    exact h pre ev' (post ++ [ev]) (by simp [heq])

/-- The grant book keeps the ledger. After every sequence of calls, with a clock that does not go
back: tokens are not 0 and come once; the effective capabilities of a process are its own and those
of the grants of the ledger that cover it, which are bound to sessions of the book if they were when
they were issued; nobody is given `CAP_ISSUER`; and a grant that has been struck off the ledger, or
whose time has come, covers nothing again, whoever uses its row. -/
theorem grant_book_keeps_ledger {es : List BookEvent} {b : GrantBook} {t t₀ : Nat} (h : Run BookStep (.new, t₀) es (b, t)) :
    (((issued es).map (·.token)).Nodup ∧ ∀ g ∈ issued es, g.token ≠ 0) ∧
    (∀ pid base session now i, t ≤ now → ((b.effective pid base session now).getLsbD i = true ↔ base.getLsbD i = true ∨
        ∃ g ∈ (Ledger.of es).standing, g.covers pid session now = true ∧ g.caps.getLsbD i = true)) ∧
    (BindsLive es → ∀ g ∈ (Ledger.of es).standing, SessionIn b.sessions g.session) ∧
    (∀ pid base session now, b.effective pid base session now &&& capIssuer ≠ 0 → base &&& capIssuer ≠ 0) ∧
    ∀ pre post, es = pre ++ post → ∀ g ∈ issued pre,
      (g ∉ (Ledger.of pre).standing ∨ ∃ ev ∈ pre, ∃ now ∈ ev.time, g.expiresAt ≤ now) →
      ∀ row ∈ b.grants, row.token = g.token → ∀ pid session now, t ≤ now → row.covers pid session now = false := by
  have hk := kept h
  refine ⟨⟨hk.tokens, fun g hg => (hk.token_pos g hg).1⟩, fun pid base session now i ht => ?_,
    fun hbn => hk.agrees.sessions ▸ sessionIn_of_bindsLive hbn,
    fun pid base session now hir => ?_, ?_⟩
  · rw [b.effective_bit]
    refine or_congr Iff.rfl (exists_congr fun g => ?_)
    constructor
    · rintro ⟨hg, hc, hb⟩
      exact ⟨(hk.agrees.covers_iff ht hc).mp hg, hc, hb⟩
    · rintro ⟨hg, hc, hb⟩
      exact ⟨(hk.agrees.covers_iff ht hc).mpr hg, hc, hb⟩
  · rw [and_capIssuer_ne_zero] at hir ⊢
    refine ((b.effective_bit ..).mp hir).resolve_right ?_
    rintro ⟨g, hg, -, hb⟩
    exact and_capIssuer_ne_zero.mpr hb (hk.orderly.scope g hg)
  · rintro pre post rfl g hg hgn row hr htk pid session now ht
    by_contra hc
    have hc : row.covers pid session now = true := by simpa using hc
    have hs := (hk.agrees.covers_iff ht hc).mp hr
    have hl : g ∈ issued (pre ++ post) := by
      rw [issued, filterMap_append]
      exact mem_append_left _ hg
    obtain rfl : row = g := inj_on_of_nodup_map hk.tokens (mem_issued_of_standing hs) hl htk
    rcases hgn with hst | ⟨ev, he, now', hn', hp⟩
    · exact not_standing_append hk.tokens hg hst hs
    · have hlt : now < row.expiresAt := by
        simp only [Grant.covers, Bool.and_eq_true, decide_eq_true_eq] at hc
        exact hc.1.2
      have := hk.times ev (mem_append_left _ he) now' hn'
      omega

/-- A login token is issued, shows, and is used up. -/
theorem grant_book_keeps_ledger_login : ∃ es b t, Run BookStep (.new, 0) es (b, t) ∧
    (issued es).length = 2 ∧ b.effective 7 0 1 t = 4 ∧
    ∀ pid base session now, b.effective pid base session now &&& capIssuer ≠ 0 → base &&& capIssuer ≠ 0 := by
  have hl : BookStep (.new, 0) (.issue 7 capSession 0 0 3 (.ok 1)) _ := .issue rfl (by decide)
  have hb := (Run.single hl).snoc (e := .beginSession 7 1 4 (.ok (1, none)))
    (.beginSession rfl (by decide))
  have hg := hb.snoc (e := .issue 7 4 0 1 5 (.ok 2)) (.issue rfl (by decide))
  exact ⟨_, _, _, hg, rfl, by decide, (grant_book_keeps_ledger hg).2.2.2.1⟩

end ZeroOS.Security
