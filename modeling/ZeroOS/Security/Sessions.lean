import ZeroOS.Security.GrantBook

/-!
# Sessions and their members

Which sessions there are is in the grant book; which session a process belongs to is in its record.
The book and the process table have a lock each, and no operation holds both: `begin_session` writes
the book, then clears the members of the session it has ended, then enters the new one; the hook of
a dead process writes the book and then clears; `fork`, `create_thread`, the two spawn calls and
`issue_grant` read a session from a record and use it later. `SessionOp` is where an operation of a
process stands between two of its locked sections, and an event is one such section.

A session may end between the moment its id is read and the moment it is used. If its members have
been cleared by then, nobody clears the new member or the new grant. `unexpired` is what excludes
this.
-/

namespace ZeroOS.Security

open Function List Option Transition

/-- An operation between two of its locked sections. -/
inductive SessionOp
  | /-- `fork` and `create_thread` have copied the parent's record. -/
    copying (session : Nat)
  | /-- `SpawnService` and `SpawnImage` have made a record without a session. -/
    spawned (child : Nat)
  | /-- They have read the caller's session. -/
    assigning (child session : Nat)
  | /-- `issue_grant` has read the target's session. -/
    issuing (target session : Nat)
  | /-- A session has ended; `begin_session` enters another one afterwards. -/
    clearing (dead keep : Nat) (next : Option Nat)
  | /-- `begin_session` is about to write the caller's record. -/
    entering (session : Nat)
  | /-- The record is gone and the hook is due. -/
    leaving (pid : Nat)
  deriving DecidableEq

/-- The book, the session fields of the records, and what every process is doing. -/
structure SessionState where
  book : GrantBook
  session : Nat → Option Nat
  op : Nat → Option SessionOp
  nextPid : Nat
  /-- The session ids given out so far. -/
  opened : List Nat

/-- A locked section of the process `e`. -/
inductive SessionEvent
  | root
  | copyRecord (e : Nat)
  | insertRecord (e : Nat)
  | /-- The child is not made after all: no memory, no slot. -/
    abandon (e : Nat)
  | spawn (e : Nat)
  | readSession (e : Nat)
  | assignSession (e : Nat)
  | readTarget (e target : Nat)
  | issue (e : Nat) (caps : BitVec 32) (ttl now : Nat)
  | revoke (token : Nat)
  | beginSession (e token now : Nat)
  | clearMembers (e : Nat)
  | setSession (e : Nat)
  | /-- The record of `pid` is taken out, by `e`, which runs the hook. -/
    remove (e pid : Nat)
  | /-- A record is taken out where no hook runs. -/
    drop (pid : Nat)
  | processGone (e : Nat)
  deriving DecidableEq

namespace SessionState

def init : SessionState := ⟨.new, fun _ => none, fun _ => none, 1, []⟩

variable (s : SessionState)

/-- `clear_session_members`. -/
def clear (sid keep : Nat) : SessionState :=
  { s with session := fun p => if sid ≠ 0 ∧ s.session p = some sid ∧ p ≠ keep then some 0 else s.session p }

/-- `set_session`: a process that is not there is passed over. -/
def enter (pid sid : Nat) : SessionState :=
  if (s.session pid).isSome then { s with session := update s.session pid (some sid) } else s

def create (sid : Nat) : SessionState :=
  { s with session := update s.session s.nextPid (some sid), nextPid := s.nextPid + 1 }

/-- The process goes on with this, or is done. -/
def goesOn (e : Nat) (op : Option SessionOp) : SessionState := { s with op := update s.op e op }

@[simp] lemma goesOn_op_self (e : Nat) (op : Option SessionOp) : (s.goesOn e op).op e = op := update_self ..

lemma goesOn_op_of_ne (h : e' ≠ e) (op : Option SessionOp) : (s.goesOn e op).op e' = s.op e' := update_of_ne h ..

lemma goesOn_op_cases {e e' : Nat} {o : Option SessionOp} {op : SessionOp} (h : (s.goesOn e o).op e' = some op) :
    (e' = e ∧ o = some op) ∨ (e' ≠ e ∧ s.op e' = some op) := by
  by_cases heq : e' = e
  · subst heq
    exact .inl ⟨rfl, by simpa using h⟩
  · exact .inr ⟨heq, (s.goesOn_op_of_ne heq o).symm.trans h⟩

/-- Is the process there, and in no operation? -/
def free (e : Nat) : Bool := (s.session e).isSome && (s.op e).isNone

def next : SessionEvent → Option SessionState
  | .root => some (s.create 0)
  | .copyRecord e => if s.free e then (s.session e).map fun sid => s.goesOn e (some (.copying sid)) else none
  | .insertRecord e =>
    match s.op e with
    | some (.copying sid) => some ((s.create sid).goesOn e none)
    | _ => none
  | .abandon e =>
    match s.op e with
    | some (.copying _) => some (s.goesOn e none)
    | _ => none
  | .spawn e => if s.free e then some ((s.create 0).goesOn e (some (.spawned s.nextPid))) else none
  | .readSession e =>
    match s.op e, s.session e with
    | some (.spawned child), some sid =>
      -- a caller without a session leaves the child without one
      some (s.goesOn e (if sid = 0 then none else some (.assigning child sid)))
    | _, _ => none
  | .assignSession e =>
    match s.op e with
    | some (.assigning child sid) => some ((s.enter child sid).goesOn e none)
    | _ => none
  | .readTarget e target =>
    if s.free e then some (s.goesOn e (some (.issuing target ((s.session target).getD 0))))
    else none
  | .issue e caps ttl now =>
    match s.op e with
    | some (.issuing target sid) =>
      (s.book.issue target caps ttl sid now).map fun out => { s with book := out.2 }.goesOn e none
    | _ => none
  | .revoke token => some { s with book := (s.book.revoke token).2 }
  | .beginSession e token now =>
    if s.free e then
      match s.book.beginSession e token now with
      | some (.ok (sid, dead), book) =>
        some ({ s with book := book, opened := s.opened ++ [sid] }.goesOn e
          (some (dead.elim (.entering sid) (.clearing · e (some sid)))))
      | some (.error _, book) => some { s with book := book }
      | none => none
    else none
  | .clearMembers e =>
    match s.op e with
    | some (.clearing dead keep next) => some ((s.clear dead keep).goesOn e (next.map .entering))
    | _ => none
  | .setSession e =>
    match s.op e with
    | some (.entering sid) => some ((s.enter e sid).goesOn e none)
    | _ => none
  | .remove e pid =>
    if s.free e && s.free pid then
      some ({ s with session := update s.session pid none }.goesOn e (some (.leaving pid)))
    else none
  | .drop pid => if s.free pid then some { s with session := update s.session pid none } else none
  | .processGone e =>
    match s.op e with
    | some (.leaving pid) =>
      some ({ s with book := (s.book.onProcessGone pid).2 }.goesOn e
        ((s.book.onProcessGone pid).1.map (.clearing · pid none)))
    | _ => none

def Step (e : SessionEvent) (t : SessionState) : Prop := s.next e = some t

end SessionState

instance (sessions : List SessionRecord) (sid : Nat) : Decidable (SessionIn sessions sid) := inferInstanceAs (Decidable (_ ∨ _))

namespace SessionOp

/-- Will the record of this process be cleared of this session? -/
def clears (sid pid : Nat) : SessionOp → Bool
  | .clearing dead keep _ => dead == sid && keep != pid
  | _ => false

def enters : SessionOp → Option Nat
  | .clearing _ _ next => next
  | .entering sid => some sid
  | _ => none

/-- An operation that holds nothing but what it has read. -/
def reads : SessionOp → Bool
  | .copying _ | .spawned _ | .assigning _ _ | .issuing _ _ => true
  | _ => false

lemma enters_of_reads {op : SessionOp} (h : op.reads = true) : op.enters = none := by
  cases op <;> first | rfl | cases h

lemma clears_of_reads {op : SessionOp} (h : op.reads = true) (sid pid : Nat) :
    op.clears sid pid = false := by
  cases op <;> first | rfl | cases h

end SessionOp

namespace SessionState

variable (s : SessionState)

/-- Somebody is about to clear the record of this session. -/
def Cleared (sid pid : Nat) : Prop := ∃ e < s.nextPid, ((s.op e).any (·.clears sid pid)) = true

instance (sid pid : Nat) : Decidable (s.Cleared sid pid) := inferInstanceAs (Decidable (∃ e < s.nextPid, _))

/-- The session that was read has not ended since, or its members have still to be cleared. -/
def unexpired : SessionEvent → Bool
  | .insertRecord e =>
    match s.op e with
    | some (.copying sid) => decide (SessionIn s.book.sessions sid ∨ s.Cleared sid s.nextPid)
    | _ => true
  | .assignSession e =>
    match s.op e with
    | some (.assigning child sid) => decide (SessionIn s.book.sessions sid ∨ s.Cleared sid child)
    | _ => true
  | .issue e _ _ _ =>
    match s.op e with
    | some (.issuing _ sid) => decide (SessionIn s.book.sessions sid)
    | _ => true
  | _ => true

/-- No operation is between two of its sections. -/
def Idle : Prop := ∀ e < s.nextPid, s.op e = none

instance : Decidable s.Idle := inferInstanceAs (Decidable (∀ e < s.nextPid, _))

/-- The runs on which no session expires between its being read and its being used. -/
abbrev TimelyRun : List SessionEvent → SessionState → Prop := Run (Guarded (fun s e => s.unexpired e = true) Step) .init

end SessionState

/-! ## The book, one section at a time -/

namespace GrantBook

variable {b b' : GrantBook}

lemma Orderly.sessionOf_leader (h : b.Orderly) (hr : r ∈ b.sessions) :
    b.sessionOf r.leader = some r.id := by
  unfold sessionOf
  match hf : b.sessions.find? (·.leader == r.leader) with
  | none =>
    have := find?_eq_none.mp hf r hr
    simp at this
  | some r' =>
    have hl : r'.leader = r.leader := by simpa using find?_some hf
    rw [hf, map_some, (h.same_session hr (mem_of_find?_eq_some hf)).mpr hl]

lemma Orderly.sessionIn_filter (h : b.Orderly) (leader : Nat) (hs : SessionIn b.sessions sid) :
    SessionIn (b.sessions.filter (!·.leader == leader)) sid ∨ b.sessionOf leader = some sid := by
  rcases hs with rfl | ⟨r, hr, rfl⟩
  · exact .inl (.inl rfl)
  by_cases hl : r.leader = leader
  · exact .inr (hl ▸ h.sessionOf_leader hr)
  · exact .inl (.inr ⟨r, mem_filter.mpr ⟨hr, by simpa using hl⟩, rfl⟩)

lemma Orderly.sessionIn_kept (h : b.Orderly) {g : Grant} (hg : SessionIn b.sessions g.session)
    (hk : (!b.sessions.any fun r => r.leader == leader && g.session == r.id) = true) :
    SessionIn (b.sessions.filter (!·.leader == leader)) g.session := by
  refine (h.sessionIn_filter leader hg).resolve_right fun hd => ?_
  simp only [Bool.not_eq_true', List.any_eq_false, Bool.and_eq_true, beq_iff_eq, not_and] at hk
  obtain ⟨r, hr, hid⟩ := Option.map_eq_some_iff.mp hd
  exact hk r (List.mem_of_find?_eq_some hr) (by simpa using List.find?_some hr) hid.symm

lemma beginSession_ok (h : b.Orderly) (hg : ∀ g ∈ b.grants, SessionIn b.sessions g.session)
    (hc : b.beginSession e token now = some (.ok (sid, dead), b')) :
    b'.Orderly ∧ (∀ g ∈ b'.grants, SessionIn b'.sessions g.session) ∧
      sid = b.nextSession ∧ b'.nextSession = b.nextSession + 1 ∧ dead = b.sessionOf e ∧
      b'.sessions = b.sessions.filter (!·.leader == e) ++ [⟨sid, e⟩] := by
  have ho : b'.Orderly := ((BookStep.beginSession (t := now) hc (Nat.le_refl _)).agrees h
      (l := ⟨b.grants, b.sessions⟩) ⟨rfl, fun _ _ => rfl⟩).1
  obtain ⟨⟨_, ha⟩, -⟩ | ⟨purged, hp, hr, rfl⟩ := beginSession_cases hc
  · cases ha
  cases hr
  rw [h.eraseP_token] at hp
  have heq := hp.trans ((h.filter_grants (·.token ≠ token)).end_session e)
  refine ⟨ho, fun g hgr => ?_, rfl, rfl, rfl, by rw [heq]⟩
  have hm : g ∈ purged.grants := hgr
  rw [heq] at hm
  obtain ⟨hm, hk⟩ := mem_filter.mp hm
  have hl := h.sessionIn_kept (hg g (mem_of_mem_filter hm)) hk
  refine hl.imp_right ?_
  rintro ⟨r, hr, hid⟩
  exact ⟨r, mem_append_left _ (heq ▸ hr), hid⟩

lemma onProcessGone_ok (pid : Nat) (h : b.Orderly) (hg : ∀ g ∈ b.grants, SessionIn b.sessions g.session) :
    (b.onProcessGone pid).2.Orderly ∧
      (∀ g ∈ (b.onProcessGone pid).2.grants, SessionIn (b.onProcessGone pid).2.sessions g.session) ∧
      (b.onProcessGone pid).2.nextSession = b.nextSession ∧
      (b.onProcessGone pid).1 = b.sessionOf pid ∧
      (b.onProcessGone pid).2.sessions = b.sessions.filter (!·.leader == pid) := by
  have ho : (b.onProcessGone pid).2.Orderly := ((BookStep.processGone (b := b) (t := 0)).agrees h (l := ⟨b.grants, b.sessions⟩)
      ⟨rfl, fun _ _ => rfl⟩).1
  have heq : (b.onProcessGone pid).2 = _ := (h.filter_grants (·.pid ≠ pid)).end_session pid
  refine ⟨ho, fun g hr => ?_, by rw [heq], rfl, by rw [heq]⟩
  rw [heq] at hr ⊢
  obtain ⟨hm, hk⟩ := mem_filter.mp hr
  exact h.sessionIn_kept (hg g (mem_of_mem_filter hm)) hk

end GrantBook

/-! ## Every session is accounted for -/

/-- What holds in every state: the session of a record is there, or the record is about to be
cleared of it, or about to be given another one. -/
structure Tracked (s : SessionState) : Prop where
  orderly : s.book.Orderly
  grants : ∀ g ∈ s.book.grants, SessionIn s.book.sessions g.session
  members : ∀ p sid, s.session p = some sid → SessionIn s.book.sessions sid ∨ s.Cleared sid p ∨
    ∃ op, s.op p = some op ∧ op.enters ≠ none
  entering : ∀ e op n, s.op e = some op → op.enters = some n → (s.session e).isSome ∧ ⟨n, e⟩ ∈ s.book.sessions
  keeps : ∀ e dead keep n, s.op e = some (.clearing dead keep n) → keep < s.nextPid
  leaving : ∀ e p, s.op e = some (.leaving p) → s.session p = none ∧ p < s.nextPid
  pids : ∀ p, (s.session p).isSome → p < s.nextPid
  execs : ∀ e, (s.op e).isSome → e < s.nextPid
  opened : s.opened.Nodup
  opened_lt : ∀ sid ∈ s.opened, sid < s.book.nextSession

namespace Tracked

variable {s : SessionState} {e p sid : Nat}

lemma init : Tracked .init where
  orderly := .new
  grants _ hg := nomatch hg
  members _ _ hp := nomatch hp
  entering _ _ _ hop := nomatch hop
  keeps _ _ _ _ hop := nomatch hop
  leaving _ _ hop := nomatch hop
  pids _ hp := nomatch hp
  execs _ hop := nomatch hop
  opened := .nil
  opened_lt _ hs := nomatch hs

variable {o : Option SessionOp}

lemma cleared_goesOn (h : s.Cleared sid p) (ho : ∀ op, s.op e = some op → op.clears sid p = false) :
    (s.goesOn e o).Cleared sid p := by
  obtain ⟨e', he', hc⟩ := h
  have hne : e' ≠ e := by
    rintro rfl
    obtain ⟨op, hop, hc⟩ := (Option.any_eq_true ..).mp hc
    rw [ho op hop] at hc
    cases hc
  exact ⟨e', he', (s.goesOn_op_of_ne hne o).symm ▸ hc⟩

lemma due_goesOn (h : s.Cleared sid p ∨ ∃ op, s.op p = some op ∧ op.enters ≠ none)
    (ho : ∀ op, s.op e = some op → op.clears sid p = false ∧ op.enters = none) :
    (s.goesOn e o).Cleared sid p ∨ ∃ op, (s.goesOn e o).op p = some op ∧ op.enters ≠ none := by
  refine h.imp (fun hc => cleared_goesOn hc fun op hop => (ho op hop).1) ?_
  rintro ⟨op, hop, he⟩
  have hne : p ≠ e := by
    rintro rfl
    exact he (ho op hop).2
  exact ⟨op, (s.goesOn_op_of_ne hne o).trans hop, he⟩

/-- What an operation that is under way needs. -/
structure OpSound (s : SessionState) (e : Nat) (op : SessionOp) : Prop where
  entering : ∀ n, op.enters = some n → (s.session e).isSome ∧ ⟨n, e⟩ ∈ s.book.sessions
  keeps : ∀ dead keep n, op = .clearing dead keep n → keep < s.nextPid
  leaving : ∀ p, op = .leaving p → s.session p = none ∧ p < s.nextPid

lemma OpSound.of_reads (h : op.reads = true) : OpSound s e op where
  entering n he := by
    rw [SessionOp.enters_of_reads h] at he
    cases he
  keeps dead keep n heq := by
    subst heq
    cases h
  leaving p heq := by
    subst heq
    cases h

section

variable (h : Tracked s)
include h

lemma section_rule (he : e < s.nextPid) (ho : s'.op = s.op) (hd : s'.nextPid = s.nextPid)
    (hs : ∀ p, (s'.session p).isSome = (s.session p).isSome)
    (hb : ∀ e' n, e' ≠ e → (s.session e').isSome → ⟨n, e'⟩ ∈ s.book.sessions → ⟨n, e'⟩ ∈ s'.book.sessions)
    (hn : ∀ op, o = some op → OpSound s' e op) (hor : s'.book.Orderly)
    (hr : ∀ g ∈ s'.book.grants, SessionIn s'.book.sessions g.session)
    (hm : ∀ p sid, s'.session p = some sid → SessionIn s'.book.sessions sid ∨ (s'.goesOn e o).Cleared sid p ∨ ∃ op, (s'.goesOn e o).op p = some op ∧ op.enters ≠ none)
    (hon : s'.opened.Nodup) (hlt : ∀ sid ∈ s'.opened, sid < s'.book.nextSession) :
    Tracked (s'.goesOn e o) where
  orderly := hor
  grants := hr
  members := hm
  entering e' op n hop ht := by
    rcases s'.goesOn_op_cases hop with ⟨rfl, rfl⟩ | ⟨hne, hop⟩
    · exact (hn op rfl).entering n ht
    · obtain ⟨hse, hme⟩ := h.entering e' op n (ho ▸ hop) ht
      exact ⟨(hs e').trans hse, hb e' n hne hse hme⟩
  keeps e' dead keep n hop := by
    rcases s'.goesOn_op_cases hop with ⟨-, rfl⟩ | ⟨-, hop⟩
    · exact (hn _ rfl).keeps dead keep n rfl
    · exact hd ▸ h.keeps e' dead keep n (ho ▸ hop)
  leaving e' p hop := by
    rcases s'.goesOn_op_cases hop with ⟨-, rfl⟩ | ⟨-, hop⟩
    · exact (hn _ rfl).leaving p rfl
    · obtain ⟨hg, hlt⟩ := h.leaving e' p (ho ▸ hop)
      have hno := hs p
      rw [hg] at hno
      exact ⟨isNone_iff_eq_none.mp (isSome_eq_false_iff.mp hno), hd ▸ hlt⟩
  pids p hp := hd ▸ h.pids p ((hs p).symm.trans hp)
  execs e' hop := by
    obtain ⟨op, hop⟩ := isSome_iff_exists.mp hop
    rcases s'.goesOn_op_cases hop with ⟨rfl, -⟩ | ⟨-, hop⟩
    · exact hd ▸ he
    · exact hd ▸ h.execs e' (by simp [← ho, hop])
  opened := hon
  opened_lt := hlt

lemma goesOn (he : e < s.nextPid) (ho : ∀ op, s.op e = some op → op.reads = true)
    (hn : ∀ op, o = some op → op.reads = true) : Tracked (s.goesOn e o) := by
  refine h.section_rule he rfl rfl (fun _ => rfl) (fun _ _ _ _ hm => hm)
    (fun op hop => .of_reads (hn op hop)) h.orderly h.grants (fun p sid hp => ?_) h.opened h.opened_lt
  refine (h.members p sid hp).imp_right fun hd => due_goesOn hd fun op hop => ?_
  exact ⟨SessionOp.clears_of_reads (ho op hop) sid p, SessionOp.enters_of_reads (ho op hop)⟩

lemma create (hd : SessionIn s.book.sessions sid ∨ s.Cleared sid s.nextPid) :
    Tracked (s.create sid) where
  orderly := h.orderly
  grants := h.grants
  members p v hp := by
    have hm {v p} (hc : s.Cleared v p) : (s.create sid).Cleared v p := by
      obtain ⟨e, he, hl⟩ := hc
      exact ⟨e, Nat.lt_succ_of_lt he, hl⟩
    by_cases heq : p = s.nextPid
    · subst heq
      obtain rfl : sid = v := by simpa [SessionState.create] using hp
      exact hd.imp_right fun hc => .inl (hm hc)
    · have := h.members p v (by simpa [SessionState.create, heq] using hp)
      exact this.imp_right (Or.imp_left hm)
  entering e op n hop ht := by
    obtain ⟨hs, hme⟩ := h.entering e op n hop ht
    have hne : e ≠ s.nextPid := Nat.ne_of_lt (h.pids e hs)
    exact ⟨by simpa [SessionState.create, hne] using hs, hme⟩
  keeps e dead keep n hop := Nat.lt_succ_of_lt (h.keeps e dead keep n hop)
  leaving e p hop := by
    obtain ⟨hn, hlt⟩ := h.leaving e p hop
    exact ⟨by simpa [SessionState.create, Nat.ne_of_lt hlt] using hn, Nat.lt_succ_of_lt hlt⟩
  pids p hp := by
    by_cases heq : p = s.nextPid
    · exact heq ▸ Nat.lt_succ_self _
    · exact Nat.lt_succ_of_lt (h.pids p (by simpa [SessionState.create, heq] using hp))
  execs e hop := Nat.lt_succ_of_lt (h.execs e hop)
  opened := h.opened
  opened_lt := h.opened_lt

lemma enter (hd : SessionIn s.book.sessions sid ∨ s.Cleared sid p) :
    Tracked (s.enter p sid) := by
  unfold SessionState.enter
  split
  next hs =>
    refine { h with members := ?_, entering := ?_, leaving := ?_, pids := ?_ }
    · intro q v hq
      by_cases heq : q = p
      · subst heq
        obtain rfl : sid = v := by simpa using hq
        exact hd.imp_right .inl
      · exact h.members q v (by simpa [heq] using hq)
    · intro e op n hop he
      obtain ⟨hse, hm⟩ := h.entering e op n hop he
      refine ⟨?_, hm⟩
      by_cases heq : e = p
      · simp [heq]
      · simpa [heq] using hse
    · intro e q hop
      obtain ⟨hn, hlt⟩ := h.leaving e q hop
      have hne : q ≠ p := by
        rintro rfl
        rw [hn] at hs
        cases hs
      exact ⟨by simpa [hne] using hn, hlt⟩
    · intro q hq
      by_cases heq : q = p
      · exact heq ▸ h.pids p hs
      · exact h.pids q (by simpa [heq] using hq)
  · exact h

lemma withBook (ho : b.Orderly) (hs : b.sessions = s.book.sessions)
    (hn : b.nextSession = s.book.nextSession) (hr : ∀ g ∈ b.grants, SessionIn s.book.sessions g.session) :
    Tracked { s with book := b } where
  orderly := ho
  grants g hg := hs ▸ hr g hg
  members p sid hp := by
    rw [hs]
    exact h.members p sid hp
  entering e op n hop he := by
    rw [hs]
    exact h.entering e op n hop he
  keeps := h.keeps
  leaving := h.leaving
  pids := h.pids
  execs := h.execs
  opened := h.opened
  opened_lt sid hd := hn ▸ h.opened_lt sid hd

lemma beginSession {token now : Nat} {dead : Option Nat} {b : GrantBook} (hf : s.free e = true)
    (hc : s.book.beginSession e token now = some (.ok (sid, dead), b)) :
    Tracked ({ s with book := b, opened := s.opened ++ [sid] }.goesOn e
      (some (dead.elim (.entering sid) (.clearing · e (some sid))))) := by
  obtain ⟨hsm, hn⟩ := (Bool.and_eq_true ..).mp hf
  have hn : s.op e = none := isNone_iff_eq_none.mp hn
  have he : e < s.nextPid := h.pids e hsm
  obtain ⟨ho, hg, rfl, hx, rfl, hs⟩ := GrantBook.beginSession_ok h.orderly h.grants hc
  refine h.section_rule he rfl rfl (fun _ => rfl) (fun e' n hne _ hm => ?_) (fun op hop => ?_) ho
    hg (fun p v hp => ?_) (nodup_append_new h.opened fun hm => ?_) fun v hv => ?_
  · rw [hs]
    exact mem_append_left _ (mem_filter.mpr ⟨hm, by simpa using hne⟩)
  · have hm : ⟨s.book.nextSession, e⟩ ∈ b.sessions := by simp [hs]
    cases hop
    cases s.book.sessionOf e with
    | none => exact ⟨fun n heq => by cases heq; exact ⟨hsm, hm⟩, nofun, nofun⟩
    | some dead => exact ⟨fun n heq => by cases heq; exact ⟨hsm, hm⟩, fun _ _ _ heq => by cases heq; exact he, nofun⟩
  · rcases h.members p v hp with hl | hu
    · rcases h.orderly.sessionIn_filter e hl with hl | hd
      · refine .inl (hl.imp_right ?_)
        rintro ⟨r, hr, hid⟩
        exact ⟨r, hs ▸ mem_append_left _ hr, hid⟩
      · -- the session that ends: the leader enters the new one, the others are cleared
        rw [hd]
        by_cases hp : p = e
        · exact .inr (.inr ⟨_, by rw [hp]; exact SessionState.goesOn_op_self .., by simp [SessionOp.enters]⟩)
        · exact .inr (.inl ⟨e, he, by simp [SessionOp.clears, Ne.symm hp]⟩)
    · exact .inr (due_goesOn (s := { s with book := b, opened := _ }) hu
        fun op hop => nomatch hn.symm.trans hop)
  · exact Nat.lt_irrefl _ (h.opened_lt _ hm)
  · show v < b.nextSession
    rw [hx]
    rcases mem_append.mp hv with hv | hv
    · exact Nat.lt_succ_of_lt (h.opened_lt v hv)
    · exact (mem_singleton.mp hv) ▸ Nat.lt_succ_self _

lemma processGone (hop : s.op e = some (.leaving p)) :
    Tracked ({ s with book := (s.book.onProcessGone p).2 }.goesOn e
      ((s.book.onProcessGone p).1.map (.clearing · p none))) := by
  have he : e < s.nextPid := h.execs e (by simp [hop])
  obtain ⟨hg, hp⟩ := h.leaving e p hop
  obtain ⟨ho, hr, hn, hd, hs⟩ := GrantBook.onProcessGone_ok p h.orderly h.grants
  have hie : ∀ sid q op, s.op e = some op → op.clears sid q = false ∧ op.enters = none := by
    intro sid q op hop'
    obtain rfl := mem_unique hop hop'
    exact ⟨rfl, rfl⟩
  refine h.section_rule he rfl rfl (fun _ => rfl) (fun e' n _ hsm hm => ?_) (fun op hop' => ?_) ho
    hr (fun q v hq => ?_) h.opened fun v hv => hn ▸ h.opened_lt v hv
  · have hne : e' ≠ p := by
      rintro rfl
      rw [hg] at hsm
      cases hsm
    exact hs ▸ mem_filter.mpr ⟨hm, by simpa using hne⟩
  · obtain ⟨dead, -, rfl⟩ := map_eq_some_iff.mp hop'
    exact ⟨nofun, fun _ _ _ heq => by cases heq; exact hp, nofun⟩
  · rcases h.members q v hq with hl | hu
    · rcases h.orderly.sessionIn_filter p hl with hl | hed
      · exact .inl (hs ▸ hl)
      · have hne : p ≠ q := by
          rintro rfl
          cases hg.symm.trans hq
        exact .inr (.inl ⟨e, he, by simp [hd, hed, SessionOp.clears, hne]⟩)
    · exact .inr (due_goesOn (s := { s with book := _ }) hu (hie v q))

lemma clear (hop : s.op e = some (.clearing dead keep n)) :
    Tracked ((s.clear dead keep).goesOn e (n.map .entering)) := by
  have he : e < s.nextPid := h.execs e (by simp [hop])
  have hs (p : Nat) : ((s.clear dead keep).session p).isSome = (s.session p).isSome := by
    simp only [SessionState.clear]
    split
    next hp => simp [hp.2.1]
    · rfl
  refine h.section_rule he rfl rfl hs (fun _ _ _ _ hm => hm) (fun op hop' => ?_) h.orderly h.grants
    (fun p v hp => ?_) h.opened h.opened_lt
  · obtain ⟨sid, rfl, rfl⟩ := map_eq_some_iff.mp hop'
    refine ⟨fun m ht => ?_, nofun, nofun⟩
    cases ht
    exact ⟨(hs e).trans (h.entering e _ _ hop rfl).1, (h.entering e _ _ hop rfl).2⟩
  · simp only [SessionState.clear] at hp
    split at hp
    · cases hp
      exact .inl (.inl rfl)
    next hk =>
      rcases h.members p v hp with hl | hr | ⟨op, hop', ht⟩
      · exact .inl hl
      · by_cases hv : v = 0
        · exact .inl (.inl hv)
        refine .inr (.inl (cleared_goesOn (s := s.clear dead keep) hr fun op hop' => ?_))
        obtain rfl := mem_unique hop hop'
        -- what this operation clears is cleared
        by_contra hc
        simp only [SessionOp.clears, Bool.not_eq_false, Bool.and_eq_true, beq_iff_eq, bne_iff_ne] at hc
        exact hk ⟨hc.1 ▸ hv, hc.1 ▸ hp, Ne.symm hc.2⟩
      · refine .inr (.inr ?_)
        by_cases heq : p = e
        · subst heq
          obtain rfl := mem_unique hop hop'
          obtain ⟨m, rfl⟩ := ne_none_iff_exists'.mp ht
          exact ⟨.entering m, SessionState.goesOn_op_self .., by simp [SessionOp.enters]⟩
        · exact ⟨op, (SessionState.goesOn_op_of_ne _ heq _).trans hop', ht⟩

lemma entered (hop : s.op e = some (.entering sid)) :
    Tracked ((s.enter e sid).goesOn e none) := by
  obtain ⟨hs, hm⟩ := h.entering e _ sid hop rfl
  have hl : SessionIn s.book.sessions sid := .inr ⟨_, hm, rfl⟩
  rw [SessionState.enter, if_pos hs]
  refine h.section_rule (h.execs e (by simp [hop])) rfl rfl (fun p => ?_) (fun _ _ _ _ hm => hm) nofun
    h.orderly h.grants (fun p v hp => ?_) h.opened h.opened_lt
  · by_cases heq : p = e
    · simp [heq, hs]
    · simp [heq]
  · by_cases heq : p = e
    · subst heq
      obtain rfl : sid = v := by simpa using hp
      exact .inl hl
    · refine (h.members p v (by simpa [heq] using hp)).imp_right (Or.imp (fun hc => ?_) ?_)
      · refine cleared_goesOn (s := { s with session := _ }) hc fun op hop' => ?_
        obtain rfl := mem_unique hop hop'
        rfl
      · rintro ⟨op, hop', he⟩
        exact ⟨op, (SessionState.goesOn_op_of_ne _ heq _).trans hop', he⟩

lemma remove (hf : s.free p = true) :
    Tracked { s with session := update s.session p none } := by
  have hn : s.op p = none := isNone_iff_eq_none.mp ((Bool.and_eq_true ..).mp hf).2
  refine { h with
    members := fun q v hq => ?_
    entering := fun e op m hop he => ?_
    leaving := fun e q hop => ?_
    pids := fun q hq => ?_ }
  · by_cases heq : q = p
    · simp [heq] at hq
    · exact h.members q v (by simpa [heq] using hq)
  · have hne : e ≠ p := by
      rintro rfl
      cases hn.symm.trans hop
    obtain ⟨hs, hm⟩ := h.entering e op m hop he
    exact ⟨by simpa [hne] using hs, hm⟩
  · obtain ⟨hg, hlt⟩ := h.leaving e q hop
    refine ⟨?_, hlt⟩
    by_cases heq : q = p
    · simp [heq]
    · simpa [heq] using hg
  · by_cases heq : q = p
    · simp [heq] at hq
    · exact h.pids q (by simpa [heq] using hq)

lemma leave (hop : s.op e = none) (he : e < s.nextPid) (hp : p < s.nextPid) (hg : s.session p = none) :
    Tracked (s.goesOn e (some (.leaving p))) := by
  refine h.section_rule he rfl rfl (fun _ => rfl) (fun _ _ _ _ hm => hm) (fun op hn => ?_) h.orderly
    h.grants (fun q v hq => ?_) h.opened h.opened_lt
  · cases hn
    exact ⟨nofun, nofun, fun q heq => by cases heq; exact ⟨hg, hp⟩⟩
  · exact (h.members q v hq).imp_right fun hd => due_goesOn hd fun op hop' => nomatch hop.symm.trans hop'

lemma step {ev : SessionEvent} {t : SessionState} (ho : s.unexpired ev = true) (hs : s.Step ev t) :
    Tracked t := by
  have hfr {e : Nat} (hf : s.free e = true) :
      e < s.nextPid ∧ ∀ op, s.op e = some op → op.reads = true := by
    obtain ⟨hm, hn⟩ := (Bool.and_eq_true ..).mp hf
    exact ⟨h.pids e hm, fun op hop => by rw [hop] at hn; cases hn⟩
  have hb {e : Nat} {op : SessionOp} (hop : s.op e = some op) : e < s.nextPid := h.execs e (by simp [hop])
  have hd {e : Nat} {op : SessionOp} (hop : s.op e = some op) (hr : op.reads = true) :
      ∀ op', s.op e = some op' → op'.reads = true := by
    intro op' hop'
    obtain rfl := mem_unique hop hop'
    exact hr
  unfold SessionState.Step SessionState.next at hs
  cases ev with try dsimp only at hs
  | root =>
    cases hs
    exact h.create (.inl (.inl rfl))
  | copyRecord e =>
    split at hs
    next hf =>
      obtain ⟨sid, -, rfl⟩ := map_eq_some_iff.mp hs
      exact h.goesOn (hfr hf).1 (hfr hf).2 (by simp [SessionOp.reads])
    · cases hs
  | insertRecord e =>
    split at hs
    next sid hop =>
      cases hs
      have hsd : SessionIn s.book.sessions sid ∨ s.Cleared sid s.nextPid := by
        simpa [SessionState.unexpired, hop] using ho
      exact (h.create hsd).goesOn (Nat.lt_succ_of_lt (hb hop)) (hd hop rfl) (by simp)
    · cases hs
  | abandon e =>
    split at hs
    next sid hop =>
      cases hs
      exact h.goesOn (hb hop) (hd hop rfl) (by simp)
    · cases hs
  | spawn e =>
    split at hs
    next hf =>
      cases hs
      exact (h.create (.inl (.inl rfl))).goesOn (Nat.lt_succ_of_lt (hfr hf).1) (hfr hf).2
        (by simp [SessionOp.reads])
    · cases hs
  | readSession e =>
    split at hs
    next child sid hop _ =>
      cases hs
      refine h.goesOn (hb hop) (hd hop rfl) fun op hw => ?_
      split at hw
      · cases hw
      · cases hw
        rfl
    · cases hs
  | assignSession e =>
    split at hs
    next child sid hop =>
      cases hs
      have hsd : SessionIn s.book.sessions sid ∨ s.Cleared sid child := by simpa [SessionState.unexpired, hop] using ho
      have ht := h.enter hsd
      unfold SessionState.enter at ht ⊢
      split at ht
      next hm =>
        rw [if_pos hm]
        exact ht.goesOn (hb hop) (hd hop rfl) (by simp)
      next hm =>
        rw [if_neg hm]
        exact h.goesOn (hb hop) (hd hop rfl) (by simp)
    · cases hs
  | readTarget e target =>
    split at hs
    next hf =>
      cases hs
      exact h.goesOn (hfr hf).1 (hfr hf).2 (by simp [SessionOp.reads])
    · cases hs
  | issue e caps ttl now =>
    split at hs
    next target sid hop =>
      obtain ⟨⟨r, b⟩, hc, rfl⟩ := map_eq_some_iff.mp hs
      have hsd : SessionIn s.book.sessions sid := by simpa [SessionState.unexpired, hop] using ho
      have hor : b.Orderly := ((BookStep.issue (t := now) hc (Nat.le_refl _)).agrees h.orderly
          (l := ⟨s.book.grants, s.book.sessions⟩) ⟨rfl, fun _ _ => rfl⟩).1
      have hk : Tracked { s with book := b } := by
        obtain ⟨-, rfl | rfl⟩ | ⟨-, -, rfl⟩ := GrantBook.issue_cases hc
        · exact h
        · exact h.withBook hor rfl rfl fun g hg => h.grants g (mem_of_mem_filter hg)
        · refine h.withBook hor rfl rfl fun g hg => ?_
          rcases mem_append.mp hg with hg | hg
          · exact h.grants g (mem_of_mem_filter hg)
          · obtain rfl := mem_singleton.mp hg
            exact hsd
      exact hk.goesOn (hb hop) (hd hop rfl) (by simp)
    · cases hs
  | revoke token =>
    cases hs
    exact h.withBook (h.orderly.filter_grants _) rfl rfl fun g hg => h.grants g (mem_of_mem_filter hg)
  | beginSession e token now =>
    split at hs
    next hf =>
      split at hs
      next sid dead b hc =>
        cases hs
        exact h.beginSession hf hc
      next err b hc =>
        cases hs
        obtain ⟨-, rfl⟩ | ⟨_, -, ha, -⟩ := GrantBook.beginSession_cases hc
        · exact h
        · cases ha
      · cases hs
    · cases hs
  | clearMembers e =>
    split at hs
    next dead keep n hop =>
      cases hs
      exact h.clear hop
    · cases hs
  | setSession e =>
    split at hs
    next sid hop =>
      cases hs
      exact h.entered hop
    · cases hs
  | remove e pid =>
    split at hs
    next hf =>
      cases hs
      obtain ⟨he, hp⟩ := (Bool.and_eq_true ..).mp hf
      have hn : s.op e = none := isNone_iff_eq_none.mp ((Bool.and_eq_true ..).mp he).2
      exact (h.remove hp).leave hn (hfr he).1 (hfr hp).1 (update_self ..)
    · cases hs
  | drop pid =>
    split at hs
    next hf =>
      cases hs
      exact h.remove hf
    · cases hs
  | processGone e =>
    split at hs
    next pid hop =>
      cases hs
      exact h.processGone hop
    · cases hs

end

end Tracked

def login : List SessionEvent := [.root, .root, .readTarget 2 1, .issue 2 capSession 0 0, .beginSession 1 1 0, .setSession 1]

end ZeroOS.Security
