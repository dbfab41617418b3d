import ZeroOS.Ipc.Channel

/-!
# Who is woken for a message

A receiver that finds nothing registers as a waiter and blocks. A send takes one waiter out of its
slot and wakes it, and the woken process runs `complete_receive` before it returns to the user: it
tries again, and blocks again when somebody else was faster. `retrying` holds the processes that
were woken and have not yet tried.

Two things can go wrong on a retry. It may be refused, since the capabilities have changed in the
meantime; or it may find an envelope that is addressed to the process alone before the one it was
woken for. In both cases the message for everybody stays in the queue, its wake-up is spent, and
nobody hands it on. `passesOn` is what excludes these two.
-/

namespace ZeroOS.Ipc

open Envelope Function Transition List Nat

variable {μ : Type}

/-- The channels, the capabilities of every process, and the processes that have been woken on a
channel and have not tried again. -/
structure IpcState (μ : Type) where
  table : ChannelTable μ
  caps : Nat → BitVec 32
  retrying : List (Nat × Nat)

inductive IpcAction (μ : Type)
  | create (desc : ChannelDesc) (owner : Option Nat)
  | /-- `SendMessage`, and `IpcSendTo` with a target. -/
    send (caller : Nat) (target : Option Nat) (chan : Nat) (msg : μ)
  | /-- `TryReceiveMessage`. -/
    receive (caller chan : Nat)
  | /-- `ReceiveMessage`. -/
    blockingReceive (caller chan : Nat)
  | /-- `complete_receive`, when a woken process is dispatched. -/
    completeReceive (pid chan : Nat)
  | /-- A grant is issued, expires or is revoked. -/
    grants (caps : Nat → BitVec 32)

namespace IpcState

def init [Inhabited μ] (caps : Nat → BitVec 32) : IpcState μ := ⟨.new, caps, []⟩

def next (s : IpcState μ) : IpcAction μ → Option (IpcState μ)
  | .create desc owner => some { s with table := (s.table.create desc owner).2 }
  | .send caller target chan msg =>
    -- `IpcSendTo` looks its target up first, and no process has the pid 0
    if target = some 0 then some s
    else
      match s.table.send s.caps caller target chan msg with
      | (.ok (some pid), t) => some { s with table := t, retrying := (pid, chan) :: s.retrying }
      | (_, t) => some { s with table := t }
  | .receive caller chan => some { s with table := (s.table.receive s.caps caller chan).2 }
  | .blockingReceive caller chan => some { s with table := (s.table.receiveOrRegisterWaiter s.caps caller chan).2 }
  | .completeReceive pid chan =>
    if (pid, chan) ∈ s.retrying then
      some { s with
        table := (s.table.receiveOrRegisterWaiter s.caps pid chan).2
        retrying := s.retrying.erase (pid, chan) }
    else none
  | .grants caps => some { s with caps := caps }

def Step (s : IpcState μ) (a : IpcAction μ) (t : IpcState μ) : Prop := s.next a = some t

def retriers (s : IpcState μ) (chan : Nat) : Nat := s.retrying.countP (·.2 == chan)

end IpcState

def Channel.broadcasts (c : Channel μ) : Nat := c.queue.toList.countP (·.target == 0)

def Channel.hasWaiter (c : Channel μ) : Bool := c.waiters.any (·.isSome)

/-- Is the caller let in, and is the first envelope for it one for everybody? -/
def Channel.takesBroadcast (caps : Nat → BitVec 32) (c : Channel μ) (caller : Nat) : Bool :=
  match c.checkCaller caps caller c.rxGroups with
  | .error _ => false
  | .ok () => (c.queue.toList.find? (Envelope.eligible caller)).any (·.target == 0)

/-- A retry that takes no message for everybody leaves none behind for which nobody is woken. -/
def passesOn (s : IpcState μ) : IpcAction μ → Bool
  | .completeReceive pid chan => (s.table.channel? chan).all fun c =>
    c.takesBroadcast s.caps pid || !c.hasWaiter || decide (c.broadcasts < s.retriers chan)
  | _ => true

/-- The runs on which every woken process passes on what it leaves. -/
abbrev PassingRun (caps : Nat → BitVec 32) [Inhabited μ] : List (IpcAction μ) → IpcState μ → Prop :=
  Run (Guarded (fun s a => passesOn s a = true) IpcState.Step) (.init caps)

/-- A process waits on a channel although there is an envelope that it may receive. -/
def Stranded (s : IpcState μ) (pid chan : Nat) : Prop := ∃ c, s.table.channel? chan = some c ∧ some pid ∈ c.waiters ∧
    c.checkCaller s.caps pid c.rxGroups = .ok () ∧ ∃ env ∈ c.queue.toList, env.eligible pid = true

/-! ## The waiter slots -/

section

variable {ws ws' : List (Option Nat)} {p q : Nat} {target : Option Nat}

/-- Everybody waits at most once. -/
def Distinct (ws : List (Option Nat)) : Prop := ∀ p, ws.count (some p) ≤ 1

lemma mem_of_mem_set_none (h : some p ∈ ws.set i none) : some p ∈ ws := by
  rcases mem_or_eq_of_mem_set h with h | h
  · exact h
  · cases h

lemma Distinct.set_none (h : Distinct ws) (i : Nat) : Distinct (ws.set i none) := by
  intro p
  by_cases hi : i < ws.length
  · have hp := h p
    rw [count_set hi]
    simp only [beq_iff_eq, Option.none_beq_some, Bool.false_eq_true, if_false]
    omega
  · rw [set_eq_of_length_le (Nat.le_of_not_lt hi)]
    exact h p

lemma mem_of_mem_popWaiterFor (h : some p ∈ (popWaiterFor target ws).2) : some p ∈ ws := by
  unfold popWaiterFor at h
  split at h <;> split at h
  · exact mem_of_mem_set_none h
  · exact h
  · exact mem_of_mem_set_none h
  · exact h

lemma Distinct.popWaiterFor (h : Distinct ws) : Distinct (popWaiterFor target ws).2 := by
  unfold Ipc.popWaiterFor
  split <;> split
  · exact h.set_none _
  · exact h
  · exact h.set_none _
  · exact h

lemma Distinct.not_mem_popWaiterFor (h : Distinct ws) :
    some p ∉ (Ipc.popWaiterFor (some p) ws).2 := by
  unfold Ipc.popWaiterFor
  dsimp only
  split
  next i hi =>
    obtain ⟨hlt, hg, -⟩ := findIdx?_eq_some_iff_getElem.mp hi
    have hp := h p
    rw [← count_eq_zero, count_set hlt, if_pos hg]
    simp only [Option.none_beq_some, Bool.false_eq_true, if_false]
    omega
  next hn =>
    intro hm
    have := findIdx?_eq_none_iff.mp hn _ hm
    simp at this

lemma popWaiterFor_eq_none (h : (popWaiterFor none ws).1 = none) : ws.any (·.isSome) = false := by
  unfold popWaiterFor at h
  dsimp only at h
  split at h
  next i hi =>
    obtain ⟨hlt, hg, -⟩ := findIdx?_eq_some_iff_getElem.mp hi
    obtain ⟨q, hq⟩ := Option.isSome_iff_exists.mp hg
    simp [getElem?_eq_getElem hlt, hq] at h
  next hn =>
    rw [any_eq_false]
    intro w hw
    simpa using findIdx?_eq_none_iff.mp hn w hw

lemma mem_of_mem_installWaiter (h : installWaiter q ws = (.ok (), ws')) (hp : some p ∈ ws') :
    p = q ∨ some p ∈ ws := by
  unfold installWaiter at h
  split at h
  · cases h
    exact .inr hp
  split at h
  · cases h
    rcases mem_or_eq_of_mem_set hp with hp | hp
    · exact .inr hp
    · exact .inl (Option.some.inj hp)
  · cases h

lemma Distinct.installWaiter (hd : Distinct ws) (h : Ipc.installWaiter q ws = (.ok (), ws')) :
    Distinct ws' := by
  unfold Ipc.installWaiter at h
  split at h
  · cases h
    exact hd
  next ha =>
    split at h
    next i hi =>
      cases h
      obtain ⟨hlt, -⟩ := findIdx?_eq_some_iff_getElem.mp hi
      intro p
      have hp := hd p
      rw [count_set hlt]
      by_cases hq : q = p
      · subst hq
        have hz : ws.count (some q) = 0 := by
          rw [count_eq_zero]
          intro hm
          exact ha (any_eq_true.mpr ⟨_, hm, by simp⟩)
        simp only [hz]
        split <;> split <;> omega
      · have hne : (some q == some p) = false := by simpa using hq
        simp only [hne, Bool.false_eq_true, if_false]
        omega
    · cases h

end

/-! ## Every message for everybody has its wake-up -/

/-- No envelope waits for a process that waits, and while somebody waits there is a woken process
for every envelope that is for everybody. -/
structure Served (c : Channel μ) (retriers : Nat) : Prop where
  distinct : Distinct c.waiters
  targeted : ∀ p, some p ∈ c.waiters → ∀ env ∈ c.queue.toList, env.target = p → env.target = 0
  broadcast : c.hasWaiter = true → c.broadcasts ≤ retriers

namespace Served

variable {c : Channel μ} {n : Nat} {q : MessageQueue μ} {p caller : Nat} {env : Envelope μ}

lemma hasWaiter_iff : c.hasWaiter = true ↔ ∃ p, some p ∈ c.waiters := by
  simp only [Channel.hasWaiter, any_eq_true]
  constructor
  · rintro ⟨w, hw, hs⟩
    obtain ⟨p, rfl⟩ := Option.isSome_iff_exists.mp hs
    exact ⟨p, hw⟩
  · rintro ⟨p, hp⟩
    exact ⟨_, hp, rfl⟩

lemma mono (h : Served c n) (hle : n ≤ m) : Served c m := ⟨h.distinct, h.targeted, fun hw => Nat.le_trans (h.broadcast hw) hle⟩

lemma not_eligible (h : Served c 0) (hp : some p ∈ c.waiters) (he : env ∈ c.queue.toList) :
    env.eligible p = false := by
  have hz : c.broadcasts = 0 := le_zero.mp (h.broadcast (hasWaiter_iff.mpr ⟨p, hp⟩))
  have ht : env.target ≠ 0 := by
    have := countP_eq_zero.mp hz env he
    simpa using this
  by_contra hg
  rcases eligible_iff.mp (by simpa using hg) with heq | heq
  · exact ht heq
  · exact ht (h.targeted p hp env he heq)

lemma send (h : Served c n) {target : Option Nat} {msg : μ} (hr : target ≠ some 0)
    (hq : q.toList = c.queue.toList ++ [⟨caller, target.getD 0, msg⟩]) :
    Served { c with queue := q, waiters := (popWaiterFor target c.waiters).2 }
      (n + if (popWaiterFor target c.waiters).1.isSome then 1 else 0) := by
  refine ⟨h.distinct.popWaiterFor, fun p hp env he heq => ?_, fun hw => ?_⟩
  · rw [hq, mem_append, mem_singleton] at he
    rcases he with he | rfl
    · exact h.targeted p (mem_of_mem_popWaiterFor hp) env he heq
    · match target with
      | none => rfl
      | some t =>
        obtain rfl : t = p := heq
        exact absurd hp h.distinct.not_mem_popWaiterFor
  · obtain ⟨p, hp⟩ := hasWaiter_iff.mp hw
    have ho := h.broadcast (hasWaiter_iff.mpr ⟨p, mem_of_mem_popWaiterFor hp⟩)
    simp only [Channel.broadcasts, hq, countP_append, countP_singleton] at ho ⊢
    match target with
    | some t =>
      have ht : t ≠ 0 := fun h0 => hr (h0 ▸ rfl)
      simp only [Option.getD_some, beq_iff_eq, ht, if_false]
      omega
    | none =>
      have hs : (popWaiterFor none c.waiters).1.isSome := by
        by_contra hn
        have := popWaiterFor_eq_none (by simpa using hn)
        rw [any_eq_false] at this
        exact this _ (mem_of_mem_popWaiterFor hp) rfl
      simp only [hs, if_true, Option.getD_none, BEq.rfl]
      omega

lemma mem_of_mem_taken (hq : q.toList = c.queue.toList.eraseP (Envelope.eligible caller))
    (he : env ∈ q.toList) : env ∈ c.queue.toList :=
  mem_of_mem_eraseP (hq ▸ he)

lemma broadcasts_taken (hf : c.queue.toList.find? (Envelope.eligible caller) = some env)
    (hq : q.toList = c.queue.toList.eraseP (Envelope.eligible caller)) :
    c.broadcasts = { c with queue := q }.broadcasts + if env.target = 0 then 1 else 0 := by
  have hp := (perm_cons_eraseP hf).countP_eq (·.target == 0)
  simp only [Channel.broadcasts, hq, hp, countP_cons, beq_iff_eq]

lemma take {m : Nat} (h : Served c n) (hf : c.queue.toList.find? (Envelope.eligible caller) = some env)
    (hq : q.toList = c.queue.toList.eraseP (Envelope.eligible caller))
    (hm : n ≤ m + if env.target = 0 then 1 else 0) : Served { c with queue := q } m := by
  refine ⟨h.distinct, fun p hp env' he' => h.targeted p hp env' (mem_of_mem_taken hq he'),
    fun hw => ?_⟩
  have ho := h.broadcast hw
  rw [broadcasts_taken hf hq] at ho
  omega

lemma wait (h : Served c n) (m : Nat) (ho : c.queue.toList.find? (Envelope.eligible caller) = none)
    (hin : installWaiter caller c.waiters = (.ok (), ws)) : Served { c with waiters := ws } m := by
  have hn : ∀ env ∈ c.queue.toList, ¬ (env.target = 0 ∨ env.target = caller) := by
    intro env he hg
    exact find?_eq_none.mp ho env he (eligible_iff.mpr hg)
  refine ⟨h.distinct.installWaiter hin, fun p hp env he heq => ?_, fun _ => ?_⟩
  · rcases mem_of_mem_installWaiter hin hp with rfl | hp
    · exact absurd (.inr heq) (hn env he)
    · exact h.targeted p hp env he heq
  · have hz : { c with waiters := ws }.broadcasts = 0 := by
      rw [Channel.broadcasts, countP_eq_zero]
      intro env he h0
      exact hn env he (.inl (by simpa using h0))
    omega

lemma configure {desc : ChannelDesc} {owner : Option Nat} : Served (c.configure desc owner) n := by
  have hn (p : Nat) : some p ∉ (c.configure desc owner).waiters := by simp [Channel.configure]
  refine ⟨fun p => ?_, fun p hp => absurd hp (hn p), fun hw => ?_⟩
  · rw [count_eq_zero.mpr (hn p)]
    exact zero_le 1
  · obtain ⟨p, hp⟩ := hasWaiter_iff.mp hw
    exact absurd hp (hn p)

lemma spend (h : Served c n) (hp : c.hasWaiter = false ∨ c.broadcasts < n) :
    Served c (n - 1) := by
  refine ⟨h.distinct, h.targeted, fun hw => ?_⟩
  rcases hp with hn | hlt
  · rw [hn] at hw
    cases hw
  · omega

end Served

namespace Channel

variable {caps : Nat → BitVec 32} {c : Channel μ} {caller chan : Nat} {t t' : ChannelTable μ}

lemma target_of_takesBroadcast (h : c.takesBroadcast caps caller = true)
    (hf : c.queue.toList.find? (Envelope.eligible caller) = some env) : env.target = 0 := by
  unfold takesBroadcast at h
  split at h
  · cases h
  · simpa [hf] using h

lemma not_takesBroadcast (ht : t.Valid) (hc : t.channel? chan = some c)
    (h : t.receiveOrRegisterWaiter caps caller chan = (.error e, t')) :
    c.takesBroadcast caps caller = false := by
  obtain ⟨-, -, hn⟩ | ⟨d, i, hd, -, hr, -⟩ := ChannelTable.onChannel_spec h
  · rw [hn] at hc
    cases hc
  obtain rfl := Option.mem_unique hc hd
  unfold takesBroadcast
  unfold receiveOrRegisterWaiter at hr
  split
  · rfl
  next hh =>
    rw [hh] at hr
    generalize hp : c.queue.popFor caller = out at hr
    obtain ⟨r, q⟩ := out
    obtain ⟨-, -, hf⟩ | ⟨env, rfl, -⟩ := MessageQueue.popFor_spec (ht c (ChannelTable.mem_of_channel? hc)).queue hp
    · rw [hf]
      rfl
    · cases hr

end Channel

structure AllServed (s : IpcState μ) : Prop where
  valid : s.table.Valid
  served : ∀ chan c, s.table.channel? chan = some c → Served c (s.retriers chan)

namespace AllServed

variable {s : IpcState μ} {chan : Nat} {pid : Nat}

lemma init [Inhabited μ] (caps : Nat → BitVec 32) : AllServed (.init caps : IpcState μ) := by
  refine ⟨ChannelTable.new_valid, fun chan c hc => ?_⟩
  obtain rfl := eq_of_mem_replicate (ChannelTable.mem_of_channel? hc)
  have := ChannelTable.isChannel_of_channel? hc
  simp [ChannelTable.isChannel, Channel.new] at this

lemma swap (h : AllServed s) (hv : t.Valid) (hs : s.table.Swaps chan c c' t)
    (hle : ∀ other ≠ chan, s.retriers other ≤ retrying.countP (·.2 == other))
    (hc' : Served c' (retrying.countP (·.2 == chan))) : AllServed ⟨t, s.caps, retrying⟩ := by
  refine ⟨hv, fun other d hd => ?_⟩
  rw [hs.new] at hd
  split at hd
  next heq =>
    cases hd
    exact heq ▸ hc'
  next hne => exact (h.served other d hd).mono (hle other hne)

lemma retriers_erase (hm : (pid, chan) ∈ s.retrying) :
    (s.retrying.erase (pid, chan)).countP (·.2 == chan) = s.retriers chan - 1 := by
  have hp := (perm_cons_erase hm).countP_eq (·.2 == chan)
  rw [countP_cons, if_pos BEq.rfl] at hp
  rw [IpcState.retriers, hp, Nat.add_sub_cancel]

lemma retriers_erase_of_ne (hm : (pid, chan) ∈ s.retrying) (hne : other ≠ chan) :
    (s.retrying.erase (pid, chan)).countP (·.2 == other) = s.retriers other := by
  have hp := (perm_cons_erase hm).countP_eq (·.2 == other)
  rw [countP_cons, if_neg (by simpa using Ne.symm hne)] at hp
  exact hp.symm

lemma passesOn_cases (h : passesOn s (.completeReceive pid chan) = true) (hc : s.table.channel? chan = some c) :
    c.takesBroadcast s.caps pid = true ∨ c.hasWaiter = false ∨ c.broadcasts < s.retriers chan := by
  simpa [passesOn, hc, or_assoc] using h

lemma step {a : IpcAction μ} {s' : IpcState μ} (h : AllServed s) (hp : passesOn s a = true)
    (hst : s.Step a s') : AllServed s' := by
  cases a with
  | create desc owner =>
    cases hst
    generalize hc : s.table.create desc owner = out
    obtain ⟨r, t'⟩ := out
    obtain ⟨-, rfl⟩ | ⟨c, -, -, hv, hf⟩ := ChannelTable.create_spec h.valid hc
    · exact h
    · refine ⟨hv, fun other d hd => ?_⟩
      rw [hf] at hd
      split at hd
      · cases hd
        exact .configure
      · exact h.served other d hd
  | send caller target chan msg =>
    simp only [IpcState.Step, IpcState.next] at hst
    split at hst
    · cases hst
      exact h
    next htr =>
      generalize hc : s.table.send s.caps caller target chan msg = out at hst
      obtain ⟨r, t'⟩ := out
      obtain ⟨⟨e, rfl⟩, rfl⟩ | ⟨c, q, rfl, hv, hl, hs⟩ := ChannelTable.send_cases h.valid hc
      · cases hst
        exact h
      have hr := (h.served chan c hs.old).send htr hl
      match hw : (popWaiterFor target c.waiters).1 with
      | none =>
        rw [hw] at hst
        cases hst
        refine h.swap hv hs (fun _ _ => Nat.le_refl _) ?_
        simpa [hw, IpcState.retriers] using hr
      | some pid =>
        rw [hw] at hst
        cases hst
        refine h.swap hv hs (fun other _ => ?_) ?_
        · rw [countP_cons]
          exact le_add_right _ _
        · rw [countP_cons]
          simpa [hw, IpcState.retriers] using hr
  | receive caller chan =>
    cases hst
    generalize hc : s.table.receive s.caps caller chan = out
    obtain ⟨r, t'⟩ := out
    obtain ⟨-, rfl⟩ | ⟨c, q, env, -, hv, hf, hl, hs⟩ := ChannelTable.receive_cases h.valid hc
    · exact h
    · exact h.swap hv hs (fun _ _ => Nat.le_refl _)
        ((h.served chan c hs.old).take hf hl (Nat.le_add_right ..))
  | blockingReceive caller chan =>
    cases hst
    generalize hc : s.table.receiveOrRegisterWaiter s.caps caller chan = out
    obtain ⟨r, t'⟩ := out
    obtain ⟨-, rfl⟩ | ⟨c, q, env, -, hv, hf, hl, hs⟩ |
      ⟨c, ws, -, hv, hn, hin, hs⟩ :=
      ChannelTable.receiveOrRegisterWaiter_cases h.valid hc
    · exact h
    · exact h.swap hv hs (fun _ _ => Nat.le_refl _)
        ((h.served chan c hs.old).take hf hl (Nat.le_add_right ..))
    · exact h.swap hv hs (fun _ _ => Nat.le_refl _)
        ((h.served chan c hs.old).wait _ hn hin)
  | completeReceive pid chan =>
    simp only [IpcState.Step, IpcState.next] at hst
    split at hst
    next hm =>
      cases hst
      have hle : ∀ other ≠ chan, s.retriers other ≤ (s.retrying.erase (pid, chan)).countP (·.2 == other) :=
        fun other hne => Nat.le_of_eq (retriers_erase_of_ne hm hne).symm
      generalize hc : s.table.receiveOrRegisterWaiter s.caps pid chan = out
      obtain ⟨r, t'⟩ := out
      obtain ⟨⟨e, rfl⟩, rfl⟩ | ⟨c, q, env, -, hv, hf, hl, hs⟩ |
        ⟨c, ws, -, hv, hn, hin, hs⟩ :=
        ChannelTable.receiveOrRegisterWaiter_cases h.valid hc
      · refine ⟨h.valid, fun other d hd => ?_⟩
        by_cases heq : other = chan
        · subst heq
          have hsp := (passesOn_cases hp hd).resolve_left
            (by simp [Channel.not_takesBroadcast h.valid hd hc])
          have := (h.served other d hd).spend hsp
          rwa [← retriers_erase hm] at this
        · exact (h.served other d hd).mono (hle other heq)
      · refine h.swap hv hs hle ?_
        rw [retriers_erase hm]
        rcases passesOn_cases hp hs.old with ht | hsp
        · refine (h.served chan c hs.old).take hf hl ?_
          rw [if_pos (Channel.target_of_takesBroadcast ht hf)]
          omega
        · exact ((h.served chan c hs.old).spend hsp).take hf hl (Nat.le_add_right ..)
      · exact h.swap hv hs hle ((h.served chan c hs.old).wait _ hn hin)
    · cases hst
  | grants caps =>
    cases hst
    exact ⟨h.valid, h.served⟩

end AllServed

/-- No receiver is stranded. When every woken process that leaves a message for everybody passes
it on, nobody waits, in a state where no woken process has still to try again, for an envelope that
is there and that it may receive. -/
theorem no_receiver_stranded [Inhabited μ] {caps : Nat → BitVec 32} {as : List (IpcAction μ)}
    {s : IpcState μ} (h : PassingRun caps as s) (hquiet : s.retrying = []) (pid chan : Nat) :
    ¬ Stranded s pid chan := by
  have hr : AllServed s := h.invariant (fun _ _ _ hs ht => hs.step ht.1 ht.2) (.init caps)
  rintro ⟨c, hc, hw, -, env, hv, he⟩
  have hn := hr.served chan c hc
  rw [IpcState.retriers, hquiet] at hn
  rw [hn.not_eligible hw hv] at he
  cases he

/-- The first waiter is woken, and takes the message. -/
def wokenTakes : List (IpcAction Nat) :=
  [.create ⟨5, 4, 0, 1⟩ none, .blockingReceive 1 5, .blockingReceive 2 5, .send 3 none 5 42, .completeReceive 1 5]

theorem no_receiver_stranded_taken : ∃ s, PassingRun (fun _ => 1) wokenTakes s ∧ s.retrying = [] ∧ ¬ Stranded s 2 5 := by
  refine exists_run_and (guarded_of_guardedNext id id) (·.retrying.isEmpty) (by decide) fun hrun hs => ?_
  have hq := isEmpty_iff.mp hs
  exact ⟨hq, no_receiver_stranded hrun hq 2 5⟩

/-- Is the process stranded, and has every woken process tried again? -/
def strandedQuietly (pid chan : Nat) (s : IpcState Nat) : Bool := s.retrying.isEmpty && (s.table.channel? chan).any fun c =>
    c.waiters.contains (some pid) && (c.checkCaller s.caps pid c.rxGroups).isOk && c.queue.toList.any (·.eligible pid)

lemma stranded_of_strandedQuietly (h : strandedQuietly pid chan s = true) : s.retrying = [] ∧ Stranded s pid chan := by
  simp only [strandedQuietly, Bool.and_eq_true, List.isEmpty_iff, Option.any_eq_true,
    List.any_eq_true, List.contains_iff_mem] at h
  obtain ⟨hq, c, hc, ⟨hw, hh⟩, he⟩ := h
  refine ⟨hq, c, hc, hw, ?_, he⟩
  generalize hr : c.checkCaller s.caps pid c.rxGroups = r at hh
  match r with
  | .ok () => rfl
  | .error _ => cases hh

/-- Two processes wait, a message wakes the first, and its grant is gone when it tries again. -/
def deniedRetry : List (IpcAction Nat) :=
  [.create ⟨5, 4, 0, 1⟩ none, .blockingReceive 1 5, .blockingReceive 2 5, .send 3 none 5 42,
    .grants (fun pid => if pid = 1 then 0 else 1), .completeReceive 1 5]

/-- Three processes wait. The first one woken gets a message of its own meanwhile, and takes that. -/
def ownMessageFirst : List (IpcAction Nat) :=
  [.create ⟨5, 4, 0, 0⟩ none, .blockingReceive 1 5, .blockingReceive 2 5, .blockingReceive 3 5,
    .send 4 none 5 10, .send 4 (some 1) 5 11, .send 4 none 5 12, .completeReceive 2 5,
    .completeReceive 1 5]

/-- A wake-up is lost when the retry is refused, and when it takes another envelope. -/
theorem woken_receiver_keeps_wake :
    (∃ s, Run IpcState.Step (.init fun _ => 1) deniedRetry s ∧ s.retrying = [] ∧ Stranded s 2 5) ∧
    ∃ s, Run IpcState.Step (.init fun _ => 1) ownMessageFirst s ∧ s.retrying = [] ∧ Stranded s 3 5 := by
  constructor
  · exact exists_run_and id (strandedQuietly 2 5) (by decide) fun _ hs => stranded_of_strandedQuietly hs
  · exact exists_run_and id (strandedQuietly 3 5) (by decide) fun _ hs => stranded_of_strandedQuietly hs

end ZeroOS.Ipc
