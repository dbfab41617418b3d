import ZeroOS.Ipc.Queue
import ZeroOS.Lib.Run

/-!
# Channels

The channel table, as `ipc.rs` has it: thirty-two channels with a queue, four waiter slots, an owner
and two group masks. Every call first finds the channel, then asks whether the caller is the owner
and whether its capabilities meet the mask, and only then touches the queue. What the capabilities
of a caller are is not known here: `caps` stands for `security::effective_caps`, and a run may use
another one at every call.

`ListStep` is what channels are for: every channel is a list of envelopes.
-/

namespace ZeroOS.Ipc

open Function List Option Transition

variable {μ : Type} {α : Type}

def maxChannels : Nat := 32

def waitersPerChannel : Nat := 4

structure ChannelDesc where
  id : Nat
  capacity : Nat
  txGroups : BitVec 32
  rxGroups : BitVec 32
  deriving DecidableEq

structure Channel (μ : Type) where
  inUse : Bool
  id : Nat
  capacity : Nat
  owner : Option Nat
  txGroups : BitVec 32
  rxGroups : BitVec 32
  queue : MessageQueue μ
  waiters : List (Option Nat)

def groupAllows (mask callerCaps : BitVec 32) : Bool := mask == 0#32 || callerCaps &&& mask != 0#32

/-- `pop_waiter_for`: the target of a targeted message if it waits, and else the first waiter. -/
def popWaiterFor (target : Option Nat) (waiters : List (Option Nat)) :
    Option Nat × List (Option Nat) :=
  match target with
  | some t =>
    match waiters.findIdx? (· == some t) with
    | some i => (some t, waiters.set i none)
    | none => (none, waiters)
  | none =>
    match waiters.findIdx? (·.isSome) with
    | some i => ((waiters[i]?).join, waiters.set i none)
    | none => (none, waiters)

/-- The caller gets a waiter slot, unless it has one. -/
def installWaiter (caller : Nat) (waiters : List (Option Nat)) :
    Except IpcError Unit × List (Option Nat) :=
  if waiters.any (· == some caller) then (.ok (), waiters)
  else
    match waiters.findIdx? (·.isNone) with
    | some i => (.ok (), waiters.set i (some caller))
    | none => (.error .channelBusy, waiters)

namespace Channel

def new [Inhabited μ] : Channel μ where
  inUse := false
  id := 0
  capacity := 0
  owner := none
  txGroups := 0#32
  rxGroups := 0#32
  queue := .new
  waiters := List.replicate waitersPerChannel none

def configure (c : Channel μ) (desc : ChannelDesc) (owner : Option Nat) : Channel μ where
  inUse := true
  id := desc.id
  capacity := max (min desc.capacity maxQueue) 1
  owner := owner
  txGroups := desc.txGroups
  rxGroups := desc.rxGroups
  queue := c.queue.reset
  waiters := List.replicate waitersPerChannel none

def ensureAccess (c : Channel μ) (caller : Nat) : Except IpcError Unit :=
  match c.owner with
  | some owner => if owner ≠ caller then .error .accessDenied else .ok ()
  | none => .ok ()

def ensureGroups (caps : Nat → BitVec 32) (mask : BitVec 32) (caller : Nat) : Except IpcError Unit :=
  if groupAllows mask (caps caller) then .ok () else .error .policyDenied

variable (caps : Nat → BitVec 32) (c : Channel μ) (caller : Nat)

/-- The two checks every call begins with. -/
def checkCaller (mask : BitVec 32) : Except IpcError Unit := do
  c.ensureAccess caller
  ensureGroups caps mask caller

/-- `send`, on the channel found. -/
def send (target : Option Nat) (msg : μ) : Except IpcError (Option Nat) × Channel μ :=
  match c.checkCaller caps caller c.txGroups with
  | .error e => (.error e, c)
  | .ok () =>
    match c.queue.push ⟨caller, target.getD 0, msg⟩ c.capacity with
    | (.error e, q) => (.error e, { c with queue := q })
    | (.ok (), q) =>
      let (wake, waiters) := popWaiterFor target c.waiters
      (.ok wake, { c with queue := q, waiters := waiters })

def receive : Except IpcError (Nat × μ) × Channel μ :=
  match c.checkCaller caps caller c.rxGroups with
  | .error e => (.error e, c)
  | .ok () =>
    match c.queue.popFor caller with
    | (.error e, q) => (.error e, { c with queue := q })
    | (.ok env, q) => (.ok (env.sender, env.message), { c with queue := q })

def receiveOrRegisterWaiter : Except IpcError (Option (Nat × μ)) × Channel μ :=
  match c.checkCaller caps caller c.rxGroups with
  | .error e => (.error e, c)
  | .ok () =>
    match c.queue.popFor caller with
    | (.ok env, q) => (.ok (some (env.sender, env.message)), { c with queue := q })
    | (.error .empty, q) =>
      match installWaiter caller c.waiters with
      | (.ok (), waiters) => (.ok none, { c with queue := q, waiters := waiters })
      | (.error e, waiters) => (.error e, { c with queue := q, waiters := waiters })
    | (.error e, q) => (.error e, { c with queue := q })

def registerWaiter : Except IpcError Unit × Channel μ :=
  match c.checkCaller caps caller c.rxGroups with
  | .error e => (.error e, c)
  | .ok () =>
    let (r, waiters) := installWaiter caller c.waiters
    (r, { c with waiters := waiters })

end Channel

/-- The channel table: `MAX_CHANNELS` channels. -/
structure ChannelTable (μ : Type) where
  channels : List (Channel μ)

namespace ChannelTable

def new [Inhabited μ] : ChannelTable μ := ⟨List.replicate maxChannels Channel.new⟩

def isChannel (chan : Nat) (c : Channel μ) : Bool := c.inUse && c.id == chan

def create (t : ChannelTable μ) (desc : ChannelDesc) (owner : Option Nat) :
    Except IpcError Unit × ChannelTable μ :=
  if t.channels.any (isChannel desc.id) then (.error .invalid, t)
  else
    match t.channels.findIdx? (!·.inUse) with
    | some i => (.ok (), ⟨t.channels.modify i (·.configure desc owner)⟩)
    | none => (.error .channelBusy, t)

def onChannel {α : Type} (t : ChannelTable μ) (chan : Nat)
    (f : Channel μ → Except IpcError α × Channel μ) : Except IpcError α × ChannelTable μ :=
  match t.channels.find? (isChannel chan), t.channels.findIdx? (isChannel chan) with
  | some c, some i => ((f c).1, ⟨t.channels.set i (f c).2⟩)
  | _, _ => (.error .invalid, t)

variable (caps : Nat → BitVec 32) (t : ChannelTable μ) (caller : Nat)

def send (target : Option Nat) (chan : Nat) (msg : μ) :
    Except IpcError (Option Nat) × ChannelTable μ :=
  t.onChannel chan fun c => c.send caps caller target msg

def receive (chan : Nat) : Except IpcError (Nat × μ) × ChannelTable μ := t.onChannel chan fun c => c.receive caps caller

def receiveOrRegisterWaiter (chan : Nat) : Except IpcError (Option (Nat × μ)) × ChannelTable μ :=
  t.onChannel chan fun c => c.receiveOrRegisterWaiter caps caller

def registerWaiter (chan : Nat) : Except IpcError Unit × ChannelTable μ :=
  t.onChannel chan fun c => c.registerWaiter caps caller

def channel? (chan : Nat) : Option (Channel μ) := t.channels.find? (isChannel chan)

def lists (chan : Nat) : Option (List (Envelope μ)) := (t.channel? chan).map (·.queue.toList)

end ChannelTable

/-! ## What a call does to one channel -/

namespace Channel

structure Valid (c : Channel μ) : Prop where
  queue : c.queue.Valid
  capacity_le : c.capacity ≤ maxQueue
  len_le : c.queue.len ≤ c.capacity

variable {caps : Nat → BitVec 32} {c c' : Channel μ} {caller : Nat}

lemma installWaiter_error {waiters ws : List (Option Nat)} {e : IpcError}
    (h : installWaiter caller waiters = (.error e, ws)) : ws = waiters := by
  unfold installWaiter at h
  split at h
  · cases h
  split at h
  · cases h
  · exact (Prod.mk.inj h).2.symm

lemma send_spec (hc : c.Valid) (h : c.send caps caller target msg = (r, c')) : ((∃ e, r = .error e) ∧ c' = c) ∨
    ∃ q, r = .ok (popWaiterFor target c.waiters).1 ∧ c' = { c with queue := q, waiters := (popWaiterFor target c.waiters).2 } ∧
      q.toList = c.queue.toList ++ [⟨caller, target.getD 0, msg⟩] ∧ c'.Valid := by
  unfold send at h
  split at h
  next e _ =>
    cases h
    exact .inl ⟨⟨e, rfl⟩, rfl⟩
  split at h
  next e q hp =>
    cases h
    obtain ⟨-, rfl⟩ | ⟨ha, -⟩ := MessageQueue.push_spec hc.queue hc.capacity_le hc.len_le hp
    · exact .inl ⟨⟨e, rfl⟩, rfl⟩
    · cases ha
  next q hp =>
    obtain ⟨ha, -⟩ | ⟨-, hl, hlt, hq⟩ := MessageQueue.push_spec hc.queue hc.capacity_le hc.len_le hp
    · cases ha
    cases h
    refine .inr ⟨q, rfl, rfl, hl, hq, hc.capacity_le, ?_⟩
    have he := congrArg List.length hl
    simp only [MessageQueue.length_toList, length_append, length_singleton] at he
    dsimp only
    omega

lemma receive_spec (hc : c.Valid) (h : c.receive caps caller = (r, c')) : ((∃ e, r = .error e) ∧ c' = c) ∨
    ∃ q env, r = .ok (env.sender, env.message) ∧ c' = { c with queue := q } ∧
      c.queue.toList.find? (Envelope.eligible caller) = some env ∧
      q.toList = c.queue.toList.eraseP (Envelope.eligible caller) ∧ c'.Valid := by
  unfold receive at h
  split at h
  next e _ =>
    cases h
    exact .inl ⟨⟨e, rfl⟩, rfl⟩
  split at h
  next e q hp =>
    cases h
    obtain ⟨-, rfl, -⟩ | ⟨env, ha, -⟩ := MessageQueue.popFor_spec hc.queue hp
    · exact .inl ⟨⟨e, rfl⟩, rfl⟩
    · cases ha
  next env q hp =>
    obtain ⟨ha, -⟩ | ⟨env', he, hf, hl, hq, hn⟩ := MessageQueue.popFor_spec hc.queue hp
    · cases ha
    cases he
    cases h
    exact .inr ⟨q, env, rfl, rfl, hf, hl, hq, hc.capacity_le, Nat.le_trans hn hc.len_le⟩

lemma receiveOrRegisterWaiter_spec (hc : c.Valid) (h : c.receiveOrRegisterWaiter caps caller = (r, c')) :
    ((∃ e, r = .error e) ∧ c' = c) ∨
    (∃ q env, r = .ok (some (env.sender, env.message)) ∧ c' = { c with queue := q } ∧
      c.queue.toList.find? (Envelope.eligible caller) = some env ∧
      q.toList = c.queue.toList.eraseP (Envelope.eligible caller) ∧ c'.Valid) ∨
    ∃ waiters, r = .ok none ∧ installWaiter caller c.waiters = (.ok (), waiters) ∧ c' = { c with waiters := waiters } ∧
      c.queue.toList.find? (Envelope.eligible caller) = none := by
  unfold receiveOrRegisterWaiter at h
  split at h
  next e _ =>
    cases h
    exact .inl ⟨⟨e, rfl⟩, rfl⟩
  split at h
  next env q hp =>
    obtain ⟨ha, -⟩ | ⟨env', he, hf, hl, hq, hln⟩ := MessageQueue.popFor_spec hc.queue hp
    · cases ha
    cases he
    cases h
    exact .inr (.inl ⟨q, env, rfl, rfl, hf, hl, hq, hc.capacity_le, Nat.le_trans hln hc.len_le⟩)
  next q hp =>
    obtain ⟨-, rfl, hf⟩ | ⟨env, ha, -⟩ := MessageQueue.popFor_spec hc.queue hp
    · split at h
      next waiters hn =>
        cases h
        exact .inr (.inr ⟨waiters, rfl, hn, rfl, hf⟩)
      next e waiters hn =>
        cases h
        obtain rfl := installWaiter_error hn
        exact .inl ⟨⟨e, rfl⟩, rfl⟩
    · cases ha
  next e q _ hp =>
    obtain ⟨-, rfl, -⟩ | ⟨env, ha, -⟩ := MessageQueue.popFor_spec hc.queue hp
    · cases h
      exact .inl ⟨⟨e, rfl⟩, rfl⟩
    · cases ha

lemma registerWaiter_spec (h : c.registerWaiter caps caller = (r, c')) : ((∃ e, r = .error e) ∧ c' = c) ∨
    ∃ waiters, r = .ok () ∧ installWaiter caller c.waiters = (.ok (), waiters) ∧ c' = { c with waiters := waiters } := by
  unfold registerWaiter at h
  split at h
  next e _ =>
    cases h
    exact .inl ⟨⟨e, rfl⟩, rfl⟩
  · generalize hn : installWaiter caller c.waiters = out at h
    cases h
    match out with
    | (.ok (), waiters) => exact .inr ⟨waiters, rfl, rfl, rfl⟩
    | (.error e, waiters) =>
      obtain rfl := installWaiter_error hn
      exact .inl ⟨⟨e, rfl⟩, rfl⟩

end Channel

/-! ## What a call does to the table -/

lemma find?_set_self (hx : p x = true) : ∀ {l : List α} {i : Nat},
    i < l.length → (∀ j < i, ∀ y, l[j]? = some y → p y = false) → (l.set i x).find? p = some x
  | y :: l, 0, _, _ => by simp [hx]
  | y :: l, i + 1, hi, hbefore => by
      have hy : p y = false := hbefore 0 (Nat.succ_pos i) y rfl
      rw [set_cons_succ, find?_cons_of_neg (by simp [hy])]
      exact find?_set_self hx (Nat.lt_of_succ_lt_succ hi) fun j hj z hz => hbefore (j + 1) (Nat.succ_lt_succ hj) z hz

lemma find?_set_of_neg (hx : p x = false) :
    ∀ {l : List α} {i : Nat}, (∀ y, l[i]? = some y → p y = false) → (l.set i x).find? p = l.find? p
  | [], _, _ => rfl
  | y :: l, 0, hold => by
      rw [set_cons_zero, find?_cons_of_neg (by simp [hx]), find?_cons_of_neg (by simp [hold y rfl])]
  | y :: l, i + 1, hold => by
      rw [set_cons_succ]
      simp only [find?_cons]
      split
      · rfl
      · exact find?_set_of_neg hx hold

namespace ChannelTable

def Valid (t : ChannelTable μ) : Prop := ∀ c ∈ t.channels, c.Valid

variable {t t' : ChannelTable μ} {chan : Nat} {c : Channel μ} {caps : Nat → BitVec 32} {caller : Nat}
  {r : Except IpcError Unit}

lemma new_valid [Inhabited μ] : (new : ChannelTable μ).Valid := by
  intro c hc
  obtain rfl := eq_of_mem_replicate hc
  exact ⟨.new, Nat.zero_le _, Nat.le_refl _⟩

lemma isChannel_of_channel? (h : t.channel? chan = some c) : isChannel chan c = true := find?_some h

lemma mem_of_channel? (h : t.channel? chan = some c) : c ∈ t.channels := mem_of_find?_eq_some h

lemma onChannel_spec {α : Type} {f : Channel μ → Except IpcError α × Channel μ}
    {r : Except IpcError α} (h : t.onChannel chan f = (r, t')) :
    (r = .error .invalid ∧ t' = t ∧ t.channel? chan = none) ∨
    ∃ c i, t.channel? chan = some c ∧ t.channels[i]? = some c ∧ r = (f c).1 ∧ t' = ⟨t.channels.set i (f c).2⟩ ∧
      ∀ j < i, ∀ y, t.channels[j]? = some y → isChannel chan y = false := by
  unfold onChannel at h
  split at h
  next c i hf hx =>
    cases h
    obtain ⟨hi, hcc, hb⟩ := findIdx?_eq_some_iff_getElem.mp hx
    have hg : t.channels[i]? = some c := by
      rw [← (List.findIdx?_eq_some_iff_findIdx_eq.mp hx).2, ← List.find?_eq_getElem?_findIdx, hf]
    refine .inr ⟨c, i, hf, hg, rfl, rfl, fun j hj y hy => ?_⟩
    obtain ⟨hlt, rfl⟩ := List.getElem?_eq_some_iff.mp hy
    simpa using hb j hj
  next hn =>
    cases h
    refine .inl ⟨rfl, rfl, ?_⟩
    by_contra hs
    obtain ⟨c, hc⟩ := ne_none_iff_exists'.mp hs
    have hx : (t.channels.findIdx? (isChannel chan)).isSome := by
      rw [findIdx?_isSome]
      exact any_eq_true.mpr ⟨c, mem_of_channel? hc, isChannel_of_channel? hc⟩
    obtain ⟨i, hi⟩ := isSome_iff_exists.mp hx
    exact hn c i hc hi

lemma channel?_set (hg : t.channels[i]? = some c)
    (hc : isChannel chan c = true) (hid : c'.id = c.id) (hu : c'.inUse = c.inUse)
    (hb : ∀ j < i, ∀ y, t.channels[j]? = some y → isChannel chan y = false) (other : Nat) :
    (⟨t.channels.set i c'⟩ : ChannelTable μ).channel? other =
      if other = chan then some c' else t.channel? other := by
  have hs (id : Nat) : isChannel id c' = isChannel id c := by simp [isChannel, hid, hu]
  split
  next heq =>
    subst heq
    exact find?_set_self ((hs other).trans hc) (List.getElem?_eq_some_iff.mp hg).1 hb
  next hne =>
    have hr : isChannel other c = false := by
      simp only [isChannel, Bool.and_eq_true, beq_iff_eq] at hc
      simp [isChannel, hc.2, Ne.symm hne]
    refine find?_set_of_neg ((hs other).trans hr) fun y hy => ?_
    obtain rfl := mem_unique hg hy
    exact hr

lemma set_valid (ht : t.Valid) (hc' : c'.Valid) : (⟨t.channels.set i c'⟩ : ChannelTable μ).Valid := by
  intro x hx
  rcases mem_or_eq_of_mem_set hx with hm | rfl
  · exact ht x hm
  · exact hc'

structure Swaps (t : ChannelTable μ) (chan : Nat) (c c' : Channel μ) (t' : ChannelTable μ) : Prop where
  old : t.channel? chan = some c
  new : ∀ other, t'.channel? other = if other = chan then some c' else t.channel? other
  valid : c'.Valid → t'.Valid

section

variable (ht : t.Valid)
include ht

lemma onChannel_cases {α : Type} {f : Channel μ → Except IpcError α × Channel μ} {r : Except IpcError α}
    (h : t.onChannel chan f = (r, t')) :
    ((∃ e, r = .error e) ∧ t' = t) ∨
    ∃ c c', c.Valid ∧ f c = (r, c') ∧ (c' = c → t' = t) ∧ (c'.id = c.id → c'.inUse = c.inUse → t.Swaps chan c c' t') := by
  obtain ⟨hr, hs, -⟩ | ⟨c, i, hc, hg, rfl, rfl, hb⟩ := onChannel_spec h
  · exact .inl ⟨⟨_, hr⟩, hs⟩
  · refine .inr ⟨c, (f c).2, ht c (mem_of_channel? hc), rfl, fun heq => ?_, fun hid hu => ?_⟩
    · obtain ⟨hi, hgt⟩ := List.getElem?_eq_some_iff.mp hg
      rw [heq, ← hgt, List.set_getElem_self]
    · exact ⟨hc, channel?_set hg (isChannel_of_channel? hc) hid hu hb, set_valid ht⟩

lemma send_cases {target : Option Nat} {msg : μ} {r : Except IpcError (Option Nat)}
    (h : t.send caps caller target chan msg = (r, t')) :
    ((∃ e, r = .error e) ∧ t' = t) ∨
    ∃ c q, r = .ok (popWaiterFor target c.waiters).1 ∧ t'.Valid ∧ q.toList = c.queue.toList ++ [⟨caller, target.getD 0, msg⟩] ∧
      t.Swaps chan c { c with queue := q, waiters := (popWaiterFor target c.waiters).2 } t' := by
  obtain hr | ⟨c, c', hc, hcl, hm, hs⟩ := onChannel_cases ht h
  · exact .inl hr
  obtain ⟨hr, heq⟩ | ⟨q, hr, rfl, hl, hv⟩ := Channel.send_spec hc hcl
  · exact .inl ⟨hr, hm heq⟩
  · have hs := hs rfl rfl
    exact .inr ⟨c, q, hr, hs.valid hv, hl, hs⟩

lemma receive_cases {r : Except IpcError (Nat × μ)} (h : t.receive caps caller chan = (r, t')) :
    ((∃ e, r = .error e) ∧ t' = t) ∨
    ∃ c q env, r = .ok (env.sender, env.message) ∧ t'.Valid ∧ c.queue.toList.find? (Envelope.eligible caller) = some env ∧
      q.toList = c.queue.toList.eraseP (Envelope.eligible caller) ∧
      t.Swaps chan c { c with queue := q } t' := by
  obtain hr | ⟨c, c', hc, hcl, hm, hs⟩ := onChannel_cases ht h
  · exact .inl hr
  obtain ⟨hr, heq⟩ | ⟨q, env, hr, rfl, hf, hl, hv⟩ := Channel.receive_spec hc hcl
  · exact .inl ⟨hr, hm heq⟩
  · have hs := hs rfl rfl
    exact .inr ⟨c, q, env, hr, hs.valid hv, hf, hl, hs⟩

lemma receiveOrRegisterWaiter_cases {r : Except IpcError (Option (Nat × μ))}
    (h : t.receiveOrRegisterWaiter caps caller chan = (r, t')) :
    ((∃ e, r = .error e) ∧ t' = t) ∨
    (∃ c q env, r = .ok (some (env.sender, env.message)) ∧ t'.Valid ∧
      c.queue.toList.find? (Envelope.eligible caller) = some env ∧
      q.toList = c.queue.toList.eraseP (Envelope.eligible caller) ∧
      t.Swaps chan c { c with queue := q } t') ∨
    ∃ c waiters, r = .ok none ∧ t'.Valid ∧ c.queue.toList.find? (Envelope.eligible caller) = none ∧
      installWaiter caller c.waiters = (.ok (), waiters) ∧
      t.Swaps chan c { c with waiters := waiters } t' := by
  obtain hr | ⟨c, c', hc, hcl, hm, hs⟩ := onChannel_cases ht h
  · exact .inl hr
  obtain ⟨hr, heq⟩ | ⟨q, env, hr, rfl, hf, hl, hv⟩ | ⟨ws, hr, hin, rfl, hn⟩ := Channel.receiveOrRegisterWaiter_spec hc hcl
  · exact .inl ⟨hr, hm heq⟩
  · have hs := hs rfl rfl
    exact .inr (.inl ⟨c, q, env, hr, hs.valid hv, hf, hl, hs⟩)
  · have hs := hs rfl rfl
    have hv := hs.valid ⟨hc.queue, hc.capacity_le, hc.len_le⟩
    exact .inr (.inr ⟨c, ws, hr, hv, hn, hin, hs⟩)

lemma registerWaiter_cases (h : t.registerWaiter caps caller chan = (r, t')) : ((∃ e, r = .error e) ∧ t' = t) ∨
    ∃ c waiters, r = .ok () ∧ t'.Valid ∧ installWaiter caller c.waiters = (.ok (), waiters) ∧
      t.Swaps chan c { c with waiters := waiters } t' := by
  obtain hr | ⟨c, c', hc, hl, hm, hs⟩ := onChannel_cases ht h
  · exact .inl hr
  obtain ⟨hr, heq⟩ | ⟨ws, hr, hn, rfl⟩ := Channel.registerWaiter_spec hl
  · exact .inl ⟨hr, hm heq⟩
  · have hs := hs rfl rfl
    have hv := hs.valid ⟨hc.queue, hc.capacity_le, hc.len_le⟩
    exact .inr ⟨c, ws, hr, hv, hn, hs⟩

lemma create_spec (h : t.create desc owner = (r, t')) : ((∃ e, r = .error e) ∧ t' = t) ∨
    ∃ c : Channel μ, r = .ok () ∧ t.channel? desc.id = none ∧ t'.Valid ∧ ∀ other, t'.channel? other =
        if other = desc.id then some (c.configure desc owner) else t.channel? other := by
  unfold create at h
  split at h
  · cases h
    exact .inl ⟨⟨_, rfl⟩, rfl⟩
  next ha =>
    split at h
    next i hix =>
      cases h
      obtain ⟨hi, hf, -⟩ := findIdx?_eq_some_iff_getElem.mp hix
      have hn : t.channel? desc.id = none := by
        rw [channel?, find?_eq_none]
        intro x hx hd
        exact ha (any_eq_true.mpr ⟨x, hx, hd⟩)
      have hmod : t.channels.modify i (·.configure desc owner) = t.channels.set i (t.channels[i].configure desc owner) := by
        rw [modify_eq_set_getElem?]
        simp [hi]
      refine .inr ⟨t.channels[i], rfl, hn, ?_, fun other => ?_⟩
      · rw [hmod]
        refine set_valid ht ⟨.reset _, ?_, Nat.zero_le _⟩
        simp only [Channel.configure, maxQueue]
        omega
      · rw [hmod]
        split
        next heq =>
          subst heq
          refine find?_set_self (by simp [isChannel, Channel.configure]) hi fun j _ y hy => ?_
          have := find?_eq_none.mp hn y (mem_of_getElem? hy)
          simpa using this
        next hne =>
          refine find?_set_of_neg (by simp [isChannel, Channel.configure, Ne.symm hne]) fun y hy => ?_
          obtain ⟨hlt, rfl⟩ := List.getElem?_eq_some_iff.mp hy
          have hf : t.channels[i].inUse = false := by simpa using hf
          simp [isChannel, hf]
    · cases h
      exact .inl ⟨⟨_, rfl⟩, rfl⟩

end

end ChannelTable

/-! ## Channels are lists -/

/-- A call of the channel table and what it returned. -/
inductive IpcEvent (μ : Type)
  | create (desc : ChannelDesc) (owner : Option Nat) (r : Except IpcError Unit)
  | send (caller : Nat) (target : Option Nat) (chan : Nat) (msg : μ)
      (r : Except IpcError (Option Nat))
  | receive (caller chan : Nat) (r : Except IpcError (Nat × μ))
  | receiveOrRegister (caller chan : Nat) (r : Except IpcError (Option (Nat × μ)))
  | register (caller chan : Nat) (r : Except IpcError Unit)

/-- A call of the table, whatever the capabilities are at that time. -/
inductive TableStep (t : ChannelTable μ) : IpcEvent μ → ChannelTable μ → Prop
  | create (desc : ChannelDesc) (owner : Option Nat) :
      TableStep t (.create desc owner (t.create desc owner).1) (t.create desc owner).2
  | send (caps : Nat → BitVec 32) (caller : Nat) (target : Option Nat) (chan : Nat) (msg : μ) :
      TableStep t (.send caller target chan msg (t.send caps caller target chan msg).1)
        (t.send caps caller target chan msg).2
  | receive (caps : Nat → BitVec 32) (caller chan : Nat) :
      TableStep t (.receive caller chan (t.receive caps caller chan).1)
        (t.receive caps caller chan).2
  | receiveOrRegister (caps : Nat → BitVec 32) (caller chan : Nat) :
      TableStep t (.receiveOrRegister caller chan (t.receiveOrRegisterWaiter caps caller chan).1)
        (t.receiveOrRegisterWaiter caps caller chan).2
  | register (caps : Nat → BitVec 32) (caller chan : Nat) :
      TableStep t (.register caller chan (t.registerWaiter caps caller chan).1)
        (t.registerWaiter caps caller chan).2

abbrev Lists (μ : Type) := Nat → Option (List (Envelope μ))

def IpcEvent.refused : IpcEvent μ → Prop
  | .create _ _ r | .register _ _ r => ∃ e, r = .error e
  | .send _ _ _ _ r => ∃ e, r = .error e
  | .receive _ _ r => ∃ e, r = .error e
  | .receiveOrRegister _ _ r => ∃ e, r = .error e

/-- The abstract channels. A send appends an envelope; a receive takes the first one whose target
is 0 or the caller; whatever is refused changes nothing. -/
inductive ListStep (s : Lists μ) : IpcEvent μ → Lists μ → Prop
  | refused {ev : IpcEvent μ} (h : ev.refused) : ListStep s ev s
  | created {desc : ChannelDesc} {owner : Option Nat} (h : s desc.id = none) :
      ListStep s (.create desc owner (.ok ())) (update s desc.id (some []))
  | sent {caller chan : Nat} {target wake : Option Nat} {msg : μ} {l : List (Envelope μ)}
      (h : s chan = some l) :
      ListStep s (.send caller target chan msg (.ok wake))
        (update s chan (some (l ++ [⟨caller, target.getD 0, msg⟩])))
  | received {caller chan : Nat} {l : List (Envelope μ)} {env : Envelope μ} (h : s chan = some l)
      (henv : l.find? (Envelope.eligible caller) = some env) :
      ListStep s (.receive caller chan (.ok (env.sender, env.message)))
        (update s chan (some (l.eraseP (Envelope.eligible caller))))
  | took {caller chan : Nat} {l : List (Envelope μ)} {env : Envelope μ} (h : s chan = some l)
      (henv : l.find? (Envelope.eligible caller) = some env) :
      ListStep s (.receiveOrRegister caller chan (.ok (some (env.sender, env.message))))
        (update s chan (some (l.eraseP (Envelope.eligible caller))))
  | waits {caller chan : Nat} {l : List (Envelope μ)} (h : s chan = some l)
      (hnone : l.find? (Envelope.eligible caller) = none) :
      ListStep s (.receiveOrRegister caller chan (.ok none)) s
  | registered {caller chan : Nat} : ListStep s (.register caller chan (.ok ())) s

namespace ChannelTable

variable {t t' : ChannelTable μ} {chan : Nat} {c : Channel μ}

lemma lists_eq (h : t.channel? chan = some c) (hl : c.queue.toList = l) : t.lists chan = some l := by
  simp [lists, h, hl]

lemma lists_update (h : ∀ other, t'.channel? other = if other = chan then some c' else t.channel? other) :
    t'.lists = update t.lists chan (some c'.queue.toList) := by
  funext other
  by_cases heq : other = chan
  · subst heq
    simp [lists, h]
  · simp [lists, h, heq]

lemma Swaps.lists_same (h : t.Swaps chan c c' t') (hq : c'.queue = c.queue) : t'.lists = t.lists := by
  rw [lists_update h.new, hq, update_eq_self_iff]
  exact (lists_eq h.old rfl).symm

lemma configure_toList (c : Channel μ) (desc : ChannelDesc) (owner : Option Nat) :
    (c.configure desc owner).queue.toList = [] := by
  simp [Channel.configure, MessageQueue.toList, MessageQueue.reset]

end ChannelTable

open ChannelTable in
/-- Every call of the table is a step of the lists. -/
lemma TableStep.lists (ht : t.Valid) (h : TableStep t ev t') : t'.Valid ∧ ListStep t.lists ev t'.lists := by
  cases h with
  | create desc owner =>
    generalize hc : t.create desc owner = out
    obtain ⟨r, t'⟩ := out
    obtain ⟨hr, rfl⟩ | ⟨c, rfl, hfr, hv, hf⟩ := create_spec ht hc
    · exact ⟨ht, .refused hr⟩
    · refine ⟨hv, ?_⟩
      rw [lists_update hf, configure_toList]
      exact .created (by simp [ChannelTable.lists, hfr])
  | send caps caller target chan msg =>
    generalize hc : t.send caps caller target chan msg = out
    obtain ⟨r, t'⟩ := out
    obtain ⟨hr, rfl⟩ | ⟨c, q, rfl, hv, hl, hs⟩ := send_cases ht hc
    · exact ⟨ht, .refused hr⟩
    · refine ⟨hv, ?_⟩
      rw [lists_update hs.new, hl]
      exact .sent (lists_eq hs.old rfl)
  | receive caps caller chan =>
    generalize hc : t.receive caps caller chan = out
    obtain ⟨r, t'⟩ := out
    obtain ⟨hr, rfl⟩ | ⟨c, q, env, rfl, hv, hf, hl, hs⟩ := receive_cases ht hc
    · exact ⟨ht, .refused hr⟩
    · refine ⟨hv, ?_⟩
      rw [lists_update hs.new, hl]
      exact .received (lists_eq hs.old rfl) hf
  | receiveOrRegister caps caller chan =>
    generalize hc : t.receiveOrRegisterWaiter caps caller chan = out
    obtain ⟨r, t'⟩ := out
    obtain ⟨hr, rfl⟩ | ⟨c, q, env, rfl, hv, hf, hl, hs⟩ |
      ⟨c, ws, rfl, hv, hn, -, hs⟩ := receiveOrRegisterWaiter_cases ht hc
    · exact ⟨ht, .refused hr⟩
    · refine ⟨hv, ?_⟩
      rw [lists_update hs.new, hl]
      exact .took (lists_eq hs.old rfl) hf
    · refine ⟨hv, ?_⟩
      rw [hs.lists_same rfl]
      exact .waits (lists_eq hs.old rfl) hn
  | register caps caller chan =>
    generalize hc : t.registerWaiter caps caller chan = out
    obtain ⟨r, t'⟩ := out
    obtain ⟨hr, rfl⟩ | ⟨c, ws, rfl, hv, -, hs⟩ := registerWaiter_cases ht hc
    · exact ⟨ht, .refused hr⟩
    · refine ⟨hv, ?_⟩
      rw [hs.lists_same rfl]
      exact .registered

/-! ## Nothing is lost and nothing comes twice -/

def IpcEvent.sentOn (chan : Nat) : IpcEvent μ → Option (Envelope μ)
  | .send caller target ch msg (.ok _) => if ch = chan then some ⟨caller, target.getD 0, msg⟩ else none
  | _ => none

/-- The receiver, the sender and the message of a call that received from a channel. -/
def IpcEvent.receivedOn (chan : Nat) : IpcEvent μ → Option (Nat × Nat × μ)
  | .receive caller ch (.ok got) => if ch = chan then some (caller, got) else none
  | .receiveOrRegister caller ch (.ok (some got)) => if ch = chan then some (caller, got) else none
  | _ => none

def receipt (got : Nat × Envelope μ) : Nat × Nat × μ := (got.1, got.2.sender, got.2.message)

/-- The books of a channel: what was sent is what the receivers got, each an envelope for them, and
what still waits. -/
structure Accounted (chan : Nat) (es : List (IpcEvent μ)) (queued : List (Envelope μ))
    (got : List (Nat × Envelope μ)) : Prop where
  received : es.filterMap (IpcEvent.receivedOn chan) = got.map receipt
  targeted : ∀ g ∈ got, g.2.target = 0 ∨ g.2.target = g.1
  conserved : (es.filterMap (IpcEvent.sentOn chan)).Perm (got.map Prod.snd ++ queued)

lemma perm_cons_eraseP : ∀ {l : List α}, l.find? p = some a → l.Perm (a :: l.eraseP p)
  | b :: l, h => by
      by_cases hb : p b = true
      · obtain rfl : b = a := by simpa [hb] using h
        simp [hb]
      · rw [find?_cons_of_neg hb] at h
        rw [eraseP_cons_of_neg hb]
        exact ((perm_cons_eraseP h).cons b).trans (.swap a b _)

lemma ListStep.flow {s s' : Lists μ} {ev : IpcEvent μ} (h : ListStep s ev s') (chan : Nat) :
    (ev.sentOn chan = none ∧ ev.receivedOn chan = none ∧ (s' chan).getD [] = (s chan).getD []) ∨
    (∃ env, ev.sentOn chan = some env ∧ ev.receivedOn chan = none ∧ (s' chan).getD [] = (s chan).getD [] ++ [env]) ∨
    ∃ caller env, ev.sentOn chan = none ∧ ev.receivedOn chan = some (receipt (caller, env)) ∧
      (env.target = 0 ∨ env.target = caller) ∧
      ((s chan).getD []).Perm (env :: (s' chan).getD []) := by
  have taken {caller ch : Nat} {l : List (Envelope μ)} {env : Envelope μ} (hl : s ch = some l)
      (he : l.find? (Envelope.eligible caller) = some env) :
      (env.target = 0 ∨ env.target = caller) ∧ ((s ch).getD []).Perm
        (env :: (update s ch (some (l.eraseP (Envelope.eligible caller))) ch).getD []) := by
    refine ⟨Envelope.eligible_iff.mp (find?_some he), ?_⟩
    simpa [hl] using perm_cons_eraseP he
  cases h with
  | @refused ev hr =>
    refine .inl ⟨?_, ?_, rfl⟩
    · cases ev <;> first | rfl | (obtain ⟨e, rfl⟩ := hr; rfl)
    · cases ev <;> first | rfl | (obtain ⟨e, rfl⟩ := hr; rfl)
  | @created desc owner hf =>
    refine .inl ⟨rfl, rfl, ?_⟩
    by_cases heq : chan = desc.id
    · subst heq
      simp [hf]
    · simp [heq]
  | @sent caller ch target wake msg l hl =>
    by_cases heq : ch = chan
    · subst heq
      exact .inr (.inl ⟨⟨caller, target.getD 0, msg⟩, by simp [IpcEvent.sentOn], rfl, by simp [hl]⟩)
    · exact .inl ⟨by simp [IpcEvent.sentOn, heq], rfl, by simp [Ne.symm heq]⟩
  | @received caller ch l env hl he | @took caller ch l env hl he =>
    by_cases heq : ch = chan
    · subst heq
      obtain ⟨htr, hp⟩ := taken hl he
      exact .inr (.inr ⟨caller, env, rfl, by simp [IpcEvent.receivedOn, receipt], htr, hp⟩)
    · exact .inl ⟨rfl, by simp [IpcEvent.receivedOn, heq], by simp [Ne.symm heq]⟩
  | waits | registered => exact .inl ⟨rfl, rfl, rfl⟩

lemma ListStep.accounted (chan : Nat)
    (h : Run ListStep (fun _ => none) es s) : ∃ got, Accounted chan es ((s chan).getD []) got := by
  induction h with
  | nil => exact ⟨[], rfl, by simp, by simp⟩
  | snoc _ hst ih =>
  obtain ⟨got, hgt⟩ := ih
  obtain ⟨hs, hr, hm⟩ | ⟨env, hs, hr, hn⟩ |
    ⟨caller, env, hs, hr, htg, hp⟩ := hst.flow chan
  · refine ⟨got, ?_, hgt.targeted, ?_⟩
    · simp [hr, hgt.received]
    · simpa [hs, hm] using hgt.conserved
  · refine ⟨got, ?_, hgt.targeted, ?_⟩
    · simp [hr, hgt.received]
    · rw [hn, ← append_assoc]
      simpa [hs] using hgt.conserved.append_right [env]
  · refine ⟨got ++ [(caller, env)], ?_, ?_, ?_⟩
    · simp [hr, hgt.received]
    · intro g hg
      rcases mem_append.mp hg with hg | hg
      · exact hgt.targeted g hg
      · obtain rfl := mem_singleton.mp hg
        exact htg
    · have := hgt.conserved.trans (hp.append_left _)
      simpa [hs] using this

/-- Channels are lists of envelopes. Whatever the callers do, and whatever their capabilities are
at each call: the table's calls are steps of the lists, with the same results; no list is longer
than its channel's capacity; and on every channel what was sent is what was received, by its target,
and what still waits. -/
theorem channels_refine_lists [Inhabited μ] {es : List (IpcEvent μ)} {t : ChannelTable μ} (h : Run TableStep .new es t) :
    Run ListStep (fun _ => none) es t.lists ∧
    (∀ chan c, t.channel? chan = some c → c.queue.toList.length ≤ c.capacity ∧ c.capacity ≤ maxQueue) ∧
    ∀ chan, ∃ got, Accounted chan es ((t.lists chan).getD []) got := by
  have hn : (ChannelTable.new : ChannelTable μ).lists = fun _ => none := by
    funext chan
    rw [ChannelTable.lists, ChannelTable.channel?, map_eq_none_iff, find?_eq_none]
    intro c hc
    obtain rfl := eq_of_mem_replicate hc
    simp [ChannelTable.isChannel, Channel.new]
  have hrun : t.Valid ∧ Run ListStep (fun _ => none) es t.lists := by
    induction h with
    | nil => exact ⟨ChannelTable.new_valid, hn ▸ .nil⟩
    | snoc _ hs ih =>
      obtain ⟨hv, hl⟩ := hs.lists ih.1
      exact ⟨hv, ih.2.snoc hl⟩
  refine ⟨hrun.2, fun chan c hc => ?_, fun chan => ListStep.accounted chan hrun.2⟩
  have hv := hrun.1 c (ChannelTable.mem_of_channel? hc)
  rw [MessageQueue.length_toList]
  exact ⟨hv.len_le, hv.capacity_le⟩

/-- A message for everybody is received once. -/
theorem channels_refine_lists_broadcast : ∃ t : ChannelTable Nat,
      Run TableStep .new [.create ⟨1, 4, 0, 0⟩ none (.ok ()), .send 7 none 1 42 (.ok none),
        .receive 8 1 (.ok (7, 42)), .receive 9 1 (.error .empty)] t ∧
      (∀ chan c, t.channel? chan = some c → c.queue.toList.length ≤ c.capacity ∧ c.capacity ≤ maxQueue) := by
  have hc := Run.single (TableStep.create (t := (.new : ChannelTable Nat)) ⟨1, 4, 0, 0⟩ none)
  have hrun := ((hc.snoc (.send (fun _ => 0) 7 none 1 42)).snoc (.receive (fun _ => 0) 8 1)).snoc
    (.receive (fun _ => 0) 9 1)
  exact ⟨_, hrun, (channels_refine_lists hrun).2.1⟩

end ZeroOS.Ipc
