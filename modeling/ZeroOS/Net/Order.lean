import ZeroOS.Net.Receive

/-!
# The order of the packets for a next hop

`send_ip` sends a packet if the address of its next hop is known, and otherwise lets it wait. The line of a next hop
is what was sent to it and, behind that, what waits. The order of the calls is that of the numbers in the packets,
which `send_ip` gives one after the other.
-/

namespace ZeroOS.Net

open List Transition Wire

/-- A call of `send_ip`, or a frame that comes in. -/
inductive Act
  | send (dst : Ipv4) (body : Body)
  | ingest (frame : Bytes) (now : Nat) (diag : Bytes)

def Act.Step (s : NetStack) (a : Act) (s' : NetStack) : Prop :=
  match a with
  | .send dst body => s' = s.sendIp dst body
  | .ingest frame now diag => s' = s.ingest frame now diag

/-- No packet waits for the sender of the packet that comes in. -/
def Act.Calm (s : NetStack) : Act → Prop
  | .send .. => True
  | .ingest frame .. => ∀ mac p, s.accepts frame = some (mac, p) → ∀ e ∈ s.pending, e.1 ≠ p.src

namespace NetStack

variable {s s' : NetStack} {new : List Packet}

def toward (s : NetStack) (hop : Ipv4) : Frame → Option Packet
  | .ipv4 _ p => if s.route p.dst = hop then some p else none
  | .arp .. => none

/-- The packets for a next hop, the ones that wait behind the others. -/
def line (s : NetStack) (hop : Ipv4) : List Packet :=
  s.out.filterMap (s.toward hop) ++ (s.pending.filter (·.1 == hop)).map Prod.snd

/-- No packet waits for an address that is known. -/
structure Flushed (s : NetStack) : Prop where
  unknown : ∀ e ∈ s.pending, s.findMac e.1 = none
  hop : ∀ e ∈ s.pending, s.route e.2.dst = e.1

/-- The next numbers of `send_ip`. -/
def numbers (s : NetStack) (n : Nat) : List (BitVec 16) := (range n).map fun k => s.ipId + .ofNat 16 k

/-- The lines have grown by the packets of some calls of `send_ip`, in the order of the calls. -/
structure Grows (s s' : NetStack) (new : List Packet) : Prop where
  flushed : s'.Flushed
  cfg : s'.cfg = s.cfg
  dhcp : s'.dhcp = s.dhcp
  ipId : s'.ipId = s.ipId + .ofNat 16 new.length
  ids : new.map Packet.id = s.numbers new.length
  line (hop : Ipv4) : s'.line hop = s.line hop ++ new.filter (s.route ·.dst == hop)

lemma Grows.trans (h : Grows s s' new) (h' : Grows s' s'' new') :
    Grows s s'' (new ++ new') := by
  have hr : s'.route = s.route := by
    funext dst
    rw [route, route, h.cfg]
  refine ⟨h'.flushed, h'.cfg.trans h.cfg, h'.dhcp.trans h.dhcp, ?_, ?_, fun hop => ?_⟩
  · rw [h'.ipId, h.ipId, length_append, BitVec.ofNat_add, BitVec.add_assoc]
  · rw [map_append, h.ids, h'.ids, numbers, numbers, numbers, length_append, range_add, map_append, map_map]
    simp only [h.ipId, Function.comp_def, BitVec.ofNat_add, BitVec.add_assoc]
  · rw [h'.line, h.line, filter_append, append_assoc, hr]

lemma Grows.none (h : s'.Flushed) (hc : s'.cfg = s.cfg) (hd : s'.dhcp = s.dhcp) (hi : s'.ipId = s.ipId)
    (hl : ∀ hop, s'.line hop = s.line hop) : Grows s s' [] :=
  ⟨h, hc, hd, hi.trans (BitVec.add_zero _).symm, rfl, fun hop => (hl hop).trans (append_nil _).symm⟩

lemma Grows.refl (h : s.Flushed) : Grows s s [] := .none h rfl rfl rfl fun _ => rfl

lemma Grows.arp (h : s.Flushed) (mac : Mac) (payload : Bytes) : Grows s { s with out := s.out ++ [.arp mac payload] } [] := by
  refine .none ⟨h.unknown, h.hop⟩ rfl rfl rfl fun hop => ?_
  change (s.out ++ _).filterMap (s.toward hop) ++ _ = _
  simp [NetStack.line, toward]

lemma Grows.request (h : Grows s s' new) (ip : Ipv4) : Grows s (s'.queueArpRequest ip) new := by
  unfold queueArpRequest
  split
  · exact append_nil new ▸ h.trans (.arp h.flushed ..)
  · exact h

lemma filter_pending (h : s.Flushed) (hk : s.findMac hop ≠ none) : s.pending.filter (·.1 == hop) = [] := by
  refine filter_eq_nil_iff.mpr fun e he heq => hk ?_
  rw [← beq_iff_eq.mp heq]
  exact h.unknown e he

lemma grows_sendIp (h : s.Flushed) (dst : Ipv4) (body : Body) : ∃ new, Grows s (s.sendIp dst body) new := by
  rw [sendIp]
  split
  · dsimp only
    generalize hp : (⟨s.cfg.ip, dst, s.ipId, body⟩ : Packet) = p
    have hs : [p].map Packet.id = s.numbers 1 := by simp [numbers, ← hp]
    have hd : p.dst = dst := by rw [← hp]
    split
    next mac hm =>
      refine ⟨[p], ⟨h.unknown, h.hop⟩, rfl, rfl, rfl, hs, fun hop => ?_⟩
      change (s.out ++ _).filterMap (s.toward hop) ++ _ = s.line hop ++ _
      by_cases hop : s.route dst = hop
      · subst hop
        simp [line, toward, hd, filter_pending h (by simp [hm] : s.findMac (s.route dst) ≠ none)]
      · simp [line, toward, hd, hop]
    next hm =>
      split
      · refine ⟨[p], .request ?_ _⟩
        refine ⟨⟨fun e he => ?_, fun e he => ?_⟩, rfl, rfl, rfl, hs, fun hop => ?_⟩
        · obtain he | he := mem_append.mp he
          · exact h.unknown e he
          · rw [mem_singleton.mp he]
            exact hm
        · obtain he | he := mem_append.mp he
          · exact h.hop e he
          · rw [mem_singleton.mp he, hd]
            rfl
        · change s.out.filterMap (s.toward hop) ++ _ = s.line hop ++ _
          by_cases hop : s.route dst = hop <;> simp [line, hd, hop]
      · exact ⟨[], .request (.refl h) _⟩
  · exact ⟨[], .refl h⟩

lemma findMac_eq_none : s.findMac hop = none ↔ ∀ e ∈ s.arp, e.ip ≠ hop := by
  simp [findMac]

lemma learnArp_spec (s : NetStack) (ip : Ipv4) (mac : Mac) (now : Nat) : ∃ arp, s.learnArp ip mac now = { s with arp } ∧
    ∀ hop ≠ ip, s.findMac hop = none → ∀ e ∈ arp, e.ip ≠ hop := by
  unfold learnArp
  split
  · exact ⟨s.arp, rfl, fun hop _ hn => findMac_eq_none.mp hn⟩
  split
  next i _ =>
    refine ⟨_, rfl, fun hop _ hn e he => ?_⟩
    obtain ⟨j, hj⟩ := getElem?_of_mem he
    rw [getElem?_modify] at hj
    obtain ⟨e', he', rfl⟩ := Option.map_eq_some_iff.mp hj
    have hne := findMac_eq_none.mp hn e' (mem_of_getElem? he')
    split
    · exact hne
    · exact hne
  · refine ⟨_, rfl, fun hop hip hn e he => ?_⟩
    obtain he | he := mem_append.mp he
    · refine findMac_eq_none.mp hn e ?_
      split at he
      · exact mem_of_mem_tail he
      · exact he
    · rw [mem_singleton.mp he]
      exact hip.symm

lemma grows_learnArp (h : s.Flushed) (hc : ∀ e ∈ s.pending, e.1 ≠ ip) (mac : Mac) (now : Nat) :
    Grows s (s.learnArp ip mac now) [] := by
  obtain ⟨arp, heq, hn⟩ := s.learnArp_spec ip mac now
  rw [heq]
  exact .none ⟨fun e he => findMac_eq_none.mpr (hn e.1 (hc e he) (h.unknown e he)), h.hop⟩ rfl rfl rfl fun _ => rfl

lemma grows_reply (h : s.Flushed) (ip : Ipv4) (mac : Mac) (now : Nat) :
    Grows s ((s.learnArp ip mac now).flushPending ip) [] := by
  obtain ⟨arp, heq, hn⟩ := s.learnArp_spec ip mac now
  rw [heq, flushPending]
  have hu : ∀ e ∈ s.pending, e.1 ≠ ip → findMac { s with arp } e.1 = none := fun e he hne =>
    findMac_eq_none.mpr (hn e.1 hne (h.unknown e he))
  split
  next hm =>
    refine .none ⟨fun e he => ?_, h.hop⟩ rfl rfl rfl fun _ => rfl
    by_cases hip : e.1 = ip
    · rw [hip]
      exact hm
    · exact hu e he hip
  next mac' _ =>
    rw [partition_eq_filter_filter]
    have hs : ∀ e ∈ s.pending.filter (not ∘ (·.1 == ip)), e ∈ s.pending ∧ e.1 ≠ ip := by simp
    refine .none ⟨fun e he => hu e (hs e he).1 (hs e he).2, fun e he => h.hop e (hs e he).1⟩ rfl rfl rfl fun hop => ?_
    change (s.out ++ (s.pending.filter _).map _).filterMap (s.toward hop) ++ ((s.pending.filter _).filter _).map _ = _
    rw [filterMap_append, line, append_assoc, append_cancel_left_eq, filterMap_map]
    have hg : ∀ e ∈ s.pending.filter (·.1 == ip), (s.toward hop ∘ fun e => .ipv4 mac' e.2) e =
        if ip = hop then some e.2 else none := by
      intro e he
      obtain ⟨hme, heq⟩ := mem_filter.mp he
      rw [Function.comp, toward, h.hop e hme, beq_iff_eq.mp heq]
    by_cases hip : ip = hop
    · subst hip
      rw [filterMap_eq_map_iff_forall_eq_some.mpr fun e he => (hg e he).trans (if_pos rfl),
        filter_eq_nil_iff.mpr fun e he heq => (hs e he).2 (beq_iff_eq.mp heq), map_nil, append_nil]
    · rw [filterMap_eq_nil_iff.mpr fun e he => (hg e he).trans (if_neg hip), nil_append, filter_filter]
      congr 1
      refine filter_congr fun e _ => ?_
      by_cases heq : e.1 = hop
      · simp [heq, Ne.symm hip]
      · simp [heq]

lemma grows_ingestArp (h : s.Flushed) (p : Bytes) (now : Nat) : Grows s (s.ingestArp p now) [] := by
  unfold ingestArp
  split
  · exact .refl h
  dsimp only
  split
  · exact grows_reply h _ _ now
  split
  · exact .arp h ..
  · exact .refl h

lemma grows_sendTcpIndex (h : s.Flushed) (i : Nat) (flags : UInt8) (data : Bytes) :
    ∃ new, Grows s (s.sendTcpIndex i flags data) new := by
  unfold sendTcpIndex
  split
  · exact ⟨[], .refl h⟩
  unfold sendTcpRaw
  split
  · exact ⟨[], .refl h⟩
  · exact grows_sendIp h ..

lemma grows_ingestUdp (hb : s.bound = true) (h : s.Flushed) (src : Ipv4) (b : Bytes) (now : Nat) (diag : Bytes) :
    ∃ new, Grows s (s.ingestUdp src b now diag) new := by
  have hd (data : Bytes) : s.ingestDhcp data now = s := by
    simp only [bound, Bool.and_eq_true, decide_eq_true_eq] at hb
    unfold ingestDhcp
    split
    · rfl
    · rw [hb.1]
  unfold ingestUdp
  dsimp only
  rw [hd]
  repeat' split
  all_goals first | exact ⟨[], .refl h⟩ | exact grows_sendIp h .. | exact ⟨[], .none ⟨h.unknown, h.hop⟩ rfl rfl rfl fun _ => rfl⟩

lemma grows_ingest (hb : s.bound = true) (h : s.Flushed)
    (hc : ∀ mac p, s.accepts frame = some (mac, p) → ∀ e ∈ s.pending, e.1 ≠ p.src) (now : Nat) (diag : Bytes) :
    ∃ new, Grows s (s.ingest frame now diag) new := by
  unfold ingest
  split
  next mac p ha =>
    have hl := grows_learnArp h (hc mac p ha) mac now
    have hb' : (s.learnArp p.src mac now).bound = true := by rw [bound, hl.dhcp, hl.cfg]; exact hb
    refine Exists.imp (fun _ => hl.trans) ?_
    have h := hl.flushed
    dsimp only
    generalize s.learnArp p.src mac now = s at h hb'
    split
    · unfold ingestIcmp
      repeat' split
      all_goals first | exact ⟨[], .refl h⟩ | exact grows_sendIp h .. | exact ⟨[], .none ⟨h.unknown, h.hop⟩ rfl rfl rfl fun _ => rfl⟩
    split
    · exact grows_ingestUdp hb' h ..
    split
    · unfold ingestTcp
      dsimp only
      have hs (tcp : List TcpSocket) : Grows s { s with tcp } [] := .none ⟨h.unknown, h.hop⟩ rfl rfl rfl fun _ => rfl
      repeat' split
      all_goals try exact ⟨[], .refl h⟩
      · exact (grows_sendTcpIndex (hs _).flushed ..).imp fun _ => (hs _).trans
      · exact ⟨[], hs _⟩
    · exact ⟨[], .refl h⟩
  · repeat' split
    all_goals first | exact ⟨[], .refl h⟩ | exact ⟨[], grows_ingestArp h ..⟩

/-- The packets for a next hop go out in the order of the calls of `send_ip`, and none waits for an address that is
known, if no packet waits for the sender of a packet that comes in. -/
theorem hop_order {acts : List Act} (hb : s.bound = true) (h : s.Flushed) (hrun : Run (Guarded Act.Calm Act.Step) s acts s') :
    (∀ hop, s'.findMac hop ≠ none → ∀ e ∈ s'.pending, e.1 ≠ hop) ∧ ∃ sent : List Packet,
      sent.map Packet.id = s.numbers sent.length ∧ ∀ hop, s'.line hop = s.line hop ++ sent.filter (s.route ·.dst == hop) := by
  obtain ⟨sent, hg⟩ : ∃ sent, Grows s s' sent := by
    induction hrun with
    | nil => exact ⟨[], .refl h⟩
    | @snoc _ s₁ _ a _ ht ih =>
      obtain ⟨sent, hs⟩ := ih
      refine Exists.elim ?_ fun new hn => ⟨sent ++ new, hs.trans hn⟩
      obtain ⟨hc, ht⟩ := ht
      cases a with
      | send dst body =>
        cases ht
        exact grows_sendIp hs.flushed dst body
      | ingest frame now diag =>
        cases ht
        exact grows_ingest (by rw [bound, hs.dhcp, hs.cfg]; exact hb) hs.flushed hc now diag
  refine ⟨fun hop hk e he heq => hk ?_, sent, hg.ids, hg.line⟩
  rw [← heq]
  exact hg.flushed.unknown e he

open Watch (hostMac hostIp peerMac peerIp)

def leased : NetStack := { NetStack.new hostMac with dhcp := .bound, cfg := ⟨hostIp, 0xffffff00, peerIp, 0, 0⟩ }

theorem hop_order_two : ∃ sent : List Packet, sent.map Packet.id = leased.numbers sent.length ∧
    ((leased.sendIp peerIp (.icmp [])).sendIp peerIp (.icmp [])).line peerIp =
      leased.line peerIp ++ sent.filter (leased.route ·.dst == peerIp) := by
  have hrun : Run (Guarded Act.Calm Act.Step) leased [.send peerIp (.icmp []), .send peerIp (.icmp [])]
      ((leased.sendIp peerIp (.icmp [])).sendIp peerIp (.icmp [])) := .cons ⟨trivial, rfl⟩ (.single ⟨trivial, rfl⟩)
  obtain ⟨-, sent, hd, hl⟩ := hop_order (by decide) ⟨by simp [leased, NetStack.new], by simp [leased, NetStack.new]⟩ hrun
  exact ⟨sent, hd, hl peerIp⟩

/-- A packet from the next hop makes its address known, but the packet that waits for it stays. -/
theorem overtaken : ∃ s', Run Act.Step leased [.send peerIp (.icmp []),
      .ingest (buildEth hostMac peerMac ethIpv4 (buildIpv4 peerIp hostIp .udp [] 0)) 0 [], .send peerIp (.icmp [])] s' ∧
    s'.findMac peerIp ≠ none ∧ s'.pending.map Prod.fst = [peerIp] ∧ (s'.line peerIp).map Packet.id = [2, 1] := by
  refine ⟨_, .cons rfl (.cons rfl (.single rfl)), ?_⟩
  decide +kernel

end NetStack

end ZeroOS.Net
