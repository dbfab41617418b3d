import ZeroOS.Net.Stack

/-!
# What an operation does to the connections

All that the operations of the stack can do to its connections, and the segments that they build on the way, is
said once (`run_effect`). A segment goes to the frames that are sent, or waits for the address of the next hop;
`segments` has both kinds, in no particular order.
-/

namespace ZeroOS.Net

open List Wire

def Packet.segments (p : Packet) : List TcpPacket :=
  match p.body with
  | .tcp t => [t]
  | .icmp _ | .udp _ _ _ => []

def Frame.segments : Frame → List TcpPacket
  | .arp _ _ => []
  | .ipv4 _ packet => packet.segments

namespace NetStack

variable {s s' s'' : NetStack} {new new' : List TcpPacket}

def segments (s : NetStack) : List TcpPacket := s.pending.flatMap (fun p => p.2.segments) ++ s.out.flatMap Frame.segments

/-- From `s` to `s'` the segments `new` are built. -/
def Emits (s s' : NetStack) (new : List TcpPacket) : Prop := s'.segments.Perm (s.segments ++ new)

lemma Emits.refl (s : NetStack) : Emits s s [] := by
  rw [Emits, append_nil]

lemma Emits.trans (h : Emits s s' new) (h' : Emits s' s'' new') : Emits s s'' (new ++ new') := by
  rw [Emits, ← append_assoc]
  exact List.Perm.trans h' (List.Perm.append_right new' h)

lemma Emits.of_eq (hp : s'.pending = s.pending) (ho : s'.out = s.out) : Emits s s' [] := by
  rw [Emits, segments, segments, hp, ho, append_nil]

lemma Emits.of_out {f : Frame} (hp : s'.pending = s.pending) (ho : s'.out = s.out ++ [f]) :
    Emits s s' f.segments := by
  rw [Emits, segments, segments, hp, ho, flatMap_append, flatMap_singleton, append_assoc]

lemma Emits.of_pending {ip : Ipv4} {p : Packet} (hp : s'.pending = s.pending ++ [(ip, p)])
    (ho : s'.out = s.out) : Emits s s' p.segments := by
  rw [Emits, segments, segments, hp, ho, flatMap_append, flatMap_singleton, append_assoc, append_assoc]
  exact perm_append_comm.append_left _

/-! ## Sending -/

/-- The connections stay and no segment is built. -/
def Keeps (s s' : NetStack) : Prop := s'.tcp = s.tcp ∧ Emits s s' []

lemma Keeps.refl (s : NetStack) : Keeps s s := ⟨rfl, .refl s⟩

lemma Keeps.trans (h : Keeps s s') (h' : Keeps s' s'') : Keeps s s'' := ⟨h'.1.trans h.1, h.2.trans h'.2⟩

lemma Keeps.of_out {f : Frame} (hf : f.segments = []) (ht : s'.tcp = s.tcp)
    (hp : s'.pending = s.pending) (ho : s'.out = s.out ++ [f]) : Keeps s s' := by
  have he := Emits.of_out hp ho
  rw [hf] at he
  exact ⟨ht, he⟩

lemma keeps_queueArpRequest (s : NetStack) (target : Ipv4) : Keeps s (s.queueArpRequest target) := by
  unfold queueArpRequest
  split
  · exact @Keeps.of_out _ _ (.arp _ _) rfl rfl rfl rfl
  · exact .refl s

lemma keeps_queueArpReply (s : NetStack) (mac : Mac) (ip : Ipv4) : Keeps s (s.queueArpReply mac ip) :=
  @Keeps.of_out _ _ (.arp _ _) rfl rfl rfl rfl

lemma keeps_learnArp (s : NetStack) (ip : Ipv4) (mac : Mac) (now : Nat) : Keeps s (s.learnArp ip mac now) := by
  unfold learnArp
  split
  · exact .refl s
  split
  · exact ⟨rfl, .of_eq rfl rfl⟩
  · exact ⟨rfl, .of_eq rfl rfl⟩

lemma keeps_sendUdpDirect (s : NetStack) (src dst : Ipv4) (sport dport : Port) (data : Bytes) (mac : Mac) :
    Keeps s (s.sendUdpDirect src dst sport dport data mac) :=
  @Keeps.of_out _ _ (.ipv4 _ _) rfl rfl rfl rfl

lemma keeps_flushPending (s : NetStack) (ip : Ipv4) : Keeps s (s.flushPending ip) := by
  unfold flushPending
  split
  · exact .refl s
  next mac _ =>
    refine ⟨rfl, ?_⟩
    have hg : ((s.pending.filter (·.1 == ip)).map (fun p => Frame.ipv4 mac p.2)).flatMap Frame.segments =
        (s.pending.filter (·.1 == ip)).flatMap fun p => p.2.segments := flatMap_map _ _ _
    have hs := (filter_append_perm (fun p : Ipv4 × Packet => p.1 == ip) s.pending).flatMap_right
      fun p => p.2.segments
    simp only [Emits, segments, partition_eq_filter_filter, append_nil, flatMap_append, hg]
    rw [flatMap_append] at hs
    -- the packets that go are behind the ones that were sent, and were among the ones that stay
    refine List.Perm.trans ?_ (hs.append_right _)
    rw [← append_assoc]
    exact perm_append_comm.trans (List.Perm.of_eq (append_assoc _ _ _).symm)

lemma sendIp_spec (s : NetStack) (dst : Ipv4) (body : Body) : (s.sendIp dst body).tcp = s.tcp ∧
      (Emits s (s.sendIp dst body) [] ∨ ∃ t, body = .tcp t ∧ Emits s (s.sendIp dst body) [t]) := by
  -- what a packet with this body adds
  have hb : ∀ (s' : NetStack) (id : BitVec 16), Emits s s' (Packet.segments ⟨s.cfg.ip, dst, id, body⟩) →
      Emits s s' [] ∨ ∃ t, body = .tcp t ∧ Emits s s' [t] := by
    intro s' id h
    cases body with
    | icmp bytes => exact .inl h
    | udp sport dport data => exact .inl h
    | tcp t => exact .inr ⟨t, rfl, h⟩
  unfold sendIp
  split
  · dsimp only
    split
    next mac _ => exact ⟨rfl, hb _ s.ipId (@Emits.of_out _ _ (.ipv4 mac _) rfl rfl)⟩
    · split
      · obtain ⟨ht, he⟩ := keeps_queueArpRequest
          { s with pending := s.pending ++ [(s.route dst, ⟨s.cfg.ip, dst, s.ipId, body⟩)], ipId := s.ipId + 1 }
          (s.route dst)
        refine ⟨ht, hb _ s.ipId ?_⟩
        have hbt := (@Emits.of_pending s { s with
          pending := s.pending ++ [(s.route dst, ⟨s.cfg.ip, dst, s.ipId, body⟩)], ipId := s.ipId + 1 }
          (s.route dst) _ rfl rfl).trans he
        rwa [append_nil] at hbt
      · obtain ⟨ht, he⟩ := keeps_queueArpRequest s (s.route dst)
        exact ⟨ht, .inl he⟩
  · exact ⟨rfl, .inl (.refl s)⟩

lemma keeps_sendIp (s : NetStack) (dst : Ipv4) (hb : ∀ t, body ≠ .tcp t) :
    Keeps s (s.sendIp dst body) := by
  obtain ⟨hc, he | ⟨t, ht, -⟩⟩ := s.sendIp_spec dst body
  · exact ⟨hc, he⟩
  · exact absurd ht (hb t)

/-- The segments are for the peer of a connection, with these flags, and acknowledge what comes before `ack`. -/
def Carries (sock : TcpSocket) (flags : UInt8) (ack : Seq) (new : List TcpPacket) : Prop :=
  ∀ t ∈ new, t.sport = sock.localPort ∧ t.dst = sock.remote ∧ t.dport = sock.remotePort ∧ t.flags = flags ∧ t.ack = ack

lemma sendTcpRaw_spec {i : Nat} {sock : TcpSocket} (hs : s.tcp[i]? = some sock) (seq ack : Seq)
    (flags : UInt8) (data : Bytes) :
    (s.sendTcpRaw i seq ack flags data).tcp = s.tcp ∧
      ∃ new, Emits s (s.sendTcpRaw i seq ack flags data) new ∧ Carries sock flags ack new := by
  unfold sendTcpRaw
  rw [hs]
  dsimp only
  obtain ⟨hc, he | ⟨t, ht, he⟩⟩ := s.sendIp_spec sock.remote (.tcp
    { src := s.cfg.ip, dst := sock.remote, sport := sock.localPort, dport := sock.remotePort, seq, ack, flags,
      window := .ofNat 16 (min (tcpRxCap - sock.rx.length) 65535), data })
  · exact ⟨hc, [], he, fun t ht => absurd ht not_mem_nil⟩
  · refine ⟨hc, [t], he, fun t' ht' => ?_⟩
    rw [mem_singleton.mp ht', ← Body.tcp.inj ht]
    exact ⟨rfl, rfl, rfl, rfl, rfl⟩

lemma sendTcpIndex_spec (hs : s.tcp[i]? = some sock) (flags : UInt8) (data : Bytes) :
    (s.sendTcpIndex i flags data).tcp = s.tcp ∧
      ∃ new, Emits s (s.sendTcpIndex i flags data) new ∧ Carries sock flags sock.rcvNxt new := by
  unfold sendTcpIndex
  rw [hs]
  exact sendTcpRaw_spec hs _ _ _ _

/-! ## Operations -/

/-- The segment of a frame that comes in, and the host that it is from. -/
def arrival (s : NetStack) (frame : Bytes) : Option (Ipv4 × Segment) :=
  match s.accepts frame with
  | some (_, p) => if p.proto = Proto.tcp.code then (parseTcp p.body).map fun seg => (p.src, seg) else none
  | none => none

/-- The operation is about a segment for the connection, or about what it has received. -/
def Touches (s : NetStack) (op : Op) (i : Nat) : Prop :=
  match op with
  | .ingest frame _ _ => ∃ src seg, s.arrival frame = some (src, seg) ∧ s.findTcp src seg = some i
  | .tcpRecv owner h _ => s.findHandle owner h = some i
  | _ => False

/-- What an operation does to the connections, and what it builds for them. -/
inductive Effect (s : NetStack) : Op → NetStack → Prop
  | quiet {op : Op} {s' : NetStack} (hno : ∀ i, ¬s.Touches op i) (hpop : op ≠ .popFrame) (h : Keeps s s') :
      Effect s op s'
  | pop {s' : NetStack} (htcp : s'.tcp = s.tcp) (gone : List TcpPacket)
      (h : s.segments.Perm (gone ++ s'.segments)) : Effect s .popFrame s'
  | tick {s' : NetStack} (now : Nat) (htcp : s'.tcp = s.tcp.map (TcpSocket.retried now)) (new : List TcpPacket)
      (h : Emits s s' new) (hsyn : ∀ t ∈ new, t.flags = 0x02) : Effect s (.tick now) s'
  | connect {s' : NetStack} (owner : Nat) (dst : Ipv4) (port : Port) (nowNs : BitVec 64) (sock : TcpSocket)
      (htcp : s'.tcp = s.tcp ++ [sock]) (hstate : sock.state = .synSent) (hrx : sock.rx = [])
      (hport : sock.localPort ∉ s.tcp.map TcpSocket.localPort) (new : List TcpPacket) (h : Emits s s' new)
      (hsyn : ∀ t ∈ new, t.flags = 0x02) : Effect s (.tcpConnect owner dst port nowNs) s'
  | send {s' : NetStack} (owner : Nat) (hd : BitVec 32) (data : Bytes) (i : Nat) (sock : TcpSocket) (n : Seq)
      (hsock : s.tcp[i]? = some sock) (htcp : s'.tcp = s.tcp.set i { sock with sndNxt := sock.sndNxt + n })
      (new : List TcpPacket) (h : Emits s s' new) (hack : Carries sock 0x18 sock.rcvNxt new) :
      Effect s (.tcpSend owner hd data) s'
  | recv {s' : NetStack} (owner : Nat) (hd : BitVec 32) (max i : Nat) (sock : TcpSocket)
      (hfind : s.findHandle owner hd = some i) (hsock : s.tcp[i]? = some sock)
      (hout : (s.tcpRecv owner hd max).1 = some (sock.rx.take (min max sock.rx.length)))
      (htcp : s'.tcp = s.tcp.set i { sock with rx := sock.rx.drop (min max sock.rx.length) })
      (new : List TcpPacket) (h : Emits s s' new) (hack : Carries sock 0x10 sock.rcvNxt new) :
      Effect s (.tcpRecv owner hd max) s'
  | segment {s' : NetStack} (frame : Bytes) (now : Nat) (diag : Bytes) (src : Ipv4) (seg : Segment) (i : Nat)
      (sock : TcpSocket) (harrival : s.arrival frame = some (src, seg)) (hfind : s.findTcp src seg = some i)
      (hsock : s.tcp[i]? = some sock) (htcp : s'.tcp = s.tcp.set i (sock.receive seg).1) (new : List TcpPacket)
      (h : Emits s s' new) (hack : Carries sock 0x10 (sock.receive seg).1.rcvNxt new)
      (hquiet : (sock.receive seg).2 = false → new = []) : Effect s (.ingest frame now diag) s'

/-! ### Ticks -/

lemma keeps_sendDiscover (s : NetStack) (now : Nat) : Keeps s (s.sendDiscover now) :=
  (keeps_sendUdpDirect s _ _ _ _ _ _).trans ⟨rfl, .of_eq rfl rfl⟩

lemma keeps_sendRequest (s : NetStack) (xid : BitVec 32) (offer server : Ipv4) (now : Nat) :
    Keeps s (s.sendRequest xid offer server now) :=
  (keeps_sendUdpDirect s _ _ _ _ _ _).trans ⟨rfl, .of_eq rfl rfl⟩

lemma retry_spec (s : NetStack) (retries : List Nat) : (retries.foldl (fun s i =>
      match s.tcp[i]? with
      | none => s
      | some sock => s.sendTcpRaw i (sock.sndNxt - 1) 0 0x02 []) s).tcp = s.tcp ∧
    ∃ new, Emits s (retries.foldl (fun s i =>
      match s.tcp[i]? with
      | none => s
      | some sock => s.sendTcpRaw i (sock.sndNxt - 1) 0 0x02 []) s) new ∧ ∀ t ∈ new, t.flags = 0x02 := by
  induction retries generalizing s with
  | nil => exact ⟨rfl, [], .refl s, fun t ht => absurd ht not_mem_nil⟩
  | cons i retries ih =>
    rw [foldl_cons]
    cases hs : s.tcp[i]? with
    | none => exact ih s
    | some sock =>
      obtain ⟨htc, new, he, hc⟩ := sendTcpRaw_spec hs (sock.sndNxt - 1) 0 0x02 []
      obtain ⟨htc', new', he', hy⟩ := ih (s.sendTcpRaw i (sock.sndNxt - 1) 0 0x02 [])
      refine ⟨htc'.trans htc, new ++ new', he.trans he', fun t ht => ?_⟩
      rcases mem_append.mp ht with ht | ht
      · exact (hc t ht).2.2.2.1
      · exact hy t ht

lemma effect_tick (s : NetStack) (now : Nat) : Effect s (.tick now) (s.tick now) := by
  unfold tick
  have hd : ∀ s₁ : NetStack, Keeps s s₁ → Effect s (.tick now) (s₁.tickTcp now) := by
    intro s₁ ⟨ht, he⟩
    obtain ⟨ht', new, he', hs⟩ := retry_spec { s₁ with tcp := s₁.tcp.map (TcpSocket.retried now) }
      (s₁.tcp.findIdxs (TcpSocket.retries now))
    refine .tick now ?_ new ?_ hs
    · exact ht'.trans (by rw [ht])
    · have hm : Emits s₁ { s₁ with tcp := s₁.tcp.map (TcpSocket.retried now) } [] := .of_eq rfl rfl
      exact (he.trans hm).trans he'
  apply hd
  split
  · exact keeps_sendDiscover s now
  · split
    · exact keeps_sendDiscover s now
    · exact .refl s
  · split
    · exact keeps_sendRequest s _ _ _ now
    · exact .refl s
  · exact .refl s

/-! ### Frames that come in -/

lemma keeps_ingestArp (s : NetStack) (p : Bytes) (now : Nat) : Keeps s (s.ingestArp p now) := by
  unfold ingestArp
  split
  · exact .refl s
  dsimp only
  split
  · exact (keeps_learnArp s _ _ _).trans (keeps_flushPending _ _)
  split
  · exact keeps_queueArpReply s _ _
  · exact .refl s

lemma keeps_ingestIcmp (s : NetStack) (src : Ipv4) (b : Bytes) : Keeps s (s.ingestIcmp src b) := by
  unfold ingestIcmp
  split
  · exact .refl s
  split
  · exact ⟨rfl, .of_eq rfl rfl⟩
  split
  · exact keeps_sendIp s src fun t ht => by cases ht
  · exact .refl s

lemma keeps_ingestDhcp (s : NetStack) (b : Bytes) (now : Nat) : Keeps s (s.ingestDhcp b now) := by
  unfold ingestDhcp
  split
  · exact .refl s
  split
  · split
    · exact keeps_sendRequest s _ _ _ now
    · exact .refl s
  · split
    · exact ⟨rfl, .of_eq rfl rfl⟩
    · exact .refl s
  · exact .refl s
  · exact .refl s

lemma keeps_ingestUdp (s : NetStack) (src : Ipv4) (b : Bytes) (now : Nat) (diag : Bytes) :
    Keeps s (s.ingestUdp src b now diag) := by
  unfold ingestUdp
  split
  · exact .refl s
  dsimp only
  split
  · exact .refl s
  split
  · exact keeps_sendIp s src fun t ht => by cases ht
  split
  · exact keeps_ingestDhcp s _ now
  split
  · exact .refl s
  · exact ⟨rfl, .of_eq rfl rfl⟩

lemma findTcp_eq_some (h : s.findTcp src seg = some i) :
    ∃ sock, s.tcp[i]? = some sock ∧ sock.localPort = seg.dport ∧ sock.remote = src ∧ sock.remotePort = seg.sport := by
  obtain ⟨hi, hm, -⟩ := findIdx?_eq_some_iff_getElem.mp h
  simp only [Bool.and_eq_true, beq_iff_eq] at hm
  exact ⟨s.tcp.get ⟨i, hi⟩, getElem?_eq_getElem hi, hm.1.1, hm.1.2, hm.2⟩

lemma receive_ends (sock : TcpSocket) (seg : Segment) :
    (sock.receive seg).1.localPort = sock.localPort ∧ (sock.receive seg).1.remote = sock.remote ∧
      (sock.receive seg).1.remotePort = sock.remotePort := by
  unfold TcpSocket.receive
  split
  · split <;> exact ⟨rfl, rfl, rfl⟩
  · dsimp only
    split <;> split <;> exact ⟨rfl, rfl, rfl⟩
  · exact ⟨rfl, rfl, rfl⟩

lemma ingestTcp_spec (s : NetStack) (src : Ipv4) (b : Bytes) :
    ((∀ seg i, parseTcp b = some seg → s.findTcp src seg ≠ some i) ∧ Keeps s (s.ingestTcp src b)) ∨
    ∃ seg i sock new, parseTcp b = some seg ∧ s.findTcp src seg = some i ∧ s.tcp[i]? = some sock ∧
      (s.ingestTcp src b).tcp = s.tcp.set i (sock.receive seg).1 ∧ Emits s (s.ingestTcp src b) new ∧
      Carries sock 0x10 (sock.receive seg).1.rcvNxt new ∧ ((sock.receive seg).2 = false → new = []) := by
  unfold ingestTcp
  cases hps : parseTcp b with
  | none => exact .inl ⟨fun seg i h => (by cases h), .refl s⟩
  | some seg =>
    dsimp only
    cases hi : s.findTcp src seg with
    | none =>
      refine .inl ⟨fun seg' i h => ?_, .refl s⟩
      rw [← Option.some.inj h, hi]
      exact fun h => by cases h
    | some i =>
      obtain ⟨sock, hs, -⟩ := findTcp_eq_some hi
      obtain ⟨hp, hr, hremotePort⟩ := receive_ends sock seg
      have hst : ({ s with tcp := s.tcp.set i (sock.receive seg).1 } : NetStack).tcp[i]? =
          some (sock.receive seg).1 := List.getElem?_set_self (List.getElem?_eq_some_iff.mp hs).1
      have he : Emits s { s with tcp := s.tcp.set i (sock.receive seg).1 } [] := .of_eq rfl rfl
      obtain ⟨htc, new, he', hc⟩ := sendTcpIndex_spec hst 0x10 []
      dsimp only
      rw [hs]
      dsimp only
      split
      next ha =>
        refine .inr ⟨seg, i, sock, new, rfl, hi, hs, htc, he.trans he', ?_, fun h => ?_⟩
        · rw [Carries, hp, hr, hremotePort] at hc
          exact hc
        · rw [ha] at h
          cases h
      · exact .inr ⟨seg, i, sock, [], rfl, hi, hs, rfl, he, fun t ht => absurd ht not_mem_nil,
          fun _ => rfl⟩

lemma arrival_eq_none (h : ∀ mac p, s.accepts frame = some (mac, p) → p.proto ≠ Proto.tcp.code) :
    s.arrival frame = none := by
  unfold arrival
  split
  next mac p ha => rw [if_neg (h mac p ha)]
  · rfl

lemma not_touches_of_arrival (h : s.arrival frame = none) (now : Nat) (diag : Bytes) (i : Nat) :
    ¬s.Touches (.ingest frame now diag) i := by
  rintro ⟨src, seg, ha, -⟩
  rw [h] at ha
  cases ha

lemma effect_ingest (s : NetStack) (frame : Bytes) (now : Nat) (diag : Bytes) :
    Effect s (.ingest frame now diag) (s.ingest frame now diag) := by
  have hp : Op.ingest frame now diag ≠ .popFrame := fun h => by cases h
  unfold ingest
  split
  next ethSrc p ha =>
    have hl := keeps_learnArp s p.src ethSrc now
    dsimp only
    by_cases ht : p.proto = Proto.tcp.code
    · have hic : p.proto ≠ Proto.icmp.code := by rw [ht]; decide
      have hu : p.proto ≠ Proto.udp.code := by rw [ht]; decide
      have har : s.arrival frame = (parseTcp p.body).map fun seg => (p.src, seg) := by
        unfold arrival
        rw [ha]
        exact if_pos ht
      have hf : ∀ seg, (s.learnArp p.src ethSrc now).findTcp p.src seg = s.findTcp p.src seg := by
        intro seg
        unfold findTcp
        rw [hl.1]
      rw [if_neg hic, if_neg hu, if_pos ht]
      rcases (s.learnArp p.src ethSrc now).ingestTcp_spec p.src p.body with
        ⟨hn, hk⟩ | ⟨seg, i, sock, new, hr, hi, hs, hst, he, hc, hqu⟩
      · refine .quiet ?_ hp (hl.trans hk)
        rintro i ⟨src, seg, hg, hi⟩
        rw [har] at hg
        obtain ⟨seg', hr, heq⟩ := Option.map_eq_some_iff.mp hg
        obtain ⟨rfl, rfl⟩ := Prod.mk.inj heq
        exact hn seg' i hr (hf seg' ▸ hi)
      · rw [hl.1] at hs hst
        refine .segment frame now diag p.src seg i sock ?_ (hf seg ▸ hi) hs hst new (hl.2.trans he)
          hc hqu
        rw [har, hr]
        rfl
    · refine .quiet (not_touches_of_arrival (arrival_eq_none fun mac q hq => ?_) now diag) hp
        (hl.trans ?_)
      · rw [ha] at hq
        obtain ⟨rfl, rfl⟩ := Prod.mk.inj (Option.some.inj hq)
        exact ht
      · split
        · exact keeps_ingestIcmp _ _ _
        split
        · exact keeps_ingestUdp _ _ _ _ _
        · exact .refl _
  next ha =>
    refine .quiet (not_touches_of_arrival (arrival_eq_none fun mac q hq => ?_) now diag) hp ?_
    · rw [ha] at hq
      cases hq
    · split
      · exact .refl s
      split
      · exact .refl s
      split
      · exact keeps_ingestArp s _ now
      · exact .refl s

/-! ### Calls -/

lemma effect_popFrame (s : NetStack) : Effect s .popFrame s.popFrame.2 := by
  unfold popFrame
  split
  · exact .pop rfl [] (List.Perm.refl _)
  next f out ho =>
    refine .pop rfl f.segments ?_
    rw [segments, segments, ho, flatMap_cons, ← append_assoc, ← append_assoc]
    exact perm_append_comm.append_right _

lemma notMem_of_ephemeralPort (h : s.ephemeralPort seed = some port) :
    port ∉ s.tcp.map TcpSocket.localPort := by
  have hf := find?_some h
  simp only [Bool.not_eq_true', any_eq_false, beq_iff_eq] at hf
  intro hm
  obtain ⟨sock, hs, rfl⟩ := mem_map.mp hm
  exact hf sock hs rfl

lemma openTcp_spec (s : NetStack) (sock : TcpSocket) (iss : Seq) : (s.openTcp sock iss).tcp = s.tcp ++ [sock] ∧
      ∃ new, Emits s (s.openTcp sock iss) new ∧ ∀ t ∈ new, t.flags = 0x02 := by
  have hl : (s.tcp ++ [sock])[(s.tcp ++ [sock]).length - 1]? = some sock := by
    rw [length_append, length_singleton, Nat.add_sub_cancel, getElem?_concat_length]
  obtain ⟨htc, new, he, hc⟩ := @sendTcpRaw_spec { s with tcp := s.tcp ++ [sock] } _ sock hl iss 0 0x02 []
  have hs : Emits s { s with tcp := s.tcp ++ [sock] } [] := .of_eq rfl rfl
  exact ⟨htc, new, hs.trans he, fun t ht => (hc t ht).2.2.2.1⟩

lemma effect_tcpConnect (s : NetStack) (owner : Nat) (dst : Ipv4) (port : Port) (nowNs : BitVec 64) :
    Effect s (.tcpConnect owner dst port nowNs) (s.tcpConnect owner dst port nowNs).2 := by
  have hn : ∀ i, ¬s.Touches (.tcpConnect owner dst port nowNs) i := fun i h => h
  have hp : Op.tcpConnect owner dst port nowNs ≠ .popFrame := fun h => by cases h
  have hh : Emits s s.allocHandle.2 [] := .of_eq rfl rfl
  unfold tcpConnect
  split
  · exact .quiet hn hp (.refl s)
  dsimp only
  split
  · exact .quiet hn hp ⟨rfl, hh⟩
  next localPort hr =>
    obtain ⟨ht, new, he, hs⟩ := s.allocHandle.2.openTcp_spec _ _
    exact .connect owner dst port nowNs _ ht rfl rfl (notMem_of_ephemeralPort hr) new
      (hh.trans he) hs

lemma effect_tcpSend (s : NetStack) (owner : Nat) (h : BitVec 32) (data : Bytes) :
    Effect s (.tcpSend owner h data) (s.tcpSend owner h data).2 := by
  unfold tcpSend
  split
  · exact .quiet (fun i h => h) (fun h => by cases h) (.refl s)
  next i hf =>
    obtain ⟨hi, -⟩ := findIdx?_eq_some_iff_getElem.mp hf
    have hs : s.tcp[i]? = some (s.tcp.get ⟨i, hi⟩) := getElem?_eq_getElem hi
    obtain ⟨ht, new, he, hc⟩ := sendTcpIndex_spec hs 0x18 (data.take (min data.length 536))
    dsimp only
    refine .send owner h data i _ (.ofNat 32 (min data.length 536)) hs ?_ new ?_ hc
    · dsimp only
      rw [ht, modify_eq_set_getElem?, hs]
      rfl
    · have hm : Emits (s.sendTcpIndex i 0x18 (data.take (min data.length 536)))
          { s.sendTcpIndex i 0x18 (data.take (min data.length 536)) with tcp := _ } [] := .of_eq rfl rfl
      have hb := he.trans hm
      rwa [append_nil] at hb

lemma effect_tcpRecv (s : NetStack) (owner : Nat) (h : BitVec 32) (max : Nat) :
    Effect s (.tcpRecv owner h max) (s.tcpRecv owner h max).2 := by
  cases hf : s.findHandle owner h with
  | none =>
    refine .quiet (fun i hi => ?_) (fun h => by cases h) ?_
    · change s.findHandle owner h = some i at hi
      rw [hf] at hi
      cases hi
    · unfold tcpRecv
      rw [hf]
      exact .refl s
  | some i =>
    obtain ⟨hi, -⟩ := findIdx?_eq_some_iff_getElem.mp hf
    obtain ⟨sock, hs⟩ : ∃ sock, s.tcp[i]? = some sock := ⟨_, getElem?_eq_getElem hi⟩
    -- the connection after its bytes have been taken
    let taken : NetStack := { s with tcp := s.tcp.set i { sock with rx := sock.rx.drop (min max sock.rx.length) } }
    have hk : taken.tcp[i]? = some { sock with rx := sock.rx.drop (min max sock.rx.length) } := getElem?_set_self hi
    have hm : Emits s taken [] := .of_eq rfl rfl
    obtain ⟨htc, new, he, hc⟩ := sendTcpIndex_spec hk 0x10 []
    have hr : s.tcpRecv owner h max = (some (sock.rx.take (min max sock.rx.length)),
        if min max sock.rx.length ≠ 0 ∧ sock.state = .established then taken.sendTcpIndex i 0x10 [] else taken) := by
      unfold tcpRecv
      rw [hf]
      dsimp only
      rw [hs]
    have ho := congrArg Prod.fst hr
    rw [hr]
    dsimp only
    split
    · exact .recv owner h max i sock hf hs ho htc new (hm.trans he) hc
    · exact .recv owner h max i sock hf hs ho rfl [] hm fun t ht => absurd ht not_mem_nil

lemma run_effect (s : NetStack) (op : Op) : Effect s op (s.run op) := by
  cases op with
  | tick now => exact effect_tick s now
  | ingest frame now diag => exact effect_ingest s frame now diag
  | popFrame => exact effect_popFrame s
  | ping dst id seq =>
    refine .quiet (fun i h => h) (fun h => by cases h) ?_
    change Keeps s (s.ping dst id seq).2
    unfold ping
    split
    · exact .refl s
    · exact keeps_sendIp s dst fun t ht => by cases ht
  | udpOpen owner port =>
    refine .quiet (fun i h => h) (fun h => by cases h) ?_
    change Keeps s (s.udpOpen owner port).2
    unfold udpOpen
    split
    · exact .refl s
    · exact ⟨rfl, .of_eq rfl rfl⟩
  | udpSend owner h dst port data =>
    refine .quiet (fun i h => h) (fun h => by cases h) ?_
    change Keeps s (s.udpSend owner h dst port data).2
    unfold udpSend
    split
    · exact .refl s
    · exact keeps_sendIp s dst fun t ht => by cases ht
  | udpRecv owner h =>
    refine .quiet (fun i h => h) (fun h => by cases h) ?_
    change Keeps s (s.udpRecv owner h).2
    unfold udpRecv
    split
    · exact .refl s
    · exact ⟨rfl, .of_eq rfl rfl⟩
  | tcpConnect owner dst port nowNs => exact effect_tcpConnect s owner dst port nowNs
  | tcpSend owner h data => exact effect_tcpSend s owner h data
  | tcpRecv owner h max => exact effect_tcpRecv s owner h max

end NetStack

end ZeroOS.Net
