import ZeroOS.Lib.Run
import ZeroOS.Net.Packet

/-!
# The network stack

`NetStack` with its calls and what it does with a frame. The counters for diagnosis are left out; the answer to a
request for them is part of the operation (`diag`). The clock is part of the operations too.
-/

namespace ZeroOS.Net

open Wire Transition

def arpCacheMax : Nat := 16

def pendingMax : Nat := 16

def socketMax : Nat := 32

def tcpRxCap : Nat := 64 * 1024

def tcpSynRetryMs : Nat := 750

def tcpSynRetryLimit : Nat := 5

def tcpEphemeralBase : Nat := 49152

def tcpEphemeralSpan : Nat := 16384

def tcpDiagUdpPort : Port := 31337

def dhcpClient : Port := 68

def dhcpServer : Port := 67

structure NetConfig where
  ip : Ipv4
  mask : Ipv4
  gateway : Ipv4
  dns : Ipv4
  leaseSeconds : BitVec 32

inductive Dhcp
  | init
  | selecting (xid : BitVec 32) (lastMs : Nat)
  | requesting (xid : BitVec 32) (offer server : Ipv4) (lastMs : Nat)
  | bound
  deriving DecidableEq

structure Arp where
  ip : Ipv4
  mac : Mac
  lastMs : Nat

structure Datagram where
  src : Ipv4
  port : Port
  data : Bytes

structure UdpSocket where
  handle : BitVec 32
  owner : Nat
  port : Port
  rx : List Datagram

inductive TcpState
  | synSent
  | established
  | closed
  deriving DecidableEq, Repr

/-- `TcpSocket`. The port at this end is `local` in the source. -/
structure TcpSocket where
  handle : BitVec 32
  owner : Nat
  localPort : Port
  remote : Ipv4
  remotePort : Port
  state : TcpState
  sndNxt : Seq
  rcvNxt : Seq
  synLastMs : Nat
  synRetries : Nat
  rx : Bytes
  deriving DecidableEq

structure NetStack where
  mac : Mac
  cfg : NetConfig
  dhcp : Dhcp
  arp : List Arp
  pending : List (Ipv4 × Packet)
  out : List Frame
  udp : List UdpSocket
  tcp : List TcpSocket
  nextHandle : BitVec 32
  pingReply : Option (Ipv4 × BitVec 16 × BitVec 16)
  ipId : BitVec 16

/-- What an established connection, or one that is being established, does with a segment: the connection after
it, and whether an acknowledgement is sent. -/
def TcpSocket.receive (sock : TcpSocket) (seg : Segment) : TcpSocket × Bool :=
  match sock.state with
  | .synSent =>
    if seg.flags &&& 0x12 = 0x12 ∧ seg.ack = sock.sndNxt then
      ({ sock with rcvNxt := seg.seq + 1, state := .established }, true)
    else (sock, false)
  | .established =>
    -- what there is room for, if it is what comes next
    let fits := seg.data ≠ [] ∧ seg.seq = sock.rcvNxt
    let accepted := min seg.data.length (tcpRxCap - sock.rx.length)
    let taken : TcpSocket :=
      if fits then
        { sock with rx := sock.rx ++ seg.data.take accepted, rcvNxt := sock.rcvNxt + .ofNat 32 accepted }
      else sock
    let full := seg.data = [] ∨ (fits ∧ accepted = seg.data.length)
    -- the end of the stream counts once all the data before it was taken
    if seg.flags &&& 0x01 ≠ 0 ∧ full ∧ seg.seq + .ofNat 32 seg.data.length = taken.rcvNxt then
      ({ taken with rcvNxt := taken.rcvNxt + 1, state := .closed }, true)
    else (taken, decide fits)
  | .closed => (sock, false)

/-- Whether a request for a connection is sent again. -/
def TcpSocket.retries (now : Nat) (sock : TcpSocket) : Bool :=
  decide (sock.state = .synSent ∧ sock.synRetries < tcpSynRetryLimit ∧ tcpSynRetryMs ≤ now - sock.synLastMs)

/-- The connection after the first loop of `tick`. -/
def TcpSocket.retried (now : Nat) (sock : TcpSocket) : TcpSocket :=
  if sock.retries now then { sock with synLastMs := now, synRetries := sock.synRetries + 1 } else sock

namespace NetStack

def new (mac : Mac) : NetStack where
  mac := mac
  cfg := ⟨0, 0, 0, 0, 0⟩
  dhcp := .init
  arp := []
  pending := []
  out := []
  udp := []
  tcp := []
  nextHandle := 1
  pingReply := none
  ipId := 1

variable (s : NetStack)

def bound : Bool := decide (s.dhcp = .bound) && s.cfg.ip != 0

/-! ### Sending -/

def route (dst : Ipv4) : Ipv4 :=
  if dst &&& s.cfg.mask = s.cfg.ip &&& s.cfg.mask then dst else s.cfg.gateway

def findMac (ip : Ipv4) : Option Mac := (s.arp.find? (·.ip == ip)).map Arp.mac

def queueArpRequest (target : Ipv4) : NetStack :=
  if s.bound then
    let p := [0, 1, 8, 0, 6, 4, 0, 1] ++ toBe 6 s.mac.toNat ++ toBe 4 s.cfg.ip.toNat ++ List.replicate 6 0 ++
      toBe 4 target.toNat
    { s with out := s.out ++ [.arp Mac.bcast p] }
  else s

def queueArpReply (dstMac : Mac) (dstIp : Ipv4) : NetStack :=
  let p := [0, 1, 8, 0, 6, 4, 0, 2] ++ toBe 6 s.mac.toNat ++ toBe 4 s.cfg.ip.toNat ++ toBe 6 dstMac.toNat ++ toBe 4 dstIp.toNat
  { s with out := s.out ++ [.arp dstMac p] }

/-- `send_ip`. A packet waits if the address of the next hop is not known. -/
def sendIp (dst : Ipv4) (body : Body) : NetStack :=
  if s.bound then
    let next := s.route dst
    let packet : Packet := ⟨s.cfg.ip, dst, s.ipId, body⟩
    match s.findMac next with
    | some mac => { s with out := s.out ++ [.ipv4 mac packet], ipId := s.ipId + 1 }
    | none =>
      let s := if s.pending.length < pendingMax then
          { s with pending := s.pending ++ [(next, packet)], ipId := s.ipId + 1 }
        else s
      s.queueArpRequest next
  else s

def flushPending (ip : Ipv4) : NetStack :=
  match s.findMac ip with
  | none => s
  | some mac =>
    let (go, stay) := s.pending.partition (·.1 == ip)
    { s with out := s.out ++ go.map (fun p => .ipv4 mac p.2), pending := stay }

def sendUdpDirect (src dst : Ipv4) (sport dport : Port) (data : Bytes) (mac : Mac) : NetStack :=
  { s with out := s.out ++ [.ipv4 mac ⟨src, dst, s.ipId, .udp sport dport data⟩], ipId := s.ipId + 1 }

def sendTcpRaw (i : Nat) (seq ack : Seq) (flags : UInt8) (data : Bytes) : NetStack :=
  match s.tcp[i]? with
  | none => s
  | some sock =>
    let window := min (tcpRxCap - sock.rx.length) 65535
    s.sendIp sock.remote (.tcp
      { src := s.cfg.ip, dst := sock.remote, sport := sock.localPort, dport := sock.remotePort, seq, ack, flags,
        window := .ofNat 16 window, data })

def sendTcpIndex (i : Nat) (flags : UInt8) (data : Bytes) : NetStack :=
  match s.tcp[i]? with
  | none => s
  | some sock => s.sendTcpRaw i sock.sndNxt sock.rcvNxt flags data

/-! ### Ticks -/

def sendDiscover (now : Nat) : NetStack :=
  let xid : BitVec 32 := .ofNat 32 now ^^^ 0x5a45524f
  let s' := s.sendUdpDirect 0 Ipv4.bcast dhcpClient dhcpServer (dhcpPacket 1 xid s.mac 0 0) Mac.bcast
  { s' with dhcp := .selecting xid now }

def sendRequest (xid : BitVec 32) (offer server : Ipv4) (now : Nat) : NetStack :=
  let s' := s.sendUdpDirect 0 Ipv4.bcast dhcpClient dhcpServer (dhcpPacket 3 xid s.mac offer server) Mac.bcast
  { s' with dhcp := .requesting xid offer server now }

/-- The retries of `tick`: the requests that were not answered in time are sent again. -/
def tickTcp (now : Nat) : NetStack :=
  let retries := s.tcp.findIdxs (TcpSocket.retries now)
  let s := { s with tcp := s.tcp.map (TcpSocket.retried now) }
  retries.foldl (fun s i =>
    match s.tcp[i]? with
    | none => s
    | some sock => s.sendTcpRaw i (sock.sndNxt - 1) 0 0x02 []) s

def tick (now : Nat) : NetStack :=
  let s := match s.dhcp with
    | .init => s.sendDiscover now
    | .selecting _ lastMs => if 2000 ≤ now - lastMs then s.sendDiscover now else s
    | .requesting xid offer server lastMs => if 2000 ≤ now - lastMs then s.sendRequest xid offer server now else s
    | .bound => s
  s.tickTcp now

/-! ### Frames that come in -/

def learnArp (ip : Ipv4) (mac : Mac) (now : Nat) : NetStack :=
  if ip = 0 then s
  else
    match s.arp.findIdx? (·.ip == ip) with
    | some i => { s with arp := s.arp.modify i fun e => { e with mac, lastMs := now } }
    | none =>
      let arp := if arpCacheMax ≤ s.arp.length then s.arp.tail else s.arp
      { s with arp := arp ++ [⟨ip, mac, now⟩] }

def ingestArp (p : Bytes) (now : Nat) : NetStack :=
  if p.length < 28 ∨ p.take 6 ≠ [0, 1, 8, 0, 6, 4] then s
  else
    let op := u16At p 6
    let sha := macAt p 8
    let spa := u32At p 14
    let tpa := u32At p 24
    if op = 2 then (s.learnArp spa sha now).flushPending spa
    else if op = 1 ∧ tpa = s.cfg.ip then s.queueArpReply sha spa
    else s

def ingestIcmp (src : Ipv4) (b : Bytes) : NetStack :=
  if b.length < 8 ∨ checksum b ≠ 0 then s
  else if u8At b 0 = 0 then { s with pingReply := some (src, u16At b 4, u16At b 6) }
  else if u8At b 0 = 8 ∧ s.bound = true then
    let blank := [0, u8At b 1, 0, 0] ++ b.drop 4
    s.sendIp src (.icmp ([0, u8At b 1] ++ toBe 2 (checksum blank).toNat ++ b.drop 4))
  else s

def ingestDhcp (b : Bytes) (now : Nat) : NetStack :=
  match parseDhcp b s.mac with
  | none => s
  | some parsed =>
    match s.dhcp with
    | .selecting xid _ =>
      if parsed.msgType = 2 ∧ xid = parsed.xid then
        s.sendRequest xid parsed.yiaddr (parsed.server.getD parsed.siaddr) now
      else s
    | .requesting xid offer _ _ =>
      if parsed.msgType = 5 ∧ xid = parsed.xid ∧ parsed.yiaddr = offer then
        { s with
          cfg := ⟨parsed.yiaddr, parsed.mask.getD 0xffffff00, parsed.router.getD 0, parsed.dns.getD 0, parsed.lease.getD 0⟩
          dhcp := .bound }
      else s
    | .init | .bound => s

def ingestUdp (src : Ipv4) (b : Bytes) (now : Nat) (diag : Bytes) : NetStack :=
  if b.length < 8 then s
  else
    let sport := u16At b 0
    let dport := u16At b 2
    let len := (u16At b 4).toNat
    if len < 8 ∨ b.length < len then s
    else
      let data := (b.take len).drop 8
      if dport = tcpDiagUdpPort ∧ data = [0x74, 0x63, 0x70, 0x64, 0x69, 0x61, 0x67] ∧ s.bound = true then
        s.sendIp src (.udp tcpDiagUdpPort sport diag)
      else if sport = dhcpServer ∧ dport = dhcpClient then s.ingestDhcp data now
      else
        match s.udp.findIdx? (·.port == dport) with
        | none => s
        | some i =>
          { s with udp := s.udp.modify i fun sock =>
              if sock.rx.length < 16 then { sock with rx := sock.rx ++ [⟨src, sport, data.take 1024⟩] }
              else sock }

/-- The connection that a segment from `src` belongs to. -/
def findTcp (src : Ipv4) (seg : Segment) : Option Nat :=
  s.tcp.findIdx? fun sock => sock.localPort == seg.dport && sock.remote == src && sock.remotePort == seg.sport

def ingestTcp (src : Ipv4) (b : Bytes) : NetStack :=
  match parseTcp b with
  | none => s
  | some seg =>
    match s.findTcp src seg with
    | none => s
    | some i =>
      match s.tcp[i]? with
      | none => s
      | some sock =>
        let out := sock.receive seg
        let s := { s with tcp := s.tcp.set i out.1 }
        if out.2 then s.sendTcpIndex i 0x10 [] else s

def accepts (frame : Bytes) : Option (Mac × IpPacket) :=
  match parseEth frame with
  | none => none
  | some eth =>
    if eth.dst ≠ s.mac ∧ eth.dst ≠ Mac.bcast then none
    else if eth.kind = ethIpv4 then
      match parseIpv4 eth.payload with
      | none => none
      | some p => if s.bound = true ∧ p.dst ≠ s.cfg.ip ∧ p.dst ≠ Ipv4.bcast then none else some (eth.src, p)
    else none

/-- `ingest` and `ingest_ipv4`. -/
def ingest (frame : Bytes) (now : Nat) (diag : Bytes) : NetStack :=
  match s.accepts frame with
  | some (ethSrc, p) =>
    let s := s.learnArp p.src ethSrc now
    if p.proto = Proto.icmp.code then s.ingestIcmp p.src p.body
    else if p.proto = Proto.udp.code then s.ingestUdp p.src p.body now diag
    else if p.proto = Proto.tcp.code then s.ingestTcp p.src p.body
    else s
  | none =>
    match parseEth frame with
    | none => s
    | some eth =>
      if eth.dst ≠ s.mac ∧ eth.dst ≠ Mac.bcast then s
      else if eth.kind = ethArp then s.ingestArp eth.payload now
      else s

/-! ### Calls -/

/-- `pop_frame`: the bytes that go out. -/
def popFrame : Option Bytes × NetStack :=
  match s.out with
  | [] => (none, s)
  | f :: out => (some (f.encode s.mac), { s with out })

def allocHandle : BitVec 32 × NetStack :=
  let next := s.nextHandle + 1
  (s.nextHandle, { s with nextHandle := if next = 0 then 1 else next })

def ping (dst : Ipv4) (id seq : BitVec 16) : Bool × NetStack :=
  if s.pingReply = some (dst, id, seq) then (true, s)
  else
    let p := fun c : BitVec 16 => [8, 0] ++ toBe 2 c.toNat ++ toBe 2 id.toNat ++ toBe 2 seq.toNat
    (false, s.sendIp dst (.icmp (p (checksum (p 0)))))

def udpOpen (owner : Nat) (port : Port) : Option (BitVec 32) × NetStack :=
  if socketMax ≤ s.udp.length + s.tcp.length ∨ port = 0 ∨ s.udp.any (·.port == port) = true then (none, s)
  else
    let (h, s) := s.allocHandle
    (some h, { s with udp := s.udp ++ [⟨h, owner, port, []⟩] })

def udpSend (owner : Nat) (h : BitVec 32) (dst : Ipv4) (port : Port) (data : Bytes) : Bool × NetStack :=
  match s.udp.find? fun sock => sock.handle == h && sock.owner == owner with
  | none => (false, s)
  | some sock => (true, s.sendIp dst (.udp sock.port port data))

def udpRecv (owner : Nat) (h : BitVec 32) : Option Datagram × NetStack :=
  match s.udp.findIdx? fun sock => sock.handle == h && sock.owner == owner with
  | none => (none, s)
  | some i => ((s.udp[i]?.bind fun sock => sock.rx.head?),
      { s with udp := s.udp.modify i fun sock => { sock with rx := sock.rx.tail } })

/-- The port that `tcp_connect` takes, the first one from a seed on that is not in use. -/
def ephemeralPort (seed : BitVec 32) : Option Port := ((List.range tcpEphemeralSpan).map fun probe => BitVec.ofNat 16
    (tcpEphemeralBase + (seed + .ofNat 32 probe).toNat % tcpEphemeralSpan)).find? fun port =>
      !s.tcp.any (·.localPort == port)

def openTcp (sock : TcpSocket) (iss : Seq) : NetStack :=
  let s := { s with tcp := s.tcp ++ [sock] }
  s.sendTcpRaw (s.tcp.length - 1) iss 0 0x02 []

/-- `tcp_connect`, at a time of the clock. -/
def tcpConnect (owner : Nat) (dst : Ipv4) (port : Port) (nowNs : BitVec 64) : Option (BitVec 32) × NetStack :=
  if s.bound = false ∨ socketMax ≤ s.tcp.length + s.udp.length then (none, s)
  else
    let (h, s) := s.allocHandle
    let seed := nowNs.setWidth 32 ^^^ ((nowNs >>> 32).setWidth 32).rotateLeft 7 ^^^ h.rotateLeft 13 ^^^
      s.cfg.ip.rotateLeft 17
    match s.ephemeralPort seed with
    | none => (none, s)
    | some localPort =>
      let iss := seed.rotateLeft 11 ^^^ (nowNs.setWidth 32).rotateRight 3
      let sock : TcpSocket :=
        { handle := h, owner, localPort, remote := dst, remotePort := port, state := .synSent,
          sndNxt := iss + 1, rcvNxt := 0, synLastMs := nowNs.toNat / 1000000, synRetries := 0, rx := [] }
      (some h, s.openTcp sock iss)

def tcpSend (owner : Nat) (h : BitVec 32) (data : Bytes) : Bool × NetStack :=
  match s.tcp.findIdx? fun sock =>
      sock.handle == h && sock.owner == owner && decide (sock.state = .established) with
  | none => (false, s)
  | some i =>
    let n := min data.length 536
    let s := s.sendTcpIndex i 0x18 (data.take n)
    (true, { s with tcp := s.tcp.modify i fun sock => { sock with sndNxt := sock.sndNxt + .ofNat 32 n } })

def findHandle (owner : Nat) (h : BitVec 32) : Option Nat := s.tcp.findIdx? fun sock => sock.handle == h && sock.owner == owner

def tcpRecv (owner : Nat) (h : BitVec 32) (max : Nat) : Option Bytes × NetStack :=
  match s.findHandle owner h with
  | none => (none, s)
  | some i =>
    match s.tcp[i]? with
    | none => (none, s)
    | some sock =>
      let n := min max sock.rx.length
      let s := { s with tcp := s.tcp.set i { sock with rx := sock.rx.drop n } }
      let s := if n ≠ 0 ∧ sock.state = .established then s.sendTcpIndex i 0x10 [] else s
      (some (sock.rx.take n), s)

end NetStack

inductive Op
  | tick (now : Nat)
  | ingest (frame : Bytes) (now : Nat) (diag : Bytes)
  | popFrame
  | ping (dst : Ipv4) (id seq : BitVec 16)
  | udpOpen (owner : Nat) (port : Port)
  | udpSend (owner : Nat) (h : BitVec 32) (dst : Ipv4) (port : Port) (data : Bytes)
  | udpRecv (owner : Nat) (h : BitVec 32)
  | tcpConnect (owner : Nat) (dst : Ipv4) (port : Port) (nowNs : BitVec 64)
  | tcpSend (owner : Nat) (h : BitVec 32) (data : Bytes)
  | tcpRecv (owner : Nat) (h : BitVec 32) (max : Nat)

def NetStack.run (s : NetStack) : Op → NetStack
  | .tick now => s.tick now
  | .ingest frame now diag => s.ingest frame now diag
  | .popFrame => s.popFrame.2
  | .ping dst id seq => (s.ping dst id seq).2
  | .udpOpen owner port => (s.udpOpen owner port).2
  | .udpSend owner h dst port data => (s.udpSend owner h dst port data).2
  | .udpRecv owner h => (s.udpRecv owner h).2
  | .tcpConnect owner dst port nowNs => (s.tcpConnect owner dst port nowNs).2
  | .tcpSend owner h data => (s.tcpSend owner h data).2
  | .tcpRecv owner h max => (s.tcpRecv owner h max).2

end ZeroOS.Net
