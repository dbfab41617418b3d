import ZeroOS.Lib.Wire

/-!
# Packets

What the network daemon reads from a frame and what it builds. A frame that comes in is bytes, and is read as the
source does, with the checks in the same order. A frame that goes out is kept as its fields; `Frame.encode` gives
the bytes that the source has in its queue.
-/

namespace ZeroOS.Net

open Wire

abbrev Ipv4 : Type := BitVec 32

abbrev Mac : Type := BitVec 48

abbrev Port : Type := BitVec 16

/-- A sequence number. Its arithmetic wraps. -/
abbrev Seq : Type := BitVec 32

def Ipv4.bcast : Ipv4 := .allOnes 32

def Mac.bcast : Mac := .allOnes 48

/-! ## Fields -/

def toBe (width n : Nat) : Bytes := (le width n).reverse

/-- The number that stands in `width` bytes, the highest first. -/
def beAt (width : Nat) (b : Bytes) (o : Nat) : Nat := ofLe ((b.drop o).take width).reverse

def u8At (b : Bytes) (o : Nat) : UInt8 := b.getD o 0

def u16At (b : Bytes) (o : Nat) : BitVec 16 := .ofNat 16 (beAt 2 b o)

def u32At (b : Bytes) (o : Nat) : BitVec 32 := .ofNat 32 (beAt 4 b o)

def macAt (b : Bytes) (o : Nat) : Mac := .ofNat 48 (beAt 6 b o)

/-! ## Checksums -/

/-- The words of some data, the last of which may have one byte. -/
def wordSum : Bytes → Nat
  | a :: b :: rest => a.toNat * 256 + b.toNat + wordSum rest
  | [a] => a.toNat * 256
  | [] => 0

/-- The loop of `checksum` that adds the carries. -/
def foldSum : Nat → Nat → Nat
  | 0, sum => sum
  | fuel + 1, sum => if sum / 65536 = 0 then sum else foldSum fuel (sum % 65536 + sum / 65536)

def checksum (data : Bytes) : BitVec 16 := ~~~(.ofNat 16 (foldSum 2 (wordSum data % 2 ^ 32)))

/-! ## What is built -/

inductive Proto
  | icmp
  | udp
  | tcp
  deriving DecidableEq, Repr

/-- `IP_ICMP`, `IP_TCP` and `IP_UDP`. -/
def Proto.code : Proto → UInt8
  | .icmp => 1
  | .tcp => 6
  | .udp => 17

def ethArp : BitVec 16 := 0x0806

def ethIpv4 : BitVec 16 := 0x0800

/-- `build_eth`: short frames are padded. -/
def buildEth (dst src : Mac) (kind : BitVec 16) (p : Bytes) : Bytes :=
  let f := toBe 6 dst.toNat ++ toBe 6 src.toNat ++ toBe 2 kind.toNat ++ p
  f ++ List.replicate (60 - f.length) 0

def buildIpv4 (src dst : Ipv4) (proto : Proto) (p : Bytes) (id : BitVec 16) : Bytes :=
  let header := fun c : BitVec 16 => [0x45, 0] ++ toBe 2 (20 + p.length) ++ toBe 2 id.toNat ++ toBe 2 0x4000 ++
    [64, proto.code] ++ toBe 2 c.toNat ++ toBe 4 src.toNat ++ toBe 4 dst.toNat
  header (checksum (header 0)) ++ p

def buildUdp (sport dport : Port) (p : Bytes) : Bytes :=
  toBe 2 sport.toNat ++ toBe 2 dport.toNat ++ toBe 2 (8 + p.length) ++ [0, 0] ++ p

structure TcpPacket where
  src : Ipv4
  dst : Ipv4
  sport : Port
  dport : Port
  seq : Seq
  ack : Seq
  flags : UInt8
  window : BitVec 16
  data : Bytes
  deriving DecidableEq

def pseudoChecksum (src dst : Ipv4) (proto : Proto) (segment : Bytes) : BitVec 16 :=
  checksum (toBe 4 src.toNat ++ toBe 4 dst.toNat ++ [0, proto.code] ++ toBe 2 segment.length ++ segment)

/-- `build_tcp`. -/
def TcpPacket.encode (t : TcpPacket) : Bytes :=
  let segment := fun c : BitVec 16 => toBe 2 t.sport.toNat ++ toBe 2 t.dport.toNat ++ toBe 4 t.seq.toNat ++
    toBe 4 t.ack.toNat ++ [0x50, t.flags] ++ toBe 2 t.window.toNat ++ toBe 2 c.toNat ++ [0, 0] ++ t.data
  segment (pseudoChecksum t.src t.dst .tcp (segment 0))

inductive Body
  | icmp (bytes : Bytes)
  | udp (sport dport : Port) (data : Bytes)
  | tcp (segment : TcpPacket)
  deriving DecidableEq

structure Packet where
  src : Ipv4
  dst : Ipv4
  id : BitVec 16
  body : Body
  deriving DecidableEq

def Packet.encode (p : Packet) : Bytes :=
  match p.body with
  | .icmp bytes => buildIpv4 p.src p.dst .icmp bytes p.id
  | .udp sport dport data => buildIpv4 p.src p.dst .udp (buildUdp sport dport data) p.id
  | .tcp t => buildIpv4 p.src p.dst .tcp t.encode p.id

inductive Frame
  | arp (dst : Mac) (payload : Bytes)
  | ipv4 (dst : Mac) (packet : Packet)
  deriving DecidableEq

def Frame.encode (src : Mac) : Frame → Bytes
  | .arp dst payload => buildEth dst src ethArp payload
  | .ipv4 dst packet => buildEth dst src ethIpv4 packet.encode

def dhcpPacket (msg : UInt8) (xid : BitVec 32) (mac : Mac) (request server : Ipv4) : Bytes :=
  let head := [1, 1, 6, 0] ++ toBe 4 xid.toNat ++ [0, 0] ++ toBe 2 0x8000 ++ List.replicate 16 0 ++
    toBe 6 mac.toNat ++ List.replicate 202 0 ++ [99, 130, 83, 99, 53, 1, msg]
  let asked := if msg = 3 ∧ request ≠ 0 then
      [50, 4] ++ toBe 4 request.toNat ++ (if server ≠ 0 then [54, 4] ++ toBe 4 server.toNat else [])
    else []
  head ++ asked ++ [55, 4, 1, 3, 6, 51, 255]

/-! ## What is read -/

structure EthFrame where
  dst : Mac
  src : Mac
  kind : BitVec 16
  payload : Bytes

/-- The header of a frame, as `ingest` reads it. -/
def parseEth (frame : Bytes) : Option EthFrame :=
  if frame.length < 14 then none
  else some ⟨macAt frame 0, macAt frame 6, u16At frame 12, frame.drop 14⟩

structure IpPacket where
  src : Ipv4
  dst : Ipv4
  proto : UInt8
  body : Bytes

/-- The header of a packet, as `ingest_ipv4` reads it. -/
def parseIpv4 (p : Bytes) : Option IpPacket :=
  if p.length < 20 ∨ u8At p 0 >>> 4 ≠ 4 then none
  else
    let ihl := (u8At p 0 &&& 0xf).toNat * 4
    if ihl < 20 ∨ p.length < ihl then none
    else
      let total := (u16At p 2).toNat
      if total < ihl ∨ p.length < total then none
      else if checksum (p.take ihl) ≠ 0 then none
      else some ⟨u32At p 12, u32At p 16, u8At p 9, (p.take total).drop ihl⟩

structure Segment where
  sport : Port
  dport : Port
  seq : Seq
  ack : Seq
  flags : UInt8
  data : Bytes
  deriving DecidableEq

/-- The header of a segment, as `ingest_tcp` reads it. -/
def parseTcp (b : Bytes) : Option Segment :=
  if b.length < 20 then none
  else
    let off := (u8At b 12 >>> 4).toNat * 4
    if off < 20 ∨ b.length < off then none
    else some ⟨u16At b 0, u16At b 2, u32At b 4, u32At b 8, u8At b 13, b.drop off⟩

structure DhcpParsed where
  xid : BitVec 32
  yiaddr : Ipv4
  siaddr : Ipv4
  msgType : UInt8
  server : Option Ipv4
  mask : Option Ipv4
  router : Option Ipv4
  dns : Option Ipv4
  lease : Option (BitVec 32)

def DhcpParsed.option (p : DhcpParsed) (k : UInt8) (v : Bytes) : DhcpParsed :=
  if k = 53 ∧ v.length = 1 then { p with msgType := u8At v 0 }
  else if k = 54 ∧ v.length = 4 then { p with server := some (u32At v 0) }
  else if k = 1 ∧ v.length = 4 then { p with mask := some (u32At v 0) }
  else if k = 3 ∧ 4 ≤ v.length then { p with router := some (u32At v 0) }
  else if k = 6 ∧ 4 ≤ v.length then { p with dns := some (u32At v 0) }
  else if k = 51 ∧ v.length = 4 then { p with lease := some (u32At v 0) }
  else p

/-- The loop over the options. Every round takes a byte. -/
def dhcpOptions : Nat → Bytes → DhcpParsed → DhcpParsed
  | 0, _, p => p
  | _ + 1, [], p => p
  | fuel + 1, k :: rest, p =>
    if k = 255 then p
    else if k = 0 then dhcpOptions fuel rest p
    else
      match rest with
      | [] => p
      | n :: rest =>
        if rest.length < n.toNat then p
        else dhcpOptions fuel (rest.drop n.toNat) (p.option k (rest.take n.toNat))

def parseDhcp (b : Bytes) (mac : Mac) : Option DhcpParsed :=
  if b.length < 240 ∨ u8At b 0 ≠ 2 ∨ u8At b 1 ≠ 1 ∨ u8At b 2 ≠ 6 ∨ macAt b 28 ≠ mac ∨
      (b.drop 236).take 4 ≠ [99, 130, 83, 99] then none
  else
    some (dhcpOptions b.length (b.drop 240)
      ⟨u32At b 4, u32At b 16, u32At b 20, 0, none, none, none, none, none⟩)

end ZeroOS.Net
