import ZeroOS.Net.Receive

/-!
# Checksums

The sum of the words of some data, with the carries added, is the sum modulo `65535`. So a checksum that is put
into the data makes the sum come out right, and what is built is what the other end reads.
-/

namespace ZeroOS.Net

open List Option Wire

/-! ## Sums -/

lemma foldSum_spec (h : x < 2 ^ 32) : foldSum 2 x < 65536 ∧ foldSum 2 x % 65535 = x % 65535 ∧ (foldSum 2 x = 0 ↔ x = 0) := by
  simp only [foldSum]
  split
  · omega
  · split <;> omega

lemma wordSum_append (b : Bytes) (h : a.length % 2 = 0) : wordSum (a ++ b) = wordSum a + wordSum b := by
  fun_induction wordSum a with
  | case1 x y rest ih =>
    rw [cons_append, cons_append, wordSum, ih (by simp at h; omega)]
    omega
  | case2 x => simp at h
  | case3 => simp

lemma wordSum_le (b : Bytes) : wordSum b ≤ 65535 * b.length := by
  fun_induction wordSum b with
  | case1 x y rest ih =>
    have := x.toNat_lt
    have := y.toNat_lt
    simp only [length_cons]
    omega
  | case2 x =>
    have := x.toNat_lt
    simp only [length_cons, length_nil]
    omega
  | case3 => simp

@[simp] lemma length_toBe (width n : Nat) : (toBe width n).length = width := by simp [toBe]

lemma wordSum_toBe (h : n < 65536) : wordSum (toBe 2 n) = n := by
  simp only [toBe, le, reverse_cons, reverse_nil, nil_append, cons_append, wordSum, UInt8.toNat_ofNat']
  omega

lemma checksum_insert (ha : a.length % 2 = 0) (he : a.length + b.length < 65000) :
    checksum (a ++ (toBe 2 (checksum (a ++ (toBe 2 (0 : BitVec 16).toNat ++ b))).toNat ++ b)) = 0 := by
  have hs {n : Nat} (hn : n < 65536) : wordSum (a ++ (toBe 2 n ++ b)) = wordSum a + wordSum b + n := by
    rw [wordSum_append _ ha, wordSum_append _ (by simp), wordSum_toBe hn]
    omega
  have hle : wordSum a + wordSum b ≤ 65535 * 65000 := by
    have := wordSum_le a
    have := wordSum_le b
    omega
  generalize hc : checksum (a ++ (toBe 2 (0 : BitVec 16).toNat ++ b)) = c
  have ho := foldSum_spec (x := wordSum a + wordSum b) (by omega)
  have hv : c.toNat = 65535 - foldSum 2 (wordSum a + wordSum b) := by
    rw [← hc, checksum, hs (by decide), BitVec.toNat_not, BitVec.toNat_ofNat, show BitVec.toNat 0 = 0 from rfl,
      Nat.add_zero, Nat.mod_eq_of_lt (show wordSum a + wordSum b < 2 ^ 32 by omega), Nat.mod_eq_of_lt ho.1]
  have hw := foldSum_spec (x := wordSum a + wordSum b + c.toNat) (by omega)
  have hl : foldSum 2 (wordSum a + wordSum b + c.toNat) = 65535 := by omega
  rw [checksum, hs c.isLt, Nat.mod_eq_of_lt (by omega), hl]
  rfl

/-! ## What is built is read -/

lemma ofLe_toBe (h : n < 256 ^ width) : ofLe (toBe width n).reverse = n := by
  rw [toBe, reverse_reverse, ofLe_le h]

lemma ofNat_toBe (h : 2 ^ k ≤ 256 ^ width) :
    BitVec.ofNat k (ofLe (toBe width x.toNat).reverse) = x := by
  rw [ofLe_toBe (lt_of_lt_of_le x.isLt h), BitVec.ofNat_toNat, BitVec.setWidth_eq]

lemma parseIpv4_build {src dst : Ipv4} {proto : Proto} {id : BitVec 16} {p : Bytes} (pad : Bytes)
    (h : p.length ≤ 1480) : parseIpv4 (buildIpv4 src dst proto p id ++ pad) = some ⟨src, dst, proto.code, p⟩ := by
  have hm : checksum ((buildIpv4 src dst proto p id ++ pad).take 20) = 0 := by
    have hn := checksum_insert (a := [0x45, 0] ++ toBe 2 (20 + p.length) ++ toBe 2 id.toNat ++ toBe 2 0x4000 ++
      [64, proto.code]) (b := toBe 4 src.toNat ++ toBe 4 dst.toNat) (by simp) (by simp)
    rw [buildIpv4, append_assoc, take_left' (by simp)]
    simpa only [append_assoc] using hn
  have ht : u16At (buildIpv4 src dst proto p id ++ pad) 2 = .ofNat 16 (ofLe (toBe 2 (20 + p.length)).reverse) := rfl
  have hs : u32At (buildIpv4 src dst proto p id ++ pad) 12 = .ofNat 32 (ofLe (toBe 4 src.toNat).reverse) := rfl
  have hd : u32At (buildIpv4 src dst proto p id ++ pad) 16 = .ofNat 32 (ofLe (toBe 4 dst.toNat).reverse) := rfl
  have hf : u8At (buildIpv4 src dst proto p id ++ pad) 0 = 0x45 := rfl
  have hp : u8At (buildIpv4 src dst proto p id ++ pad) 9 = proto.code := rfl
  have hl : (buildIpv4 src dst proto p id).length = 20 + p.length := by simp [buildIpv4]; omega
  have hb : (buildIpv4 src dst proto p id).drop 20 = p := rfl
  rw [ofLe_toBe (by omega)] at ht
  rw [ofNat_toBe (by decide)] at hs hd
  have hh : ((0x45 : UInt8) &&& 0xf).toNat * 4 = 20 := rfl
  have hv : (0x45 : UInt8) >>> 4 = 4 := rfl
  simp only [parseIpv4, hf, ht, hs, hd, hp, hv, hh, hm, length_append, hl,
    BitVec.toNat_ofNat, Nat.mod_eq_of_lt (show 20 + p.length < 2 ^ 16 by omega), ne_eq, not_true, or_false]
  rw [if_neg (by omega), if_neg (by omega), if_neg (by omega), if_neg not_false, take_left' hl, hb]

lemma parseEth_build (dst src : Mac) (kind : BitVec 16) (p : Bytes) : ∃ pad,
    parseEth (buildEth dst src kind p) = some ⟨dst, src, kind, p ++ pad⟩ := by
  have hd : macAt (buildEth dst src kind p) 0 = .ofNat 48 (ofLe (toBe 6 dst.toNat).reverse) := rfl
  have hs : macAt (buildEth dst src kind p) 6 = .ofNat 48 (ofLe (toBe 6 src.toNat).reverse) := rfl
  have hk : u16At (buildEth dst src kind p) 12 = .ofNat 16 (ofLe (toBe 2 kind.toNat).reverse) := rfl
  rw [ofNat_toBe (by decide)] at hd hs hk
  refine ⟨.replicate (60 - (p.length + 14)) 0, ?_⟩
  rw [parseEth, if_neg (by simp [buildEth]; omega), hd, hs, hk]
  rfl

lemma pseudoChecksum_encode {t : TcpPacket} (h : t.data.length ≤ 1460) : pseudoChecksum t.src t.dst .tcp t.encode = 0 := by
  have hl (c : BitVec 16) : (toBe 2 t.sport.toNat ++ toBe 2 t.dport.toNat ++ toBe 4 t.seq.toNat ++
      toBe 4 t.ack.toNat ++ [0x50, t.flags] ++ toBe 2 t.window.toNat ++ toBe 2 c.toNat ++ [0, 0] ++ t.data).length =
      20 + t.data.length := by simp; omega
  have hn := checksum_insert (a := toBe 4 t.src.toNat ++ toBe 4 t.dst.toNat ++ [0, Proto.tcp.code] ++
    toBe 2 (20 + t.data.length) ++ (toBe 2 t.sport.toNat ++ toBe 2 t.dport.toNat ++ toBe 4 t.seq.toNat ++
      toBe 4 t.ack.toNat ++ [0x50, t.flags] ++ toBe 2 t.window.toNat)) (b := [0, 0] ++ t.data) (by simp) (by simp; omega)
  simp only [pseudoChecksum, TcpPacket.encode, hl]
  simpa only [append_assoc] using hn

/-- What is sent is read. A segment is accepted by the host that it is for, with its addresses and its bytes, and
its checksum is right. -/
theorem segment_is_read {peer : NetStack} {t : TcpPacket} (h : t.data.length ≤ 1460) (id : BitVec 16) (src : Mac)
    (hip : peer.cfg.ip = t.dst) :
    peer.accepts (buildEth peer.mac src ethIpv4 (buildIpv4 t.src t.dst .tcp t.encode id)) =
      some (src, ⟨t.src, t.dst, Proto.tcp.code, t.encode⟩) ∧
    pseudoChecksum t.src t.dst .tcp t.encode = 0 := by
  refine ⟨?_, pseudoChecksum_encode h⟩
  obtain ⟨pad, he⟩ := parseEth_build peer.mac src ethIpv4 (buildIpv4 t.src t.dst .tcp t.encode id)
  have hs : t.encode.length ≤ 1480 := by simp [TcpPacket.encode]; omega
  simp [NetStack.accepts, he, parseIpv4_build pad hs, hip]

theorem segment_is_read_odd : ∃ (peer : NetStack) (t : TcpPacket), t.data = [7, 8, 9] ∧
    peer.accepts (buildEth peer.mac Watch.hostMac ethIpv4 (buildIpv4 t.src t.dst .tcp t.encode 1)) =
      some (Watch.hostMac, ⟨t.src, t.dst, Proto.tcp.code, t.encode⟩) ∧
    pseudoChecksum t.src t.dst .tcp t.encode = 0 :=
  ⟨{ NetStack.new Watch.peerMac with cfg := ⟨Watch.peerIp, 0, 0, 0, 0⟩ },
    ⟨Watch.hostIp, Watch.peerIp, 1, 2, 3, 4, 0x18, 5, [7, 8, 9]⟩, rfl, segment_is_read (by decide) 1 _ rfl⟩

/-! ## Wrong checksums -/

namespace NetStack

open Watch

variable {s : NetStack} {frame : Bytes}

/-- The sockets with what they have received, the state of DHCP and the result of a ping. -/
def visible (s : NetStack) :
    List UdpSocket × List TcpSocket × Dhcp × NetConfig × Option (Ipv4 × BitVec 16 × BitVec 16) :=
  (s.udp, s.tcp, s.dhcp, s.cfg, s.pingReply)

lemma visible_queueArpRequest (target : Ipv4) : (s.queueArpRequest target).visible = s.visible := by
  unfold queueArpRequest
  split <;> rfl

@[simp] lemma visible_sendIp (dst : Ipv4) (body : Body) : (s.sendIp dst body).visible = s.visible := by
  unfold sendIp
  dsimp only
  repeat' split
  exacts [rfl, visible_queueArpRequest _, visible_queueArpRequest _, rfl]

end NetStack

end ZeroOS.Net
