import ZeroOS.Net.Effect

/-!
# What a connection receives

For each connection a `History` has what the stack does not keep: the initial sequence number of the peer, the
segments of which bytes were kept and which bytes these were, the bytes that were handed out, and whether the end
of the stream was seen. It is read off the connection before and after each operation.

`Stream` says how the connection and its history belong together.
-/

namespace ZeroOS.Net

open List Option Transition Wire

structure History where
  irs : Option Seq
  accepted : List (Segment × Bytes)
  returned : Bytes
  fin : Bool

namespace History

def empty : History := ⟨none, [], [], false⟩

def bytes (h : History) : Bytes := h.accepted.flatMap Prod.snd

/-- A segment for the connection: what it was before, and what it is then. -/
def seen (h : History) (before after : TcpSocket) (seg : Segment) : History where
  irs := if before.state = .synSent ∧ after.state = .established then some seg.seq else h.irs
  accepted :=
    let kept := after.rx.drop before.rx.length
    if kept = [] then h.accepted else h.accepted ++ [(seg, kept)]
  returned := h.returned
  fin := h.fin || decide (before.state = .established ∧ after.state = .closed)

/-- The segments are laid end to end: each starts where the bytes before it end, and its first bytes are kept. -/
def Laid (irs : Seq) (accepted : List (Segment × Bytes)) : Prop :=
  ∀ before seg kept after, accepted = before ++ (seg, kept) :: after →
    kept <+: seg.data ∧ seg.seq = irs + 1 + .ofNat 32 (before.flatMap Prod.snd).length

end History

/-- The stack and the histories of its connections. -/
structure Watch where
  stack : NetStack
  history : Nat → History

namespace Watch

/-- The history of a connection after an operation. -/
def observe (s : NetStack) (op : Op) (i : Nat) (h : History) : History :=
  match op with
  | .ingest frame _ _ =>
    match s.arrival frame with
    | some (src, seg) =>
      if s.findTcp src seg = some i then
        match s.tcp[i]?, (s.run op).tcp[i]? with
        | some before, some after => h.seen before after seg
        | _, _ => h
      else h
    | none => h
  | .tcpRecv owner hd max =>
    if s.findHandle owner hd = some i then
      { h with returned := h.returned ++ (s.tcpRecv owner hd max).1.getD [] }
    else h
  | _ => h

def start (mac : Mac) : Watch := ⟨.new mac, fun _ => .empty⟩

def next (w : Watch) (op : Op) : Option Watch := some ⟨w.stack.run op, fun i => observe w.stack op i (w.history i)⟩

def Step (w : Watch) (op : Op) (w' : Watch) : Prop := w.next op = some w'

end Watch

/-! ## A connection and its history -/

open History

structure Stream (sock : TcpSocket) (h : History) : Prop where
  bounded : sock.rx.length ≤ tcpRxCap
  kept : h.returned ++ sock.rx = h.bytes
  ended : h.fin = decide (sock.state = .closed)
  unopened : sock.state = .synSent → h = .empty
  opened : sock.state ≠ .synSent → ∃ irs, h.irs = some irs ∧ Laid irs h.accepted ∧
    sock.rcvNxt = irs + 1 + .ofNat 32 h.bytes.length + (if h.fin then 1#32 else 0#32)

section

variable {sock : TcpSocket} {h : History} {seg : Segment} {irs : Seq}

lemma laid_nil : Laid irs [] := by
  intro before seg kept after heq
  cases before <;> cases heq

lemma History.Laid.append {accepted : List (Segment × Bytes)} (hl : Laid irs accepted) {kept : Bytes}
    (hk : kept <+: seg.data) (hs : seg.seq = irs + 1 + .ofNat 32 (accepted.flatMap Prod.snd).length) :
    Laid irs (accepted ++ [(seg, kept)]) := by
  intro before seg' kept' after heq
  -- the new segment is the last one, or the others are as before
  rcases eq_nil_or_concat after with rfl | ⟨after', last, rfl⟩
  · obtain ⟨rfl, hls⟩ := append_inj' heq rfl
    obtain ⟨rfl, rfl⟩ := Prod.mk.inj (List.cons.inj hls).1
    exact ⟨hk, hs⟩
  · rw [concat_eq_append, ← cons_append, ← append_assoc] at heq
    exact hl before seg' kept' after' (append_inj' heq rfl).1

lemma seen_self : h.seen sock sock seg = h := by
  have hd : sock.rx.drop sock.rx.length = [] := drop_length
  have hr : ¬(sock.state = .synSent ∧ sock.state = .established) := by
    rintro ⟨hs, he⟩
    rw [hs] at he
    cases he
  have hf : ¬(sock.state = .established ∧ sock.state = .closed) := by
    rintro ⟨he, hc⟩
    rw [he] at hc
    cases hc
  simp only [History.seen, hd, if_neg hr, ↓reduceIte, decide_eq_false hf, Bool.or_false]

section

variable (hstate : sock.state = .established)
include hstate

lemma seen_established {after : TcpSocket} {part : Bytes} (hr : after.rx = sock.rx ++ part) :
    h.seen sock after seg =
      { h with accepted := if part = [] then h.accepted else h.accepted ++ [(seg, part)]
               fin := h.fin || decide (after.state = .closed) } := by
  have hd : after.rx.drop sock.rx.length = part := by rw [hr, drop_left]
  have hy : ¬(sock.state = .synSent ∧ after.state = .established) := by
    rintro ⟨hs, -⟩
    rw [hs] at hstate
    cases hstate
  have hf : decide (sock.state = .established ∧ after.state = .closed) = decide (after.state = .closed) :=
    decide_eq_decide.mpr (and_iff_right hstate)
  simp only [History.seen, hd, if_neg hy, hf]

lemma seen_still_established {after : TcpSocket} {part : Bytes} (ha : after.state = .established)
    (hr : after.rx = sock.rx ++ part) :
    h.seen sock after seg =
      { h with accepted := if part = [] then h.accepted else h.accepted ++ [(seg, part)] } := by
  rw [seen_established hstate hr, ha, decide_eq_false (fun h => by cases h), Bool.or_false]

lemma seen_closed {after : TcpSocket} {part : Bytes} (ha : after.state = .closed) (hr : after.rx = sock.rx ++ part) :
    h.seen sock after seg =
      { h with accepted := if part = [] then h.accepted else h.accepted ++ [(seg, part)], fin := true } := by
  rw [seen_established hstate hr, ha, decide_eq_true rfl, Bool.or_true]

end

lemma bytes_accept (part : Bytes) :
    (if part = [] then h.accepted else h.accepted ++ [(seg, part)]).flatMap Prod.snd = h.bytes ++ part := by
  split
  next hn => rw [hn, append_nil, History.bytes]
  · rw [flatMap_append, flatMap_singleton, History.bytes]

section

variable (hstream : Stream sock h)
include hstream

lemma Stream.accept (hstate : sock.state = .established) (hs : seg.seq = sock.rcvNxt) {n : Nat}
    (hn : n ≤ tcpRxCap - sock.rx.length) (he : n ≤ seg.data.length) :
    Stream { sock with rx := sock.rx ++ seg.data.take n, rcvNxt := sock.rcvNxt + .ofNat 32 n }
      { h with accepted := if seg.data.take n = [] then h.accepted else h.accepted ++ [(seg, seg.data.take n)] } := by
  have hb := hstream.bounded
  have hf : h.fin = false := by
    rw [hstream.ended, hstate]
    rfl
  have hne : sock.state ≠ .synSent := by
    rw [hstate]
    exact fun h => by cases h
  have ht : (seg.data.take n).length = n := by rw [length_take, min_eq_left he]
  obtain ⟨irs, hr, hl, hx⟩ := hstream.opened hne
  rw [hf, if_neg Bool.false_ne_true, BitVec.add_zero] at hx
  refine ⟨?_, ?_, hstream.ended, fun h => absurd h hne, fun _ => ⟨irs, hr, ?_, ?_⟩⟩
  · dsimp only
    rw [length_append, ht]
    omega
  · rw [History.bytes, bytes_accept, ← hstream.kept, append_assoc]
  · split
    · exact hl
    · exact hl.append ( take_prefix _ _) (hs.trans hx)
  · rw [History.bytes, bytes_accept, length_append, ht, BitVec.ofNat_add]
    dsimp only
    rw [hf, if_neg Bool.false_ne_true, BitVec.add_zero, hx, BitVec.add_assoc]

lemma Stream.close (hstate : sock.state = .established) :
    Stream { sock with rcvNxt := sock.rcvNxt + 1, state := .closed } { h with fin := true } := by
  have hf : h.fin = false := by
    rw [hstream.ended, hstate]
    rfl
  obtain ⟨irs, hr, hl, hn⟩ := hstream.opened (by rw [hstate]; exact fun h => by cases h)
  rw [hf, if_neg Bool.false_ne_true, BitVec.add_zero] at hn
  refine ⟨hstream.bounded, hstream.kept, rfl, fun h => (by cases h), fun _ => ⟨irs, hr, hl, ?_⟩⟩
  dsimp only
  rw [hn]
  rfl

lemma Stream.openAt (hstate : sock.state = .synSent) :
    Stream { sock with rcvNxt := seg.seq + 1, state := .established } { h with irs := some seg.seq } := by
  obtain rfl := hstream.unopened hstate
  refine ⟨hstream.bounded, hstream.kept, rfl, fun h => (by cases h), fun _ => ⟨seg.seq, rfl, laid_nil, ?_⟩⟩
  exact (BitVec.add_zero _).symm.trans (BitVec.add_zero _).symm

lemma Stream.receive (seg : Segment) :
    Stream (sock.receive seg).1 (h.seen sock (sock.receive seg).1 seg) := by
  unfold TcpSocket.receive
  split
  next hstate =>
    split
    · have hs : h.seen sock { sock with rcvNxt := seg.seq + 1, state := .established } seg =
          { h with irs := some seg.seq } := by
        simp only [History.seen, drop_length, hstate, and_self, ↓reduceIte, reduceCtorEq, decide_false, Bool.or_false]
      rw [hs]
      exact hstream.openAt hstate
    · rw [seen_self]
      exact hstream
  next hstate =>
    dsimp only
    by_cases hf : seg.data ≠ [] ∧ seg.seq = sock.rcvNxt
    · have ha := @Stream.accept sock h seg hstream hstate hf.2
        (min seg.data.length (tcpRxCap - sock.rx.length)) (Nat.min_le_right _ _) (Nat.min_le_left _ _)
      simp only [if_pos hf]
      split
      · rw [seen_closed hstate rfl rfl]
        exact ha.close hstate
      · rw [seen_still_established hstate (by exact hstate) rfl]
        exact ha
    · rw [if_neg hf]
      split
      · have hs := @seen_closed sock h seg hstate { sock with rcvNxt := sock.rcvNxt + 1, state := .closed } [] rfl
          (append_nil _).symm
        rw [if_pos rfl] at hs
        rw [hs]
        exact hstream.close hstate
      · rw [seen_self]
        exact hstream
  next hstate =>
    rw [seen_self]
    exact hstream

lemma Stream.take (n : Nat) :
    Stream { sock with rx := sock.rx.drop n } { h with returned := h.returned ++ sock.rx.take n } := by
  refine ⟨?_, ?_, hstream.ended, fun hstate => ?_, hstream.opened⟩
  · have hb := hstream.bounded
    dsimp only
    rw [length_drop]
    omega
  · dsimp only
    rw [append_assoc, take_append_drop]
    exact hstream.kept
  · obtain rfl := hstream.unopened hstate
    have hr : sock.rx = [] := hstream.kept
    rw [hr, take_nil]
    rfl

lemma Stream.congr (hr : sock'.rx = sock.rx) (hstate : sock'.state = sock.state)
    (hn : sock'.rcvNxt = sock.rcvNxt) : Stream sock' h := by
  obtain ⟨hb, hk, he, hu, ho⟩ := hstream
  exact ⟨hr ▸ hb, hr ▸ hk, hstate ▸ he, hstate ▸ hu, by rw [hstate, hn]; exact ho⟩

end

lemma Stream.new (hstate : sock.state = .synSent) (hr : sock.rx = []) : Stream sock .empty := by
  refine ⟨?_, ?_, ?_, fun _ => rfl, fun h => absurd hstate h⟩
  · rw [hr]
    exact Nat.zero_le _
  · rw [hr]
    rfl
  · rw [hstate]
    rfl

end

/-! ## The stack -/

namespace Watch

variable {w w' : Watch} {op : Op} {i : Nat} {sock : TcpSocket}

/-- Every connection has its stream, and the others have no history. No two have the same port. -/
structure Tracked (w : Watch) : Prop where
  ports : (w.stack.tcp.map TcpSocket.localPort).Nodup
  stream : ∀ (i : Nat) (sock : TcpSocket), w.stack.tcp[i]? = some sock → Stream sock (w.history i)
  unused : ∀ i : Nat, w.stack.tcp.length ≤ i → w.history i = .empty

lemma observe_of_not_touches (hn : ¬s.Touches op i) (h : History) :
    observe s op i h = h := by
  cases op with
  | ingest frame now diag =>
    unfold observe
    dsimp only
    split
    next src seg ha => exact if_neg fun hf => hn ⟨src, seg, ha, hf⟩
    · rfl
  | tcpRecv owner hd max => exact if_neg hn
  | tick | popFrame | ping | udpOpen | udpSend | udpRecv | tcpConnect | tcpSend => rfl

lemma retried_same (now : Nat) (sock : TcpSocket) :
    (sock.retried now).localPort = sock.localPort ∧ (sock.retried now).rx = sock.rx ∧
      (sock.retried now).state = sock.state ∧ (sock.retried now).rcvNxt = sock.rcvNxt := by
  unfold TcpSocket.retried
  split <;> exact ⟨rfl, rfl, rfl, rfl⟩

lemma ports_set {tcp : List TcpSocket} {sock' : TcpSocket} (hc : tcp[i]? = some sock)
    (hp : sock'.localPort = sock.localPort) :
    (tcp.set i sock').map TcpSocket.localPort = tcp.map TcpSocket.localPort := by
  obtain ⟨hi, rfl⟩ := List.getElem?_eq_some_iff.mp hc
  have hs := @List.set_getElem_self _ (tcp.map TcpSocket.localPort) i (by rwa [List.length_map])
  rw [List.getElem_map] at hs
  rw [map_set, hp, hs]

lemma Tracked.set (h : Tracked w) (hs : w.stack.tcp[i]? = some sock)
    (ht : w'.stack.tcp = w.stack.tcp.set i sock') (hp : sock'.localPort = sock.localPort)
    (hstream : Stream sock' (w'.history i)) (ho : ∀ j, j ≠ i → w'.history j = w.history j) : Tracked w' := by
  have hi := (List.getElem?_eq_some_iff.mp hs).1
  refine ⟨?_, fun j sock₁ hs₁ => ?_, fun j hj => ?_⟩
  · rw [ht, ports_set hs hp]
    exact h.ports
  · rw [ht] at hs₁
    by_cases hji : j = i
    · rw [hji, getElem?_set_self hi] at hs₁
      rw [← some.inj hs₁, hji]
      exact hstream
    · rw [getElem?_set_ne (Ne.symm hji)] at hs₁
      rw [ho j hji]
      exact h.stream j sock₁ hs₁
  · rw [ht, length_set] at hj
    rw [ho j (by omega)]
    exact h.unused j hj

lemma history_eq (hs : w.Step op w') (hn : ¬w.stack.Touches op i) : w'.history i = w.history i := by
  cases hs
  exact observe_of_not_touches hn _

lemma Tracked.step (h : Tracked w) (hst : w.Step op w') : Tracked w' := by
  have he : NetStack.Effect w.stack op w'.stack := by
    cases hst
    exact w.stack.run_effect op
  cases he with
  | quiet hn _ hk =>
    refine ⟨hk.1 ▸ h.ports, fun i sock hs => ?_, fun i hi => ?_⟩
    · rw [history_eq hst (hn i)]
      exact h.stream i sock (hk.1 ▸ hs)
    · rw [history_eq hst (hn i)]
      exact h.unused i (hk.1 ▸ hi)
  | pop ht =>
    refine ⟨ht ▸ h.ports, fun i sock hs => ?_, fun i hi => ?_⟩
    · rw [history_eq hst id]
      exact h.stream i sock (ht ▸ hs)
    · rw [history_eq hst id]
      exact h.unused i (ht ▸ hi)
  | tick now ht =>
    refine ⟨?_, fun i sock hs => ?_, fun i hi => ?_⟩
    · have hpt : w.stack.tcp.map (TcpSocket.localPort ∘ TcpSocket.retried now) =
          w.stack.tcp.map TcpSocket.localPort := List.map_congr_left fun sock _ => (retried_same now sock).1
      rw [ht, List.map_map, hpt]
      exact h.ports
    · rw [ht, List.getElem?_map] at hs
      obtain ⟨sock₀, hs₀, rfl⟩ := map_eq_some_iff.mp hs
      obtain ⟨-, hr, hstate, hx⟩ := retried_same now sock₀
      rw [history_eq hst id]
      exact (h.stream i sock₀ hs₀).congr hr hstate hx
    · rw [history_eq hst id]
      exact h.unused i (by rwa [ht, length_map] at hi)
  | connect owner dst port nowNs sock ht hstate hr hp =>
    refine ⟨?_, fun i sock₁ hs₁ => ?_, fun i hi => ?_⟩
    · rw [ht, map_append, nodup_append]
      refine ⟨h.ports, nodup_singleton _, ?_⟩
      intro a ha b hb heq
      rw [map_singleton, mem_singleton] at hb
      rw [heq, hb] at ha
      exact hp ha
    · rw [history_eq hst id]
      rw [ht] at hs₁
      by_cases hi : i < w.stack.tcp.length
      · rw [getElem?_append_left hi] at hs₁
        exact h.stream i sock₁ hs₁
      · -- the new connection
        rw [h.unused i (by omega)]
        rw [getElem?_append_right (by omega)] at hs₁
        rw [mem_singleton.mp (mem_of_getElem? hs₁)]
        exact .new hstate hr
    · rw [history_eq hst id]
      rw [ht, length_append] at hi
      exact h.unused i (by omega)
  | send owner hd data i sock n hs ht =>
    refine h.set hs ht rfl ?_ fun j _ => history_eq hst id
    rw [history_eq hst id]
    exact (h.stream i sock hs).congr rfl rfl rfl
  | recv owner hd max i sock hf hs ho ht =>
    refine h.set hs ht rfl ?_ fun j hj => history_eq hst fun (hc : _ = some j) => hj ?_
    · have hh : w'.history i = { w.history i with
          returned := (w.history i).returned ++ sock.rx.take (min max sock.rx.length) } := by
        cases hst
        change observe w.stack (.tcpRecv owner hd max) i (w.history i) = _
        unfold observe
        dsimp only
        rw [if_pos hf, ho, getD_some]
      rw [hh]
      exact (h.stream i sock hs).take _
    · rw [hf] at hc
      exact (some.inj hc).symm
  | segment frame now diag src seg i sock har hf hs ht =>
    refine h.set hs ht (NetStack.receive_ends sock seg).1 ?_ fun j hj => history_eq hst ?_
    · have hh : w'.history i = (w.history i).seen sock (sock.receive seg).1 seg := by
        have hi := (List.getElem?_eq_some_iff.mp hs).1
        cases hst
        change (w.stack.run (.ingest frame now diag)).tcp = _ at ht
        change observe w.stack (.ingest frame now diag) i (w.history i) = _
        unfold observe
        dsimp only
        rw [har]
        dsimp only
        rw [if_pos hf, ht, hs, getElem?_set_self hi]
      rw [hh]
      exact (h.stream i sock hs).receive seg
    · rintro ⟨src', seg', har', hf'⟩
      rw [har] at har'
      cases har'
      rw [hf] at hf'
      exact hj (some.inj hf').symm

lemma Tracked.run (hrun : Run Step (start mac) ops w) : Tracked w := by
  induction hrun with
  | nil => exact ⟨nodup_nil, fun i sock hc => (by cases hc), fun i _ => rfl⟩
  | snoc _ hs ih => exact ih.step hs

lemma acks_step (hst : w.Step op w') : ∃ new gone, (w.stack.segments ++ new).Perm (gone ++ w'.stack.segments) ∧
    (op ≠ .popFrame → gone = []) ∧ (op = .popFrame → new = []) ∧
    ∀ t ∈ new, t.flags &&& 0x10 ≠ 0 → ∃ (i : Nat) (sock : TcpSocket), w'.stack.tcp[i]? = some sock ∧
      t.sport = sock.localPort ∧ t.dst = sock.remote ∧ t.dport = sock.remotePort ∧ t.ack = sock.rcvNxt := by
  have hef : NetStack.Effect w.stack op w'.stack := by
    cases hst
    exact w.stack.run_effect op
  have hn : ∀ t ∈ ([] : List TcpPacket), t.flags &&& 0x10 ≠ 0 → ∃ (i : Nat) (sock : TcpSocket),
      w'.stack.tcp[i]? = some sock ∧ t.sport = sock.localPort ∧ t.dst = sock.remote ∧ t.dport = sock.remotePort ∧
        t.ack = sock.rcvNxt := fun t ht => absurd ht not_mem_nil
  have hy : ∀ (new : List TcpPacket), (∀ t ∈ new, t.flags = 0x02) → ∀ t ∈ new, ¬t.flags &&& 0x10 ≠ 0 := by
    intro new hf t ht ha
    rw [hf t ht] at ha
    exact ha rfl
  cases hef with
  | quiet _ hp hk => exact ⟨[], [], hk.2.symm, fun _ => rfl, fun _ => rfl, hn⟩
  | pop _ gone hg => exact ⟨[], gone, by rwa [append_nil], fun h => absurd rfl h, fun _ => rfl, hn⟩
  | tick now _ new he hf | connect owner dst port nowNs sock _ _ _ _ new he hf =>
    exact ⟨new, [], he.symm, fun _ => rfl, fun h => (by cases h), fun t ht ha => absurd ha (hy new hf t ht)⟩
  | send owner hd data i sock n hs htc new he hc =>
    refine ⟨new, [], he.symm, fun _ => rfl, fun h => (by cases h), fun t ht _ => ?_⟩
    obtain ⟨hsp, hds, hdp, -, ha⟩ := hc t ht
    refine ⟨i, { sock with sndNxt := sock.sndNxt + n }, ?_, hsp, hds, hdp, ha⟩
    rw [htc, List.getElem?_set_self (List.getElem?_eq_some_iff.mp hs).1]
  | recv owner hd max i sock _ hs _ htc new he hc =>
    refine ⟨new, [], he.symm, fun _ => rfl, fun h => (by cases h), fun t ht _ => ?_⟩
    obtain ⟨hsp, hds, hdp, -, ha⟩ := hc t ht
    refine ⟨i, { sock with rx := sock.rx.drop (min max sock.rx.length) }, ?_, hsp, hds, hdp, ha⟩
    rw [htc, List.getElem?_set_self (List.getElem?_eq_some_iff.mp hs).1]
  | segment frame now diag src seg i sock _ _ hs htc new he hc =>
    refine ⟨new, [], he.symm, fun _ => rfl, fun h => (by cases h), fun t ht _ => ?_⟩
    obtain ⟨hsp, hds, hdp, -, ha⟩ := hc t ht
    obtain ⟨hl, hr, hremotePort⟩ := NetStack.receive_ends sock seg
    refine ⟨i, (sock.receive seg).1, ?_, by rw [hl, hsp], by rw [hr, hds],
      by rw [hremotePort, hdp], ha⟩
    rw [htc, List.getElem?_set_self (List.getElem?_eq_some_iff.mp hs).1]

/-- What a connection receives. The bytes that were handed out and the ones that wait are those of the accepted
segments, laid end to end from the initial sequence number on; the next number that is expected comes after them,
and after the end of the stream; no more bytes wait than there is room for; and the segments that an operation
builds acknowledge just the bytes before the number that is expected then. -/
theorem tcp_receive_stream {mac : Mac} (hrun : Run Step (start mac) ops w) :
    (∀ (i : Nat) (sock : TcpSocket), w.stack.tcp[i]? = some sock → sock.state ≠ .synSent → ∃ irs, (w.history i).irs = some irs ∧
      (w.history i).returned ++ sock.rx = (w.history i).accepted.flatMap Prod.snd ∧
      (∀ before seg kept after, (w.history i).accepted = before ++ (seg, kept) :: after →
        kept <+: seg.data ∧ seg.seq = irs + 1 + .ofNat 32 (before.flatMap Prod.snd).length) ∧
      sock.rcvNxt = irs + 1 + .ofNat 32 ((w.history i).accepted.flatMap Prod.snd).length +
        (if (w.history i).fin then 1#32 else 0#32) ∧
      sock.rx.length ≤ tcpRxCap) ∧
    ∀ op w', w.Step op w' → ∃ new gone, (w.stack.segments ++ new).Perm (gone ++ w'.stack.segments) ∧
      (op ≠ .popFrame → gone = []) ∧ (op = .popFrame → new = []) ∧
      ∀ t ∈ new, t.flags &&& 0x10 ≠ 0 → ∃ (i : Nat) (sock : TcpSocket), w'.stack.tcp[i]? = some sock ∧
        t.sport = sock.localPort ∧ t.dst = sock.remote ∧ t.dport = sock.remotePort ∧ t.ack = sock.rcvNxt := by
  refine ⟨fun i sock hs hstate => ?_, fun op w' ht => acks_step ht⟩
  have hstream := (Tracked.run hrun).stream i sock hs
  obtain ⟨irs, hr, hl, hn⟩ := hstream.opened hstate
  exact ⟨irs, hr, hstream.kept, hl, hn, hstream.bounded⟩

/-! ## Progress -/

/-- The bytes of the segment contain the next one that is expected, or they all come before it. -/
def Due (sock : TcpSocket) (seg : Segment) : Prop := (sock.rcvNxt - seg.seq).toNat < seg.data.length ∨
    (sock.rcvNxt - (seg.seq + .ofNat 32 seg.data.length)).toNat < 2 ^ 31

/-- The connection has kept a byte, or an acknowledgement of what it has received was built. -/
def Progresses (s s' : NetStack) (i : Nat) (sock : TcpSocket) : Prop := ∃ sock', s'.tcp[i]? = some sock' ∧
    ((∃ kept, kept ≠ [] ∧ sock'.rx = sock.rx ++ kept) ∨
      ∃ new, NetStack.Emits s s' new ∧ ∃ t ∈ new, t.flags &&& 0x10 ≠ 0 ∧ t.sport = sock.localPort ∧ t.ack = sock'.rcvNxt)

lemma Tracked.findTcp (h : Tracked w) (hs : w.stack.tcp[i]? = some sock)
    (hp : sock.localPort = seg.dport) (hr : sock.remote = src) (hremotePort : sock.remotePort = seg.sport) :
    w.stack.findTcp src seg = some i := by
  cases hf : w.stack.findTcp src seg with
  | none =>
    have hn := findIdx?_eq_none_iff.mp hf sock (mem_of_getElem? hs)
    simp [hp, hr, hremotePort] at hn
  | some j =>
    obtain ⟨sock', hs', hp', -⟩ := NetStack.findTcp_eq_some hf
    have hi : (w.stack.tcp.map TcpSocket.localPort)[i]? = some seg.dport := by rw [getElem?_map, hs, map_some, hp]
    have hj : (w.stack.tcp.map TcpSocket.localPort)[j]? = some seg.dport := by
      rw [List.getElem?_map, hs', Option.map_some, hp']
    have hlt := (List.getElem?_eq_some_iff.mp hi).1
    rw [(List.getElem?_inj hlt h.ports).mp (hi.trans hj.symm)]

lemma receive_rx (hstate : sock.state = .established) (hd : seg.data ≠ [])
    (hs : seg.seq = sock.rcvNxt) : (sock.receive seg).1.rx =
      sock.rx ++ seg.data.take (min seg.data.length (tcpRxCap - sock.rx.length)) := by
  unfold TcpSocket.receive
  rw [hstate]
  have hf : seg.data ≠ [] ∧ seg.seq = sock.rcvNxt := ⟨hd, hs⟩
  simp only [if_pos hf]
  split <;> rfl

/-- Progress. A segment that brings what a connection with room expects next makes progress. -/
theorem tcp_receive_progress {mac : Mac} (hrun : Run Step (start mac) ops w) {i : Nat} {sock : TcpSocket}
    (hsock : w.stack.tcp[i]? = some sock) (hstate : sock.state = .established)
    (hroom : sock.rx.length < tcpRxCap) {frame : Bytes} {src : Ipv4} {seg : Segment}
    (harrival : w.stack.arrival frame = some (src, seg)) (hport : sock.localPort = seg.dport)
    (hremote : sock.remote = src) (hremotePort : sock.remotePort = seg.sport) (hdata : seg.data ≠ [])
    (hseq : seg.seq = sock.rcvNxt) (now : Nat) (diag : Bytes) :
    Progresses w.stack (w.stack.ingest frame now diag) i sock := by
  have hf := (Tracked.run hrun).findTcp hsock hport hremote hremotePort
  have he := w.stack.effect_ingest frame now diag
  cases he with
  | quiet ho => exact absurd ⟨src, seg, harrival, hf⟩ (ho i)
  | segment frame now diag src' seg' i' sock' harrival' hf' hsock' ht =>
    rw [harrival] at harrival'
    cases harrival'
    rw [hf] at hf'
    cases hf'
    rw [hsock] at hsock'
    cases hsock'
    refine ⟨(sock.receive seg).1, ?_, .inl ⟨_, ?_, receive_rx hstate hdata hseq⟩⟩
    · rw [ht, List.getElem?_set_self (List.getElem?_eq_some_iff.mp hsock).1]
    · rw [Ne, List.take_eq_nil_iff]
      have hl := List.length_pos_of_ne_nil hdata
      rintro (hz | hn)
      · omega
      · exact hdata hn

/-! ## A peer -/

/-- A host on the same network, which is the gateway too. -/
def hostMac : Mac := 0x020000000001

def peerMac : Mac := 0x020000000002

def hostIp : Ipv4 := 0x0a00020f

def peerIp : Ipv4 := 0x0a000202

/-- An answer of the peer to a request for an address. -/
def lease (options : Bytes) : Op :=
  let payload := [2, 1, 6, 0] ++ toBe 4 0x5a45524f ++ List.replicate 8 0 ++ toBe 4 hostIp.toNat ++
    toBe 4 peerIp.toNat ++ List.replicate 4 0 ++ toBe 6 hostMac.toNat ++ List.replicate 202 0 ++
    [99, 130, 83, 99] ++ options
  .ingest (buildEth hostMac peerMac ethIpv4 (buildIpv4 peerIp hostIp .udp (buildUdp 67 68 payload) 0)) 0 []

def fromPeer (s : NetStack) (seq : Seq) (flags : UInt8) (data : Bytes) : Op :=
  let ports := (s.tcp.map fun sock => (sock.localPort, sock.sndNxt)).headD (0, 0)
  let segment : TcpPacket := ⟨peerIp, hostIp, 80, ports.1, seq, ports.2, flags, 0xffff, data⟩
  .ingest (buildEth hostMac peerMac ethIpv4 (buildIpv4 peerIp hostIp .tcp segment.encode 0)) 0 []

def connecting : List Op :=
  [.tick 0, lease [53, 1, 2, 255], lease [53, 1, 5, 3, 4, 10, 0, 2, 2, 255], .tcpConnect 7 peerIp 80 0]

def connected : NetStack := connecting.foldl NetStack.run (.new hostMac)

def opening : List Op := connecting ++ [fromPeer connected 100 0x12 []]

def established : NetStack := opening.foldl NetStack.run (.new hostMac)

def threeBytes : Op := fromPeer established 101 0x18 [1, 2, 3]

/-- Three bytes come in, and one is handed out. -/
theorem tcp_receive_stream_data : ∃ w sock,
    Run Step (start hostMac) (opening ++ [threeBytes, .tcpRecv 7 1 1]) w ∧ w.stack.tcp[0]? = some sock ∧
    sock.state ≠ .synSent ∧ sock.rx = [2, 3] ∧ (w.history 0).returned = [1] ∧
    ∃ irs, (w.history 0).irs = some irs ∧ (w.history 0).returned ++ sock.rx = (w.history 0).accepted.flatMap Prod.snd := by
  have hc : (execute next (start hostMac) (opening ++ [threeBytes, .tcpRecv 7 1 1])).any (fun w =>
      (w.stack.tcp[0]?).any fun sock => decide (sock.state ≠ .synSent) && (decide (sock.rx = [2, 3]) &&
        decide ((w.history 0).returned = [1]))) = true := by decide +kernel
  obtain ⟨w, hrun, h⟩ := @exists_run_of_execute _ _ Step _ _ _ id _ hc
  obtain ⟨sock, hs, h⟩ := (Option.any_eq_true ..).mp h
  simp only [Bool.and_eq_true, decide_eq_true_eq] at h
  obtain ⟨irs, hr, hk, -⟩ := (tcp_receive_stream hrun).1 0 sock hs h.1
  exact ⟨w, sock, hrun, hs, h.1, h.2.1, h.2.2, irs, hr, hk⟩

def frameOf : Op → Bytes
  | .ingest frame _ _ => frame
  | _ => []

/-- The peer sends three bytes to an established connection. -/
theorem tcp_receive_progress_data : ∃ w sock src seg, Run Step (start hostMac) opening w ∧
    w.stack.tcp[0]? = some sock ∧ sock.state = .established ∧ sock.rx.length < tcpRxCap ∧
    w.stack.arrival (frameOf threeBytes) = some (src, seg) ∧ seg.data = [1, 2, 3] ∧ seg.seq = sock.rcvNxt ∧
    Progresses w.stack (w.stack.ingest (frameOf threeBytes) 0 []) 0 sock := by
  have hc : (execute next (start hostMac) opening).any (fun w => (w.stack.tcp[0]?).any fun sock =>
      (w.stack.arrival (frameOf threeBytes)).any fun p =>
        decide (sock.state = .established ∧ sock.rx.length < tcpRxCap ∧ p.2.data = [1, 2, 3] ∧
          p.2.seq = sock.rcvNxt ∧ sock.localPort = p.2.dport ∧ sock.remote = p.1 ∧ sock.remotePort = p.2.sport)) =
        true := by decide +kernel
  obtain ⟨w, hrun, h⟩ := @exists_run_of_execute _ _ Step _ _ _ id _ hc
  obtain ⟨sock, hs, h⟩ := (Option.any_eq_true ..).mp h
  obtain ⟨⟨src, seg⟩, ha, h⟩ := (Option.any_eq_true ..).mp h
  obtain ⟨hstate, hr, hd, hq, hp, ht, hremotePort⟩ := of_decide_eq_true h
  exact ⟨w, sock, src, seg, hrun, hs, hstate, hr, ha, hd, hq, tcp_receive_progress hrun hs hstate hr ha hp ht hremotePort
      (by rw [hd]; exact cons_ne_nil _ _) hq 0 []⟩

lemma not_progresses (hm : s'.tcp[i]? = some sock) (hg : s'.segments = s.segments) :
    ¬Progresses s s' i sock := by
  rintro ⟨sock', hs', ⟨kept, hne, hr⟩ | ⟨new, he, t, ht, -⟩⟩
  · rw [hm] at hs'
    cases hs'
    exact hne (append_cancel_left ((append_nil _).trans hr)).symm
  · have hl := List.Perm.length_eq he
    rw [hg, length_append] at hl
    have hp := length_pos_of_mem ht
    omega

/-- The three bytes come in, the acknowledgement is lost, and the peer sends them again: nothing happens. -/
theorem retransmission_unanswered : ∃ w sock src seg, Run Step (start hostMac) (opening ++ [threeBytes]) w ∧
    w.stack.tcp[0]? = some sock ∧ sock.state = .established ∧ sock.rx.length < tcpRxCap ∧
    w.stack.arrival (frameOf threeBytes) = some (src, seg) ∧ sock.localPort = seg.dport ∧ sock.remote = src ∧
    sock.remotePort = seg.sport ∧ seg.data ≠ [] ∧ Due sock seg ∧
    ¬Progresses w.stack (w.stack.ingest (frameOf threeBytes) 0 []) 0 sock := by
  have hc : (execute next (start hostMac) (opening ++ [threeBytes])).any (fun w =>
      (w.stack.tcp[0]?).any fun sock => (w.stack.arrival (frameOf threeBytes)).any fun p =>
        ((w.stack.ingest (frameOf threeBytes) 0 []).tcp[0]?).any fun sock' =>
          decide (sock.state = .established ∧ sock.rx.length < tcpRxCap ∧ sock.localPort = p.2.dport ∧
            sock.remote = p.1 ∧ sock.remotePort = p.2.sport ∧ p.2.data ≠ [] ∧
            (sock.rcvNxt - (p.2.seq + .ofNat 32 p.2.data.length)).toNat < 2 ^ 31 ∧ sock' = sock ∧
            (w.stack.ingest (frameOf threeBytes) 0 []).segments = w.stack.segments)) = true := by decide +kernel
  obtain ⟨w, hrun, h⟩ := @exists_run_of_execute _ _ Step _ _ _ id _ hc
  obtain ⟨sock, hs, h⟩ := (Option.any_eq_true ..).mp h
  obtain ⟨⟨src, seg⟩, ha, h⟩ := (Option.any_eq_true ..).mp h
  obtain ⟨sock', hs', h⟩ := (Option.any_eq_true ..).mp h
  obtain ⟨hstate, hr, hp, ht, hremotePort, hd, hu, rfl, hg⟩ := of_decide_eq_true h
  exact ⟨w, sock', src, seg, hrun, hs, hstate, hr, ha, hp, ht, hremotePort, hd, .inr hu, not_progresses hs' hg⟩

end Watch

end ZeroOS.Net
