import ZeroOS.Lib.Wire

/-!
# The crash log

`pstore` keeps the end of a log in a window of memory that survives a reset. An append is a list of stores, in the
order of the program, so that a reset in the middle leaves what the first of them have written. The window holds a
log if each of the last bytes of the log stands in the cell of its position.
-/

namespace ZeroOS.Debug

open Function List Wire

@[irreducible] def ringLen : Nat := 64 * 1024 - 0x10

lemma ringLen_eq : ringLen = 65520 := by rw [ringLen]

def pstoreMagic : UInt64 := 0x003130315453505a

/-- The window: its header and the cells of the ring. -/
structure Window where
  magic : UInt64
  seq : Nat
  wr : Nat
  ring : Nat → UInt8

inductive Store
  | magic (v : UInt64)
  | seq (n : Nat)
  | wr (n : Nat)
  | ring (pos : Nat) (b : UInt8)

def Window.store (w : Window) : Store → Window
  | .magic v => { w with magic := v }
  | .seq n => { w with seq := n }
  | .wr n => { w with wr := n }
  | .ring pos b => { w with ring := update w.ring pos b }

def Window.stores (w : Window) (l : List Store) : Window := l.foldl Window.store w

lemma stores_append (w : Window) (a b : List Store) : w.stores (a ++ b) = (w.stores a).stores b := foldl_append ..

def initFresh : List Store := [.seq 0, .wr 0, .magic pstoreMagic]

def writeRing (pos : Nat) (bytes : Bytes) : List Store := bytes.mapIdx fun k b => .ring (pos + k) b

def commitHeader (seq wr : Nat) : List Store := [.wr wr, .seq seq]

def ensureValid (w : Window) : List Store := if w.magic = pstoreMagic then [] else initFresh

/-- The bytes that `append` keeps, the last ones if there are too many. -/
def payload (bytes : Bytes) : Bytes := bytes.drop (bytes.length - ringLen)

/-- The stores of `append` to a window with a valid header. -/
def payloadStores (w : Window) (p : Bytes) : List Store :=
  if p = [] then []
  else
    let start := w.wr % ringLen
    let first := min p.length (ringLen - start)
    writeRing start (p.take first) ++ (if first < p.length then writeRing 0 (p.drop first) else []) ++
      commitHeader (min (w.seq + p.length) (2 ^ 32 - 1)) ((w.wr + p.length) % ringLen)

/-- The stores of `append`. -/
def appendStores (w : Window) (bytes : Bytes) : List Store :=
  ensureValid w ++ payloadStores (w.stores (ensureValid w)) (payload bytes)

def append (w : Window) (bytes : Bytes) : Window := w.stores (appendStores w bytes)

def readPlan (seq wr : Nat) : Nat × Nat :=
  let n := min seq ringLen
  ((wr + ringLen - n) % ringLen, n)

def Window.replay (w : Window) (plan : Nat → Nat → Nat × Nat) : Bytes :=
  if w.magic = pstoreMagic then
    (List.range (plan w.seq w.wr).2).map fun i => w.ring (((plan w.seq w.wr).1 + i) % ringLen)
  else []

/-- The formula of `replay_previous` in the bootloader. -/
def replayPrevious (seq wr : Nat) : Nat × Nat :=
  let n := min seq ringLen
  let start := (wr + ringLen - n) % ringLen
  (start, n)

variable {w : Window} {log p bytes : Bytes}

/-! ## What the window holds -/

structure Window.Holds (w : Window) (log : Bytes) : Prop where
  magic : w.magic = pstoreMagic
  seq : w.seq = min log.length (2 ^ 32 - 1)
  wr : w.wr = log.length % ringLen
  ring {i : Nat} (hi : i < log.length) (hlast : log.length ≤ i + ringLen) : log[i]? = some (w.ring (i % ringLen))

lemma replay_eq (log : Bytes) (hm : w.magic = pstoreMagic) (hn : min w.seq ringLen = n) (hle : n ≤ log.length)
    (hw : w.wr = log.length % ringLen)
    (hc : ∀ i, log.length - n ≤ i → i < log.length → log[i]? = some (w.ring (i % ringLen))) :
    w.replay readPlan = log.drop (log.length - n) := by
  refine ext_getElem? fun i => ?_
  rw [getElem?_drop]
  by_cases hi : i < n
  · have hp : (w.wr + ringLen - n + i) % ringLen = (log.length - n + i) % ringLen := by
      rw [hw]
      simp only [ringLen_eq] at *
      omega
    rw [hc (log.length - n + i) (by omega) (by omega)]
    simp [Window.replay, hm, readPlan, hn, hi, hp]
  · have ho : log[log.length - n + i]? = none := getElem?_eq_none (by omega)
    simp [Window.replay, hm, readPlan, hn, hi, ho]

lemma Window.Holds.replay (h : w.Holds log) : w.replay readPlan = log.drop (log.length - ringLen) := by
  have hn : min w.seq ringLen = min log.length ringLen := by
    rw [h.seq, ringLen_eq]
    omega
  have hsub : log.length - min log.length ringLen = log.length - ringLen := by omega
  rw [replay_eq log h.magic hn (by omega) h.wr fun i hl hi => h.ring hi (by omega), hsub]

/-! ## Appending -/

def cellStores (start : Nat) (p : Bytes) : List Store := p.mapIdx fun k b => .ring ((start + k) % ringLen) b

lemma cells_eq (hb : start < ringLen) (hp : p.length ≤ ringLen) :
    writeRing start (p.take (min p.length (ringLen - start))) ++
      (if min p.length (ringLen - start) < p.length then writeRing 0 (p.drop (min p.length (ringLen - start))) else []) =
    cellStores start p := by
  generalize hf : min p.length (ringLen - start) = first
  have hr : (if first < p.length then writeRing 0 (p.drop first) else []) = writeRing 0 (p.drop first) := by
    split
    · rfl
    · rw [drop_of_length_le (by omega)]
      rfl
  rw [hr, cellStores, ← take_append_drop first p, mapIdx_append, take_append_drop, length_take_of_le (by omega)]
  congr 1
  · refine mapIdx_eq_mapIdx_iff.mpr fun i hi => ?_
    rw [length_take] at hi
    rw [Nat.mod_eq_of_lt (by omega)]
  · refine mapIdx_eq_mapIdx_iff.mpr fun i hi => ?_
    rw [length_drop] at hi
    congr 1
    simp only [ringLen_eq] at *
    omega

lemma stores_cells (w : Window) (start : Nat) (hp : p.length ≤ ringLen) :
    ∃ ring, w.stores (cellStores start p) = { w with ring } ∧ (∀ k < p.length, p[k]? = some (ring ((start + k) % ringLen))) ∧
      ∀ j, (∀ k < p.length, j ≠ (start + k) % ringLen) → ring j = w.ring j := by
  induction p using List.reverseRecOn with
  | nil => exact ⟨w.ring, rfl, fun k hk => absurd hk (Nat.not_lt_zero k), fun _ _ => rfl⟩
  | append_singleton p b ih =>
    rw [length_append, length_singleton] at hp
    obtain ⟨ring, hs, hn, ho⟩ := ih (by omega)
    refine ⟨update ring ((start + p.length) % ringLen) b, ?_, fun k hk => ?_, fun j hj => ?_⟩
    · rw [cellStores, mapIdx_append, stores_append, ← cellStores, hs]
      simp [Window.stores, Window.store]
    · rw [length_append, length_singleton] at hk
      by_cases hl : k = p.length
      · simp [hl]
      · have hne : (start + k) % ringLen ≠ (start + p.length) % ringLen := by
          simp only [ringLen_eq] at *
          omega
        rw [update_of_ne hne, getElem?_append_left (by omega), hn k (by omega)]
    · rw [length_append, length_singleton] at hj
      rw [update_of_ne (hj p.length (by omega)), ho j fun k hk => hj k (by omega)]

lemma payloadStores_eq (h : w.Holds log) (hp : p.length ≤ ringLen) (hne : p ≠ []) :
    payloadStores w p = cellStores log.length p ++ commitHeader (min (w.seq + p.length) (2 ^ 32 - 1))
      ((log.length + p.length) % ringLen) := by
  have hb : w.wr % ringLen = log.length % ringLen := by rw [h.wr, Nat.mod_mod]
  have hc : cellStores (log.length % ringLen) p = cellStores log.length p := by
    refine mapIdx_eq_mapIdx_iff.mpr fun i _ => ?_
    rw [Nat.mod_add_mod]
  rw [payloadStores, if_neg hne]
  dsimp only
  rw [hb, cells_eq (Nat.mod_lt _ (by rw [ringLen_eq]; decide)) hp, hc, h.wr, Nat.mod_add_mod]

lemma Window.Holds.cells (h : w.Holds log) {ring : Nat → UInt8}
    (hn : ∀ k < p.length, p[k]? = some (ring ((log.length + k) % ringLen)))
    (ho : ∀ j, (∀ k < p.length, j ≠ (log.length + k) % ringLen) → ring j = w.ring j) {i : Nat}
    (hi : i < (log ++ p).length) (hs : (log ++ p).length ≤ i + ringLen) :
    (log ++ p)[i]? = some (ring (i % ringLen)) := by
  rw [length_append] at hi hs
  by_cases hl : i < log.length
  · rw [getElem?_append_left hl, ho (i % ringLen) fun k hk => by simp only [ringLen_eq] at *; omega, h.ring hl (by omega)]
  · have hk := hn (i - log.length) (by omega)
    rw [getElem?_append_right (by omega), hk, Nat.add_sub_cancel' (by omega)]

lemma Window.Holds.append (h : w.Holds log) (hp : p.length ≤ ringLen) : (w.stores (payloadStores w p)).Holds (log ++ p) := by
  by_cases hne : p = []
  · subst hne
    rw [append_nil]
    exact h
  · obtain ⟨ring, hs, hn, ho⟩ := stores_cells w log.length hp
    rw [payloadStores_eq h hp hne, stores_append, hs]
    refine ⟨h.magic, ?_, by rw [length_append]; rfl, h.cells hn ho⟩
    change min (w.seq + p.length) (2 ^ 32 - 1) = _
    rw [h.seq, length_append]
    omega

lemma holds_fresh (h : w.magic ≠ pstoreMagic) : (w.stores (ensureValid w)).Holds [] := by
  rw [ensureValid, if_neg h]
  exact ⟨rfl, rfl, rfl, fun hi => absurd hi (Nat.not_lt_zero _)⟩

/-! ## Runs -/

def Window.Logged (w : Window) (log : Bytes) : Prop := w.Holds log ∨ w.magic ≠ pstoreMagic ∧ log = []

lemma length_payload (a : Bytes) : (payload a).length = min a.length ringLen := by
  rw [payload, length_drop]
  omega

lemma payload_of_le (h : a.length ≤ ringLen) : payload a = a := by
  rw [payload, Nat.sub_eq_zero_of_le h, drop_zero]

lemma payload_append_left (a b : Bytes) : payload (payload a ++ b) = payload (a ++ b) := by
  have hs : (a ++ b).drop (a.length - ringLen) = payload a ++ b := drop_append_of_le_length (by omega)
  rw [payload.eq_1 (payload a ++ b), ← hs, drop_drop, length_drop, length_append, payload, length_append]
  congr 1
  omega

lemma payload_append_right (a b : Bytes) : payload (a ++ payload b) = payload (a ++ b) := by
  by_cases hb : b.length ≤ ringLen
  · rw [payload_of_le hb]
  · have hl := length_payload b
    have he : payload (a ++ payload b) = payload b := by
      rw [payload, length_append, drop_append, drop_of_length_le (by omega), nil_append,
        show a.length + (payload b).length - ringLen - a.length = 0 by omega, drop_zero]
    rw [he, payload, payload, length_append, drop_append, drop_of_length_le (l := a) (by omega), nil_append]
    congr 1
    omega

lemma Window.Logged.append (h : w.Logged log) (d : Bytes) : (append w d).Holds (log ++ payload d) := by
  have hl : (payload d).length ≤ ringLen := by rw [length_payload]; omega
  rw [Debug.append, appendStores, stores_append]
  obtain hh | ⟨hc, rfl⟩ := h
  · have hv : ensureValid w = [] := if_pos hh.magic
    rw [hv]
    exact hh.append hl
  · exact (holds_fresh hc).append hl

lemma logged_appends (hc : w.magic ≠ pstoreMagic) (ds : List Bytes) : ∃ log, (ds.foldl append w).Logged log ∧
    payload log = payload ds.flatten ∧ log.length ≤ ds.flatten.length := by
  induction ds using List.reverseRecOn with
  | nil => exact ⟨[], .inr ⟨hc, rfl⟩, rfl, le_refl _⟩
  | append_singleton ds d ih =>
    obtain ⟨log, hl, hp, he⟩ := ih
    rw [foldl_append, flatten_append, flatten_singleton]
    refine ⟨log ++ payload d, .inl (hl.append d), ?_, ?_⟩
    · rw [payload_append_right, ← payload_append_left, hp, payload_append_left]
    · rw [length_append, length_append, length_payload]
      omega

lemma Window.Logged.replay (h : w.Logged log) : w.replay readPlan = payload log := by
  obtain hh | ⟨hc, rfl⟩ := h
  · exact hh.replay
  · rw [Window.replay, if_neg hc, payload, drop_nil]

/-- The crash log is the end of what was appended, for the kernel and for the bootloader. -/
theorem replay_is_end_of_log (hclear : w.magic ≠ pstoreMagic) (ds : List Bytes) :
    (ds.foldl append w).replay readPlan = ds.flatten.drop (ds.flatten.length - min ds.flatten.length ringLen) ∧
      (ds.foldl append w).replay replayPrevious = (ds.foldl append w).replay readPlan := by
  obtain ⟨log, hl, hp, -⟩ := logged_appends hclear ds
  refine ⟨?_, rfl⟩
  rw [hl.replay, hp, payload]
  congr 1
  omega

theorem replay_is_end_of_log_two : ([[1, 2], [3]].foldl append ⟨0, 7, 7, fun _ => 0⟩).replay readPlan = [1, 2, 3] := by
  rw [(replay_is_end_of_log (w := ⟨0, 7, 7, fun _ => 0⟩) (by decide) [[1, 2], [3]]).1, ringLen_eq]
  rfl

/-! ## Resets -/

lemma Window.Holds.reset (h : w.Holds log) (hf : log.length + p.length ≤ ringLen) (k : Nat) :
    (w.stores ((payloadStores w p).take k)).replay readPlan <:+: log ++ p := by
  by_cases hne : p = []
  · have hnl : payloadStores w p = [] := if_pos hne
    rw [hnl, take_nil, show w.stores [] = w from rfl, h.replay]
    exact (drop_suffix ..).isInfix.trans (prefix_append ..).isInfix
  have hn : min w.seq ringLen = log.length := by
    rw [h.seq]
    simp only [ringLen_eq] at *
    omega
  rw [payloadStores_eq h (by omega) hne, take_append, show (cellStores log.length p).length = p.length by simp [cellStores]]
  by_cases hk : k ≤ p.length
  · -- the old header: the new bytes are behind the log
    have ht : (cellStores log.length p).take k = cellStores log.length (p.take k) := by
      refine ext_getElem? fun i => ?_
      simp only [cellStores, getElem?_take, getElem?_mapIdx]
      split <;> rfl
    obtain ⟨ring, hs, -, ho⟩ := stores_cells w log.length (p := p.take k) (by simp; omega)
    have hr := replay_eq (w := { w with ring }) log h.magic hn (le_refl _) h.wr fun i _ hi => by
      have hp : ring (i % ringLen) = w.ring (i % ringLen) := ho _ fun m hm => by
        rw [length_take] at hm
        simp only [ringLen_eq] at *
        omega
      rw [h.ring hi (by omega), ← hp]
    rw [Nat.sub_eq_zero_of_le hk, take_zero, append_nil, ht, hs, hr]
    exact (drop_suffix ..).isInfix.trans (prefix_append ..).isInfix
  obtain ⟨ring, hs, hw, ho⟩ := stores_cells w log.length (p := p) (by omega)
  rw [take_of_length_le (l := cellStores log.length p) (by simp [cellStores]; omega)]
  by_cases hl : k = p.length + 1
  · -- the new position with the old length: the log without its first bytes
    have hr := replay_eq (w := { w with ring, wr := (log.length + p.length) % ringLen }) (log ++ p) h.magic hn
      (by simp) (by rw [length_append]) fun i _ hi => h.cells hw ho hi (by rw [length_append]; omega)
    rw [hl, Nat.add_sub_cancel_left, stores_append, hs]
    exact hr.symm ▸ (drop_suffix ..).isInfix
  · have ha := h.append (p := p) (by omega)
    rw [payloadStores_eq h (by omega) hne] at ha
    rw [take_of_length_le (l := commitHeader ..) (by simp [commitHeader]; omega), ha.replay]
    exact (drop_suffix ..).isInfix

/-- A reset keeps the order, if the log has room for the new bytes. -/
theorem reset_keeps_order (hclear : w.magic ≠ pstoreMagic) (ds : List Bytes) (d : Bytes)
    (hfit : ds.flatten.length + d.length ≤ ringLen) (k : Nat) :
    ((ds.foldl append w).stores ((appendStores (ds.foldl append w) d).take k)).replay readPlan <:+: ds.flatten ++ d := by
  obtain ⟨log, hl, hp, he⟩ := logged_appends hclear ds
  generalize ds.foldl append w = w' at hl
  rw [payload_of_le (by omega), payload_of_le (by omega)] at hp
  subst hp
  rw [appendStores, payload_of_le (by omega)]
  obtain hh | ⟨hclear, hn⟩ := hl
  · have hv : ensureValid w' = [] := if_pos hh.magic
    rw [hv]
    exact hh.reset hfit k
  · have hf := holds_fresh hclear
    have hin : ensureValid w' = initFresh := if_neg hclear
    rw [take_append]
    by_cases hk : k < 3
    · -- the magic number comes last: there is nothing to replay
      have hm : (w'.stores (initFresh.take k)).magic = w'.magic := by
        match k, hk with
        | 0, _ | 1, _ | 2, _ => rfl
      rw [Nat.sub_eq_zero_of_le (by rw [hin]; exact hk.le), take_zero, append_nil, hin, Window.replay, hm, if_neg hclear]
      exact nil_infix
    · rw [take_of_length_le (l := ensureValid w') (by rw [hin]; simp [initFresh]; omega), stores_append, hn]
      rw [hn] at hfit
      exact hf.reset hfit _

theorem reset_keeps_order_room : (([[1, 2]].foldl append ⟨0, 7, 7, fun _ => 0⟩).stores
      ((appendStores ([[1, 2]].foldl append ⟨0, 7, 7, fun _ => 0⟩) [3]).take 1)).replay readPlan <:+: [1, 2, 3] :=
  reset_keeps_order (w := ⟨0, 7, 7, fun _ => 0⟩) (by decide) [[1, 2]] [3] (by rw [ringLen_eq]; decide) 1

lemma Window.Holds.reset_full (h : w.Holds (replicate ringLen 0)) :
    ¬ (w.stores ((appendStores w [1]).take 1)).replay readPlan <:+: replicate ringLen 0 ++ [1] := by
  have ht : (appendStores w [1]).take 1 = [.ring 0 1] := by
    have hv : ensureValid w = [] := if_pos h.magic
    rw [appendStores, hv, payload_of_le (by simp [ringLen_eq]), nil_append, show w.stores [] = w from rfl,
      payloadStores_eq h (by simp [ringLen_eq]) (by simp)]
    simp [cellStores]
  have hs : min w.seq ringLen = ringLen := by
    rw [h.seq, length_replicate, ringLen_eq]
    omega
  have hw : w.wr = 0 := by rw [h.wr, length_replicate, Nat.mod_self]
  have he : ((w.stores [.ring 0 1]).replay readPlan).length = ringLen := by
    simp [Window.stores, Window.store, Window.replay, h.magic, readPlan, hs]
  have hh : ((w.stores [.ring 0 1]).replay readPlan)[0]? = some 1 := by
    have hp : 0 < ringLen := by rw [ringLen_eq]; decide
    simp only [Window.stores, Window.store, Window.replay, h.magic, readPlan, hs, hw, foldl_cons, foldl_nil, if_true,
      getElem?_map, getElem?_range hp]
    simp
  rw [ht]
  rintro ⟨a, b, heq⟩
  -- the new byte would stand at one of the first two places of the log
  have hl := congrArg length heq
  have hat := congrArg (·[a.length]?) heq
  simp only [length_append, he, length_replicate, length_singleton] at hl
  rw [append_assoc, getElem?_append_right (le_refl _), Nat.sub_self, getElem?_append_left (by rw [he, ringLen_eq]; decide), hh,
    getElem?_append_left (by rw [length_replicate, ringLen_eq]; omega)] at hat
  rw [getElem?_replicate, if_pos (by rw [ringLen_eq]; omega)] at hat
  exact absurd (Option.some_inj.mp hat) (by decide)

theorem reset_replays_new_byte_first : ¬ (([replicate ringLen 0].foldl append ⟨0, 0, 0, fun _ => 0⟩).stores
    ((appendStores ([replicate ringLen 0].foldl append ⟨0, 0, 0, fun _ => 0⟩) [1]).take 1)).replay readPlan <:+:
      [replicate ringLen 0].flatten ++ [1] := by
  have h := Window.Logged.append (w := ⟨0, 0, 0, fun _ => 0⟩) (.inr ⟨by decide, rfl⟩) (replicate ringLen 0)
  rw [payload_of_le (by simp), nil_append] at h
  rw [flatten_singleton, foldl_cons, foldl_nil]
  exact h.reset_full

end ZeroOS.Debug
