import ZeroOS.Fs.Metadata

/-!
# The metadata banks

The directory is written as a whole, to one of two banks in turn: the payload first, and then a
header with the length and the checksum of the payload and with a generation. `load` takes the bank
with the larger generation among those whose checksum is right. A bank whose payload has been
overwritten in part is one whose checksum is wrong; that the checksum shows this is an assumption,
and it is made where it is needed. The checksum itself is a parameter, as is the size of a block.

`Holds` says that a disk has a state: the bank of its generation has it, and the other one is older.
-/

namespace ZeroOS.Fs

open Disk List Wire

/-! ## Counters -/

/-- `saturating_add(1)`. -/
def satSucc (n : UInt64) : UInt64 := if n.toNat + 1 < 2 ^ 64 then n + 1 else n

def Room (n : UInt64) : Prop := n.toNat + 1 < 2 ^ 64

instance (n : UInt64) : Decidable (Room n) := inferInstanceAs (Decidable (_ < _))

def nextGeneration (generation : UInt64) : UInt64 := max (satSucc generation) 1

def bankOf (generation : UInt64) : Nat := if generation.toNat % 2 = 1 then bankA else bankB

def otherBank (generation : UInt64) : Nat := if generation.toNat % 2 = 1 then bankB else bankA

section

lemma toNat_satSucc (h : Room n) : (satSucc n).toNat = n.toNat + 1 := by
  have h' : n.toNat + 1 < 2 ^ 64 := h
  simp only [satSucc, if_pos h', UInt64.toNat_add, UInt64.toNat_one]
  exact Nat.mod_eq_of_lt h'

lemma satSucc_of_not_room (h : ¬Room n) : satSucc n = n := if_neg h

lemma le_satSucc (n : UInt64) : n ≤ satSucc n := by
  by_cases h : Room n
  · rw [UInt64.le_iff_toNat_le, toNat_satSucc h]
    omega
  · rw [satSucc_of_not_room h]
    exact UInt64.le_refl n

lemma nextGeneration_eq (g : UInt64) : nextGeneration g = satSucc g := by
  refine max_of_le ?_
  by_cases h : Room g
  · rw [UInt64.le_iff_toNat_le, toNat_satSucc h]
    exact Nat.le_add_left 1 _
  · rw [satSucc_of_not_room h, UInt64.le_iff_toNat_le]
    have hf : ¬ g.toNat + 1 < 2 ^ 64 := h
    rw [UInt64.toNat_one]
    omega

lemma lt_nextGeneration (h : Room g) : g < nextGeneration g := by
  rw [nextGeneration_eq, UInt64.lt_iff_toNat_lt, toNat_satSucc h]
  omega

lemma bankOf_nextGeneration (h : Room g) : bankOf (nextGeneration g) = otherBank g := by
  rw [nextGeneration_eq, bankOf, otherBank, toNat_satSucc h]
  split <;> split <;> omega

lemma otherBank_nextGeneration (h : Room g) : otherBank (nextGeneration g) = bankOf g := by
  rw [nextGeneration_eq, bankOf, otherBank, toNat_satSucc h]
  split <;> split <;> omega

lemma bank_le (g : UInt64) :
    bankOf g + bankBlocks ≤ reservedEnd ∧ otherBank g + bankBlocks ≤ reservedEnd := by
  unfold bankOf otherBank
  split <;> simp [bankA, bankB, bankBlocks, reservedEnd]

lemma bank_disjoint (g : UInt64) :
    bankOf g + bankBlocks ≤ otherBank g ∨ otherBank g + bankBlocks ≤ bankOf g := by
  unfold bankOf otherBank
  split <;> simp [bankA, bankB, bankBlocks]

end

/-! ## Storing and loading -/

/-- One bit of `crc32`. -/
def crcBit (crc : UInt32) : UInt32 := (crc >>> 1) ^^^ (0xEDB88320 &&& (0 - (crc &&& 1)))

/-- `crc32`: the checksum of the banks. What is proved here is proved for every checksum. -/
def crc32 (data : Bytes) : UInt32 :=
  data.foldl (fun crc byte => Nat.repeat crcBit 8 (crc ^^^ byte.toUInt32)) 0xFFFFFFFF ^^^ 0xFFFFFFFF

example : crc32 ("123456789".toList.map fun c => UInt8.ofNat c.toNat) = 0xCBF43926 := by decide +kernel

section

variable (G : Geometry) (crc : Bytes → UInt32)

def headerBytes (generation : UInt64) (payload : Bytes) (count : Nat) : Bytes :=
  magic ++ (le 8 generation.toNat ++ (le 4 payload.length ++ (le 4 (crc payload).toNat ++ le 4 count)))

def payloadWrites (target : Nat) (payload : Bytes) : List (Nat × Bytes) :=
  writes G.blockSize (List.range' (target + 1) (blocksNeeded G.blockSize payload.length)) payload

/-- `store`: the new generation, and the writes that make it so. -/
def store (generation : UInt64) (entries : Entries) (nextInode logicalTime : UInt64) :
    Except ZfsError (UInt64 × List (Nat × Bytes)) := do
  let next := nextGeneration generation
  let target := bankOf next
  let payload ← encode entries nextInode logicalTime
  if (bankBlocks - 1) * G.blockSize < payload.length then throw .checkpointTooLarge
  let header := headerBytes crc next payload entries.toList.length
  return (next, payloadWrites G target payload ++ [(target, pad G.blockSize header)])

/-- The payload that the header of a bank stands for. -/
def bankPayload (d : Nat → Bytes) (start : Nat) : Bytes :=
  read G.blockSize d (List.range' (start + 1) (bankBlocks - 1)) (ofLe (((d start).drop 16).take 4))

def bankGeneration (d : Nat → Bytes) (start : Nat) : UInt64 := UInt64.ofNat (ofLe (((d start).drop 8).take 8))

def loadBank (d : Nat → Bytes) (start : Nat) : Except ZfsError (Option MetadataState) :=
  if (d start).take 8 ≠ magic then .ok none
  else if (bankBlocks - 1) * G.blockSize < ofLe (((d start).drop 16).take 4) then .ok none
  else if (crc (bankPayload G d start)).toNat ≠ ofLe (((d start).drop 20).take 4) then .ok none
  else do
    let (entries, nextInode, logicalTime) ← decode (bankPayload G d start)
    return some ⟨bankGeneration d start, entries, nextInode, logicalTime⟩

def load (d : Nat → Bytes) : Except ZfsError (Option MetadataState) := do
  let a ← loadBank G crc d bankA
  let b ← loadBank G crc d bankB
  return match a, b with
    | some a, some b => some (if a.generation < b.generation then b else a)
    | some a, none => some a
    | none, some b => some b
    | none, none => none

end

section

variable {G : Geometry} {crc : Bytes → UInt32} {d d' : Nat → Bytes} {entries : Entries}
  {generation nextInode logicalTime next g : UInt64} {ws : List (Nat × Bytes)} {start : Nat} {target a : Nat}

lemma bankGeneration_congr (h : d' start = d start) : bankGeneration d' start = bankGeneration d start := by
  rw [bankGeneration, h, bankGeneration]

lemma loadBank_congr (h : ∀ a, start ≤ a → a < start + bankBlocks → d' a = d a) :
    loadBank G crc d' start = loadBank G crc d start := by
  have hb : d' start = d start := h start le_rfl (by simp [bankBlocks])
  have hp : bankPayload G d' start = bankPayload G d start := by
    unfold bankPayload
    rw [hb]
    refine read_congr fun a ha => ?_
    rw [mem_range'_1] at ha
    simp only [bankBlocks] at ha h
    exact h a (by omega) (by omega)
  unfold loadBank
  rw [hb, hp, bankGeneration_congr hb]

lemma header_fields {payload : Bytes} {count : Nat} :
    let block := pad G.blockSize (headerBytes crc generation payload count)
    block.take 8 = magic ∧ (block.drop 8).take 8 = le 8 generation.toNat ∧
      (block.drop 16).take 4 = le 4 payload.length ∧ (block.drop 20).take 4 = le 4 (crc payload).toNat := by
  have hm : magic.length = 8 := rfl
  simp only [pad, headerBytes, append_assoc]
  refine ⟨?_, ?_, ?_, ?_⟩
  · exact take_left' hm
  · rw [drop_left' hm]
    exact take_left' (length_le ..)
  · rw [← append_assoc, drop_left' (by simp [hm])]
    exact take_left' (length_le ..)
  · rw [← append_assoc, ← append_assoc, drop_left' (by simp [hm])]
    exact take_left' (length_le ..)

lemma store_spec (h : store G crc generation entries nextInode logicalTime = .ok (next, ws)) :
    next = nextGeneration generation ∧ ∃ payload, encode entries nextInode logicalTime = .ok payload ∧
      payload.length ≤ (bankBlocks - 1) * G.blockSize ∧
      ws = payloadWrites G (bankOf next) payload ++
        [(bankOf next, pad G.blockSize (headerBytes crc next payload entries.toList.length))] := by
  unfold store at h
  cases hp : encode entries nextInode logicalTime with
  | error e => simp [hp, bind, Except.bind] at h
  | ok payload =>
    simp only [hp, bind, Except.bind, pure, Except.pure] at h
    split at h
    · cases h
    next hs =>
      cases h
      have hn : payload.length ≤ (bankBlocks - 1) * G.blockSize := by
        by_contra hl
        simp [not_le.mp hl] at hs
      exact ⟨rfl, payload, rfl, hn, rfl⟩

lemma map_fst_payloadWrites : (payloadWrites G target payload).map Prod.fst =
      List.range' (target + 1) (blocksNeeded G.blockSize payload.length) := map_fst_writes

lemma mem_payloadWrites (hl : payload.length ≤ (bankBlocks - 1) * G.blockSize)
    (h : a ∈ (payloadWrites G target payload).map Prod.fst) : target < a ∧ a < target + bankBlocks := by
  rw [map_fst_payloadWrites, mem_range'_1] at h
  have hle := blocksNeeded_le G.pos hl
  simp only [bankBlocks] at *
  omega

section

variable (h : store G crc generation entries nextInode logicalTime = .ok (next, ws))
include h

lemma loadBank_store :
    bankGeneration (apply d ws) (bankOf next) = next ∧
      ∃ payload, encode entries nextInode logicalTime = .ok payload ∧ payload.length < 2 ^ 32 ∧
        loadBank G crc (apply d ws) (bankOf next) = (decode payload).map fun x => some ⟨next, x.1, x.2.1, x.2.2⟩ := by
  obtain ⟨-, payload, he, hl, rfl⟩ := store_spec h
  have hsm := G.small
  have hl' : payload.length < 2 ^ 32 := by
    simp only [bankBlocks] at hl
    omega
  obtain ⟨hm, hg, hlenField, hc⟩ := @header_fields G crc next payload entries.toList.length
  generalize hb : pad G.blockSize (headerBytes crc next payload entries.toList.length) = block at *
  have hh : apply d (payloadWrites G (bankOf next) payload ++ [(bankOf next, block)]) (bankOf next) = block := by
    rw [apply_append]
    simp [apply]
  have hr : bankPayload G (apply d (payloadWrites G (bankOf next) payload ++ [(bankOf next, block)]))
      (bankOf next) = payload := by
    unfold bankPayload
    rw [hh, hlenField, ofLe_le (by simpa using hl')]
    have hle := blocksNeeded_le G.pos hl
    have hrg : List.range' (bankOf next + 1) (bankBlocks - 1) =
        List.range' (bankOf next + 1) (blocksNeeded G.blockSize payload.length) ++
          List.range' (bankOf next + 1 + blocksNeeded G.blockSize payload.length)
            (bankBlocks - 1 - blocksNeeded G.blockSize payload.length) := by
      rw [List.range'_append_1, Nat.add_sub_cancel' hle]
    rw [hrg, read_append (by simpa using length_le_blocksNeeded G.pos payload.length)]
    have hn := @read_apply_writes G.blockSize d
      (List.range' (bankOf next + 1) (blocksNeeded G.blockSize payload.length)) payload nodup_range'
      (by simpa using length_le_blocksNeeded G.pos payload.length)
    refine Eq.trans (read_congr fun a ha => ?_) hn
    rw [apply_append]
    refine apply_of_notMem ?_
    rw [mem_range'_1] at ha
    simp only [map_cons, map_nil, mem_singleton]
    omega
  have hs : bankGeneration (apply d (payloadWrites G (bankOf next) payload ++ [(bankOf next, block)]))
      (bankOf next) = next := by
    rw [bankGeneration, hh, hg, ofLe_le next.toNat_lt, UInt64.ofNat_toNat]
  refine ⟨hs, payload, he, hl', ?_⟩
  unfold loadBank
  rw [hs, hr, hh, hm, hlenField, hc, ofLe_le (by simpa using hl'), ofLe_le (crc payload).toNat_lt]
  have hf : ¬ (bankBlocks - 1) * G.blockSize < payload.length := not_lt.mpr hl
  simp only [ne_eq, not_true, if_false, hf, bind, Except.bind, pure, Except.pure, Except.map]

lemma mem_store (ha : a ∈ ws.map Prod.fst) : bankOf next ≤ a ∧ a < bankOf next + bankBlocks := by
  obtain ⟨-, payload, -, hl, rfl⟩ := store_spec h
  rw [map_append, mem_append] at ha
  rcases ha with ha | ha
  · have hb := mem_payloadWrites hl ha
    omega
  · obtain rfl : a = bankOf next := by simpa using ha
    simp [bankBlocks]

lemma mem_take_store (hn : n < ws.length) (ha : a ∈ (ws.take n).map Prod.fst) :
    bankOf next < a ∧ a < bankOf next + bankBlocks := by
  obtain ⟨-, payload, -, hl, rfl⟩ := store_spec h
  have hn' : n ≤ (payloadWrites G (bankOf next) payload).length := by simpa [Nat.lt_succ_iff] using hn
  rw [take_append_of_le_length hn', map_take] at ha
  exact mem_payloadWrites hl (mem_of_mem_take ha)

end

/-! ## What a disk holds -/

/-- The disk holds a state: the bank of its generation has it, and the other bank has nothing or
something older. That the bank is decoded at all is not said here. -/
structure Holds (G : Geometry) (crc : Bytes → UInt32) (d : Nat → Bytes) (st : MetadataState) : Prop where
  own : ∀ o, loadBank G crc d (bankOf st.generation) = .ok o → o = some st
  stamped : bankGeneration d (bankOf st.generation) = st.generation
  other : (d (otherBank st.generation)).take 8 = magic → bankGeneration d (otherBank st.generation) < st.generation

/-- No bank fails to decode. -/
structure Readable (G : Geometry) (crc : Bytes → UInt32) (d : Nat → Bytes) : Prop where
  first : ∃ o, loadBank G crc d bankA = .ok o
  second : ∃ o, loadBank G crc d bankB = .ok o

lemma loadBank_generation (h : loadBank G crc d start = .ok (some st)) :
    (d start).take 8 = magic ∧ st.generation = bankGeneration d start := by
  unfold loadBank at h
  by_cases hm : (d start).take 8 ≠ magic
  · rw [if_pos hm] at h
    cases h
  refine ⟨not_ne_iff.mp hm, ?_⟩
  rw [if_neg hm] at h
  split at h
  · cases h
  split at h
  · cases h
  · cases hd : decode (bankPayload G d start) with
    | error e => simp [hd, bind, Except.bind] at h
    | ok x =>
      simp only [hd, bind, Except.bind, pure, Except.pure, Except.ok.injEq, Option.some.injEq] at h
      rw [← h]

lemma loadBank_of_ne_magic (h : (d start).take 8 ≠ magic) : loadBank G crc d start = .ok none := by
  unfold loadBank
  rw [if_pos h]

lemma Holds.older (h : Holds G crc d st) (hl : loadBank G crc d (otherBank st.generation) = .ok (some st')) :
    st'.generation < st.generation := by
  obtain ⟨hm, hg⟩ := loadBank_generation hl
  rw [hg]
  exact h.other hm

lemma readable_iff (g : UInt64) : Readable G crc d ↔
    (∃ o, loadBank G crc d (bankOf g) = .ok o) ∧ ∃ o, loadBank G crc d (otherBank g) = .ok o := by
  unfold bankOf otherBank
  split
  · exact ⟨fun h => ⟨h.first, h.second⟩, fun h => ⟨h.1, h.2⟩⟩
  · exact ⟨fun h => ⟨h.second, h.first⟩, fun h => ⟨h.2, h.1⟩⟩

lemma readable_of_load (h : load G crc d = .ok o) : Readable G crc d := by
  unfold load at h
  cases ha : loadBank G crc d bankA with
  | error e => simp [ha, bind, Except.bind] at h
  | ok a =>
    cases hb : loadBank G crc d bankB with
    | error e => simp [ha, hb, bind, Except.bind] at h
    | ok b => exact ⟨⟨a, ha⟩, ⟨b, hb⟩⟩

lemma Holds.load (h : Holds G crc d st) (hr : Readable G crc d) : load G crc d = .ok (some st) := by
  obtain ⟨⟨o, hon⟩, o', ho⟩ := (readable_iff st.generation).mp hr
  obtain rfl := h.own o hon
  have hl : ∀ st', o' = some st' → st'.generation < st.generation := by
    rintro st' rfl
    exact h.older ho
  unfold Fs.load
  unfold bankOf at hon
  unfold otherBank at ho
  by_cases hd : st.generation.toNat % 2 = 1
  · rw [if_pos hd] at hon ho
    cases o' with
    | none => simp [hon, ho, bind, Except.bind, pure, Except.pure]
    | some st' =>
      have hn : ¬ st.generation < st'.generation := fun h => UInt64.lt_asymm (hl st' rfl) h
      simp [hon, ho, bind, Except.bind, pure, Except.pure, hn]
  · rw [if_neg hd] at hon ho
    cases o' with
    | none => simp [hon, ho, bind, Except.bind, pure, Except.pure]
    | some st' => simp [hon, ho, bind, Except.bind, pure, Except.pure, hl st' rfl]

lemma Holds.frame (h : Holds G crc d st)
    (hn : ∀ a, bankOf st.generation ≤ a → a < bankOf st.generation + bankBlocks → d' a = d a)
    (hh : d' (otherBank st.generation) = d (otherBank st.generation)) : Holds G crc d' st := by
  have hl : loadBank G crc d' (bankOf st.generation) = loadBank G crc d (bankOf st.generation) := loadBank_congr hn
  refine ⟨fun o ho => h.own o (hl ▸ ho), ?_, fun hm => ?_⟩
  · rw [bankGeneration_congr (hn _ le_rfl (by simp [bankBlocks]))]
    exact h.stamped
  · rw [bankGeneration_congr hh]
    exact h.other (hh ▸ hm)

lemma Readable.frame (h : Readable G crc d) (g : UInt64)
    (ho : ∀ a, otherBank g ≤ a → a < otherBank g + bankBlocks → d' a = d a)
    (hh : d' (bankOf g) = d (bankOf g))
    (hc : (d (bankOf g)).take 8 = magic → (crc (bankPayload G d' (bankOf g))).toNat = ofLe (((d (bankOf g)).drop 20).take 4) →
      ∃ x, decode (bankPayload G d' (bankOf g)) = .ok x) : Readable G crc d' := by
  obtain ⟨-, hl⟩ := (readable_iff g).mp h
  have hs : loadBank G crc d' (otherBank g) = loadBank G crc d (otherBank g) := loadBank_congr ho
  refine (readable_iff g).mpr ⟨?_, hs ▸ hl⟩
  unfold loadBank
  rw [hh]
  by_cases hm : (d (bankOf g)).take 8 = magic
  · rw [if_neg (not_not_intro hm)]
    split
    · exact ⟨_, rfl⟩
    split
    · exact ⟨_, rfl⟩
    next hu =>
      obtain ⟨x, hx⟩ := hc hm (not_ne_iff.mp hu)
      rw [hx]
      exact ⟨_, rfl⟩
  · rw [if_pos hm]
    exact ⟨_, rfl⟩

lemma Readable.congr (h : Readable G crc d) (heq : ∀ a, 0 < a → a < reservedEnd → d' a = d a) :
    Readable G crc d' := by
  have hA : loadBank G crc d' bankA = loadBank G crc d bankA := loadBank_congr fun a _ ha => by
      simp only [bankA, bankB, bankBlocks, reservedEnd] at *
      exact heq a (by omega) (by omega)
  have hB : loadBank G crc d' bankB = loadBank G crc d bankB := loadBank_congr fun a _ ha => by
      simp only [bankA, bankB, bankBlocks, reservedEnd] at *
      exact heq a (by omega) (by omega)
  exact ⟨hA ▸ h.first, hB ▸ h.second⟩

section

variable (h : store G crc generation entries nextInode logicalTime = .ok (next, ws))
include h

lemma apply_store (ha : otherBank next ≤ a) (ha' : a < otherBank next + bankBlocks) : apply d ws a = d a := by
  refine apply_of_notMem fun hm => ?_
  have hb := mem_store h hm
  have hd := bank_disjoint next
  omega

lemma Holds.of_store (hb : BlocksFit entries) (hin : 2 ≤ nextInode) (ht : 1 ≤ logicalTime)
    (hh : (d (otherBank next)).take 8 = magic → bankGeneration d (otherBank next) < next) :
    Holds G crc (apply d ws) ⟨next, entries, nextInode, logicalTime⟩ := by
  obtain ⟨hst, payload, he, hn, hl⟩ := @loadBank_store _ _ d _ _ _ _ _ _ h
  have hs : apply d ws (otherBank next) = d (otherBank next) := apply_store h le_rfl (by simp [bankBlocks])
  refine ⟨fun o ho => ?_, hst, fun hm => ?_⟩
  · change loadBank G crc (apply d ws) (bankOf next) = .ok o at ho
    rw [hl] at ho
    by_cases hv : PathsValid entries
    · rw [decode_encode he hn hb hv hin ht] at ho
      exact (Except.ok.inj ho).symm
    · unfold PathsValid at hv
      push Not at hv
      obtain ⟨k, e, hk, hd⟩ := hv
      rw [decode_encode_invalid he hn hb hk (Bool.eq_false_iff.mpr hd)] at ho
      cases ho
  · change (apply d ws (otherBank next)).take 8 = magic at hm
    change bankGeneration (apply d ws) (otherBank next) < next
    rw [bankGeneration_congr hs]
    exact hh (hs ▸ hm)

lemma Readable.of_store (hb : BlocksFit entries) (hv : PathsValid entries) (hn : 2 ≤ nextInode)
    (ht : 1 ≤ logicalTime) (ho : ∃ o, loadBank G crc d (otherBank next) = .ok o) :
    Readable G crc (apply d ws) := by
  obtain ⟨-, payload, he, hln, hl⟩ := @loadBank_store _ _ d _ _ _ _ _ _ h
  rw [decode_encode he hln hb hv hn ht] at hl
  have hs : loadBank G crc (apply d ws) (otherBank next) = loadBank G crc d (otherBank next) :=
    loadBank_congr fun a ha ha' => apply_store h ha ha'
  exact (readable_iff next).mpr ⟨⟨_, hl⟩, hs ▸ ho⟩

end

/-- The checksum shows that the payload of a bank has been overwritten in part: as long as the header
is the one that was there, a payload that has its checksum is one that decodes. -/
def Detects (G : Geometry) (crc : Bytes → UInt32) (d : Nat → Bytes) (target : Nat) (ws : List (Nat × Bytes)) : Prop :=
  ∀ n, let d' := apply d (ws.take n)
    d' target = d target → (d target).take 8 = magic →
    (crc (bankPayload G d' target)).toNat = ofLe (((d target).drop 20).take 4) → ∃ x, decode (bankPayload G d' target) = .ok x

/-- The same, for writes that are known. -/
def detects (G : Geometry) (crc : Bytes → UInt32) (d : Nat → Bytes) (target : Nat) (ws : List (Nat × Bytes)) : Bool :=
  (List.range (ws.length + 1)).all fun n =>
    let d' := apply d (ws.take n)
    !(decide (d' target = d target) && decide ((d target).take 8 = magic) &&
      decide ((crc (bankPayload G d' target)).toNat = ofLe (((d target).drop 20).take 4))) ||
      (decode (bankPayload G d' target)).isOk

lemma Detects.of_detects (h : detects G crc d target ws = true) :
    Detects G crc d target ws := by
  intro n
  have hn : ws.take n = ws.take (min n ws.length) := by
    rcases Nat.le_total n ws.length with hle | hle
    · rw [Nat.min_eq_left hle]
    · rw [Nat.min_eq_right hle, take_length, take_of_length_le hle]
  rw [hn]
  have hc := all_eq_true.mp h (min n ws.length) (mem_range.mpr (by omega))
  intro d' hh hm hs
  simp only [d'] at hh hs
  simp only [hh, hm, hs, decide_true, Bool.and_self, Bool.not_true, Bool.false_or] at hc
  cases hd : decode (bankPayload G d' target) with
  | ok x => exact ⟨x, rfl⟩
  | error e =>
    simp only [d'] at hd
    simp [hd, Except.isOk, Except.toBool] at hc

lemma Detects.take {target : Nat} (h : Detects G crc d target ws) (n : Nat) :
    Detects G crc d target (ws.take n) := by
  intro m
  rw [take_take]
  exact h _

end

end ZeroOS.Fs
