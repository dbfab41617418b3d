import ZeroOS.Fs.Layout
import ZeroOS.Lib.Run

/-!
# Devices and recovery

`Anchored` says what a device has to have for a mount to succeed: a superblock, and banks that hold a
state whose blocks are where they should be.
-/

namespace ZeroOS.Fs

open Disk List Volume Wire

variable {G : Geometry} {crc : Bytes → UInt32} {sha : Bytes → Digest} {sb : SuperBlock}

/-! ## The writes of a transaction -/

section

variable {v : Volume} {op : Op} {t : Transaction G sha v op} {ws : List (Nat × Bytes)}

/-- A first part of the writes of a transaction, without the last one. -/
inductive Progress (crc : Bytes → UInt32) (t : Transaction G sha v op) : List (Nat × Bytes) → Prop
  | data (n : Nat) : Progress crc t (t.dataWrites.take n)
  | torn {ws : List (Nat × Bytes)} : Torn G crc t.changed ws → Progress crc t (t.dataWrites ++ ws)

lemma Torn.take {ws : List (Nat × Bytes)} (h : Torn G crc v ws) (n : Nat) : Torn G crc v (ws.take n) := by
  cases h with
  | nothing =>
    rw [take_nil]
    exact .nothing
  | part hs hn =>
    rw [take_take]
    exact .part hs (by omega)

lemma Progress.take {t : Transaction G sha v op} {ws : List (Nat × Bytes)} (h : Progress crc t ws) (n : Nat) :
    Progress crc t (ws.take n) := by
  cases h with
  | data k =>
    rw [take_take]
    exact .data _
  | torn ht =>
    by_cases hn : n ≤ t.dataWrites.length
    · rw [take_append_of_le_length hn]
      exact .data n
    · rw [take_append, take_of_length_le (by omega)]
      exact .torn (ht.take _)

lemma Effect.take {out : Outcome} (h : Effect G crc sha v op out) (n : Nat) :
    out.writes.take n = [] ∨ (∃ t : Transaction G sha v op, Progress crc t (out.writes.take n)) ∨
      ∃ (t : Transaction G sha v op) (next : UInt64) (ws : List (Nat × Bytes)),
        store G crc v.generation t.entries t.nextInode t.logicalTime = .ok (next, ws) ∧
        out = ⟨.ok (), { t.changed with generation := next }.giveBack t.old, t.dataWrites ++ ws⟩ ∧
        out.writes.take n = out.writes := by
  cases h with
  | refused e => exact .inl take_nil
  | unwritten t k => exact .inr (.inl ⟨t, (Progress.data k).take n⟩)
  | uncommitted t e ws inode ht _ => exact .inr (.inl ⟨t, (Progress.torn ht).take n⟩)
  | committed t next ws hst =>
    dsimp only
    by_cases hn : n < (t.dataWrites ++ ws).length
    · refine .inr (.inl ⟨t, ?_⟩)
      by_cases hd : n ≤ t.dataWrites.length
      · rw [take_append_of_le_length hd]
        exact .data n
      · rw [take_append, take_of_length_le (by omega)]
        rw [length_append] at hn
        exact .torn (.part hst (by omega))
    · exact .inr (.inr ⟨t, next, ws, hst, rfl, take_of_length_le (by omega)⟩)
  | created _ => exact .inl take_nil
  | restored _ _ => exact .inl take_nil
  | deleted _ hs =>
    unfold deleteSnapshot
    rw [hs]
    exact .inl take_nil

lemma Progress.address (h : Progress crc t ws) (ha : a ∈ ws.map Prod.fst) : a ∈ t.fresh ∨
      bankOf (nextGeneration v.generation) < a ∧ a < bankOf (nextGeneration v.generation) + bankBlocks := by
  have hd : a ∈ t.dataWrites.map Prod.fst → a ∈ t.fresh := by
    rw [Transaction.dataWrites, map_fst_writes]
    exact id
  cases h with
  | data n =>
    rw [map_take] at ha
    exact .inl (hd (mem_of_mem_take ha))
  | torn ht =>
    rw [map_append, mem_append] at ha
    rcases ha with ha | ha
    · exact .inl (hd ha)
    cases ht with
    | nothing => cases ha
    | part hs hn =>
      obtain rfl := (store_spec hs).1
      exact .inr (mem_take_store hs hn ha)

lemma Progress.keeps (h : Progress crc t ws) (hh : reservedEnd ≤ b) (hf : b ∉ t.fresh) : apply d ws b = d b := by
  refine apply_of_notMem fun hm => ?_
  rcases h.address hm with hm | hm
  · exact hf hm
  · have hb := bank_le (nextGeneration v.generation)
    omega

end

/-! ## Anchored devices -/

/-- The device has a superblock, and its banks hold a state that can be mounted. -/
structure Anchored (G : Geometry) (crc : Bytes → UInt32) (sb : SuperBlock) (d : Nat → Bytes) (st : MetadataState) : Prop where
  super : parseSuperblock (d 0) = some sb
  size : sb.blockSize = 0 ∨ sb.blockSize.toNat = G.blockSize
  holds : Holds G crc d st
  generation : st.generation ≠ 0
  inode : 2 ≤ st.nextInode
  time : 1 ≤ st.logicalTime
  normal : KeysNormal st.entries
  block : ∀ b, HasBlock st.entries b → reservedEnd ≤ b ∧ b < totalBlocks G sb

namespace Anchored

variable {d d' : Nat → Bytes} {st : MetadataState} {options : MountOptions} {v : Volume} {op : Op}
  {ws : List (Nat × Bytes)} {t : Transaction G sha v op}

lemma mount_eq (h : Anchored G crc sb d st) (hr : Readable G crc d) (options : MountOptions) (fault : Option Nat) :
    ∃ v, mount G crc d options fault = (.ok v, []) ∧ Recovered G sb options st v := by
  obtain ⟨v, ha, hc⟩ := @assemble_spec G crc sb d options _ _ (h.holds.load hr) rfl h.normal h.block
  refine ⟨v, ?_, hc⟩
  have hg : v.generation ≠ 0 := hc.generation ▸ h.generation
  unfold mount
  simp only [h.super, Option.getD_some, ha, Option.isNone_some]
  cases fault <;> simp [refuses, hg]

lemma readable_of_mount (hm : (mount G crc d options fault).1 = .ok v) :
    Readable G crc d := by
  unfold mount at hm
  cases ha : assemble G crc d ((parseSuperblock (d 0)).getD (createDefaultSuperblock G.blockSize))
      options with
  | error e => simp [ha] at hm
  | ok v₀ =>
    unfold assemble at ha
    obtain ⟨a, hr, -⟩ := @markReserved_spec
      (.new 1 (totalBlocks G ((parseSuperblock (d 0)).getD (createDefaultSuperblock G.blockSize)) - 1)
        (by have := totalBlocks_bounds G
              ((parseSuperblock (d 0)).getD (createDefaultSuperblock G.blockSize)); omega))
      (reservedBlocks options)
    cases hl : load G crc d with
    | error e => simp [hr, hl, bind, Except.bind] at ha
    | ok o => exact readable_of_load hl

lemma progress (h : Anchored G crc sb d st) (hl : Laid G sb v) (hg : st.generation = v.generation)
    (hr : Room v.generation) (hp : Progress crc t ws) :
    Anchored G crc sb (apply d ws) st := by
  have he : reservedEnd = 65 := rfl
  have hb := bank_le v.generation
  have hd := bank_disjoint v.generation
  have hk : ∀ a, a < reservedEnd →
      ¬(otherBank v.generation < a ∧ a < otherBank v.generation + bankBlocks) → apply d ws a = d a := by
    intro a ha hn
    refine apply_of_notMem fun hm => ?_
    rcases hp.address hm with hf | hb
    · have hh := (hl.fresh t a hf).1
      omega
    · rw [bankOf_nextGeneration hr] at hb
      exact hn hb
  have hbl : bankBlocks = 32 := rfl
  refine { h with super := ?_, holds := h.holds.frame (fun a ha ha' => ?_) ?_ }
  · rw [hk 0 (by omega) (by omega)]
    exact h.super
  · rw [hg] at ha ha'
    exact hk a (by omega) (by omega)
  · rw [hg]
    exact hk _ (by omega) (by omega)

lemma progress_readable (hr : Readable G crc d) (hl : Laid G sb v) (hp : Progress crc t ws)
    (hc : Detects G crc d (bankOf (nextGeneration v.generation)) ws) : Readable G crc (apply d ws) := by
  have he : reservedEnd = 65 := rfl
  have hb := bank_le (nextGeneration v.generation)
  have hs := bank_disjoint (nextGeneration v.generation)
  have hbl : bankBlocks = 32 := rfl
  have hk : ∀ a, a < reservedEnd → ¬(bankOf (nextGeneration v.generation) < a ∧
      a < bankOf (nextGeneration v.generation) + bankBlocks) → apply d ws a = d a := by
    intro a ha hn
    refine apply_of_notMem fun hm => ?_
    rcases hp.address hm with hf | hb
    · have hg := (hl.fresh t a hf).1
      omega
    · exact hn hb
  have hh := hk (bankOf (nextGeneration v.generation)) (by omega) (by omega)
  refine hr.frame (nextGeneration v.generation) (fun a ha ha' => hk a (by omega) (by omega)) hh ?_
  have hd := hc ws.length
  rw [take_length] at hd
  exact hd hh

lemma apply_data (hl : Laid G sb v) (t : Transaction G sha v op) {a : Nat} (ha : a < reservedEnd) :
    apply d t.dataWrites a = d a := by
  refine apply_of_notMem fun hm => ?_
  rw [Transaction.dataWrites, map_fst_writes] at hm
  have hh := (hl.fresh t a hm).1
  omega

lemma blocksFit (hl : Laid G sb v) : BlocksFit v.directory.entries := by
  intro k e hk b hb
  have hlt := (hl.live.block b ⟨k, e, hk, hb⟩).2
  have hn := totalBlocks_bounds G sb
  omega

lemma complete (h : Anchored G crc sb d st) (hl : Laid G sb v) (hg : st.generation = v.generation)
    {next : UInt64} (hs : store G crc v.generation t.entries t.nextInode t.logicalTime = .ok (next, ws)) :
    Anchored G crc sb (apply d (t.dataWrites ++ ws)) ⟨next, t.entries, t.nextInode, t.logicalTime⟩ := by
  have hc := hl.changed t
  have he : reservedEnd = 65 := rfl
  have hb : bankBlocks = 32 := rfl
  have hbn := bank_le v.generation
  obtain rfl := (store_spec hs).1
  rw [apply_append]
  refine ⟨?_, h.size, ?_, ?_, hc.inode, hc.time, hc.live.normal, hc.live.block⟩
  · have hz : apply (apply d t.dataWrites) ws 0 = d 0 := by
      rw [apply_of_notMem fun hme => ?_, apply_data hl t (by omega)]
      have hd := (mem_store hs hme).1
      have hp : 1 ≤ bankOf (nextGeneration v.generation) := by
        unfold bankOf
        split <;> simp [bankA, bankB]
      omega
    rw [hz]
    exact h.super
  · refine Holds.of_store hs (blocksFit hc) hc.inode hc.time fun hm => ?_
    -- the other bank is that of the state before, unless the generation is the last one there is
    have ho := bank_le (nextGeneration v.generation)
    have hsm := @apply_data G sha sb d v op hl t (otherBank (nextGeneration v.generation)) (by omega)
    rw [bankGeneration_congr hsm]
    by_cases hr : Room v.generation
    · rw [otherBank_nextGeneration hr, ← hg, h.holds.stamped, hg]
      exact lt_nextGeneration hr
    · have hf : nextGeneration v.generation = v.generation := by rw [nextGeneration_eq, satSucc_of_not_room hr]
      rw [hsm, hf] at hm
      rw [hf, ← hg]
      exact h.holds.other (hg ▸ hm)
  · rw [nextGeneration_eq]
    intro (hz : satSucc v.generation = 0)
    by_cases hr : Room v.generation
    · have hn := toNat_satSucc hr
      rw [hz] at hn
      simp at hn
    · rw [satSucc_of_not_room hr] at hz
      exact h.generation (hg.trans hz)

lemma complete_readable (hr : Readable G crc d) (hl : Laid G sb v) {next : UInt64}
    (hs : store G crc v.generation t.entries t.nextInode t.logicalTime = .ok (next, ws))
    (hv : PathsValid t.entries) : Readable G crc (apply d (t.dataWrites ++ ws)) := by
  have hc := hl.changed t
  rw [apply_append]
  refine Readable.of_store hs (blocksFit hc) hv hc.inode hc.time ?_
  have hd : Readable G crc (apply d t.dataWrites) := hr.congr fun a _ ha => apply_data hl t ha
  exact ((readable_iff next).mp hd).2

end Anchored

/-! ## Formatting -/

section

variable {d : Nat → Bytes} {options : MountOptions} {v : Volume} {fault : Option Nat}
  {ws : List (Nat × Bytes)}

/-- A device without a filesystem: no bank has a header, and if there is a superblock, it is one for
this device. -/
structure Blank (G : Geometry) (d : Nat → Bytes) : Prop where
  super : ∀ sb, parseSuperblock (d 0) = some sb → sb.blockSize = 0 ∨ sb.blockSize.toNat = G.blockSize
  first : (d bankA).take 8 ≠ magic
  second : (d bankB).take 8 ≠ magic

lemma load_of_blank (h : Blank G d) : load G crc d = .ok none := by
  unfold load
  rw [loadBank_of_ne_magic h.first, loadBank_of_ne_magic h.second]
  rfl

lemma parseSuperblock_superblockBytes (G : Geometry) (sb : SuperBlock) :
    parseSuperblock (pad G.blockSize (superblockBytes sb)) = some sb := by
  have hm : superblockMagic.length = 8 := rfl
  have hl : (superblockBytes sb).length = superblockSize := by simp [superblockBytes, superblockSize, hm]
  have hp : ¬ (pad G.blockSize (superblockBytes sb)).length < superblockSize := by simp [pad, hl]
  obtain ⟨tail, ht⟩ : ∃ tail, pad G.blockSize (superblockBytes sb) =
      superblockMagic ++ (le 4 2 ++ (le 4 sb.blockSize.toNat ++ (le 4 sb.clusterSize.toNat ++ tail))) := by
    simp only [pad, superblockBytes, append_assoc]
    exact ⟨_, rfl⟩
  have hk : (pad G.blockSize (superblockBytes sb)).take 8 = superblockMagic := by rw [ht, take_left' hm]
  have hs : ((pad G.blockSize (superblockBytes sb)).drop 12).take 4 = le 4 sb.blockSize.toNat := by
    rw [ht, show (12 : Nat) = 8 + 4 from rfl, ← drop_drop, drop_left' hm, drop_left' (length_le ..), take_left' (length_le ..)]
  have hc : ((pad G.blockSize (superblockBytes sb)).drop 16).take 4 = le 4 sb.clusterSize.toNat := by
    rw [ht, show (16 : Nat) = 8 + 4 + 4 from rfl, ← drop_drop, ← drop_drop,
      drop_left' hm, drop_left' (length_le ..), drop_left' (length_le ..),
      take_left' (length_le ..)]
  unfold parseSuperblock
  rw [if_neg hp, if_neg (not_not_intro hk), hs, hc, ofLe_le sb.blockSize.toNat_lt,
    ofLe_le sb.clusterSize.toNat_lt, UInt32.ofNat_toNat, UInt32.ofNat_toNat]

lemma Blank.superblock (h : Blank G d) (hs : sb = (parseSuperblock (d 0)).getD (createDefaultSuperblock G.blockSize))
    (hw : ws = if (parseSuperblock (d 0)).isNone then [(0, pad G.blockSize (superblockBytes sb))] else []) :
    parseSuperblock (apply d ws 0) = some sb ∧ (sb.blockSize = 0 ∨ sb.blockSize.toNat = G.blockSize) ∧
      ∀ a, 0 < a → apply d ws a = d a := by
  cases hp : parseSuperblock (d 0) with
  | some sb' =>
    obtain rfl : sb = sb' := by simpa [hp] using hs
    obtain rfl : ws = [] := by simpa [hp] using hw
    exact ⟨hp, h.super sb hp, fun a _ => rfl⟩
  | none =>
    have hs' : sb = createDefaultSuperblock G.blockSize := by simpa [hp] using hs
    obtain rfl : ws = [(0, pad G.blockSize (superblockBytes sb))] := by simpa [hp] using hw
    refine ⟨?_, .inr ?_, fun a ha => ?_⟩
    · have hz : apply d [(0, pad G.blockSize (superblockBytes sb))] 0 = pad G.blockSize (superblockBytes sb) := by simp [apply]
      rw [hz, parseSuperblock_superblockBytes]
    · have hm := G.small
      rw [hs', createDefaultSuperblock, UInt32.toNat_ofNat']
      exact Nat.mod_eq_of_lt (by omega)
    · refine apply_of_notMem ?_
      simp only [map_cons, map_nil, mem_singleton]
      omega

lemma Blank.mount (h : Blank G d) (hm : Fs.mount G crc d options fault = (.ok v, ws)) :
    ∃ sb, Laid G sb v ∧ Recovered G sb options ⟨1, ∅, 2, 1⟩ v ∧
      Anchored G crc sb (apply d ws) ⟨1, ∅, 2, 1⟩ ∧ Readable G crc (apply d ws) := by
  have hn : ∀ b, ¬HasBlock ∅ b := by
    rintro b ⟨k, e, hk, -⟩
    simp at hk
  have hy : KeysNormal ∅ := by
    intro k e hk
    simp at hk
  unfold Fs.mount at hm
  obtain ⟨v₀, ha, hr⟩ := @assemble_spec G crc
    ((parseSuperblock (d 0)).getD (createDefaultSuperblock G.blockSize)) d options none ⟨0, ∅, 2, 1⟩
    (load_of_blank h) rfl hy fun b hb => absurd hb (hn b)
  simp only [ha] at hm
  generalize hsb : (parseSuperblock (d 0)).getD (createDefaultSuperblock G.blockSize) = sb at *
  generalize hw₀ : (if (parseSuperblock (d 0)).isNone = true then
    [(0, pad G.blockSize (superblockBytes sb))] else []) = ws₀ at *
  obtain ⟨hsp, hz, hp⟩ := h.superblock hsb.symm hw₀.symm
  have hl₀ : Laid G sb v₀ := hr.laid hy (fun b hb => absurd hb (hn b)) hz
    (UInt64.le_refl 2) (UInt64.le_refl 1)
  split at hm
  · cases hm
  rw [if_pos hr.generation] at hm
  rcases @persistMetadata_cases G crc v₀ (later fault ws₀) with
    ⟨e, ws', heq, -⟩ | ⟨next, ws', hs, heq⟩
  · rw [heq] at hm
    cases hm
  rw [heq] at hm
  obtain ⟨hv, rfl⟩ := Prod.mk.inj hm
  cases hv
  rw [hr.generation, hr.directory, hr.nextInode, hr.logicalTime] at hs
  obtain rfl : next = 1 := (store_spec hs).1
  have hf : BlocksFit ∅ := by
    intro k e hk
    simp at hk
  have hvl : PathsValid ∅ := by
    intro k e hk
    simp at hk
  have ho : otherBank 1 = bankB := rfl
  have hB : apply d ws₀ bankB = d bankB := hp bankB (by decide)
  refine ⟨sb, ⟨hl₀.live, hl₀.snaps, hl₀.size, hl₀.inode, hl₀.time⟩, { hr with generation := rfl },
    ⟨?_, hz, ?_, by decide, UInt64.le_refl 2, UInt64.le_refl 1, hy, fun b hb => absurd hb (hn b)⟩, ?_⟩
  · rw [apply_append, apply_of_notMem fun he => ?_]
    · exact hsp
    · have hbn := (mem_store hs he).1
      exact absurd hbn (by decide)
  · rw [apply_append]
    refine Holds.of_store hs hf (UInt64.le_refl 2) (UInt64.le_refl 1) fun hg => ?_
    rw [ho, hB] at hg
    exact absurd hg h.second
  · rw [apply_append]
    refine Readable.of_store hs hf hvl (UInt64.le_refl 2) (UInt64.le_refl 1) ⟨none, ?_⟩
    refine loadBank_of_ne_magic ?_
    rw [ho, hB]
    exact h.second

end

end ZeroOS.Fs
