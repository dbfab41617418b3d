import ZeroOS.Fs.Crash

/-!
# Falling back to the other bank

Of the ways in which a bank can be bad, some make `load_bank` say that there is none, and the other bank
is taken. The others are errors of `load` as a whole: a header or a block that cannot be read, and a
payload that does not decode although its checksum is right.
-/

namespace ZeroOS.Fs

open Disk List Option Wire

inductive DeviceError
  | outOfBounds
  | io
  | unsupported
  deriving DecidableEq, Repr

/-- A device whose reads can fail. -/
abbrev FaultyDevice := Nat → Except DeviceError Bytes

def FaultyDevice.contents (dev : FaultyDevice) (a : Nat) : Bytes := (dev a).toOption.getD []

section

variable (G : Geometry) (crc : Bytes → UInt32) (dev : FaultyDevice)

/-- The blocks behind the header that `load_bank` reads. -/
def bankBlocksRead (start len : Nat) : List Nat := List.range' (start + 1) (blocksNeeded G.blockSize len)

/-- `load_bank`, with the reads that fail. -/
def loadBankFrom (start : Nat) : Except ZfsError (Option MetadataState) :=
  match dev start with
  | .error .outOfBounds => .ok none
  | .error _ => .error .device
  | .ok header =>
    let len := ofLe ((header.drop 16).take 4)
    if header.take 8 ≠ magic ∨ (bankBlocks - 1) * G.blockSize < len then .ok none
    else if (bankBlocksRead G start len).all fun a => (dev a).isOk then loadBank G crc dev.contents start
    else .error .device

/-- `load`, with the reads that fail. -/
def loadFrom : Except ZfsError (Option MetadataState) := do
  let a ← loadBankFrom G crc dev bankA
  let b ← loadBankFrom G crc dev bankB
  return match a, b with
    | some a, some b => some (if a.generation < b.generation then b else a)
    | some a, none => some a
    | none, some b => some b
    | none, none => none

/-- The header can be read, unless the device ends before it. Behind a good header, the blocks can be read,
and the payload decodes if its checksum is right. -/
def soundBank (start : Nat) : Bool :=
  match dev start with
  | .error e => e = .outOfBounds
  | .ok header =>
    let len := ofLe ((header.drop 16).take 4)
    header.take 8 ≠ magic || (bankBlocks - 1) * G.blockSize < len || (bankBlocksRead G start len).all (fun a => (dev a).isOk) &&
        ((crc (bankPayload G dev.contents start)).toNat ≠ ofLe (((dev.contents start).drop 20).take 4) ||
          (decode (bankPayload G dev.contents start)).isOk)

end

lemma loadBankFrom_of_soundBank (h : soundBank G crc dev start = true) : ∃ o, loadBankFrom G crc dev start = .ok o := by
  unfold soundBank at h
  unfold loadBankFrom
  cases hd : dev start with
  | error e =>
    rw [hd] at h
    rw [of_decide_eq_true h]
    exact ⟨none, rfl⟩
  | ok header =>
    simp only [hd, Bool.or_eq_true, Bool.and_eq_true, decide_eq_true_eq] at h
    dsimp only
    split
    · exact ⟨none, rfl⟩
    next hg =>
      obtain ⟨hb, hp⟩ := h.resolve_left hg
      rw [if_pos hb]
      unfold loadBank
      split
      · exact ⟨none, rfl⟩
      split
      · exact ⟨none, rfl⟩
      split
      · exact ⟨none, rfl⟩
      next hc =>
        cases hx : decode (bankPayload G dev.contents start) with
        | error e =>
          rw [hx] at hp
          cases hp.resolve_left hc
        | ok x => exact ⟨_, rfl⟩

/-- Loading takes the newest bank that is valid, if neither bank is one that makes it give up. -/
theorem load_takes_newest {st : MetadataState} (hA : soundBank G crc dev bankA = true) (hB : soundBank G crc dev bankB = true)
    (hbank : start ∈ [bankA, bankB]) (hvalid : loadBankFrom G crc dev start = .ok (some st)) :
    ∃ best, loadFrom G crc dev = .ok (some best) ∧ (∃ b ∈ [bankA, bankB], loadBankFrom G crc dev b = .ok (some best)) ∧
      ∀ b ∈ [bankA, bankB], ∀ st', loadBankFrom G crc dev b = .ok (some st') → st'.generation ≤ best.generation := by
  obtain ⟨a, ha⟩ := loadBankFrom_of_soundBank hA
  obtain ⟨b, hb⟩ := loadBankFrom_of_soundBank hB
  simp only [mem_cons, not_mem_nil, or_false, exists_eq_or_imp, exists_eq_left, forall_eq_or_imp, forall_eq] at hbank ⊢
  simp only [loadFrom, ha, hb, bind, Except.bind, pure, Except.pure, Except.ok.injEq]
  cases a with
  | none =>
    cases b with
    | none => rcases hbank with rfl | rfl <;> simp_all
    | some b => exact ⟨b, rfl, .inr rfl, nofun, fun st' h => (some.inj h) ▸ UInt64.le_refl _⟩
  | some a =>
    cases b with
    | none => exact ⟨a, rfl, .inl rfl, fun st' h => (some.inj h) ▸ UInt64.le_refl _, nofun⟩
    | some b =>
      by_cases hlt : a.generation < b.generation
      · refine ⟨b, by simp only [if_pos hlt], .inr rfl, ?_, fun st' h => (some.inj h) ▸ UInt64.le_refl _⟩
        exact fun st' h => (some.inj h) ▸ UInt64.le_of_lt hlt
      · refine ⟨a, by simp only [if_neg hlt], .inl rfl, fun st' h => (some.inj h) ▸ UInt64.le_refl _, ?_⟩
        exact fun st' h => (some.inj h) ▸ UInt64.not_lt.mp hlt

/-- A device with an empty directory in the first bank. -/
def oneBank (second : Except DeviceError Bytes) : FaultyDevice := fun a =>
  let payload := le 8 2 ++ (le 8 1 ++ le 4 0)
  if a = bankA then .ok (headerBytes crc32 1 payload 0)
  else if a = bankA + 1 then .ok payload
  else if a = bankB then second
  else .error .io

/-- A header for `len` bytes whose checksum is that of none. -/
def secondHeader (len : Nat) : Bytes := magic ++ (le 8 2 ++ (le 4 len ++ le 4 0))

theorem load_takes_newest_first : ∃ best, loadFrom smallDevice crc32 (oneBank (.error .outOfBounds)) = .ok (some best) := by
  have hf : (loadBankFrom smallDevice crc32 (oneBank (.error .outOfBounds)) bankA).map
      (Option.map MetadataState.generation) = .ok (some 1) := by decide +kernel
  cases hl : loadBankFrom smallDevice crc32 (oneBank (.error .outOfBounds)) bankA with
  | error e => rw [hl] at hf; cases hf
  | ok o =>
    cases o with
    | none => rw [hl] at hf; cases hf
    | some st =>
      obtain ⟨best, hb, -⟩ := load_takes_newest (by decide +kernel) (by decide +kernel) mem_cons_self hl
      exact ⟨best, hb⟩

/-- The first bank is valid. The second has a payload that does not decode, of no bytes at all, or one that cannot
be read: there is no directory. -/
theorem load_gives_up_valid_bank : (∀ len < 2, (loadBankFrom smallDevice crc32 (oneBank (.ok (secondHeader len))) bankA).map
      (Option.map MetadataState.generation) = .ok (some 1)) ∧
    (loadFrom smallDevice crc32 (oneBank (.ok (secondHeader 0)))).map isSome = .error .journalCorrupt ∧
    (loadFrom smallDevice crc32 (oneBank (.ok (secondHeader 1)))).map isSome = .error .device := by
  decide +kernel

end ZeroOS.Fs
