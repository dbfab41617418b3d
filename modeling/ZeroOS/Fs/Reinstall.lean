import ZeroOS.Fs.Crash

/-!
# Installing on a device again

`install_on_device` clears the first blocks of a device and mounts it. It clears one of the two banks only;
the blocks are those of the device of the kernel, whatever the index; and the volume is mounted without the
blocks that `mount_root_volume` keeps from the allocator.
-/

namespace ZeroOS.Fs

open Disk List Wire

/-- What `libblkclient` says of a device. -/
structure DeviceInfo where
  index : UInt8
  blockSize : Nat
  capacityBlocks : Nat
  fits : capacityBlocks + 64 ≤ 2 ^ 64

/-- The device of the kernel, which `block_read` and `block_write` are about, and the list of devices. -/
structure Machine where
  sectors : Nat → Bytes
  capacitySectors : Nat
  fits : capacitySectors + 64 ≤ 2 ^ 64
  deviceInfo : UInt8 → Option DeviceInfo

def kernelDevice : UInt8 := 0

structure BlockServiceDevice where
  index : UInt8
  sectorsPerBlock : Nat
  logicalBlocks : Nat
  fits : logicalBlocks + 64 ≤ 2 ^ 64

inductive ServerError
  | block
  | fs (e : ZfsError)

namespace BlockServiceDevice

def fromInfo (info : DeviceInfo) : Except ServerError BlockServiceDevice :=
  if info.blockSize = 0 ∨ 4096 % info.blockSize ≠ 0 then .error .block
  else
    .ok ⟨info.index, 4096 / info.blockSize, info.capacityBlocks / (4096 / info.blockSize),
      le_trans (Nat.add_le_add_right (Nat.div_le_self ..) 64) info.fits⟩

def openDefault (m : Machine) : Except ServerError BlockServiceDevice :=
  if m.capacitySectors = 0 then .error .block
  else .ok ⟨0, 8, m.capacitySectors / 8, by have := m.fits; omega⟩

def openIndex (m : Machine) (index : UInt8) : Except ServerError BlockServiceDevice :=
  if index = 0 then openDefault m
  else
    match m.deviceInfo index with
    | none => .error .block
    | some info => fromInfo info

variable (dev : BlockServiceDevice)

def geometry : Geometry := ⟨4096, some dev.logicalBlocks, by decide, by decide, by simpa using dev.fits⟩

/-- The sectors of a block, from `hw_lba` on. -/
def sectorsOf (block : Nat) : List Nat := List.range' (block * dev.sectorsPerBlock) 8

/-- What `read_block` reads. -/
def readBlock (sectors : Nat → Bytes) (block : Nat) : Bytes := (dev.sectorsOf block).flatMap sectors

/-- What `write_block` writes. -/
def writeBlock (w : Nat × Bytes) : List (Nat × Bytes) := writes 512 (dev.sectorsOf w.1) w.2

end BlockServiceDevice

/-- The writes of `zero_prefix`. -/
def zeroPrefix (blocks : Nat) : List (Nat × Bytes) := (List.range blocks).map fun b => (b, List.replicate 4096 0)

/-- `install_on_device`: the volume, and the blocks it has written, with the device they went to. -/
def installOnDevice (crc : Bytes → UInt32) (m : Machine) (index : UInt8) (fault : Option Nat) :
    Except ServerError Volume × List (UInt8 × Nat × Bytes) :=
  match BlockServiceDevice.openIndex m index with
  | .error e => (.error e, [])
  | .ok dev =>
    let zeros := zeroPrefix 32
    if refuses fault zeros then (.error .block, (accepted fault zeros).map (kernelDevice, ·))
    else
      -- the bootstrap files are none, so the import does nothing
      let out := mount dev.geometry crc (dev.readBlock (apply m.sectors (zeros.flatMap dev.writeBlock)))
        defaultOptions (later fault zeros)
      (out.1.mapError .fs, (zeros ++ out.2).map (kernelDevice, ·))

/-- The blocks that `mount_root_volume` reserves: those of other services, and the last one of the device. -/
def foreignBlocks (m : Machine) : List Nat :=
  [256, 512, 513] ++ if m.capacitySectors / 8 = 0 then [] else [m.capacitySectors / 8 - 1]

/-- The device is formatted: the directory is empty, the writes went to this device, and no block of
another service can be allocated. -/
def Formats (m : Machine) (index : UInt8) (v : Volume) (ws : List (UInt8 × Nat × Bytes)) : Prop :=
  v.directory.entries = ∅ ∧ (∀ w ∈ ws, w.1 = index) ∧
    ∀ b ∈ foreignBlocks m, v.allocator.inRange b = false ∨ v.allocator.isAllocated b = true

section

variable {G : Geometry} {crc : Bytes → UInt32} {sb : SuperBlock} {d : Nat → Bytes} {options : MountOptions}
  {fault : Option Nat} {v : Volume}

lemma restoreEntries_ne_empty (h : restoreEntries a dir items = .ok (a', dir'))
    (hne : dir.entries ≠ ∅ ∨ items ≠ []) : dir'.entries ≠ ∅ := by
  induction items generalizing a dir with
  | nil =>
    obtain ⟨-, rfl⟩ := Prod.mk.inj (Except.ok.inj h)
    exact hne.resolve_right fun hn => hn rfl
  | cons item items ih =>
    simp only [restoreEntries, bind, Except.bind] at h
    split at h
    · cases h
    · exact ih h (.inl Std.ExtTreeMap.insert_ne_empty)

lemma assemble_free (h : assemble G crc d sb options = .ok v) (he : v.directory.entries = ∅)
    (hl : reservedEnd ≤ b) (hlt : b < totalBlocks G sb) (ho : b ∉ options.reservedBlocks) :
    v.allocator.inRange b = true ∧ v.allocator.isAllocated b = false := by
  have hb := totalBlocks_bounds G sb
  obtain ⟨a₁, hrs, hs, hu⟩ := @markReserved_spec
    (.new 1 (totalBlocks G sb - 1) (by omega)) (reservedBlocks options)
  simp only [assemble, hrs, bind, Except.bind] at h
  split at h
  · cases h
  split at h
  · cases h
  next o _ _ p hr =>
    obtain rfl := Except.ok.inj h
    have hnl : (o.getD ⟨0, ∅, 2, 1⟩).entries.toList = [] := not_ne_iff.mp fun hne => restoreEntries_ne_empty hr (.inr hne) he
    rw [hnl] at hr
    obtain rfl := Except.ok.inj hr
    have hd : reservedEnd = 65 := rfl
    refine ⟨?_, Bool.eq_false_iff.mpr fun ha => ?_⟩
    · rw [hs.inRange, BlockAllocator.inRange_iff]
      simp only [BlockAllocator.new]
      omega
    · rcases (hu b).mp ha with ⟨hm, -⟩ | hn
      · exact (mem_reservedBlocks.mp hm).elim ho (not_lt.mpr hl)
      · simp [BlockAllocator.isAllocated, BlockAllocator.new] at hn

lemma mount_eq_ok (h : (mount G crc d options fault).1 = .ok v) :
    ∃ sb v₀, assemble G crc d sb options = .ok v₀ ∧ v.allocator = v₀.allocator ∧ v.directory = v₀.directory := by
  unfold mount at h
  dsimp only at h
  split at h
  · cases h
  next v₀ ha =>
    refine ⟨_, v₀, ha, ?_⟩
    generalize (if (parseSuperblock (d 0)).isNone = true then _ else []) = ws₀ at h
    split at h
    · cases h
    split at h
    · rcases @persistMetadata_cases G crc v₀ (later fault ws₀) with ⟨e, ws', heq, -⟩ | ⟨next, ws', -, heq⟩
      · rw [heq] at h
        cases h
      · rw [heq] at h
        obtain rfl := Except.ok.inj h
        exact ⟨rfl, rfl⟩
    · obtain rfl := Except.ok.inj h
      exact ⟨rfl, rfl⟩

end

/-- An installation never formats the device: the directory is empty only if no block but those that
every volume reserves is in use. -/
theorem reinstall_never_formats {crc : Bytes → UInt32} {m : Machine} {index : UInt8} {fault : Option Nat} {v : Volume}
    {ws : List (UInt8 × Nat × Bytes)} (h : installOnDevice crc m index fault = (.ok v, ws)) :
    ¬Formats m index v ws := by
  rintro ⟨he, hw, hg⟩
  unfold installOnDevice at h
  split at h
  · cases h
  next dev hd =>
    dsimp only at h
    split at h
    · cases h
    generalize ho : mount dev.geometry crc _ defaultOptions _ = out at h
    obtain ⟨_ | w, ws'⟩ := out
    · cases h
    obtain ⟨hv, rfl⟩ := Prod.mk.inj h
    obtain rfl : w = v := Except.ok.inj hv
    -- block 0 is cleared on the device of the kernel
    have hfs : (0, List.replicate 4096 0) ∈ zeroPrefix 32 := mem_map.mpr ⟨0, mem_range.mpr (by decide), rfl⟩
    obtain rfl : 0 = index := hw _ (mem_map_of_mem (mem_append_left _ hfs))
    have hc : dev.logicalBlocks = m.capacitySectors / 8 := by
      rw [BlockServiceDevice.openIndex, if_pos rfl, BlockServiceDevice.openDefault] at hd
      split at hd
      · cases hd
      · rw [← Except.ok.inj hd]
    obtain ⟨sb, v₀, hs, ha, hr⟩ := mount_eq_ok (congrArg Prod.fst ho)
    have hed : reservedEnd = 65 := rfl
    have hu {b : Nat} (hm : b ∈ foreignBlocks m) (hlw : reservedEnd ≤ b)
        (hlt : b < totalBlocks dev.geometry sb) : False := by
      have hf := assemble_free hs (hr ▸ he) hlw hlt (by simp [defaultOptions]; omega)
      rw [← ha] at hf
      rcases hg b hm with hb | hb <;> simp [hf] at hb
    by_cases hl : reservedEnd < dev.logicalBlocks
    · have ht : totalBlocks dev.geometry sb = dev.logicalBlocks := by
        simp [totalBlocks, BlockServiceDevice.geometry, Option.filter, hl]
      refine hu (b := dev.logicalBlocks - 1) ?_ (by omega) (by omega)
      simp [foreignBlocks, ← hc]
      omega
    · have ht : 4096 ≤ totalBlocks dev.geometry sb := by
        simp [totalBlocks, BlockServiceDevice.geometry, Option.filter, hl]
      exact hu (b := 256) (by simp [foreignBlocks]) (by omega) (by omega)

/-- A device of 70 blocks that has been in use: the second bank holds a directory. -/
def oldMachine : Machine :=
  let dev : BlockServiceDevice := ⟨0, 8, 70, by decide⟩
  let entries : Entries := (∅ : Entries).insert (pathOf "/a") ⟨⟨2, .directory, 0, 0o755, 0, 0, 1, 2, 2⟩, [], none⟩
  let ws := match store dev.geometry crc32 1 entries 3 2 with
    | .ok (_, ws) => ws
    | .error _ => []
  ⟨apply (fun _ => List.replicate 512 0) (ws.flatMap dev.writeBlock), 560, by decide, fun _ => none⟩

theorem reinstall_never_formats_old : ∃ v ws, installOnDevice crc32 oldMachine 0 none = (.ok v, ws) ∧
    ¬Formats oldMachine 0 v ws := by
  have hk : (installOnDevice crc32 oldMachine 0 none).1.isOk = true := by decide +kernel
  obtain ⟨⟨r, ws⟩, ho⟩ : ∃ out, installOnDevice crc32 oldMachine 0 none = out := ⟨_, rfl⟩
  rw [ho] at hk
  cases r with
  | error e => cases hk
  | ok v => exact ⟨v, ws, ho, reinstall_never_formats ho⟩

/-- The old directory is there after the installation. -/
theorem reinstall_keeps_directory : ((installOnDevice crc32 oldMachine 0 none).1.toOption.any fun v =>
    (v.directory.get (pathOf "/a")).isSome) = true := by
  decide +kernel

end ZeroOS.Fs
