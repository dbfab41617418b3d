import ZeroOS.Fs.Recovery

/-!
# Crashes

A system is a device and the volume that is mounted from it. It changes by operations, each of which
the device may cut short by refusing a write, and by mounting the device again; a crash is an operation
that is cut short, and then a mount.

As long as nothing is restored from a snapshot, the directory in memory is the one the device is
anchored at, and all of its blocks are in use (`Owned`).
-/

namespace ZeroOS.Fs

open Disk Option Transition Volume Wire

variable {G : Geometry} {crc : Bytes → UInt32} {sha : Bytes → Digest} {sb : SuperBlock}

/-- A device and the volume that is mounted from it. -/
structure System where
  disk : Nat → Bytes
  vol : Volume

inductive Event
  | op (op : Op) (fault : Option Nat)
  | remount (options : MountOptions)

def System.boot (G : Geometry) (crc : Bytes → UInt32) (d : Nat → Bytes) (options : MountOptions) :
    Option System :=
  match mount G crc d options none with
  | (.ok v, ws) => some ⟨apply d ws, v⟩
  | (.error _, _) => none

namespace System

variable (G crc sha)

/-- An operation, after which the device has the writes it has taken. -/
def after (s : System) (op : Op) (fault : Option Nat) : System :=
  let out := s.vol.exec G crc sha op fault
  ⟨apply s.disk out.writes, out.volume⟩

/-- What an event leads to. A mount that fails leaves nothing to go on with. -/
def next (s : System) : Event → Option System
  | .op op fault => some (s.after G crc sha op fault)
  | .remount options => boot G crc s.disk options

def Step (s : System) (e : Event) (t : System) : Prop := s.next G crc sha e = some t

/-- `read_file` on the device. -/
def readFile (s : System) (path : Path) : Except ZfsError Bytes := s.vol.readFile G s.disk path

end System

/-- A system whose device had no filesystem before it was mounted. -/
def Formatted (G : Geometry) (crc : Bytes → UInt32) (options : MountOptions) (s : System) : Prop :=
  ∃ d, Blank G d ∧ System.boot G crc d options = some s

lemma System.boot_eq_some {d : Nat → Bytes} {options : MountOptions} {s : System} (h : System.boot G crc d options = some s) :
    ∃ v ws, mount G crc d options none = (.ok v, ws) ∧ s = ⟨apply d ws, v⟩ := by
  unfold System.boot at h
  split at h
  next v ws hm => exact ⟨v, ws, hm, (some.inj h).symm⟩
  · cases h

/-- No path that is written to climbs. The other operations look at that themselves. -/
def Op.Clean : Op → Prop
  | .writeFile path _ _ => hasDotDot path = false
  | _ => True

instance (op : Op) : Decidable op.Clean :=
  match op with
  | .writeFile _ _ _ => inferInstanceAs (Decidable (_ = _))
  | .removeFile _ | .createDir _ | .removeDir _ | .renamePath _ _ => inferInstanceAs (Decidable True)
  | .createSnapshot | .restoreSnapshot _ | .deleteSnapshot _ => inferInstanceAs (Decidable True)

def Op.isRestore : Op → Bool
  | .restoreSnapshot _ => true
  | _ => false

/-! ## Paths -/

lemma Change.pathsValid (h : Change sha v op fresh entries old inode) (hv : PathsValid v.directory.entries)
    (hc : op.Clean) : PathsValid entries := by
  have hn : ∀ {path : Path} {e : DirectoryEntry}, hasDotDot path = false →
      PathsValid (v.directory.entries.insert (normalize path) e) := by
    intro path e hd k e' hk
    rw [getElem?_insert'] at hk
    split at hk
    next heq => exact heq ▸ validPath_normalize hd
    · exact hv k e' hk
  have he : ∀ {path : Path}, PathsValid (v.directory.entries.erase (normalize path)) := by
    intro path k e hk
    rw [getElem?_erase'] at hk
    split at hk
    · cases hk
    · exact hv k e hk
  cases h with
  | write _ => exact hn hc
  | remove _ _ => exact he
  | mkdir _ _ hd _ => exact hn hd
  | rmdir _ _ _ => exact he
  | rename hs hd hr hms ho =>
    rename_i old new root moves
    -- a path below the old one keeps its last part
    have hds : ∀ mv ∈ moves, hasDotDot mv.dst = false := by
      intro mv hm
      have hcs : mv = ⟨old, new, root⟩ ∨ mv ∈ below v.directory.entries old new := by
        rcases hms with ⟨-, rfl⟩ | ⟨-, rfl⟩
        · exact .inl (List.mem_singleton.mp hm)
        · exact List.mem_cons.mp hm
      rcases hcs with rfl | hb
      · exact hd
      · obtain ⟨rest, hk, -, hds⟩ := mem_below.mp hb
        have hy := hv _ _ hk
        simp only [validPath, Bool.and_eq_true, Bool.not_eq_true'] at hy
        rw [hds]
        refine hasDotDot_append_slash (hasDotDot_of_part (trimEnd_start new).isInfix hd)
          (hasDotDot_of_part ?_ hy.2)
        exact (List.suffix_append_of_suffix (List.suffix_cons '/' rest)).isInfix
    intro k e hk
    obtain ⟨k₀, hk₀, rfl⟩ := (ho.rekeys.get k e).mp hk
    unfold destination
    split
    next mv hf => exact validPath_normalize (hds mv (List.mem_of_find?_eq_some hf))
    · exact hv k₀ e hk₀

/-! ## Blocks in use -/

/-- The blocks of the directory are in use, and no two entries share one. -/
structure Owned (v : Volume) : Prop where
  used : ∀ b, HasBlock v.directory.entries b → v.allocator.isAllocated b = true
  apart : ∀ (k k' : Path) (e e' : DirectoryEntry) (b : Nat), v.directory.entries[k]? = some e →
    v.directory.entries[k']? = some e' → b ∈ e.blocks → b ∈ e'.blocks → k = k'

namespace Owned

variable {v : Volume} {op : Op} {out : Outcome}

lemma fresh (h : Owned v) (t : Transaction G sha v op) {b : Nat} (hb : b ∈ t.fresh) :
    ¬HasBlock v.directory.entries b := by
  intro hh
  have hf := (t.fresh_spec.2.2.1 b hb).2
  rw [h.used b hh] at hf
  cases hf

lemma old_free (h : Owned v) (t : Transaction G sha v op) (hh : HasBlock t.entries b) :
    b ∉ t.old := by
  obtain ⟨k, e, hk, hb⟩ := hh
  intro ho
  obtain ⟨k', e', -, hl, -, -, he, ho', -⟩ | ⟨k', e', hk', ho', -, he, -⟩ |
    ⟨moves, -, -, -, ho', -⟩ := t.change.cases
  · rw [ho', blocksAt] at ho
    cases hat : v.directory.entries[k']? with
    | none => simp [hat] at ho
    | some e₀ =>
      simp only [hat] at ho
      rw [he, getElem?_insert'] at hk
      split at hk
      · cases hk
        exact h.fresh t (hl ▸ hb) ⟨k', e₀, hat, ho⟩
      next hne => exact hne (h.apart k' k e₀ e b hat hk ho hb)
  · have hm : b ∈ e'.blocks := by
      rcases ho' with heq | ⟨-, heq⟩
      · exact heq ▸ ho
      · rw [heq] at ho
        cases ho
    rw [he, getElem?_erase'] at hk
    split at hk
    · cases hk
    next hne => exact hne (h.apart k' k e' e b hk' hk hm hb)
  · rw [ho'] at ho
    cases ho

lemma apart_transaction (h : Owned v) (t : Transaction G sha v op) (k k' : Path) (e e' : DirectoryEntry)
    (b : Nat) (hk : t.entries[k]? = some e) (hk' : t.entries[k']? = some e') (hb : b ∈ e.blocks)
    (hb' : b ∈ e'.blocks) : k = k' := by
  obtain ⟨k₀, e₀, -, hl, -, -, he, -⟩ | ⟨k₀, e₀, -, -, -, he, -⟩ |
    ⟨moves, hm, he, -⟩ := t.change.cases
  · rw [he, getElem?_insert'] at hk hk'
    split at hk <;> split at hk'
    next heq heq' => exact heq.symm.trans heq'
    next heq _ =>
      cases hk
      exact absurd ⟨k', e', hk', hb'⟩ (h.fresh t (hl ▸ hb))
    next _ heq' =>
      cases hk'
      exact absurd ⟨k, e, hk, hb⟩ (h.fresh t (hl ▸ hb'))
    · exact h.apart k k' e e' b hk hk' hb hb'
  · rw [he, getElem?_erase'] at hk hk'
    split at hk
    · cases hk
    split at hk'
    · cases hk'
    exact h.apart k k' e e' b hk hk' hb hb'
  · rw [he] at hk hk'
    obtain ⟨k₁, hk₁, rfl⟩ := (hm.rekeys.get k e).mp hk
    obtain ⟨k₂, hk₂, rfl⟩ := (hm.rekeys.get k' e').mp hk'
    rw [h.apart k₁ k₂ e e' b hk₁ hk₂ hb hb']

lemma effect (h : Owned v) (hop : op.isRestore = false) (he : Effect G crc sha v op out) :
    Owned out.volume := by
  cases he with
  | refused e => exact h
  | unwritten t n => exact h
  | uncommitted t e ws inode _ _ => exact ⟨h.used, h.apart⟩
  | committed t next ws _ =>
    obtain ⟨-, -, -, hu⟩ := t.fresh_spec
    refine ⟨fun b hh => ?_, h.apart_transaction t⟩
    obtain ⟨-, hf⟩ := BlockAllocator.freeAll_spec t.taken
      (t.old.filter fun block => !({ t.changed with generation := next } : Volume).references block)
    refine (hf b).mpr ⟨fun hm => h.old_free t hh (List.mem_of_mem_filter hm), (hu b).mpr ?_⟩
    obtain ⟨k, e, hk, hb⟩ := hh
    rcases t.change.entry hk with ⟨k₀, hk₀⟩ | hl
    · exact .inr (h.used b ⟨k₀, e, hk₀, hb⟩)
    · exact .inl (hl ▸ hb)
  | created _ => exact ⟨h.used, h.apart⟩
  | restored heq _ =>
    subst heq
    cases hop
  | deleted _ hs =>
    unfold deleteSnapshot
    rw [hs]
    refine ⟨fun b hh => ?_, h.apart⟩
    obtain ⟨-, hf⟩ := BlockAllocator.freeAll_spec v.allocator _
    refine (hf b).mpr ⟨fun hm => ?_, h.used b hh⟩
    have hd := (List.mem_filter.mp hm).2
    simp only [decide_eq_true_eq, List.mem_append, not_or] at hd
    obtain ⟨k, e, hk, hb⟩ := hh
    exact hd.1 (List.mem_flatMap.mpr ⟨(k, e), mem_toList.mpr hk, hb⟩)

end Owned

/-! ## Reading -/

lemma readFile_congr {v v' : Volume} (hd : v'.directory = v.directory)
    (hs : v'.blockSize = v.blockSize) (hds : ∀ b, HasBlock v.directory.entries b → d' b = d b)
    (path : Path) : v'.readFile G d' path = v.readFile G d path := by
  unfold readFile
  rw [hd, hs]
  split
  · rfl
  next entry he =>
    have hr : read v.blockSize d' entry.blocks entry.size = read v.blockSize d entry.blocks entry.size :=
      read_congr fun b hb => hds b ⟨_, _, he, hb⟩
    rw [hr]

/-! ## Runs without a restore -/

/-- What is assumed of the events of a run: no restore and no path that climbs, a generation that can
still grow, and a checksum that shows a bank that was overwritten in part. -/
def Plain (G : Geometry) (crc : Bytes → UInt32) (sha : Bytes → Digest) (s : System) : Event → Prop
  | .op op fault => op.isRestore = false ∧ op.Clean ∧ Room s.vol.generation ∧
      Detects G crc s.disk (bankOf (nextGeneration s.vol.generation)) (s.vol.exec G crc sha op fault).writes
  | .remount _ => True

/-- The same, for a system that is known. -/
def plain (G : Geometry) (crc : Bytes → UInt32) (sha : Bytes → Digest) (s : System) : Event → Bool
  | .op op fault => !op.isRestore && decide op.Clean && decide (Room s.vol.generation) &&
      detects G crc s.disk (bankOf (nextGeneration s.vol.generation)) (s.vol.exec G crc sha op fault).writes
  | .remount _ => true

lemma Plain.of_plain (h : plain G crc sha s e = true) : Plain G crc sha s e := by
  cases e with
  | op op fault =>
    simp only [plain, Bool.and_eq_true, Bool.not_eq_true', decide_eq_true_eq] at h
    exact ⟨h.1.1.1, h.1.1.2, h.1.2, Detects.of_detects h.2⟩
  | remount options => trivial

/-- A system whose device has the directory that is in memory. -/
structure Synced (G : Geometry) (crc : Bytes → UInt32) (sb : SuperBlock) (s : System) : Prop where
  laid : Laid G sb s.vol
  owned : Owned s.vol
  valid : PathsValid s.vol.directory.entries
  anchored : ∃ inode time, Anchored G crc sb s.disk ⟨s.vol.generation, s.vol.directory.entries, inode, time⟩
  readable : Readable G crc s.disk

namespace Synced

variable {s t : System} {options : MountOptions} {st : MetadataState}

lemma owned_of_recovered (h : Recovered G sb options st v) (hn : ∀ b, HasBlock st.entries b → v.allocator.inRange b = true)
    (ha : ∀ (k k' : Path) (e e' : DirectoryEntry) (b : Nat), st.entries[k]? = some e → st.entries[k']? = some e' → b ∈ e.blocks → b ∈ e'.blocks → k = k')
    : Owned v := by
  refine ⟨fun b hh => ?_, ?_⟩
  · rw [h.directory] at hh
    exact (h.used b).mpr ⟨hn b hh, .inr hh⟩
  · rw [h.directory]
    exact ha

lemma init (h : Formatted G crc options s) : ∃ sb, Synced G crc sb s := by
  obtain ⟨d, hb, ht⟩ := h
  obtain ⟨v, ws, hm, rfl⟩ := System.boot_eq_some ht
  obtain ⟨sb, hl, hr, ha, hd⟩ := hb.mount hm
  refine ⟨sb, hl, ?_, ?_, ⟨2, 1, ?_⟩, hd⟩
  · refine owned_of_recovered hr ?_ ?_
    · rintro b ⟨k, e, hk, -⟩
      simp at hk
    · intro k k' e e' b hk
      simp at hk
  · intro k e hk
    change v.directory.entries[k]? = some e at hk
    rw [hr.directory] at hk
    simp at hk
  · change Anchored G crc sb _ ⟨v.generation, v.directory.entries, 2, 1⟩
    rw [hr.generation, hr.directory]
    exact ha

lemma mount (h : Synced G crc sb s) (options : MountOptions) : ∃ v st,
    Fs.mount G crc s.disk options none = (.ok v, []) ∧ Recovered G sb options st v ∧
      v.directory = s.vol.directory ∧ v.generation = s.vol.generation ∧ Laid G sb v := by
  obtain ⟨inode, time, ha⟩ := h.anchored
  obtain ⟨v, hm, hr⟩ := ha.mount_eq h.readable options none
  exact ⟨v, _, hm, hr, hr.directory, hr.generation, hr.laid ha.normal ha.block ha.size ha.inode ha.time⟩

lemma after (h : Synced G crc sb s) (hrs : op.isRestore = false)
    (hcl : op.Clean) (hf : (s.vol.exec G crc sha op fault).result ≠ .ok () → Room s.vol.generation ∧
      Detects G crc s.disk (bankOf (nextGeneration s.vol.generation)) (s.vol.exec G crc sha op fault).writes) :
    Synced G crc sb (s.after G crc sha op fault) := by
  have he := @effect G crc sha s.vol fault h.laid.live.normal op
  obtain ⟨inode, time, ha⟩ := h.anchored
  have hl := h.laid.effect he
  have ho := h.owned.effect hrs he
  unfold System.after
  generalize s.vol.exec G crc sha op fault = out at *
  cases he with
  | refused e => exact h
  | unwritten t n =>
    obtain ⟨hr, hc⟩ := hf nofun
    exact ⟨hl, ho, h.valid, ⟨inode, time, ha.progress h.laid rfl hr (.data n)⟩,
      Anchored.progress_readable h.readable h.laid (.data n) hc⟩
  | uncommitted t e ws inode' ht _ =>
    obtain ⟨hr, hc⟩ := hf nofun
    exact ⟨hl, ho, h.valid, ⟨inode, time, ha.progress h.laid rfl hr (.torn ht)⟩,
      Anchored.progress_readable h.readable h.laid (.torn ht) hc⟩
  | committed t next ws hst =>
    have hv := t.change.pathsValid h.valid hcl
    exact ⟨hl, ho, hv, ⟨_, _, ha.complete h.laid rfl hst⟩, Anchored.complete_readable h.readable h.laid hst hv⟩
  | created _ => exact ⟨hl, ho, h.valid, ⟨inode, time, ha⟩, h.readable⟩
  | restored heq _ =>
    subst heq
    cases hrs
  | deleted _ hs =>
    unfold deleteSnapshot at hl ho ⊢
    rw [hs] at hl ho ⊢
    exact ⟨hl, ho, h.valid, ⟨inode, time, ha⟩, h.readable⟩

lemma step (h : Synced G crc sb s) {e : Event} (hp : Plain G crc sha s e)
    (hs : s.Step G crc sha e t) : Synced G crc sb t := by
  cases e with
  | op op fault =>
    cases hs
    obtain ⟨hrs, hc, hrm, hcr⟩ := hp
    exact h.after hrs hc fun _ => ⟨hrm, hcr⟩
  | remount options =>
    obtain ⟨v, st, hm, hr, hd, hg, hl⟩ := h.mount options
    simp only [System.Step, System.next, System.boot, hm] at hs
    cases hs
    have he : st.entries = s.vol.directory.entries := by rw [← hd, hr.directory]
    refine ⟨hl, ?_, ?_, ?_, h.readable⟩
    · refine owned_of_recovered hr ?_ ?_
      · intro b hh
        rw [he] at hh
        have hb := h.laid.live.block b hh
        have hed : reservedEnd = 65 := rfl
        exact hl.live.inRange_iff.mpr ⟨by omega, hb.2⟩
      · rw [he]
        exact h.owned.apart
    · change PathsValid v.directory.entries
      rw [hd]
      exact h.valid
    · obtain ⟨inode, time, ha⟩ := h.anchored
      refine ⟨inode, time, ?_⟩
      change Anchored G crc sb s.disk ⟨v.generation, v.directory.entries, inode, time⟩
      rw [hg, hd]
      exact ha

lemma run (h : Synced G crc sb s)
    (hrun : Run (Transition.Guarded (Plain G crc sha) (System.Step G crc sha)) s es t) : Synced G crc sb t := by
  induction hrun with
  | nil => exact h
  | snoc _ hs ih => exact ih.step hs.1 hs.2

lemma size_eq (h : Recovered G sb options st v) (hl : Laid G sb s.vol)
    (hs : sb.blockSize = 0 ∨ sb.blockSize.toNat = G.blockSize) : v.blockSize = s.vol.blockSize := by
  rw [hl.size, h.size]
  rcases hs with hz | heq
  · rw [if_pos hz]
  · split
    · rfl
    · exact heq

lemma mount_reads (h : Synced G crc sb s) (options : MountOptions) : ∃ v,
    Fs.mount G crc s.disk options none = (.ok v, []) ∧ v.directory = s.vol.directory ∧
      ∀ path, v.readFile G s.disk path = s.readFile G path := by
  obtain ⟨v, st, hm, hr, hd, -⟩ := h.mount options
  obtain ⟨_, _, ha⟩ := h.anchored
  exact ⟨v, hm, hd, readFile_congr hd (size_eq hr h.laid ha.size) fun _ _ => rfl⟩

lemma mount_reads_progress (h : Synced G crc sb s) {op : Op} {t : Transaction G sha s.vol op}
    {ws : List (Nat × Bytes)} (hp : Progress crc t ws) (hrm : Room s.vol.generation)
    (hc : Detects G crc s.disk (bankOf (nextGeneration s.vol.generation)) ws) (options : MountOptions) :
    ∃ v, Fs.mount G crc (apply s.disk ws) options none = (.ok v, []) ∧ v.directory = s.vol.directory ∧
      ∀ path, v.readFile G (apply s.disk ws) path = s.readFile G path := by
  obtain ⟨inode, time, ha⟩ := h.anchored
  have haf := ha.progress h.laid rfl hrm hp
  obtain ⟨v, hm, hr⟩ := haf.mount_eq (Anchored.progress_readable h.readable h.laid hp hc) options none
  refine ⟨v, hm, hr.directory, readFile_congr hr.directory (size_eq hr h.laid ha.size) ?_⟩
  intro b hh
  exact hp.keeps (h.laid.live.block b hh).1 fun hf => h.owned.fresh t hf hh

end Synced

/-- Crash consistency. Whatever first part of the writes of an operation the device has, it mounts
to the directory from before the operation or to the one from after it, and every file of that directory
has the contents it had there. -/
theorem crash_keeps_before_or_after {options remount : MountOptions} {s₀ s : System} {es : List Event}
    {op : Op} {fault : Option Nat} (hstart : Formatted G crc options s₀)
    (hrun : Run (Transition.Guarded (Plain G crc sha) (System.Step G crc sha)) s₀ es s)
    (hop : Plain G crc sha s (.op op fault)) (n : Nat) :
    let disk := apply s.disk ((s.vol.exec G crc sha op fault).writes.take n)
    let after := s.after G crc sha op fault
    ∃ v, mount G crc disk remount none = (.ok v, []) ∧
      (v.directory = s.vol.directory ∧ (∀ path, v.readFile G disk path = s.readFile G path) ∨
        v.directory = after.vol.directory ∧ ∀ path, v.readFile G disk path = after.readFile G path) := by
  obtain ⟨sb, hin⟩ := Synced.init hstart
  have hs := hin.run hrun
  obtain ⟨-, -, hrm, hc⟩ := id hop
  have he := @effect G crc sha s.vol fault hs.laid.live.normal op
  rcases he.take n with hn | ⟨t, hp⟩ | ⟨-, -, -, -, -, hl⟩
  · obtain ⟨v, hm, hd, hr⟩ := hs.mount_reads remount
    rw [hn]
    exact ⟨v, hm, .inl ⟨hd, hr⟩⟩
  · obtain ⟨v, hm, hd, hr⟩ := hs.mount_reads_progress hp hrm (hc.take n) remount
    exact ⟨v, hm, .inl ⟨hd, hr⟩⟩
  · have ha : Synced G crc sb (s.after G crc sha op fault) := hs.step hop rfl
    obtain ⟨v, hm, hd, hr⟩ := ha.mount_reads remount
    rw [hl]
    exact ⟨v, hm, .inr ⟨hd, hr⟩⟩

/-! A small device, and a digest that tells nothing apart. -/

def smallDevice : Geometry := ⟨128, some 70, by decide, by decide, by decide⟩

def zeroDisk : Nat → Bytes := fun _ => List.replicate 128 0

lemma blank_zeroDisk : Blank smallDevice zeroDisk := by
  refine ⟨fun sb h => ?_, by decide, by decide⟩
  have hn : parseSuperblock (zeroDisk 0) = none := by decide +kernel
  rw [hn] at h
  cases h

/-- Block 0 is reserved, and signatures are looked at. -/
def defaultOptions : MountOptions := ⟨[0], true⟩

def zeroDigest : Bytes → Digest := fun _ => ⟨List.replicate 32 0, rfl⟩

def pathOf (text : String) : Path := text.toList

def smallWrite (text : String) : Op := .writeFile (pathOf text) ⟨[1, 2], by decide⟩ none

lemma exists_run_of_boot {σ ε : Type} {step : σ → ε → σ → Prop} {next : σ → ε → Option σ} {start : System → σ}
    {es : List ε} {Q : System → σ → Prop} (hn : ∀ {s e t}, next s e = some t → step s e t) (p : σ → Bool)
    (h : (System.boot smallDevice crc32 zeroDisk defaultOptions).any (fun s₀ =>
      (execute next (start s₀) es).any p) = true)
    (hq : ∀ {s₀ s}, Formatted smallDevice crc32 defaultOptions s₀ → Run step (start s₀) es s → p s = true → Q s₀ s) :
    ∃ s₀ s, Formatted smallDevice crc32 defaultOptions s₀ ∧ Run step (start s₀) es s ∧ Q s₀ s := by
  obtain ⟨s₀, ht, hexec⟩ := (any_eq_true ..).mp h
  obtain ⟨s, hrun, hp⟩ := exists_run_of_execute hn hexec
  have hb : Formatted smallDevice crc32 defaultOptions s₀ := ⟨zeroDisk, blank_zeroDisk, ht⟩
  exact ⟨s₀, s, hb, hrun, hq hb hrun hp⟩

/-- A directory is made, and a crash cuts the first write to a file in it short. -/
theorem crash_keeps_before_or_after_write : ∃ s₀ s, Formatted smallDevice crc32 defaultOptions s₀ ∧
    Run (Transition.Guarded (Plain smallDevice crc32 zeroDigest) (System.Step smallDevice crc32 zeroDigest)) s₀
      [.op (.createDir (pathOf "/a")) none] s ∧
    Plain smallDevice crc32 zeroDigest s (.op (smallWrite "/a/f") none) ∧
    let disk := apply s.disk ((s.vol.exec smallDevice crc32 zeroDigest (smallWrite "/a/f") none).writes.take 2)
    let after := s.after smallDevice crc32 zeroDigest (smallWrite "/a/f") none
    ∃ v, mount smallDevice crc32 disk defaultOptions none = (.ok v, []) ∧ (v.directory = s.vol.directory ∧
          (∀ path, v.readFile smallDevice disk path = s.readFile smallDevice path) ∨
        v.directory = after.vol.directory ∧ ∀ path, v.readFile smallDevice disk path = after.readFile smallDevice path) := by
  refine exists_run_of_boot (guarded_of_guardedNext Plain.of_plain id)
    (fun s => plain smallDevice crc32 zeroDigest s (.op (smallWrite "/a/f") none)) (by decide +kernel)
    fun hb hrun hp => ?_
  exact ⟨Plain.of_plain hp, crash_keeps_before_or_after hb hrun (Plain.of_plain hp) 2⟩

def lastGeneration : UInt64 := 0xFFFFFFFFFFFFFFFF

/-- A device with one directory, at the last generation. -/
def wornDisk : Nat → Bytes :=
  let entries : Entries := (∅ : Entries).insert (pathOf "/a") ⟨⟨2, .directory, 0, 0o755, 0, 0, 1, 2, 2⟩, [], none⟩
  apply zeroDisk ((0, pad 128 (superblockBytes (createDefaultSuperblock 128))) ::
    match store smallDevice crc32 (lastGeneration - 1) entries 3 2 with
    | .ok (_, ws) => ws
    | .error _ => [])

/-- At the last generation the store goes to the bank that is in use: a crash in the middle of it leaves
no bank, and the device mounts as an empty one. -/
theorem crash_at_last_generation : ∃ s : System, System.boot smallDevice crc32 wornDisk defaultOptions = some s ∧
    s.vol.generation = lastGeneration ∧
    let out := s.vol.exec smallDevice crc32 zeroDigest (.createDir (pathOf "/b")) none
    Detects smallDevice crc32 s.disk (bankOf (nextGeneration s.vol.generation)) out.writes ∧
    ∃ t, System.boot smallDevice crc32 (apply s.disk (out.writes.take 1)) defaultOptions = some t ∧
      (s.vol.directory.get (pathOf "/a")).isSome ∧ (out.volume.directory.get (pathOf "/a")).isSome ∧
      t.vol.directory.get (pathOf "/a") = none := by
  have hc : (System.boot smallDevice crc32 wornDisk defaultOptions).any (fun s =>
      let out := s.vol.exec smallDevice crc32 zeroDigest (.createDir (pathOf "/b")) none
      decide (s.vol.generation = lastGeneration) &&
      (detects smallDevice crc32 s.disk (bankOf (nextGeneration s.vol.generation)) out.writes &&
      (System.boot smallDevice crc32 (apply s.disk (out.writes.take 1)) defaultOptions).any fun t =>
        (s.vol.directory.get (pathOf "/a")).isSome && ((out.volume.directory.get (pathOf "/a")).isSome &&
          (t.vol.directory.get (pathOf "/a")).isNone))) = true := by decide +kernel
  obtain ⟨s, hb, h⟩ := (any_eq_true ..).mp hc
  simp only [Bool.and_eq_true, decide_eq_true_eq] at h
  obtain ⟨hg, hd, h⟩ := h
  obtain ⟨t, hb', h⟩ := (any_eq_true ..).mp h
  simp only [Bool.and_eq_true, isNone_iff_eq_none] at h
  exact ⟨s, hb, hg, Detects.of_detects hd, t, hb', h⟩

end ZeroOS.Fs
