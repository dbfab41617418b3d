import ZeroOS.Fs.Crash

/-!
# Snapshots

A snapshot is a copy of the directory and of the allocator, in memory. Its files are still on the blocks
they were on, so it is good for as long as nobody writes to these. `write_file` and `remove_file` look at
the snapshots before they give a block back. But `restore_snapshot` brings back the allocator from the
time of the snapshot, and with it the free blocks of that time: what was written since then, and what
later snapshots have, counts as free. The next write takes such a block.
-/

namespace ZeroOS.Fs

open Disk List Transition Volume Wire Bool

variable {G : Geometry} {crc : Bytes → UInt32} {sha : Bytes → Digest} {sb : SuperBlock} {v : Volume} {op : Op}
  {s : System} {e : Event}

/-- The blocks an operation takes for its data. -/
def Volume.taken (v : Volume) : Op → List Nat
  | .writeFile _ data _ =>
    match v.allocator.takeBlocks (blocksNeeded v.blockSize data.1.length) [] with
    | .ok (blocks, _) => blocks
    | .error _ => []
  | _ => []

lemma Change.fresh_eq (h : Change sha v op fresh entries old inode)
    (ht : v.allocator.takeBlocks fresh.length [] = .ok (fresh, a)) : fresh = v.taken op := by
  cases h with
  | write hl =>
    rw [hl] at ht
    simp only [Volume.taken, ht]
  | remove _ _ => rfl
  | mkdir _ _ _ _ => rfl
  | rmdir _ _ _ => rfl
  | rename _ _ _ _ _ => rfl

lemma Transaction.fresh_eq (t : Transaction G sha v op) : t.fresh = v.taken op := t.change.fresh_eq t.takes

lemma Effect.keeps (h : Effect G crc sha v op out) (hh : reservedEnd ≤ b) (ht : b ∉ v.taken op) :
    apply d out.writes b = d b := by
  have ha := take_length (l := out.writes)
  rcases h.take out.writes.length with hn | ⟨t, hp⟩ | ⟨t, next, ws, hs, rfl, -⟩
  · rw [← ha, hn, apply_nil]
  · rw [ha] at hp
    exact hp.keeps hh (t.fresh_eq ▸ ht)
  · refine apply_of_notMem fun hm => ?_
    rw [map_append, mem_append, Transaction.dataWrites, map_fst_writes] at hm
    rcases hm with hm | hm
    · exact ht (t.fresh_eq ▸ hm)
    · have hd := mem_store hs hm
      have hb := bank_le next
      omega

lemma references_iff :
    v.references b = true ↔ ∃ s ∈ v.snapshots, HasBlock s.directory b := by
  simp only [references, any_eq_true, decide_eq_true_eq]
  constructor
  · rintro ⟨s, hs, item, ht, hb⟩
    exact ⟨s, hs, item.1, item.2, mem_toList.mp ht, hb⟩
  · rintro ⟨s, hs, k, e, hk, hb⟩
    exact ⟨s, hs, (k, e), mem_toList.mpr hk, hb⟩

/-! ## What a restore brings back -/

/-- No block is taken that a snapshot has, and no snapshot gets the number of one that is there. The
device is not mounted again: that would be the end of all snapshots. -/
def Unshared (s : System) : Event → Prop
  | .op op _ => (∀ b ∈ s.vol.taken op, s.vol.references b = false) ∧
      (op = .createSnapshot → ∀ x ∈ s.vol.snapshots, x.id ≠ s.vol.nextSnapshot)
  | .remount _ => False

def Makes (id : UInt64) (s : System) (e : Event) : Prop := ∃ fault, e = .op .createSnapshot fault ∧ s.vol.nextSnapshot = id

/-- What is known of a snapshot as long as it is there: nobody else has its number, and its blocks are
as they were on the device `d`. -/
structure Intact (G : Geometry) (sb : SuperBlock) (snap : Snapshot) (d : Nat → Bytes) (s : System) : Prop where
  laid : Laid G sb s.vol
  only : ∀ x ∈ s.vol.snapshots, x.id = snap.id → x = snap
  same : snap ∈ s.vol.snapshots → ∀ b, HasBlock snap.directory b → s.disk b = d b

lemma snapshots_of_effect (h : Effect G crc sha v op out) :
    ∀ x ∈ out.volume.snapshots, x ∈ v.snapshots ∨ op = .createSnapshot ∧ x = v.createSnapshot.1 := by
  intro x hx
  cases h with
  | refused e => exact .inl hx
  | unwritten t n => exact .inl hx
  | uncommitted t e ws inode _ _ => exact .inl hx
  | committed t next ws _ => exact .inl hx
  | created heq =>
    rcases mem_append.mp hx with hx | hx
    · exact .inl hx
    · exact .inr ⟨heq, mem_singleton.mp hx⟩
  | restored _ _ => exact .inl hx
  | deleted _ hs =>
    unfold deleteSnapshot at hx
    rw [hs] at hx
    exact .inl (mem_of_mem_eraseP hx)

lemma Intact.step {snap : Snapshot} {d : Nat → Bytes} {s t : System} {e : Event}
    (h : Intact G sb snap d s) (ho : Unshared s e ∧ ¬Makes snap.id s e) (hst : s.Step G crc sha e t) :
    Intact G sb snap d t := by
  cases e with
  | remount options => exact ho.1.elim
  | op op fault =>
    obtain ⟨⟨hr, -⟩, hm⟩ := ho
    cases hst
    have he := @effect G crc sha s.vol fault h.laid.live.normal op
    have hl := h.laid.effect he
    have hp := snapshots_of_effect he
    have hf : ∀ x ∈ (s.vol.exec G crc sha op fault).volume.snapshots, x.id = snap.id → x ∈ s.vol.snapshots := by
      intro x hx hid
      rcases hp x hx with hx | ⟨rfl, rfl⟩
      · exact hx
      · exact absurd ⟨fault, rfl, hid⟩ hm
    refine ⟨hl, fun x hx hid => h.only x (hf x hx hid) hid, fun hme b hh => ?_⟩
    have hs := hf snap hme rfl
    have hg := ((h.laid.snaps snap hs).block b hh).1
    have ht : b ∉ s.vol.taken op := by
      intro hb
      have hn := hr b hb
      rw [references_iff.mpr ⟨snap, hs, hh⟩] at hn
      cases hn
    exact (he.keeps hg ht).trans (h.same hs b hh)

/-- Fidelity. A snapshot that is restored gives the directory and the contents of the time it was
made, in every run in which no block of a snapshot is taken for a file. -/
theorem restore_gives_snapshot {options : MountOptions} {s₀ s t : System} {es fs : List Event}
    {id : UInt64} (hstart : Formatted G crc options s₀)
    (hrun : Run (Transition.Guarded Unshared (System.Step G crc sha)) s₀ es s)
    (hmake : Unshared s (.op .createSnapshot none)) (hid : s.vol.createSnapshot.1.id = id)
    (hrun' : Run (Transition.Guarded (fun s e => Unshared s e ∧ ¬Makes id s e) (System.Step G crc sha))
      (s.after G crc sha .createSnapshot none) fs t)
    (hok : (t.vol.restoreSnapshot id).result = .ok ()) :
    let r := t.after G crc sha (.restoreSnapshot id) none
    r.vol.directory = s.vol.directory ∧ ∀ path, r.readFile G path = s.readFile G path := by
  obtain ⟨sb, hn⟩ := Synced.init hstart
  have hl : Laid G sb s.vol := by
    clear hmake hid hrun'
    induction hrun with
    | nil => exact hn.laid
    | @snoc es s t e _ hs ih =>
      cases e with
      | remount options => exact hs.1.elim
      | op op fault =>
        obtain rfl := Option.some.inj hs.2
        exact ih.effect (effect ih.live.normal op)
  have hc : Intact G sb s.vol.createSnapshot.1 s.disk (s.after G crc sha .createSnapshot none) := by
    refine ⟨hl.effect (effect hl.live.normal .createSnapshot), fun x hx hd => ?_, fun _ b _ => rfl⟩
    rcases mem_append.mp hx with hx | hx
    · exact absurd hd (hmake.2 rfl x hx)
    · exact mem_singleton.mp hx
  have he : Intact G sb s.vol.createSnapshot.1 s.disk t := by
    subst hid
    exact Run.invariant (fun s e t h hs => h.step hs.1 hs.2) hrun' hc
  cases hf : t.vol.snapshots.find? fun x => x.id == id with
  | none => simp [restoreSnapshot, hf, refuse] at hok
  | some x =>
    have hm := mem_of_find?_eq_some hf
    have hd : x.id = s.vol.createSnapshot.1.id := by
      rw [hid]
      simpa using find?_some hf
    obtain rfl := he.only x hm hd
    have hr : t.after G crc sha (.restoreSnapshot id) none =
        ⟨t.disk, { t.vol with allocator := s.vol.allocator, directory := s.vol.directory }⟩ := by
      simp only [System.after, exec, restoreSnapshot, hf, apply_nil]
      rfl
    rw [hr]
    refine ⟨rfl, readFile_congr rfl ?_ fun b hh => he.same hm b hh⟩
    exact he.laid.size.trans hl.size.symm

/-- The same as `Unshared`, for a system that is known. -/
def unshared (s : System) : Event → Bool
  | .op op _ => (s.vol.taken op).all (fun b => !s.vol.references b) && (match op with
      | .createSnapshot => s.vol.snapshots.all fun x => x.id != s.vol.nextSnapshot
      | _ => true)
  | .remount _ => false

lemma Unshared.of_unshared (h : unshared s e = true) : Unshared s e := by
  cases e with
  | remount options => cases h
  | op op fault =>
    simp only [unshared, and_eq_true, all_eq_true, not_eq_true'] at h
    refine ⟨h.1, ?_⟩
    rintro rfl x hx
    simpa using all_eq_true.mp h.2 x hx

def Event.makes : Event → Bool
  | .op .createSnapshot _ => true
  | _ => false

lemma not_makes {id : UInt64} (h : e.makes = false) : ¬Makes id s e := by
  rintro ⟨fault, rfl, -⟩
  cases h

def byteWrite (text : String) (byte : UInt8) : Op := .writeFile (pathOf text) ⟨[byte], Nat.one_lt_two_pow (by decide)⟩ none

/-- The events of operations that the device takes all writes of. -/
def events (ops : List Op) : List Event := ops.map fun op => .op op none

/-- A file is written over, and the snapshot from before that is restored. -/
theorem restore_gives_snapshot_of_file : ∃ s₀ s t, Formatted smallDevice crc32 defaultOptions s₀ ∧
    Run (Transition.Guarded Unshared (System.Step smallDevice crc32 zeroDigest)) s₀
      (events [byteWrite "/a" 1]) s ∧
    Unshared s (.op .createSnapshot none) ∧ s.vol.createSnapshot.1.id = 1 ∧
    Run (Transition.Guarded (fun s e => Unshared s e ∧ ¬Makes 1 s e)
      (System.Step smallDevice crc32 zeroDigest)) (s.after smallDevice crc32 zeroDigest .createSnapshot none)
      (events [byteWrite "/a" 2]) t ∧
    (t.vol.restoreSnapshot 1).result = .ok () ∧
    let r := t.after smallDevice crc32 zeroDigest (.restoreSnapshot 1) none
    r.vol.directory = s.vol.directory ∧ ∀ path, r.readFile smallDevice path = s.readFile smallDevice path := by
  have hc : (System.boot smallDevice crc32 zeroDisk defaultOptions).any (fun s₀ =>
      (execute (guardedNext unshared (System.next smallDevice crc32 zeroDigest)) s₀ (events [byteWrite "/a" 1])).any
        fun s => unshared s (.op .createSnapshot none) && (decide (s.vol.nextSnapshot = 1) &&
          (execute (guardedNext (fun s e => unshared s e && !e.makes) (System.next smallDevice crc32 zeroDigest))
            (s.after smallDevice crc32 zeroDigest .createSnapshot none) (events [byteWrite "/a" 2])).any fun t =>
              (t.vol.restoreSnapshot 1).result.isOk)) = true := by decide +kernel
  obtain ⟨s₀, ht, hexec⟩ := (Option.any_eq_true ..).mp hc
  obtain ⟨s, hrun, hm⟩ := @exists_guardedRun_of_execute _ _
    (System.Step smallDevice crc32 zeroDigest) _ _ _ _ _ Unshared.of_unshared id _ hexec
  have hb : Formatted smallDevice crc32 defaultOptions s₀ := ⟨zeroDisk, blank_zeroDisk, ht⟩
  simp only [and_eq_true, decide_eq_true_eq] at hm
  obtain ⟨hk, hid, hexec⟩ := hm
  have hg : ∀ {s e}, (unshared s e && !e.makes) = true → Unshared s e ∧ ¬Makes 1 s e := by
    intro s e h
    rw [and_eq_true, not_eq_true'] at h
    exact ⟨.of_unshared h.1, not_makes h.2⟩
  obtain ⟨t, hrun', ho⟩ := @exists_guardedRun_of_execute _ _
    (System.Step smallDevice crc32 zeroDigest) _ _ _ _ _ hg id _ hexec
  have hr : (t.vol.restoreSnapshot 1).result = .ok () := by
    cases h : (t.vol.restoreSnapshot 1).result with
    | ok _ => rfl
    | error e => simp [h, Except.isOk, Except.toBool] at ho
  exact ⟨s₀, s, t, hb, hrun, .of_unshared hk, hid, hrun', hr, restore_gives_snapshot hb hrun (.of_unshared hk) hid hrun' hr⟩

/-- Two snapshots, of an empty directory and of one with a file. The first one is restored, and with it
the allocator that has the block of the file free; the next file gets the block. The second snapshot,
restored, has the bytes of that file. -/
theorem restored_snapshot_overwritten : ∃ s₀ s t, Formatted smallDevice crc32 defaultOptions s₀ ∧
    Run (System.Step smallDevice crc32 zeroDigest) s₀ (events [.createSnapshot, byteWrite "/a" 1]) s ∧
    s.vol.createSnapshot.1.id = 2 ∧
    Run (System.Step smallDevice crc32 zeroDigest) (s.after smallDevice crc32 zeroDigest .createSnapshot none)
      (events [.restoreSnapshot 1, byteWrite "/b" 2]) t ∧
    (t.vol.restoreSnapshot 2).result.isOk = true ∧
    s.readFile smallDevice (pathOf "/a") = .ok [1] ∧
    (t.after smallDevice crc32 zeroDigest (.restoreSnapshot 2) none).readFile smallDevice (pathOf "/a") = .ok [2] := by
  have hc : (System.boot smallDevice crc32 zeroDisk defaultOptions).any (fun s₀ =>
      (execute (System.next smallDevice crc32 zeroDigest) s₀
        (events [.createSnapshot, byteWrite "/a" 1])).any fun s =>
          decide (s.vol.nextSnapshot = 2) &&
          (execute (System.next smallDevice crc32 zeroDigest)
            (s.after smallDevice crc32 zeroDigest .createSnapshot none)
            (events [.restoreSnapshot 1, byteWrite "/b" 2])).any fun t =>
              (t.vol.restoreSnapshot 2).result.isOk &&
              (decide (s.readFile smallDevice (pathOf "/a") = .ok [1]) &&
              decide ((t.after smallDevice crc32 zeroDigest (.restoreSnapshot 2) none).readFile smallDevice
                (pathOf "/a") = .ok [2]))) = true := by decide +kernel
  obtain ⟨s₀, hb, hexec⟩ := (Option.any_eq_true ..).mp hc
  obtain ⟨s, hrun, hm⟩ := @exists_run_of_execute _ _ (System.Step smallDevice crc32 zeroDigest) _ _ _ id _ hexec
  simp only [and_eq_true, decide_eq_true_eq] at hm
  obtain ⟨hid, hexec'⟩ := hm
  obtain ⟨t, hrun', hr⟩ := @exists_run_of_execute _ _
    (System.Step smallDevice crc32 zeroDigest) _ _ _ id _ hexec'
  simp only [and_eq_true, decide_eq_true_eq] at hr
  exact ⟨s₀, s, t, ⟨zeroDisk, blank_zeroDisk, hb⟩, hrun, hid, hrun', hr⟩

/-! ## What a crash leaves after a restore -/

/-- What is assumed of the events of a run: the paths do not climb, the generation can still grow, the
checksum shows a bank that was overwritten in part, and no block is taken for a file that belongs to the
directory the device has. -/
def Careful (G : Geometry) (crc : Bytes → UInt32) (sha : Bytes → Digest) (s : System) : Event → Prop
  | .op op fault => op.Clean ∧ Room s.vol.generation ∧
      Detects G crc s.disk (bankOf (nextGeneration s.vol.generation)) (s.vol.exec G crc sha op fault).writes ∧
      ∀ st, load G crc s.disk = .ok (some st) → ∀ b ∈ s.vol.taken op, ¬HasBlock st.entries b
  | .remount _ => True

/-- No path climbs, in the directory or in a snapshot. -/
structure AllValid (v : Volume) : Prop where
  live : PathsValid v.directory.entries
  snaps : ∀ x ∈ v.snapshots, PathsValid x.directory

lemma AllValid.effect {v : Volume} {op : Op} {out : Outcome} (h : AllValid v) (hc : op.Clean)
    (he : Effect G crc sha v op out) : AllValid out.volume := by
  have hn : ∀ x ∈ out.volume.snapshots, PathsValid x.directory := by
    intro x hx
    rcases snapshots_of_effect he x hx with hx | ⟨-, rfl⟩
    · exact h.snaps x hx
    · exact h.live
  refine ⟨?_, hn⟩
  cases he with
  | refused e => exact h.live
  | unwritten t n => exact h.live
  | uncommitted t e ws inode _ _ => exact h.live
  | committed t next ws _ => exact t.change.pathsValid h.live hc
  | created _ => exact h.live
  | restored _ hs => exact h.snaps _ (mem_of_find?_eq_some hs)
  | deleted _ hs =>
    unfold deleteSnapshot
    rw [hs]
    exact h.live

/-- The state `t` of a run is the one the device has: its directory is what the device is anchored at,
and the blocks of its files are still as they were. -/
structure Trailing (G : Geometry) (crc : Bytes → UInt32) (sb : SuperBlock) (s t : System) : Prop where
  laid : Laid G sb s.vol
  valid : AllValid s.vol
  size : t.vol.blockSize = G.blockSize
  paths : PathsValid t.vol.directory.entries
  anchored : ∃ inode time, Anchored G crc sb s.disk ⟨s.vol.generation, t.vol.directory.entries, inode, time⟩
  same : ∀ b, HasBlock t.vol.directory.entries b → s.disk b = t.disk b
  readable : Readable G crc s.disk

namespace Trailing

variable {s t : System} {op : Op} {fault : Option Nat}

lemma of_synced (h : Synced G crc sb s) (hs : s.vol.snapshots = []) : Trailing G crc sb s s where
  laid := h.laid
  valid := ⟨h.valid, by simp [hs]⟩
  size := h.laid.size
  paths := h.valid
  anchored := h.anchored
  same := fun _ _ => rfl
  readable := h.readable

section

variable (h : Trailing G crc sb s t)
include h

lemma fresh (ho : Careful G crc sha s (.op op fault)) {b : Nat} (hb : b ∈ s.vol.taken op) :
    ¬HasBlock t.vol.directory.entries b := by
  obtain ⟨inode, time, ha⟩ := h.anchored
  exact ho.2.2.2 _ (ha.holds.load h.readable) b hb

lemma progress (ho : Careful G crc sha s (.op op fault)) {tx : Transaction G sha s.vol op}
    {ws : List (Nat × Bytes)} (hp : Progress crc tx ws)
    (hc : Detects G crc s.disk (bankOf (nextGeneration s.vol.generation)) ws) :
    (∃ inode time, Anchored G crc sb (apply s.disk ws)
      ⟨s.vol.generation, t.vol.directory.entries, inode, time⟩) ∧
    (∀ b, HasBlock t.vol.directory.entries b → apply s.disk ws b = t.disk b) ∧
    Readable G crc (apply s.disk ws) := by
  obtain ⟨inode, time, ha⟩ := h.anchored
  refine ⟨⟨inode, time, ha.progress h.laid rfl ho.2.1 hp⟩, fun b hh => ?_, Anchored.progress_readable h.readable h.laid hp hc⟩
  have hf : b ∉ tx.fresh := fun hb => h.fresh ho (tx.fresh_eq ▸ hb) hh
  exact (hp.keeps (ha.block b hh).1 hf).trans (h.same b hh)

lemma step {e : Event} (ho : Careful G crc sha s e) {s' : System} (hst : s.Step G crc sha e s') :
    Trailing G crc sb s' t ∨ Trailing G crc sb s' s' := by
  cases e with
  | op op fault =>
    cases hst
    have he := @effect G crc sha s.vol fault h.laid.live.normal op
    have hl := h.laid.effect he
    have hv := h.valid.effect ho.1 he
    have hc := ho.2.2.1
    unfold System.after
    generalize s.vol.exec G crc sha op fault = out at *
    cases he with
    | refused e => exact .inl h
    | unwritten tx n =>
      obtain ⟨ha, hsm, hd⟩ := h.progress ho (.data n) hc
      exact .inl ⟨hl, hv, h.size, h.paths, ha, hsm, hd⟩
    | uncommitted tx e ws inode ht _ =>
      obtain ⟨ha, hsm, hd⟩ := h.progress ho (.torn ht) hc
      exact .inl ⟨hl, hv, h.size, h.paths, ha, hsm, hd⟩
    | committed tx next ws hso =>
      obtain ⟨inode, time, ha⟩ := h.anchored
      have hp := tx.change.pathsValid h.valid.live ho.1
      exact .inr ⟨hl, hv, hl.size, hp, ⟨_, _, ha.complete h.laid rfl hso⟩,
        fun _ _ => rfl, Anchored.complete_readable h.readable h.laid hso hp⟩
    | created _ | restored _ _ => exact .inl ⟨hl, hv, h.size, h.paths, h.anchored, h.same, h.readable⟩
    | deleted _ hs =>
      unfold deleteSnapshot at hl hv ⊢
      rw [hs] at hl hv ⊢
      exact .inl ⟨hl, hv, h.size, h.paths, h.anchored, h.same, h.readable⟩
  | remount options =>
    obtain ⟨inode, time, ha⟩ := h.anchored
    obtain ⟨v, hm, hr⟩ := ha.mount_eq h.readable options none
    simp only [System.Step, System.next, System.boot, hm] at hst
    cases hst
    have hl := hr.laid ha.normal ha.block ha.size ha.inode ha.time
    refine .inl ⟨hl, ⟨?_, by simp [hr.snapshots]⟩, h.size, h.paths, ⟨inode, time, ?_⟩, h.same, h.readable⟩
    · change PathsValid v.directory.entries
      rw [hr.directory]
      exact h.paths
    · change Anchored G crc sb s.disk ⟨v.generation, t.vol.directory.entries, inode, time⟩
      rw [hr.generation]
      exact ha

lemma mount_reads (options : MountOptions) : ∃ v,
    Fs.mount G crc s.disk options none = (.ok v, []) ∧ v.directory = t.vol.directory ∧
      ∀ path, v.readFile G s.disk path = t.readFile G path := by
  obtain ⟨inode, time, ha⟩ := h.anchored
  obtain ⟨v, hm, hr⟩ := ha.mount_eq h.readable options none
  have hs : v.blockSize = t.vol.blockSize := (Synced.size_eq hr h.laid ha.size).trans (h.laid.size.trans h.size.symm)
  exact ⟨v, hm, hr.directory, readFile_congr hr.directory hs h.same⟩

end

end Trailing

/-- Crashes with restores. Whatever first part of the writes of an operation the device has, it
mounts to the directory of some state of the run, and every file of it has the contents it had there,
in every run in which no block is taken for a file that belongs to the directory of the device. -/
theorem crash_after_restore {options remount : MountOptions} {s₀ s : System} {es : List Event}
    {op : Op} {fault : Option Nat} (hstart : Formatted G crc options s₀)
    (hrun : Run (Transition.Guarded (Careful G crc sha) (System.Step G crc sha)) s₀ es s)
    (hop : Careful G crc sha s (.op op fault)) (n : Nat) :
    let disk := apply s.disk ((s.vol.exec G crc sha op fault).writes.take n)
    ∃ v, mount G crc disk remount none = (.ok v, []) ∧ ∃ es₁ es₂ t,
      es ++ [.op op fault] = es₁ ++ es₂ ∧ Run (System.Step G crc sha) s₀ es₁ t ∧
      Run (System.Step G crc sha) t es₂ (s.after G crc sha op fault) ∧
      v.directory = t.vol.directory ∧ ∀ path, v.readFile G disk path = t.readFile G path := by
  obtain ⟨sb, hin⟩ := Synced.init hstart
  have ho : s₀.vol.snapshots = [] := by
    obtain ⟨d, hb, hbt⟩ := hstart
    obtain ⟨v, ws, hm, rfl⟩ := System.boot_eq_some hbt
    obtain ⟨_, -, hrc, -⟩ := hb.mount hm
    exact hrc.snapshots
  -- every state of the run has one before it that the device has
  have ht : ∃ es₁ es₂ t, es = es₁ ++ es₂ ∧ Run (System.Step G crc sha) s₀ es₁ t ∧
      Run (System.Step G crc sha) t es₂ s ∧ Trailing G crc sb s t := by
    clear hop
    induction hrun with
    | nil => exact ⟨[], [], s₀, rfl, .nil, .nil, .of_synced hin ho⟩
    | @snoc es s s' e hrun hs ih =>
      obtain ⟨es₁, es₂, t, rfl, hrun₁, hrun₂, ht⟩ := ih
      rcases ht.step hs.1 hs.2 with hk | hn
      · exact ⟨es₁, es₂ ++ [e], t, append_assoc .., hrun₁, hrun₂.snoc hs.2, hk⟩
      · exact ⟨es₁ ++ es₂ ++ [e], [], s', by simp, (hrun₁.trans hrun₂).snoc hs.2, .nil, hn⟩
  obtain ⟨es₁, es₂, t, rfl, hrun₁, hrun₂, ht⟩ := ht
  have hl : s.Step G crc sha (.op op fault) (s.after G crc sha op fault) := rfl
  have he := @effect G crc sha s.vol fault ht.laid.live.normal op
  rcases he.take n with ho | ⟨tx, hp⟩ | ⟨-, -, -, -, -, ha⟩
  · obtain ⟨v, hm, hd, hr⟩ := ht.mount_reads remount
    rw [ho]
    exact ⟨v, hm, es₁, es₂ ++ [_], t, append_assoc .., hrun₁, hrun₂.snoc hl, hd, hr⟩
  · obtain ⟨han, hsm, hrb⟩ := ht.progress hop hp (hop.2.2.1.take n)
    have hc : Trailing G crc sb ⟨apply s.disk ((s.vol.exec G crc sha op fault).writes.take n), s.vol⟩ t :=
      ⟨ht.laid, ht.valid, ht.size, ht.paths, han, hsm, hrb⟩
    obtain ⟨v, hm, hd, hr⟩ := hc.mount_reads remount
    exact ⟨v, hm, es₁, es₂ ++ [_], t, append_assoc .., hrun₁, hrun₂.snoc hl, hd, hr⟩
  · rw [ha]
    rcases ht.step hop hl with hk | hn
    · obtain ⟨v, hm, hd, hr⟩ := hk.mount_reads remount
      exact ⟨v, hm, es₁, es₂ ++ [_], t, append_assoc .., hrun₁, hrun₂.snoc hl, hd, hr⟩
    · obtain ⟨v, hm, hd, hr⟩ := hn.mount_reads remount
      exact ⟨v, hm, es₁ ++ es₂ ++ [_], [], _, by simp, (hrun₁.trans hrun₂).snoc hl, .nil, hd, hr⟩

lemma mem_allBlocks : b ∈ allBlocks m ↔ HasBlock m b := by
  simp only [allBlocks, mem_flatMap]
  constructor
  · rintro ⟨item, ht, hb⟩
    exact ⟨item.1, item.2, mem_toList.mp ht, hb⟩
  · rintro ⟨k, e, hk, hb⟩
    exact ⟨(k, e), mem_toList.mpr hk, hb⟩

/-- The same as `Careful`, but for the blocks, for a system that is known. -/
def sane (G : Geometry) (crc : Bytes → UInt32) (sha : Bytes → Digest) (s : System) : Event → Bool
  | .op op fault => decide op.Clean && decide (Room s.vol.generation) &&
      detects G crc s.disk (bankOf (nextGeneration s.vol.generation)) (s.vol.exec G crc sha op fault).writes
  | .remount _ => true

/-- The same as `Careful`, for a system that is known. -/
def careful (G : Geometry) (crc : Bytes → UInt32) (sha : Bytes → Digest) (s : System) (e : Event) : Bool :=
  sane G crc sha s e &&
    match e with
    | .op op _ =>
      match load G crc s.disk with
      | .ok (some st) => (s.vol.taken op).all fun b => decide (b ∉ allBlocks st.entries)
      | _ => true
    | .remount _ => true

lemma Careful.of_careful (h : careful G crc sha s e = true) :
    Careful G crc sha s e := by
  cases e with
  | remount options => trivial
  | op op fault =>
    simp only [careful, sane, and_eq_true, decide_eq_true_eq] at h
    refine ⟨h.1.1.1, h.1.1.2, Detects.of_detects h.1.2, fun st hl b hb hh => ?_⟩
    have hbl := h.2
    rw [hl] at hbl
    have hn := all_eq_true.mp hbl b hb
    exact (of_decide_eq_true hn) (mem_allBlocks.mpr hh)

/-- What was written after a snapshot is removed before the snapshot is restored; the next write is cut
short by a crash. -/
theorem crash_after_restore_write : ∃ s₀ s, Formatted smallDevice crc32 defaultOptions s₀ ∧
    Run (Transition.Guarded (Careful smallDevice crc32 zeroDigest) (System.Step smallDevice crc32 zeroDigest)) s₀
      (events [byteWrite "/a" 1, .createSnapshot, byteWrite "/b" 2, .removeFile (pathOf "/b"), .restoreSnapshot 1]) s ∧
    Careful smallDevice crc32 zeroDigest s (.op (byteWrite "/c" 3) none) ∧
    let disk := apply s.disk ((s.vol.exec smallDevice crc32 zeroDigest (byteWrite "/c" 3) none).writes.take 2)
    ∃ v, mount smallDevice crc32 disk defaultOptions none = (.ok v, []) ∧ ∃ es₁ es₂ t,
      events [byteWrite "/a" 1, .createSnapshot, byteWrite "/b" 2, .removeFile (pathOf "/b"),
        .restoreSnapshot 1] ++ [.op (byteWrite "/c" 3) none] = es₁ ++ es₂ ∧
      Run (System.Step smallDevice crc32 zeroDigest) s₀ es₁ t ∧
      Run (System.Step smallDevice crc32 zeroDigest) t es₂
        (s.after smallDevice crc32 zeroDigest (byteWrite "/c" 3) none) ∧
      v.directory = t.vol.directory ∧
      ∀ path, v.readFile smallDevice disk path = t.readFile smallDevice path := by
  refine exists_run_of_boot (guarded_of_guardedNext Careful.of_careful id)
    (fun s => careful smallDevice crc32 zeroDigest s (.op (byteWrite "/c" 3) none)) (by decide +kernel)
    fun hb hrun hc => ?_
  exact ⟨.of_careful hc, crash_after_restore hb hrun (.of_careful hc) 2⟩

/-- A restore leaves the device with a file whose block is free in memory. The next write takes it, and
a crash right after its data leaves a file with bytes that it never had. -/
theorem crash_mixes_after_restore : ∃ s₀ s, Formatted smallDevice crc32 defaultOptions s₀ ∧
    Run (Transition.Guarded (fun s e => sane smallDevice crc32 zeroDigest s e = true)
      (System.Step smallDevice crc32 zeroDigest)) s₀
      (events [.createSnapshot, byteWrite "/a" 1, .restoreSnapshot 1]) s ∧
    sane smallDevice crc32 zeroDigest s (.op (byteWrite "/b" 2) none) = true ∧
    let disk := apply s.disk ((s.vol.exec smallDevice crc32 zeroDigest (byteWrite "/b" 2) none).writes.take 1)
    ∃ v, mount smallDevice crc32 disk defaultOptions none = (.ok v, []) ∧ v.readFile smallDevice disk (pathOf "/a") = .ok [2] ∧
      ∀ es₁ es₂ t, events [.createSnapshot, byteWrite "/a" 1, .restoreSnapshot 1, byteWrite "/b" 2] = es₁ ++ es₂ →
        Run (System.Step smallDevice crc32 zeroDigest) s₀ es₁ t →
        t.readFile smallDevice (pathOf "/a") ≠ .ok [2] := by
  have hc : (System.boot smallDevice crc32 zeroDisk defaultOptions).any (fun s₀ =>
      ((List.range 5).all fun k => (execute (System.next smallDevice crc32 zeroDigest) s₀
        ((events [.createSnapshot, byteWrite "/a" 1, .restoreSnapshot 1, byteWrite "/b" 2]).take k)).all fun t =>
          decide (t.readFile smallDevice (pathOf "/a") ≠ .ok [2])) &&
      (execute (guardedNext (sane smallDevice crc32 zeroDigest) (System.next smallDevice crc32 zeroDigest)) s₀
        (events [.createSnapshot, byteWrite "/a" 1, .restoreSnapshot 1])).any fun s =>
          sane smallDevice crc32 zeroDigest s (.op (byteWrite "/b" 2) none) &&
          (let disk := apply s.disk ((s.vol.exec smallDevice crc32 zeroDigest (byteWrite "/b" 2) none).writes.take 1)
          match mount smallDevice crc32 disk defaultOptions none with
          | (.ok v, []) => decide (v.readFile smallDevice disk (pathOf "/a") = .ok [2])
          | (.ok _, _ :: _) | (.error _, _) => false)) = true := by decide +kernel
  obtain ⟨s₀, hb, h⟩ := (Option.any_eq_true ..).mp hc
  obtain ⟨hss, hexec⟩ := and_eq_true_iff.mp h
  obtain ⟨s, hrun, hr⟩ := @exists_guardedRun_of_execute _ _
    (System.Step smallDevice crc32 zeroDigest) _ _ _ _ _ id id _ hexec
  obtain ⟨hn, hm⟩ := and_eq_true_iff.mp hr
  refine ⟨s₀, s, ⟨zeroDisk, blank_zeroDisk, hb⟩, hrun, hn, ?_⟩
  dsimp only at hm ⊢
  split at hm
  next v heq =>
    refine ⟨v, heq, of_decide_eq_true hm, fun es₁ es₂ t hs hrun₁ => ?_⟩
    have ht : es₁ = (events [.createSnapshot, byteWrite "/a" 1, .restoreSnapshot 1, byteWrite "/b" 2]).take
        es₁.length := by rw [hs, take_left' rfl]
    have hl : es₁.length < 5 := by
      have hl := congrArg List.length hs
      rw [length_append] at hl
      change 4 = _ at hl
      omega
    have hst := all_eq_true.mp hss es₁.length (mem_range.mpr hl)
    rw [← ht, execute_of_run hrun₁] at hst
    exact of_decide_eq_true hst
  all_goals cases hm

end ZeroOS.Fs
