import ZeroOS.Fs.Snapshots

/-!
# The contents of the files

A file is where its entry says. The blocks that an operation writes were in use by nobody, so no entry that
was there loses its bytes, under whatever name it is found afterwards, and also when the device refuses a
write. No entry lacks a block (`Whole`), so a positional read is a part of the whole one.
-/

namespace ZeroOS.Fs

open List Wire Disk Transition Volume BlockAllocator

variable {G : Geometry} {crc : Bytes → UInt32} {sha : Bytes → Digest} {sb : SuperBlock} {v : Volume} {s s₀ : System}

lemma not_taken (h : Owned v) (hb : HasBlock v.directory.entries b) : b ∉ v.taken op := by
  intro ht
  unfold Volume.taken at ht
  split at ht
  · split at ht
    next hk =>
      obtain ⟨fresh, rfl, -, -, -, hf, -⟩ := takeBlocks_spec hk
      have hn := (hf b ht).2
      rw [h.used b hb] at hn
      cases hn
    · cases ht
  · cases ht

/-- The blocks of the files are as before. -/
lemma Synced.keeps (h : Synced G crc sb s) (hb : HasBlock s.vol.directory.entries b) :
    (s.after G crc sha op fault).disk b = s.disk b :=
  (effect h.laid.live.normal op).keeps (h.laid.live.block b hb).1 (not_taken h.owned hb)

lemma Synced.reads_entry (h : Synced G crc sb s) (hq : s.vol.directory.get q = some e)
    (hq' : (s.after G crc sha op fault).vol.directory.get q' = some e) :
    (s.after G crc sha op fault).readFile G q' = s.readFile G q := by
  have hl : Laid G sb (s.after G crc sha op fault).vol := h.laid.effect (effect h.laid.live.normal op)
  unfold System.readFile Volume.readFile
  rw [hq, hq', hl.size, h.laid.size]
  dsimp only
  rw [read_congr fun b hb => h.keeps ⟨_, e, hq, hb⟩]

lemma writes_writeFile (h : (v.writeFile G crc sha path data expected fault).result = .ok ()) : ∃ ws,
    (v.writeFile G crc sha path data expected fault).writes =
      writes v.blockSize (v.taken (.writeFile path data expected)) data.1 ++ ws := by
  unfold writeFile Volume.taken at *
  dsimp only at h ⊢
  split at h
  · cases h
  next hs =>
  rw [if_neg hs]
  split at h
  · cases h
  next blocks a ht =>
    simp only [ht]
    split at h
    · cases h
    next hsz =>
      rw [if_neg hsz]
      split at h
      · cases h
      next hr =>
        rw [if_neg hr]
        unfold commit
        dsimp only
        split <;> exact ⟨_, rfl⟩

lemma readFile_entry (hg : v.directory.get path = some e) (hk : e.kind = .file) (hs : v.blockSize = G.blockSize) :
    v.readFile G d path = .ok (read v.blockSize d e.blocks e.size) := by
  unfold readFile
  rw [hg]
  dsimp only
  rw [if_neg (not_not.mpr hk), if_neg fun hn => hn.1 hs]

lemma Change.of_write (h : Change sha v (.writeFile path data expected) fresh entries old inode) :
    fresh.length = blocksNeeded v.blockSize data.1.length ∧ entries = v.directory.entries.insert (normalize path)
      (newEntry v .file 0o644 data.1.length fresh (some (sha data.1))) := by
  cases h with
  | write hl => exact ⟨hl, rfl⟩

lemma Synced.reads_written (h : Synced G crc sb s)
    (hok : (s.vol.exec G crc sha (.writeFile path data expected) fault).result = .ok ()) :
    (s.after G crc sha (.writeFile path data expected) fault).readFile G path = .ok data.1 := by
  have he : Effect G crc sha s.vol (.writeFile path data expected) (s.vol.exec G crc sha (.writeFile path data expected) fault) :=
    effect h.laid.live.normal _
  obtain ⟨ws', hw⟩ : ∃ ws, (s.vol.exec G crc sha (.writeFile path data expected) fault).writes = _ ++ ws := writes_writeFile hok
  unfold System.after System.readFile
  generalize s.vol.exec G crc sha (.writeFile path data expected) fault = out at *
  cases he with
  | committed t next ws hs =>
    obtain ⟨hn, -⟩ := t.fresh_spec
    rw [← t.fresh_eq] at hw
    obtain ⟨hd, -⟩ := append_inj hw (by simp [Transaction.dataWrites])
    have ht := t.change.of_write
    have hl : data.1.length ≤ t.fresh.length * s.vol.blockSize :=
      ht.1 ▸ length_le_blocksNeeded (h.laid.size ▸ G.pos) data.1.length
    have hr : read s.vol.blockSize (apply s.disk (t.dataWrites ++ ws)) t.fresh data.1.length = data.1 := by
      rw [apply_append, read_congr fun b hb => apply_of_notMem fun hm => ?_, hd, read_apply_writes hn hl]
      have hb := (h.laid.fresh t b hb).1
      have hm := mem_store hs hm
      have hk := bank_le next
      omega
    have hg : (giveBack { t.changed with generation := next } t.old).directory.get path =
        some (newEntry s.vol .file 0o644 data.1.length t.fresh (some (sha data.1))) := by
      change t.entries[normalize path]? = _
      rw [ht.2, getElem?_insert', if_pos rfl]
    refine (readFile_entry hg rfl h.laid.size).trans (congrArg Except.ok (Eq.trans ?_ hr))
    exact congrArg (read s.vol.blockSize _ t.fresh) (UInt64.toNat_ofNat_of_lt' (lt_trans data.2 (by decide)))
  | created hn | restored hn | deleted hn => cases hn
  | refused | unwritten | uncommitted => cases hok

lemma Effect.failed (h : Effect G crc sha v op out) (hf : out.result ≠ .ok ()) : out.volume.directory = v.directory ∧
    out.volume.allocator = v.allocator ∧ out.volume.snapshots = v.snapshots := by
  cases h with
  | refused | unwritten | uncommitted => exact ⟨rfl, rfl, rfl⟩
  | committed | created | restored => exact absurd rfl hf
  | deleted _ hs =>
    unfold deleteSnapshot at hf
    rw [hs] at hf
    exact absurd rfl hf

/-! ## Positional reads -/

/-- `read_file_at`: the bytes it writes to the buffer. The error `none` is `InvalidSuperblock`. -/
def Volume.readFileAt (v : Volume) (G : Geometry) (d : Nat → Bytes) (path : Path) (offset len : Nat) :
    Except (Option ZfsError) Bytes :=
  match v.directory.get path with
  | none => .error (some .notFound)
  | some entry =>
    if entry.kind ≠ .file then .error (some .unsupported)
    else if entry.size ≤ offset ∨ len = 0 then .ok []
    else
      let fileEnd := offset + min len (entry.size - offset)
      let first := offset / v.blockSize
      (range' first ((fileEnd - 1) / v.blockSize + 1 - first)).foldlM (fun out i =>
        match entry.blocks[i]? with
        | none => .error none
        | some block =>
          if v.blockSize ≠ G.blockSize then .error (some .device)
          else
            let start := i * v.blockSize
            .ok (out ++ ((d block).take (min v.blockSize (fileEnd - start))).drop (offset - start))) []

/-- The loop has got to the end of a block. -/
lemma readFileAt_loop {blocks : List Nat} {d : Nat → Bytes} (hb : 0 < b) (h : (read b d blocks size).length = size)
    (hs : stop ≤ size) (ho : offset < stop) (k : Nat) (hk : k ≤ (stop - 1) / b + 1 - offset / b) :
    (range' (offset / b) k).foldlM (fun out i =>
        match blocks[i]? with
        | none => Except.error (none : Option ZfsError)
        | some block => .ok (out ++ ((d block).take (min b (stop - i * b))).drop (offset - i * b))) [] =
      .ok (((read b d blocks size).take (min ((offset / b + k) * b) stop)).drop offset) := by
  induction k with
  | zero =>
    have := Nat.div_mul_le_self offset b
    rw [range'_zero, foldlM_nil, drop_eq_nil_of_le]
    · rfl
    · rw [length_take, Nat.add_zero]
      omega
  | succ k ih =>
    have hi : (offset / b + k) * b ≤ stop - 1 := (Nat.le_div_iff_mul_le hb).mp (by omega)
    obtain ⟨block, hbl, ht⟩ := read_piece (n := min b (stop - (offset / b + k) * b)) (i := offset / b + k) h
      (min_le_left ..) (by omega) (by omega)
    have hm : min ((offset / b + (k + 1)) * b) stop - (offset / b + k) * b = min b (stop - (offset / b + k) * b) := by
      rw [← Nat.add_assoc, Nat.succ_mul]
      omega
    rw [range'_concat, foldlM_append, ih (by omega), one_mul, min_eq_left (by omega)]
    refine Eq.trans (b := Except.ok _) ?_ (congrArg Except.ok (drop_take_append (p := (offset / b + k) * b) ?_ ?_))
    · simp only [bind, Except.bind, foldlM_cons, foldlM_nil, hbl, ht, hm]
      rfl
    · rw [← Nat.add_assoc, Nat.succ_mul]
      omega
    · omega

lemma readFileAt_eq (hs : v.blockSize = G.blockSize) (hw : ∀ e, v.directory.get path = some e →
      (read v.blockSize d e.blocks e.size).length = e.size) (offset len : Nat) :
    v.readFileAt G d path offset len = match v.readFile G d path with
      | .ok data => .ok ((data.drop offset).take len)
      | .error e => .error (some e) := by
  unfold readFileAt readFile
  cases hg : v.directory.get path with
  | none => rfl
  | some e =>
    have hl := hw e hg
    have hb : 0 < v.blockSize := hs ▸ G.pos
    dsimp only
    split
    · rfl
    have hd : ¬(v.blockSize ≠ G.blockSize ∧ e.blocks ≠ []) := fun hn => hn.1 hs
    rw [if_neg hd]
    dsimp only
    split
    next h0 =>
      obtain h0 | rfl := h0
      · rw [drop_eq_nil_of_le (by omega), take_nil]
      · rw [take_zero]
    next h0 =>
      simp only [if_neg (not_not.mpr hs)]
      rw [not_or] at h0
      have hstop : offset < offset + min len (e.size - offset) := by omega
      rw [readFileAt_loop hb hl (by omega) hstop _ (le_refl _)]
      have hr := Nat.lt_mul_div_succ (offset + min len (e.size - offset) - 1) hb
      have hf : offset / v.blockSize ≤ (offset + min len (e.size - offset) - 1) / v.blockSize :=
        Nat.div_le_div_right (by omega)
      rw [Nat.add_sub_cancel' (by omega), Nat.mul_comm, min_eq_right (by omega), drop_take, Nat.add_sub_cancel_left]
      refine congrArg Except.ok (take_eq_take_iff.mpr ?_)
      rw [length_drop, hl]
      omega

/-! ## Whole files -/

/-- No entry lacks bytes on the disk. -/
def Whole (s : System) : Prop := ∀ (k : Path) (e : DirectoryEntry), s.vol.directory.entries[k]? = some e →
  (read s.vol.blockSize s.disk e.blocks e.size).length = e.size

/-- Where the entry at a key comes from: it was there before, has no data, or is the one of the file that is written. -/
def Stems (v : Volume) (op : Op) (k : Path) (e : DirectoryEntry) : Prop :=
  (∃ k' : Path, v.directory.entries[k']? = some e) ∨ e.size = 0 ∨
    ∃ path data expected, op = .writeFile path data expected ∧ k = normalize path ∧ e.kind = .file ∧ e.size = data.1.length

lemma Change.stems (h : Change sha v op fresh entries old inode) (he : entries[k]? = some e) : Stems v op k e := by
  cases h with
  | @write path data expected _ hl =>
    rw [getElem?_insert'] at he
    split at he
    next hk =>
      cases he
      exact .inr (.inr ⟨path, data, expected, rfl, hk.symm, rfl, UInt64.toNat_ofNat_of_lt' (lt_trans data.2 (by decide))⟩)
    · exact .inl ⟨k, he⟩
  | mkdir =>
    rw [getElem?_insert'] at he
    split at he
    · cases he
      exact .inr (.inl rfl)
    · exact .inl ⟨k, he⟩
  | remove | rmdir =>
    rw [getElem?_erase'] at he
    split at he
    · cases he
    · exact .inl ⟨k, he⟩
  | rename _ _ _ _ hm =>
    obtain ⟨k₀, hk, -⟩ := (hm.rekeys.get k e).mp he
    exact .inl ⟨k₀, hk⟩

lemma Effect.stems (h : Effect G crc sha v op out) (hrs : op.isRestore = false)
    (he : out.volume.directory.entries[k]? = some e) : Stems v op k e := by
  cases h with
  | refused | unwritten | uncommitted | created => exact .inl ⟨k, he⟩
  | committed t => exact t.change.stems he
  | restored hn =>
    subst hn
    cases hrs
  | deleted _ hs =>
    unfold deleteSnapshot at he
    rw [hs] at he
    exact .inl ⟨k, he⟩

lemma Whole.after (hw : Whole s) (h : Synced G crc sb s) (hrs : op.isRestore = false) : Whole (s.after G crc sha op fault) := by
  have heff : Effect G crc sha s.vol op (s.vol.exec G crc sha op fault) := effect h.laid.live.normal op
  have hl : Laid G sb (s.after G crc sha op fault).vol := h.laid.effect heff
  have old {k : Path} {e : DirectoryEntry} (hk : s.vol.directory.entries[k]? = some e) :
      (read (s.after G crc sha op fault).vol.blockSize (s.after G crc sha op fault).disk e.blocks e.size).length = e.size := by
    rw [read_congr fun b hb => h.keeps ⟨k, e, hk, hb⟩, hl.size, ← h.laid.size]
    exact hw k e hk
  intro k e he
  by_cases hok : (s.vol.exec G crc sha op fault).result = .ok ()
  · obtain ⟨k', hk⟩ | hz | ⟨path, data, expected, rfl, rfl, hk, hd⟩ := heff.stems hrs he
    · exact old hk
    · rw [hz, read_zero, length_nil]
    · have hr := h.reads_written hok
      unfold System.readFile at hr
      rw [readFile_entry he hk hl.size] at hr
      rw [Except.ok.inj hr, hd]
  · exact old ((congrArg (·.entries[k]?) (heff.failed hok).1).symm.trans he)

lemma Whole.init {options : MountOptions} (h : Formatted G crc options s) : Whole s := by
  obtain ⟨d, hb, ht⟩ := h
  obtain ⟨v, ws, hm, rfl⟩ := System.boot_eq_some ht
  obtain ⟨sb, -, hr, -⟩ := hb.mount hm
  intro k e he
  change v.directory.entries[k]? = some e at he
  rw [hr.directory] at he
  simp at he

lemma Whole.run (hw : Whole s₀) (h : Synced G crc sb s₀)
    (hrun : Run (Transition.Guarded (Plain G crc sha) (System.Step G crc sha)) s₀ es s) : Whole s := by
  induction hrun with
  | nil => exact hw
  | @snoc _ s t e hr hs ih =>
    have h := h.run hr
    cases e with
    | op op fault =>
      cases hs.2
      exact ih.after h hs.1.1
    | remount options =>
      obtain ⟨v, -, hm, -, hd, -, hl⟩ := h.mount options
      have hs := hs.2
      simp only [System.Step, System.next, System.boot, hm] at hs
      cases hs
      intro k e he
      change v.directory.entries[k]? = some e at he
      rw [hd] at he
      change (read v.blockSize s.disk e.blocks e.size).length = e.size
      rw [hl.size, ← h.laid.size]
      exact ih k e he

section

variable {options : MountOptions} (hstart : Formatted G crc options s₀)
  (hrun : Run (Transition.Guarded (Plain G crc sha) (System.Step G crc sha)) s₀ es s)
include hstart hrun

/-- What is written is read. A file that was written has its data, and wherever an operation leaves the entry of a
file, under its name or another one, the file has the contents it had. -/
theorem contents_stay (op : Op) (fault : Option Nat) :
    let t := s.after G crc sha op fault
    (∀ path data expected, op = .writeFile path data expected → (s.vol.exec G crc sha op fault).result = .ok () →
      t.readFile G path = .ok data.1) ∧
    ∀ q q' e, s.vol.directory.get q = some e → t.vol.directory.get q' = some e → t.readFile G q' = s.readFile G q := by
  obtain ⟨sb, h⟩ := Synced.init hstart
  have h := h.run hrun
  refine ⟨?_, fun q q' e hq hq' => h.reads_entry hq hq'⟩
  rintro path data expected rfl hok
  exact h.reads_written hok

/-- An operation that fails leaves the directory, the blocks in use, the snapshots and the contents of all files. -/
theorem failure_changes_nothing (op : Op) (fault : Option Nat) (hf : (s.vol.exec G crc sha op fault).result ≠ .ok ()) :
    let t := s.after G crc sha op fault
    t.vol.directory = s.vol.directory ∧ t.vol.allocator = s.vol.allocator ∧ t.vol.snapshots = s.vol.snapshots ∧
      ∀ path, t.readFile G path = s.readFile G path := by
  obtain ⟨sb, h⟩ := Synced.init hstart
  have h := h.run hrun
  have he : Effect G crc sha s.vol op (s.vol.exec G crc sha op fault) := effect h.laid.live.normal op
  obtain ⟨hd, ha, hs⟩ := he.failed hf
  exact ⟨hd, ha, hs, readFile_congr hd ((h.laid.effect he).size.trans h.laid.size.symm) fun b hb => h.keeps hb⟩

/-- Positional reads agree with whole reads: `read_file_at` gives a part of what `read_file` gives, or the same error. -/
theorem positional_read (path : Path) (offset len : Nat) :
    s.vol.readFileAt G s.disk path offset len = match s.readFile G path with
      | .ok data => .ok ((data.drop offset).take len)
      | .error e => .error (some e) := by
  obtain ⟨sb, h⟩ := Synced.init hstart
  exact readFileAt_eq (h.run hrun).laid.size (fun e he => (Whole.init hstart).run h hrun _ e he) offset len

end

/-- A file is written over and then renamed. -/
theorem contents_stay_rename : ∃ s₀ s, Formatted smallDevice crc32 defaultOptions s₀ ∧
    Run (Transition.Guarded (Plain smallDevice crc32 zeroDigest) (System.Step smallDevice crc32 zeroDigest)) s₀
      (events [byteWrite "/a" 1, byteWrite "/a" 2]) s ∧
    (s.after smallDevice crc32 zeroDigest (byteWrite "/b" 3) none).readFile smallDevice (pathOf "/b") = .ok [3] ∧
    let t := s.after smallDevice crc32 zeroDigest (.renamePath (pathOf "/a") (pathOf "/c")) none
    t.readFile smallDevice (pathOf "/c") = s.readFile smallDevice (pathOf "/a") := by
  refine exists_run_of_boot (guarded_of_guardedNext Plain.of_plain id) (fun s =>
    decide ((s.vol.exec smallDevice crc32 zeroDigest (byteWrite "/b" 3) none).result = .ok ()) &&
    ((s.vol.directory.get (pathOf "/a")).any fun e => (s.after smallDevice crc32 zeroDigest
      (.renamePath (pathOf "/a") (pathOf "/c")) none).vol.directory.get (pathOf "/c") == some e)) (by decide +kernel)
    fun hb hrun hp => ?_
  obtain ⟨hw, hr⟩ := Bool.and_eq_true_iff.mp hp
  obtain ⟨e, he, hc⟩ := (Option.any_eq_true ..).mp hr
  exact ⟨(contents_stay hb hrun _ none).1 _ _ _ rfl (of_decide_eq_true hw),
    (contents_stay hb hrun _ none).2 _ _ e he (beq_iff_eq.mp hc)⟩

/-- The device refuses the second write of an operation. -/
theorem failure_changes_nothing_fault : ∃ s₀ s, Formatted smallDevice crc32 defaultOptions s₀ ∧
    Run (Transition.Guarded (Plain smallDevice crc32 zeroDigest) (System.Step smallDevice crc32 zeroDigest)) s₀
      (events [byteWrite "/a" 1]) s ∧
    (s.after smallDevice crc32 zeroDigest (byteWrite "/a" 2) (some 1)).readFile smallDevice (pathOf "/a") =
      s.readFile smallDevice (pathOf "/a") := by
  refine exists_run_of_boot (guarded_of_guardedNext Plain.of_plain id) (fun s =>
    decide ((s.vol.exec smallDevice crc32 zeroDigest (byteWrite "/a" 2) (some 1)).result ≠ .ok ())) (by decide +kernel)
    fun hb hrun hp => (failure_changes_nothing hb hrun _ _ (of_decide_eq_true hp)).2.2.2 _

theorem positional_read_byte : ∃ s₀ s, Formatted smallDevice crc32 defaultOptions s₀ ∧
    Run (Transition.Guarded (Plain smallDevice crc32 zeroDigest) (System.Step smallDevice crc32 zeroDigest)) s₀
      (events [byteWrite "/a" 1]) s ∧ s.vol.readFileAt smallDevice s.disk (pathOf "/a") 0 9 = .ok [1] :=
  exists_run_of_boot (guarded_of_guardedNext Plain.of_plain id) (fun s =>
    decide (s.readFile smallDevice (pathOf "/a") = .ok [1])) (by decide +kernel)
    fun hb hrun hp => by rw [positional_read hb hrun, of_decide_eq_true hp]; rfl

end ZeroOS.Fs
