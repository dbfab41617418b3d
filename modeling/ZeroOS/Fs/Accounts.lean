import ZeroOS.Fs.Snapshots

/-!
# Accounts

The blocks in use are the reserved ones, those of the directory, and those of the snapshots; no two
entries share a block, and no two have the number of an inode in common. Every operation keeps this,
also one that fails half way: it gives back what it took, and nothing else. A restore does not keep it,
and is left out.

Inode numbers count up and are not used again, until the counter is at its end: there it stays.
-/

namespace ZeroOS.Fs

open Wire Disk Volume Transition List

variable {G : Geometry} {crc : Bytes → UInt32} {sha : Bytes → Digest} {sb : SuperBlock}
  {options : MountOptions}

def Volume.Holds (v : Volume) (b : Nat) : Prop := HasBlock v.directory.entries b ∨ ∃ x ∈ v.snapshots, HasBlock x.directory b

structure Booked (options : MountOptions) (v : Volume) : Prop where
  used : ∀ b, v.allocator.isAllocated b = true ↔ (b ∈ reservedBlocks options ∧ v.allocator.inRange b = true) ∨ v.Holds b
  apart : ∀ (k k' : Path) (e e' : DirectoryEntry) (b : Nat), v.directory.entries[k]? = some e →
    v.directory.entries[k']? = some e' → b ∈ e.blocks → b ∈ e'.blocks → k = k'
  unreserved : ∀ b, v.Holds b → b ∉ reservedBlocks options
  bare : ∀ (k : Path) (e : DirectoryEntry), v.directory.entries[k]? = some e → e.kind = .directory → e.blocks = []

namespace Booked

variable {v : Volume} {op : Op} {out : Outcome}

section

variable (h : Booked options v)
include h

lemma owned : Owned v := ⟨fun b hb => (h.used b).mpr (.inr (.inl hb)), h.apart⟩

lemma fresh (t : Transaction G sha v op) {b : Nat} (hb : b ∈ t.fresh) :
    ¬v.Holds b ∧ b ∉ reservedBlocks options := by
  obtain ⟨hr, hf⟩ := t.fresh_spec.2.2.1 b hb
  have hn : ¬((b ∈ reservedBlocks options ∧ v.allocator.inRange b = true) ∨ v.Holds b) := by
    rw [← h.used b, hf]
    simp
  exact ⟨fun hh => hn (.inr hh), fun hs => hn (.inl ⟨hs, hr⟩)⟩

lemma hasBlock_iff (t : Transaction G sha v op) (b : Nat) :
    HasBlock t.entries b ↔ b ∈ t.fresh ∨ HasBlock v.directory.entries b ∧ b ∉ t.old := by
  constructor
  · rintro ⟨k, e, hk, hb⟩
    have ho := h.owned.old_free t ⟨k, e, hk, hb⟩
    rcases t.change.entry hk with ⟨k₀, hk₀⟩ | hl
    · exact .inr ⟨⟨k₀, e, hk₀, hb⟩, ho⟩
    · exact .inl (hl ▸ hb)
  · obtain ⟨k', e', -, hl, -, -, he, ho, -⟩ | ⟨k', e', hk', ho, hf, he, -⟩ |
      ⟨moves, hm, he, hf, ho, -⟩ := t.change.cases
    · rintro (hb | ⟨⟨k, e, hk, hb⟩, hp⟩)
      · refine ⟨k', e', ?_, hl ▸ hb⟩
        rw [he, getElem?_insert', if_pos rfl]
      · refine ⟨k, e, ?_, hb⟩
        rw [he, getElem?_insert', if_neg ?_]
        · exact hk
        · rintro rfl
          rw [ho, blocksAt, hk] at hp
          exact hp hb
    · rw [hf]
      rintro (hb | ⟨⟨k, e, hk, hb⟩, hp⟩)
      · cases hb
      · refine ⟨k, e, ?_, hb⟩
        rw [he, getElem?_erase', if_neg ?_]
        · exact hk
        · rintro rfl
          rw [hk] at hk'
          obtain rfl := Option.some.inj hk'
          rcases ho with heq | ⟨hn, -⟩
          · exact hp (heq ▸ hb)
          · rw [h.bare k' e hk hn] at hb
            cases hb
    · rw [hf]
      rintro (hb | ⟨⟨k, e, hk, hb⟩, -⟩)
      · cases hb
      · refine ⟨destination moves k, e, ?_, hb⟩
        rw [he]
        exact (hm.rekeys.get _ e).mpr ⟨k, hk, rfl⟩

lemma bare_transaction (t : Transaction G sha v op) (k : Path) (e : DirectoryEntry) (hk : t.entries[k]? = some e)
    (hn : e.kind = .directory) : e.blocks = [] := by
  obtain ⟨k', e', -, hb, -, hd, he, -⟩ | ⟨k', e', -, -, -, he, -⟩ |
    ⟨moves, hm, he, -⟩ := t.change.cases
  · rw [he, getElem?_insert'] at hk
    split at hk
    · cases hk
      rw [hb, (hd hn).2]
    · exact h.bare k e hk hn
  · rw [he, getElem?_erase'] at hk
    split at hk
    · cases hk
    · exact h.bare k e hk hn
  · rw [he] at hk
    obtain ⟨k₀, hk₀, -⟩ := (hm.rekeys.get k e).mp hk
    exact h.bare k₀ e hk₀ hn

end

lemma references_eq (v : Volume) (b : Nat) :
    v.references b = false ↔ ¬∃ x ∈ v.snapshots, HasBlock x.directory b := by
  rw [← references_iff, Bool.not_eq_true]

lemma committed (h : Booked options v) (t : Transaction G sha v op) (next : UInt64) :
    Booked options ({ t.changed with generation := next }.giveBack t.old) := by
  obtain ⟨-, hsm, -, hu⟩ := t.fresh_spec
  obtain ⟨hsm', hf⟩ := BlockAllocator.freeAll_spec t.taken
    (t.old.filter fun block => !({ t.changed with generation := next } : Volume).references block)
  have hh : ∀ b, ({ t.changed with generation := next }.giveBack t.old : Volume).Holds b ↔
      b ∈ t.fresh ∨ (HasBlock v.directory.entries b ∧ b ∉ t.old) ∨ ∃ x ∈ v.snapshots, HasBlock x.directory b := by
    intro b
    rw [← or_assoc]
    exact or_congr (h.hasBlock_iff t b) Iff.rfl
  have hp : ∀ b, (!({ t.changed with generation := next } : Volume).references b) = true ↔
      ¬∃ x ∈ v.snapshots, HasBlock x.directory b := by
    intro b
    rw [Bool.not_eq_true']
    exact references_eq { t.changed with generation := next } b
  have ho : ∀ b, b ∈ t.old → v.Holds b := fun b hb => .inl (t.change.old_mem hb)
  refine ⟨fun b => ?_, h.owned.apart_transaction t, fun b hb => ?_, h.bare_transaction t⟩
  · have hrn : ({ t.changed with generation := next }.giveBack t.old : Volume).allocator.inRange b =
        v.allocator.inRange b := (hsm.trans hsm').inRange
    rw [hh, hrn]
    change (t.taken.freeAll _).isAllocated b = true ↔ _
    rw [hf, hu, h.used, mem_filter, hp]
    constructor
    · rintro ⟨hk, hb | hrs | hl | hs⟩
      · exact .inr (.inl hb)
      · exact .inl hrs
      · by_cases hn : b ∈ t.old
        · by_cases hs : ∃ x ∈ v.snapshots, HasBlock x.directory b
          · exact .inr (.inr (.inr hs))
          · exact absurd ⟨hn, hs⟩ hk
        · exact .inr (.inr (.inl ⟨hl, hn⟩))
      · exact .inr (.inr (.inr hs))
    · rintro (⟨hrs, hr⟩ | hb | ⟨hl, hn⟩ | hs)
      · exact ⟨fun hn => h.unreserved b (ho b hn.1) hrs, .inr (.inl ⟨hrs, hr⟩)⟩
      · exact ⟨fun hn => (h.fresh t hb).1 (ho b hn.1), .inl hb⟩
      · exact ⟨fun hm => hn hm.1, .inr (.inr (.inl hl))⟩
      · exact ⟨fun hm => hm.2 hs, .inr (.inr (.inr hs))⟩
  · rcases (hh b).mp hb with hb | ⟨hl, -⟩ | hs
    · exact (h.fresh t hb).2
    · exact h.unreserved b (.inl hl)
    · exact h.unreserved b (.inr hs)

lemma deleted (h : Booked options v) {id : UInt64} {s : Snapshot}
    (hs : v.snapshots.find? (fun s => s.id == id) = some s) : Booked options (v.deleteSnapshot id).volume := by
  have hm := mem_of_find?_eq_some hs
  obtain ⟨x, l₁, l₂, hbf, hx, hp, he⟩ := exists_of_eraseP hm (find?_some hs)
  -- the snapshot that is found is the one that is erased
  obtain rfl : x = s := by
    have hn : l₁.find? (fun s => s.id == id) = none := find?_eq_none.mpr hbf
    simp only [hp, find?_append, hn, Option.none_or, find?_cons, hx] at hs
    exact Option.some.inj hs
  unfold deleteSnapshot
  rw [hs]
  dsimp only
  rw [he]
  have hd : ∀ b, v.Holds b ↔ HasBlock x.directory b ∨
      (HasBlock v.directory.entries b ∨ ∃ y ∈ l₁ ++ l₂, HasBlock y.directory b) := by
    intro b
    unfold Volume.Holds
    rw [hp]
    simp only [mem_append, mem_cons]
    constructor
    · rintro (hb | ⟨y, hy | rfl | hy, hb⟩)
      · exact .inr (.inl hb)
      · exact .inr (.inr ⟨y, .inl hy, hb⟩)
      · exact .inl hb
      · exact .inr (.inr ⟨y, .inr hy, hb⟩)
    · rintro (hb | hb | ⟨y, hy | hy, hb⟩)
      · exact .inr ⟨x, .inr (.inl rfl), hb⟩
      · exact .inl hb
      · exact .inr ⟨y, .inl hy, hb⟩
      · exact .inr ⟨y, .inr (.inr hy), hb⟩
  have hl : ∀ b, b ∉ allBlocks v.directory.entries ++ (l₁ ++ l₂).flatMap (fun s => allBlocks s.directory) ↔
      ¬(HasBlock v.directory.entries b ∨ ∃ y ∈ l₁ ++ l₂, HasBlock y.directory b) := by
    intro b
    simp only [mem_append, mem_flatMap, mem_allBlocks]
  refine ⟨fun b => ?_, h.apart, fun b hb => h.unreserved b ((hd b).mpr (.inr hb)), h.bare⟩
  obtain ⟨hsm, hf⟩ := BlockAllocator.freeAll_spec v.allocator ((allBlocks x.directory).filter fun block =>
    decide (block ∉ allBlocks v.directory.entries ++ (l₁ ++ l₂).flatMap fun s => allBlocks s.directory))
  change _ ↔ (_ ∧ BlockAllocator.inRange _ b = true) ∨ (HasBlock v.directory.entries b ∨ ∃ y ∈ l₁ ++ l₂, HasBlock y.directory b)
  rw [hf, hsm.inRange, h.used, hd, mem_filter, decide_eq_true_eq, hl, mem_allBlocks]
  constructor
  · rintro ⟨hk, hr | hg | hh⟩
    · exact .inl hr
    · exact .inr (not_not.mp fun ht => hk ⟨hg, ht⟩)
    · exact .inr hh
  · rintro (hr | hh)
    · exact ⟨fun hg => h.unreserved b ((hd b).mpr (.inl hg.1)) hr.1, .inl hr⟩
    · exact ⟨fun hg => hg.2 hh, .inr (.inr hh)⟩

lemma effect (h : Booked options v) (hop : op.isRestore = false) (he : Effect G crc sha v op out) :
    Booked options out.volume := by
  cases he with
  | refused e => exact h
  | unwritten t n => exact h
  | uncommitted t e ws inode _ _ => exact ⟨h.used, h.apart, h.unreserved, h.bare⟩
  | committed t next ws _ => exact h.committed t next
  | created _ =>
    have hh : ∀ b, v.createSnapshot.2.Holds b ↔ v.Holds b := by
      intro b
      constructor
      · rintro (hb | ⟨x, hx, hb⟩)
        · exact .inl hb
        · rcases mem_append.mp hx with hx | hx
          · exact .inr ⟨x, hx, hb⟩
          · obtain rfl := mem_singleton.mp hx
            exact .inl hb
      · rintro (hb | ⟨x, hx, hb⟩)
        · exact .inl hb
        · exact .inr ⟨x, mem_append_left _ hx, hb⟩
    refine ⟨fun b => ?_, h.apart, fun b hb => h.unreserved b ((hh b).mp hb), h.bare⟩
    rw [hh]
    exact h.used b
  | restored heq _ =>
    subst heq
    cases hop
  | deleted _ hs => exact h.deleted hs

lemma of_recovered (h : Recovered G sb options st v) (hn : ∀ b, HasBlock st.entries b → v.allocator.inRange b = true)
    (ha : ∀ (k k' : Path) (e e' : DirectoryEntry) (b : Nat), st.entries[k]? = some e →
      st.entries[k']? = some e' → b ∈ e.blocks → b ∈ e'.blocks → k = k')
    (hs : ∀ b, HasBlock st.entries b → b ∉ reservedBlocks options)
    (hbr : ∀ (k : Path) (e : DirectoryEntry), st.entries[k]? = some e → e.kind = .directory →
      e.blocks = []) : Booked options v := by
  have hh : ∀ b, v.Holds b ↔ HasBlock st.entries b := by
    intro b
    rw [Volume.Holds, h.snapshots, h.directory]
    simp
  refine ⟨fun b => ?_, by rw [h.directory]; exact ha, fun b hb => hs b ((hh b).mp hb),
    by rw [h.directory]; exact hbr⟩
  rw [h.used, hh]
  constructor
  · rintro ⟨hr, hb | hb⟩
    · exact .inl ⟨hb, hr⟩
    · exact .inr hb
  · rintro (⟨hb, hr⟩ | hb)
    · exact ⟨hr, .inl hb⟩
    · exact ⟨hn b hb, .inr hb⟩

end Booked

/-! ## The numbers of the inodes -/

structure Numbered (m : Entries) (next : UInt64) : Prop where
  below : ∀ (k : Path) (e : DirectoryEntry), m[k]? = some e → e.inode.id < next
  apart : ∀ (k k' : Path) (e e' : DirectoryEntry), m[k]? = some e → m[k']? = some e' → e.inode.id = e'.inode.id → k = k'

namespace Numbered

variable {m : Entries} {next : UInt64}

lemma empty (next : UInt64) : Numbered ∅ next := ⟨fun k e hk => by simp at hk, fun k k' e e' hk => by simp at hk⟩

lemma lt_satSucc (hr : Room next) : next < satSucc next := by
  rw [UInt64.lt_iff_toNat_lt, toNat_satSucc hr]
  omega

lemma insert (h : Numbered m next) (hr : Room next) (k : Path)
    (he : e.inode.id = next) : Numbered (m.insert k e) (satSucc next) where
  below k' e' hk' := by
    rw [getElem?_insert'] at hk'
    split at hk'
    · cases hk'
      rw [he]
      exact lt_satSucc hr
    · exact UInt64.lt_trans (h.below k' e' hk') (lt_satSucc hr)
  apart k₁ k₂ e₁ e₂ hk₁ hk₂ hid := by
    rw [getElem?_insert'] at hk₁ hk₂
    split at hk₁ <;> split at hk₂
    next heq₁ heq₂ => exact heq₁.symm.trans heq₂
    · cases hk₁
      exact absurd (hid.symm.trans he) (UInt64.ne_of_lt (h.below k₂ e₂ hk₂))
    · cases hk₂
      exact absurd (hid.trans he) (UInt64.ne_of_lt (h.below k₁ e₁ hk₁))
    · exact h.apart k₁ k₂ e₁ e₂ hk₁ hk₂ hid

lemma erase (h : Numbered m next) (k : Path) : Numbered (m.erase k) next where
  below k' e' hk' := by
    rw [getElem?_erase'] at hk'
    split at hk'
    · cases hk'
    · exact h.below k' e' hk'
  apart k₁ k₂ e₁ e₂ hk₁ hk₂ hid := by
    rw [getElem?_erase'] at hk₁ hk₂
    split at hk₁
    · cases hk₁
    split at hk₂
    · cases hk₂
    exact h.apart k₁ k₂ e₁ e₂ hk₁ hk₂ hid

lemma rekey {m' : Entries} {f : Path → Path} (h : Numbered m next) (hg : ∀ k e, m'[k]? = some e ↔
    ∃ k₀, m[k₀]? = some e ∧ f k₀ = k) : Numbered m' next where
  below k e hk := by
    obtain ⟨k₀, hk₀, -⟩ := (hg k e).mp hk
    exact h.below k₀ e hk₀
  apart k₁ k₂ e₁ e₂ hk₁ hk₂ hid := by
    obtain ⟨k, hk, rfl⟩ := (hg k₁ e₁).mp hk₁
    obtain ⟨k', hk', rfl⟩ := (hg k₂ e₂).mp hk₂
    rw [h.apart k k' e₁ e₂ hk hk' hid]

lemma change (h : Numbered v.directory.entries v.nextInode) (hr : Room v.nextInode)
    (hc : Change sha v op fresh entries old inode) : Numbered entries inode := by
  cases hc with
  | write _ => exact h.insert hr _ rfl
  | remove _ _ => exact h.erase _
  | mkdir _ _ _ _ => exact h.insert hr _ rfl
  | rmdir _ _ _ => exact h.erase _
  | rename _ _ _ _ hm => exact h.rekey hm.rekeys.get

end Numbered

lemma backInode_satSucc (hn : 2 ≤ n) (hr : Room n) : backInode (satSucc n) = n := by
  have ht := toNat_satSucc hr
  have hsub : satSucc n - 1 = n := by
    apply UInt64.toNat_inj.mp
    rw [UInt64.toNat_sub_of_le]
    · rw [ht]
      rfl
    · rw [UInt64.le_iff_toNat_le, ht]
      change 1 ≤ _
      omega
  unfold backInode
  rw [if_neg (by omega), hsub]
  exact max_of_le hn

/-! ## Runs -/

/-- What is assumed of the events of a run: no restore, counters that can still grow, and the same reserved
blocks whenever the device is mounted. -/
def Ample (options : MountOptions) (s : System) : Event → Prop
  | .op op _ => op.isRestore = false ∧ Room s.vol.generation ∧ Room s.vol.nextInode
  | .remount options' => options' = options

/-- A system whose books are in order, in memory and on the device. -/
structure Accounted (G : Geometry) (crc : Bytes → UInt32) (sb : SuperBlock) (options : MountOptions) (s : System) : Prop where
  laid : Laid G sb s.vol
  booked : Booked options s.vol
  numbered : Numbered s.vol.directory.entries s.vol.nextInode
  anchored : ∃ inode time, Anchored G crc sb s.disk ⟨s.vol.generation, s.vol.directory.entries, inode, time⟩ ∧
    Numbered s.vol.directory.entries inode

namespace Accounted

variable {s t : System}

lemma init (h : Formatted G crc options s) : ∃ sb, Accounted G crc sb options s := by
  obtain ⟨d, hn, ht⟩ := h
  obtain ⟨v, ws, hm, rfl⟩ := System.boot_eq_some ht
  obtain ⟨sb, hl, hr, ha, -⟩ := hn.mount hm
  have hbl : ∀ b, ¬HasBlock ∅ b := by
    rintro b ⟨k, e, hk, -⟩
    simp at hk
  refine ⟨sb, hl, ?_, ?_, ⟨2, 1, ?_⟩⟩
  · exact .of_recovered hr (fun b hb => absurd hb (hbl b)) (by simp) (fun b hb => absurd hb (hbl b))
      (by simp)
  · change Numbered v.directory.entries v.nextInode
    rw [hr.directory]
    exact .empty _
  · change Anchored G crc sb _ ⟨v.generation, v.directory.entries, 2, 1⟩ ∧ Numbered v.directory.entries 2
    rw [hr.generation, hr.directory]
    exact ⟨ha, .empty 2⟩

lemma step (h : Accounted G crc sb options s) {e : Event} (hp : Ample options s e)
    (hst : s.Step G crc sha e t) : Accounted G crc sb options t := by
  obtain ⟨inode, time, ha, hn⟩ := h.anchored
  cases e with
  | op op fault =>
    obtain rfl := Option.some.inj hst
    obtain ⟨hrs, hrm, hin⟩ := hp
    have he := @effect G crc sha s.vol fault h.laid.live.normal op
    have hl := h.laid.effect he
    have hb := h.booked.effect hrs he
    unfold System.after
    generalize s.vol.exec G crc sha op fault = out at *
    cases he with
    | refused e => exact h
    | unwritten t n => exact ⟨hl, hb, h.numbered, ⟨inode, time, ha.progress h.laid rfl hrm (.data n), hn⟩⟩
    | uncommitted t e ws inode' ht hd =>
      have hsm : inode' = s.vol.nextInode := by
        rcases hd with rfl | rfl
        · rfl
        · exact backInode_satSucc h.laid.inode hin
      subst hsm
      exact ⟨hl, hb, h.numbered, ⟨inode, time, ha.progress h.laid rfl hrm (.torn ht), hn⟩⟩
    | committed t next ws ho =>
      have hw := h.numbered.change hin t.change
      exact ⟨hl, hb, hw, ⟨_, _, ha.complete h.laid rfl ho, hw⟩⟩
    | created _ => exact ⟨hl, hb, h.numbered, ⟨inode, time, ha, hn⟩⟩
    | restored heq _ =>
      subst heq
      cases hrs
    | deleted _ hs =>
      unfold deleteSnapshot at hl hb ⊢
      rw [hs] at hl hb ⊢
      exact ⟨hl, hb, h.numbered, ⟨inode, time, ha, hn⟩⟩
  | remount options' =>
    obtain rfl : options' = options := hp
    obtain ⟨v, ws, hm, rfl⟩ := System.boot_eq_some hst
    have hrd : Readable G crc s.disk := Anchored.readable_of_mount (congrArg Prod.fst hm)
    obtain ⟨v', hm', hr⟩ := ha.mount_eq hrd options' none
    rw [hm'] at hm
    obtain ⟨hv, rfl⟩ := Prod.mk.inj hm
    obtain rfl := Except.ok.inj hv
    have hl := hr.laid ha.normal ha.block ha.size ha.inode ha.time
    refine ⟨hl, ?_, ?_, ⟨inode, time, ?_⟩⟩
    · refine .of_recovered hr (fun b hh => ?_) h.booked.apart
        (fun b hh => h.booked.unreserved b (.inl hh)) h.booked.bare
      have hbn := h.laid.live.block b hh
      have hed : reservedEnd = 65 := rfl
      exact hl.live.inRange_iff.mpr ⟨by omega, hbn.2⟩
    · change Numbered v'.directory.entries v'.nextInode
      rw [hr.directory, hr.nextInode]
      exact hn
    · change Anchored G crc sb s.disk ⟨v'.generation, v'.directory.entries, inode, time⟩ ∧ Numbered v'.directory.entries inode
      rw [hr.directory, hr.generation]
      exact ⟨ha, hn⟩

lemma run (h : Accounted G crc sb options s)
    (hrun : Run (Transition.Guarded (Ample options) (System.Step G crc sha)) s es t) :
    Accounted G crc sb options t := by
  induction hrun with
  | nil => exact h
  | snoc _ hs ih => exact ih.step hs.1 hs.2

end Accounted

def BlockAllocator.usedBlocks (a : BlockAllocator) : Finset Nat :=
  (Finset.range (a.base + a.total)).filter fun b => a.isAllocated b = true

lemma BlockAllocator.freeCount_eq (a : BlockAllocator) : a.freeCount = a.total - a.usedBlocks.card := by
  have hg : a.usedBlocks = a.bitmap.image (a.base + ·) := by
    ext b
    simp only [usedBlocks, Finset.mem_filter, Finset.mem_range, Finset.mem_image]
    constructor
    · rintro ⟨-, hu⟩
      obtain ⟨hr, hb⟩ := isAllocated_iff.mp hu
      have hbn := inRange_iff.mp hr
      exact ⟨b - a.base, hb, by omega⟩
    · rintro ⟨i, hi, rfl⟩
      have hlt := a.bit_lt i hi
      exact ⟨by omega, mem_bitmap_iff.mp hi⟩
  have hn : Function.Injective (a.base + ·) := fun i j (hj : a.base + i = a.base + j) => by omega
  have hc := a.freeCount_add
  rw [hg, Finset.card_image_of_injective _ hn]
  omega

/-- Block accounting. The blocks in use are the reserved ones, those of the directory, and those of the
snapshots; no two entries share a block; the count of free blocks is right; and no two entries have the
number of an inode in common. -/
theorem blocks_accounted_for {s₀ s : System} {es : List Event} (hstart : Formatted G crc options s₀)
    (hrun : Run (Transition.Guarded (Ample options) (System.Step G crc sha)) s₀ es s) :
    (∀ b, s.vol.allocator.isAllocated b = true ↔ (b ∈ reservedBlocks options ∧ s.vol.allocator.inRange b = true) ∨
        HasBlock s.vol.directory.entries b ∨ ∃ x ∈ s.vol.snapshots, HasBlock x.directory b) ∧
    (∀ (k k' : Path) (e e' : DirectoryEntry), s.vol.directory.entries[k]? = some e →
      s.vol.directory.entries[k']? = some e' → k ≠ k' → e.blocks.Disjoint e'.blocks) ∧
    s.vol.allocator.freeCount = s.vol.allocator.total - s.vol.allocator.usedBlocks.card ∧
    ∀ (k k' : Path) (e e' : DirectoryEntry), s.vol.directory.entries[k]? = some e →
      s.vol.directory.entries[k']? = some e' → k ≠ k' → e.inode.id ≠ e'.inode.id := by
  obtain ⟨sb, hn⟩ := Accounted.init hstart
  have h := hn.run hrun
  refine ⟨h.booked.used, fun k k' e e' hk hk' hne b hb hb' => ?_, s.vol.allocator.freeCount_eq,
    fun k k' e e' hk hk' hne hid => ?_⟩
  · exact hne (h.booked.apart k k' e e' b hk hk' hb hb')
  · exact hne (h.numbered.apart k k' e e' hk hk' hid)

deriving instance DecidableEq for MountOptions

/-- The same as `Ample`, for a system that is known. -/
def ample (options : MountOptions) (s : System) : Event → Bool
  | .op op _ => !op.isRestore && (decide (Room s.vol.generation) && decide (Room s.vol.nextInode))
  | .remount options' => decide (options' = options)

lemma Ample.of_ample (h : ample options s e = true) : Ample options s e := by
  cases e with
  | op op fault =>
    simp only [ample, Bool.and_eq_true, Bool.not_eq_true', decide_eq_true_eq] at h
    exact h
  | remount options' =>
    have heq : options' = options := of_decide_eq_true h
    exact heq

/-- A file is written, the device refuses a second one, and the first is removed after a snapshot. -/
theorem blocks_accounted_for_snapshot : ∃ s₀ s, Formatted smallDevice crc32 defaultOptions s₀ ∧
    Run (Transition.Guarded (Ample defaultOptions) (System.Step smallDevice crc32 zeroDigest)) s₀
      [.remount defaultOptions, .op (byteWrite "/a" 1) none, .op (byteWrite "/b" 1) (some 1),
        .op .createSnapshot none, .op (.removeFile (pathOf "/a")) none] s ∧
    s.vol.allocator.isAllocated 65 = true ∧
    s.vol.allocator.freeCount = s.vol.allocator.total - s.vol.allocator.usedBlocks.card := by
  refine exists_run_of_boot (guarded_of_guardedNext Ample.of_ample id)
    (fun s => s.vol.snapshots.any fun x => decide (65 ∈ allBlocks x.directory)) (by decide +kernel)
    fun hg hrun hs => ?_
  obtain ⟨hu, -, hc, -⟩ := blocks_accounted_for hg hrun
  obtain ⟨x, hx, hb⟩ := any_eq_true.mp hs
  exact ⟨(hu 65).mpr (.inr (.inr ⟨x, hx, mem_allBlocks.mp (of_decide_eq_true hb)⟩)), hc⟩

/-! ## The last inode -/

section

lemma nil_fits : ([] : Bytes).length < 2 ^ 63 := by decide

def emptyWrite (text : String) : Op := .writeFile (pathOf text) ⟨[], nil_fits⟩ none

structure Tiny (m : Entries) : Prop where
  entry : ∀ (k : Path) (e : DirectoryEntry), m[k]? = some e → (utf8 k).length ≤ 2 ∧ e.blocks = []
  size : m.size ≤ 2

lemma Tiny.store {m : Entries} (h : Tiny m) (generation inode time : UInt64) :
    ∃ next ws, store smallDevice crc generation m inode time = .ok (next, ws) := by
  have ht : ∀ item ∈ m.toList, (utf8 item.1).length ≤ 2 ∧ item.2.blocks = [] :=
    fun item ht => h.entry item.1 item.2 (mem_toList.mp ht)
  have hf : m.toList.any tooLong = false := by
    refine any_eq_false.mpr fun item hn => ?_
    obtain ⟨hln, hb⟩ := ht item hn
    simp only [tooLong, hb, length_nil, Bool.or_eq_true, decide_eq_true_eq]
    omega
  have he : ∀ item ∈ m.toList, (encodeEntry item.1 item.2).length ≤ 88 := by
    intro item hn
    obtain ⟨hln, hb⟩ := ht item hn
    have hs : (signatureBytes item.2.signature).length ≤ 32 := by
      cases item.2.signature with
      | none => exact Nat.zero_le 32
      | some digest => exact le_of_eq digest.length_eq
    simp only [encodeEntry, encodeHead, hb, length_append, length_le, flatMap_nil, length_nil]
    omega
  have hl : (m.toList.flatMap fun item => encodeEntry item.1 item.2).length ≤ m.toList.length * 88 := by
    generalize m.toList = items at he
    induction items with
    | nil => exact Nat.zero_le _
    | cons item items ih =>
      have hfs := he item mem_cons_self
      have hr := ih fun item hn => he item (mem_cons_of_mem _ hn)
      simp only [flatMap_cons, length_append, length_cons]
      omega
  have hz := h.size
  rw [Std.ExtTreeMap.length_toList] at hl
  have hbn : ¬((bankBlocks - 1) * smallDevice.blockSize < (le 8 inode.toNat ++ (le 8 time.toNat ++
      (le 4 m.toList.length ++ m.toList.flatMap fun item => encodeEntry item.1 item.2))).length) := by
    simp only [length_append, length_le]
    change ¬(31 * 128 < _)
    omega
  simp only [Fs.store, encode, hf, Bool.false_eq_true, if_false, bind, Except.bind, hbn]
  exact ⟨_, _, rfl⟩

lemma after_emptyWrite {s : System} {text : String} (ht : Tiny (s.vol.directory.entries.insert (normalize (pathOf text))
      (newEntry s.vol .file 0o644 0 [] (some (sha []))))) :
    (s.after smallDevice crc sha (emptyWrite text) none).vol.directory.entries =
      s.vol.directory.entries.insert (normalize (pathOf text)) (newEntry s.vol .file 0o644 0 [] (some (sha []))) ∧
    (s.after smallDevice crc sha (emptyWrite text) none).vol.nextInode = satSucc s.vol.nextInode := by
  obtain ⟨next, ws, hs⟩ := @Tiny.store crc _ ht s.vol.generation (satSucc s.vol.nextInode) (satSucc s.vol.logicalTime)
  simp only [System.after, exec, emptyWrite, writeFile, commit, persistMetadata, later, blocksNeeded,
    length_nil, if_true, BlockAllocator.takeBlocks, DirectoryIndex.insert, refuses, Option.map_none]
  simp [hs, giveBack]

def Lone (m : Entries) : Prop := m = ∅ ∨ ∃ e : DirectoryEntry, e.blocks = [] ∧ m = (∅ : Entries).insert (pathOf "/a") e

namespace Lone

variable {m : Entries}

lemma insert (h : Lone m) (e : DirectoryEntry) :
    m.insert (pathOf "/a") e = (∅ : Entries).insert (pathOf "/a") e := by
  rcases h with rfl | ⟨e₀, -, rfl⟩
  · rfl
  · refine Std.ExtTreeMap.ext_getElem? fun k => ?_
    simp only [getElem?_insert']
    split <;> rfl

lemma tiny (h : Lone m) {text : String} (ht : (utf8 (pathOf text)).length ≤ 2) {e : DirectoryEntry}
    (he : e.blocks = []) : Tiny (m.insert (pathOf text) e) where
  entry k e' hk := by
    rw [getElem?_insert'] at hk
    split at hk
    next heq =>
      cases hk
      exact ⟨heq ▸ ht, he⟩
    · rcases h with rfl | ⟨e₀, he₀, rfl⟩
      · simp at hk
      · rw [getElem?_insert'] at hk
        split at hk
        next heq =>
          cases hk
          exact ⟨heq ▸ by decide, he₀⟩
        · simp at hk
  size := by
    have hle : (m.insert (pathOf text) e).size ≤ m.size + 1 := Std.ExtTreeMap.size_insert_le
    have ho : m.size ≤ 1 := by
      rcases h with rfl | ⟨e₀, -, rfl⟩
      · simp
      · simp [Std.ExtTreeMap.size_insert]
    omega

end Lone

lemma exists_run_of_lone {s : System} (h : Lone s.vol.directory.entries) (n : Nat) (hn : s.vol.nextInode.toNat + n < 2 ^ 64) :
    ∃ t, Run (System.Step smallDevice crc sha) s (List.replicate n (.op (emptyWrite "/a") none)) t ∧
      Lone t.vol.directory.entries ∧ t.vol.nextInode.toNat = s.vol.nextInode.toNat + n := by
  induction n with
  | zero => exact ⟨s, .nil, h, rfl⟩
  | succ n ih =>
    obtain ⟨t, hrun, hl, hin⟩ := ih (by omega)
    have hs : t.Step smallDevice crc sha (.op (emptyWrite "/a") none)
        (t.after smallDevice crc sha (emptyWrite "/a") none) := rfl
    have ht := @Lone.tiny _ hl "/a" (by decide) (newEntry t.vol .file 0o644 0 [] (some (sha []))) rfl
    obtain ⟨he, hx⟩ := @after_emptyWrite crc sha t "/a" ht
    refine ⟨t.after smallDevice crc sha (emptyWrite "/a") none, ?_, .inr ⟨_, rfl, he.trans (hl.insert _)⟩, ?_⟩
    · rw [replicate_succ']
      exact hrun.snoc hs
    · rw [hx, toNat_satSucc (by unfold Room; omega)]
      omega

/-- After 2 ^ 64 files there are two with the same number. -/
theorem inode_numbers_run_out : ∃ n s₀ s, Formatted smallDevice crc32 defaultOptions s₀ ∧
    Run (System.Step smallDevice crc32 zeroDigest) s₀
      (List.replicate n (.op (emptyWrite "/a") none) ++ [.op (emptyWrite "/a") none, .op (emptyWrite "/b") none]) s ∧
    ∃ e e' : DirectoryEntry, s.vol.directory.entries[pathOf "/a"]? = some e ∧
      s.vol.directory.entries[pathOf "/b"]? = some e' ∧ e.inode.id = e'.inode.id := by
  have hbs : (System.boot smallDevice crc32 zeroDisk defaultOptions).isSome = true := by decide +kernel
  obtain ⟨s₀, hb⟩ := Option.isSome_iff_exists.mp hbs
  obtain ⟨v, ws, hm, heq⟩ := System.boot_eq_some hb
  obtain ⟨sb, -, hr, -⟩ := blank_zeroDisk.mount hm
  have hem : s₀.vol.directory.entries = ∅ := by
    rw [heq]
    exact congrArg DirectoryIndex.entries hr.directory
  have ht : s₀.vol.nextInode = 2 := by
    rw [heq]
    exact hr.nextInode
  have hc : s₀.vol.nextInode.toNat + (2 ^ 64 - 3) = 2 ^ 64 - 1 := by
    rw [ht]
    rfl
  obtain ⟨s, hrun, hl, hin⟩ := @exists_run_of_lone crc32 zeroDigest s₀ (.inl hem) (2 ^ 64 - 3) (by omega)
  rw [hc] at hin
  have hls : satSucc s.vol.nextInode = s.vol.nextInode := satSucc_of_not_room (by unfold Room; omega)
  -- the file gets the last number, and so does the next one
  obtain ⟨he, hn⟩ := @after_emptyWrite crc32 zeroDigest s "/a"
    (@Lone.tiny _ hl "/a" (by decide) _ rfl)
  have hl' : Lone (s.after smallDevice crc32 zeroDigest (emptyWrite "/a") none).vol.directory.entries :=
    .inr ⟨_, rfl, he.trans (hl.insert _)⟩
  obtain ⟨he', -⟩ := @after_emptyWrite crc32 zeroDigest
    (s.after smallDevice crc32 zeroDigest (emptyWrite "/a") none) "/b"
    (@Lone.tiny _ hl' "/b" (by decide) _ rfl)
  have hs : s.Step smallDevice crc32 zeroDigest (.op (emptyWrite "/a") none)
      (s.after smallDevice crc32 zeroDigest (emptyWrite "/a") none) := rfl
  have hs' : (s.after smallDevice crc32 zeroDigest (emptyWrite "/a") none).Step smallDevice crc32 zeroDigest
      (.op (emptyWrite "/b") none) ((s.after smallDevice crc32 zeroDigest (emptyWrite "/a") none).after
        smallDevice crc32 zeroDigest (emptyWrite "/b") none) := rfl
  have hrun' := (hrun.snoc hs).snoc hs'
  rw [append_assoc] at hrun'
  refine ⟨_, s₀, _, ⟨zeroDisk, blank_zeroDisk, hb⟩, hrun', newEntry s.vol .file 0o644 0 [] (some (zeroDigest [])),
    newEntry (s.after smallDevice crc32 zeroDigest (emptyWrite "/a") none).vol .file 0o644 0 []
      (some (zeroDigest [])), ?_, ?_, ?_⟩
  · rw [he', getElem?_insert', if_neg (by decide), he, getElem?_insert', if_pos (by decide)]
  · rw [he', getElem?_insert', if_pos (by decide)]
  · exact (hn.trans hls).symm

end

end ZeroOS.Fs
