import ZeroOS.Lib.Run
import ZeroOS.Lib.Disk
import ZeroOS.Security.Users

/-!
# The users on the disk

The text of the records goes to the first sectors of a region of eight, and then the header, which always says
that the region has eight sectors. What the sectors behind the text had before stays there, and is read at the
next start: a deleted user can come back. A text that takes more than one sector is not written at once, and as
the header is the same every time, it does not tell whether the sectors belong together.
-/

namespace ZeroOS.Security

open Disk List Transition Wire
open Fs (utf8 fromUtf8 Digest)

def hdrLba : Nat := 4096

/-- `USERDB_RECORD_LBA`. -/
def recordLba : Nat := hdrLba + 1

/-- `SECTOR`. -/
def sectorSize : Nat := 512

/-- `USERDB_RECORD_SECTORS`. -/
def recordSectors : Nat := 8

/-- `MAGIC`. -/
def headerMagic : Bytes := [0x53, 0x55, 0x44, 0x31]

def encodeHeader (sectors : Nat) : Bytes := pad sectorSize (headerMagic ++ (le 4 1 ++ le 4 sectors))

def parseHeader (buf : Bytes) : Option Nat :=
  if buf.take 4 ≠ headerMagic then none
  else if ofLe ((buf.drop 4).take 4) ≠ 1 then none
  else
    let sectors := ofLe ((buf.drop 8).take 4)
    if sectors = 0 ∨ 4095 < sectors then none else some sectors

/-- The loop of `write_user_blob`. A line that does not fit its buffer or the region ends it. -/
def encodeRecords : List UserRecord → Bytes → Option Bytes
  | [], data => some data
  | r :: records, data =>
    let bytes := utf8 (r.line ++ ['\n'])
    if 104 < bytes.length ∨ recordSectors * sectorSize < data.length + bytes.length then none
    else encodeRecords records (data ++ bytes)

/-- How many sectors some data takes: one at least. -/
def usedSectors (data : Bytes) : Nat := max ((data.length + sectorSize - 1) / sectorSize) 1

def recordBlocks (n : Nat) : List Nat := List.range' recordLba n

/-- The writes of `write_user_blob`: the records first, and then the header. -/
def userWrites (data : Bytes) : List (Nat × Bytes) :=
  writes sectorSize (recordBlocks (usedSectors data)) data ++ [(hdrLba, encodeHeader recordSectors)]

/-- `write_user_blob` and `persist_users`: whether what is read back is what was written, and the disk. The
device may refuse a write. -/
def persistUsers (d : Nat → Bytes) (store : UserStore) (fault : Option Nat) : Bool × (Nat → Bytes) :=
  match encodeRecords store.records [] with
  | none => (false, d)
  | some data =>
    let ws := userWrites data
    match fault with
    | some n => if n < ws.length then (false, apply d (ws.take n)) else (true, apply d ws)
    | none => (true, apply d ws)

variable (sha : Bytes → Digest)

/-- `load_persisted_records`: the records and whether to migrate them, unless there is no valid header. -/
def loadRecords (d : Nat → Bytes) : Option (UserStore × Bool) :=
  match parseHeader (d hdrLba) with
  | none => none
  | some sectors =>
    if recordSectors < sectors then none
    else
      let used := ((recordBlocks sectors).flatMap d).rdropWhile (· == 0)
      if used = [] then none else applyUserBlob sha used

structure Daemon where
  disk : Nat → Bytes
  store : UserStore

inductive UserCommand
  | add (payload : Bytes)
  | delete (payload : Bytes)
  | passwd (payload : Bytes)

/-- `init_user_store`, up to the point where it persists: the users, and whether it does. -/
def initStore (defaults : Option Bytes) (d : Nat → Bytes) : UserStore × Bool :=
  match loadRecords sha d with
  | some loaded => loaded
  | none =>
    match defaults.bind (applyUserBlob sha) with
    | some seeded => (seeded.1, true)
    | none => (.new, false)

/-- `init_user_store`, with the users of `/etc/users`, on a device that works. -/
def initUserStore (defaults : Option Bytes) (d : Nat → Bytes) : Daemon :=
  let start := initStore sha defaults d
  ⟨if start.2 then (persistUsers d start.1 none).2 else d, start.1⟩

def UserStore.exec (store : UserStore) : UserCommand → Nat × UserStore
  | .add payload => store.handleAdd sha (parseFields payload)
  | .delete payload => store.handleDelete (parseFields payload)
  | .passwd payload => store.handlePasswd sha (parseFields payload)

/-- A command that succeeds, on a device that works. -/
def Daemon.next (s : Daemon) (cmd : UserCommand) : Option Daemon :=
  let out := s.store.exec sha cmd
  let persisted := persistUsers s.disk out.2 none
  if out.1 = 0 ∧ persisted.1 = true then some ⟨persisted.2, out.2⟩ else none

def Daemon.Step (s : Daemon) (cmd : UserCommand) (t : Daemon) : Prop := s.next sha cmd = some t

/-! ## What is written -/

lemma utf8_append (p q : Text) : utf8 (p ++ q) = utf8 p ++ utf8 q := List.flatMap_append

lemma utf8_eq_map (h : ∀ c ∈ text, c.toNat ≤ 127) :
    utf8 text = text.map fun c => c.val.toUInt8 := by
  induction text with
  | nil => rfl
  | cons c text ih =>
    have ho : c.utf8Size = 1 := Char.utf8Size_eq_one_iff.mpr (UInt32.le_iff_toNat_le.mpr (h c mem_cons_self))
    change String.utf8EncodeChar c ++ utf8 text = _
    rw [String.utf8EncodeChar_eq_singleton ho, ih fun c' hc' => h c' (mem_cons_of_mem _ hc')]
    rfl

lemma line_newline_ascii (r : UserRecord) : ∀ c ∈ r.line ++ ['\n'], 1 ≤ c.toNat ∧ c.toNat ≤ 127 := by
  intro c hc
  rcases mem_append.mp hc with hc | hc
  · exact line_ascii r c hc
  · rw [mem_singleton.mp hc]
    decide

lemma length_line (r : UserRecord) : (utf8 (r.line ++ ['\n'])).length ≤ 101 := by
  have hn := r.name
  simp only [validName, Bool.and_eq_true, decide_eq_true_eq, all_eq_true] at hn
  obtain ⟨digits, heq, hl, -⟩ := exists_digits r.encoded
  have hr : r.role.asText.length ≤ 5 := by cases r.role <;> decide
  have hu : r.username.length ≤ 16 := by
    have ha := utf8_eq_map fun c hc => (by
      have hp := toNat_of_isNameChar (hn.2 c hc)
      omega : c.toNat ≤ 127)
    have hle := hn.1.2
    rw [ha, length_map] at hle
    exact hle
  have hm : passwordMark.length = 13 := by decide
  rw [utf8_eq_map fun c hc => (line_newline_ascii r c hc).2, length_map]
  simp only [UserRecord.line, heq, length_append, length_cons, length_nil, hl, hm]
  omega

lemma encodeRecords_eq (records : List UserRecord) (data : Bytes)
    (h : data.length + records.length * 101 ≤ recordSectors * sectorSize) :
    encodeRecords records data = some (data ++ utf8 (recordsText records)) := by
  induction records generalizing data with
  | nil =>
    have hn : utf8 (recordsText []) = [] := rfl
    rw [encodeRecords, hn, append_nil]
  | cons r records ih =>
    have hl := length_line r
    have hs : recordSectors * sectorSize = 4096 := rfl
    rw [length_cons] at h
    have ht : recordsText (r :: records) = (r.line ++ ['\n']) ++ recordsText records := rfl
    rw [encodeRecords, if_neg (by omega), ih _ (by rw [length_append]; omega), ht, utf8_append (r.line ++ ['\n']), append_assoc]

lemma length_recordsText (records : List UserRecord) : (utf8 (recordsText records)).length ≤ records.length * 101 := by
  induction records with
  | nil => exact Nat.zero_le _
  | cons r records ih =>
    have hl := length_line r
    have ht : recordsText (r :: records) = (r.line ++ ['\n']) ++ recordsText records := rfl
    rw [ht, utf8_append, length_append, length_cons]
    omega

def UserStore.data (store : UserStore) : Bytes := utf8 (recordsText store.records)

lemma encodeRecords_store (store : UserStore) : encodeRecords store.records [] = some store.data := by
  have hs := store.small
  have hc : userCapacity = 8 := rfl
  have hz : recordSectors * sectorSize = 4096 := rfl
  exact encodeRecords_eq store.records [] (by rw [length_nil]; omega)

lemma length_data (store : UserStore) : store.data.length ≤ 808 := by
  have hs := store.small
  have hc : userCapacity = 8 := rfl
  have hl := length_recordsText store.records
  change (utf8 (recordsText store.records)).length ≤ 808
  omega

lemma usedSectors_bounds (store : UserStore) :
    store.data.length ≤ usedSectors store.data * sectorSize ∧ usedSectors store.data ≤ recordSectors := by
  have hl := length_data store
  change store.data.length ≤ max ((store.data.length + 512 - 1) / 512) 1 * 512 ∧ max ((store.data.length + 512 - 1) / 512) 1 ≤ 8
  omega

lemma persistUsers_eq (d : Nat → Bytes) (store : UserStore) :
    persistUsers d store none = (true, apply d (userWrites store.data)) := by
  unfold persistUsers
  rw [encodeRecords_store]

/-! ## What is read -/

section

variable {sha} {store : UserStore}

/-- What stands behind the records in the region: zeros to the end of their last sector, and whatever the
sectors after it had. -/
def behind (d : Nat → Bytes) (data : Bytes) : Bytes := List.replicate (usedSectors data * sectorSize - data.length) 0 ++
    (List.range' (recordLba + usedSectors data) (recordSectors - usedSectors data)).flatMap d

lemma nodup_recordBlocks (n : Nat) : (recordBlocks n).Nodup := List.nodup_range'

lemma recordBlocks_eq_append (h : n ≤ m) :
    recordBlocks m = recordBlocks n ++ List.range' (recordLba + n) (m - n) := by
  rw [recordBlocks, recordBlocks, List.range'_append_1, Nat.add_sub_cancel' h]

lemma hdrLba_notMem (n : Nat) : hdrLba ∉ recordBlocks n := by
  simp only [recordBlocks, mem_range'_1, recordLba]
  omega

lemma apply_userWrites (data : Bytes) (ha : a ≠ hdrLba) : apply d (userWrites data) a =
    apply d (writes sectorSize (recordBlocks (usedSectors data)) data) a := by
  rw [userWrites, apply_append, apply_of_notMem]
  simpa using ha

lemma apply_userWrites_behind (ha : recordLba + usedSectors data ≤ a) :
    apply d (userWrites data) a = d a := by
  have hl : recordLba = hdrLba + 1 := rfl
  rw [apply_userWrites _ (by omega), apply_of_notMem]
  rw [map_fst_writes]
  intro hm
  have hlt := (mem_range'_1.mp hm).2
  omega

lemma apply_userWrites_header (data : Bytes) :
    apply d (userWrites data) hdrLba = encodeHeader recordSectors := by
  rw [userWrites, apply_append, apply, apply_nil, Function.update_self]

lemma parseHeader_encodeHeader : parseHeader (encodeHeader recordSectors) = some recordSectors := by
  decide +kernel

lemma region_userWrites (d : Nat → Bytes) (store : UserStore) :
    (recordBlocks recordSectors).flatMap (apply d (userWrites store.data)) = store.data ++ behind d store.data := by
  obtain ⟨hl, hu⟩ := usedSectors_bounds store
  have hf : (recordBlocks (usedSectors store.data)).flatMap (apply d (userWrites store.data)) =
      store.data ++ List.replicate (usedSectors store.data * sectorSize - store.data.length) 0 := by
    have hw := @flatMap_apply_writes sectorSize d (recordBlocks (usedSectors store.data)) store.data
      (nodup_recordBlocks _) (by rw [recordBlocks, length_range']; exact hl)
    rw [recordBlocks, length_range', ← recordBlocks] at hw
    rw [← hw]
    refine flatMap_congr fun a ha => apply_userWrites _ ?_
    rintro rfl
    exact hdrLba_notMem _ ha
  have hr : (List.range' (recordLba + usedSectors store.data) (recordSectors - usedSectors store.data)).flatMap
      (apply d (userWrites store.data)) =
      (List.range' (recordLba + usedSectors store.data) (recordSectors - usedSectors store.data)).flatMap d :=
    flatMap_congr fun a ha => apply_userWrites_behind (mem_range'_1.mp ha).1
  rw [recordBlocks_eq_append hu, flatMap_append, hf, hr, behind, append_assoc]

lemma loadRecords_of_header {n : Nat} (hh : parseHeader (d hdrLba) = some n) (hn : n ≤ recordSectors)
    {used : Bytes} (hu : ((recordBlocks n).flatMap d).rdropWhile (· == 0) = used) (hne : used ≠ []) :
    loadRecords sha d = applyUserBlob sha used := by
  unfold loadRecords
  rw [hh]
  dsimp only
  rw [if_neg (by omega), hu, if_neg hne]

lemma rdropWhile_append {l l' : Bytes} {b : UInt8} (h : l.getLast? = some b) (hb : b ≠ 0) :
    (l ++ l').rdropWhile (· == 0) = l ++ l'.rdropWhile (· == 0) := by
  obtain ⟨l₀, rfl⟩ := getLast?_eq_some_iff.mp h
  have hs : (l₀ ++ [b]).reverse.dropWhile (· == 0) = (l₀ ++ [b]).reverse := by
    rw [reverse_append, reverse_singleton, singleton_append, dropWhile_cons_of_neg]
    simpa using hb
  unfold List.rdropWhile
  rw [reverse_append, dropWhile_append]
  split
  next hn => rw [hs, reverse_reverse, isEmpty_iff.mp hn, reverse_nil, append_nil]
  · rw [reverse_append, reverse_reverse]

lemma getLast?_data (hne : store.records ≠ []) : store.data.getLast? = some 10 := by
  obtain ⟨last, hl⟩ := Option.isSome_iff_exists.mp (getLast?_isSome.mpr hne)
  obtain ⟨init, hn⟩ := getLast?_eq_some_iff.mp hl
  have ht : recordsText store.records = (recordsText init ++ last.line) ++ ['\n'] := by
    rw [hn, recordsText, recordsText, flatMap_append, flatMap_singleton, append_assoc]
  rw [UserStore.data, ht, utf8_append]
  exact getLast?_concat

lemma data_ne_nil (hne : store.records ≠ []) : store.data ≠ [] := by
  intro hn
  have hl := getLast?_data hne
  rw [hn] at hl
  cases hl

def NoRecord (sha : Bytes → Digest) (line : Text) : Prop := ∀ name password role, parseLine line = some (name, password, role) →
    UserRecord.build sha (trim name) (trim password) role = none

lemma parseLines_of_noRecord (h : ∀ line ∈ texts, NoRecord sha line)
    (parsed : List UserRecord) (migrated : Bool) : (parseLines sha texts parsed migrated).1 = parsed := by
  induction texts generalizing migrated with
  | nil => rfl
  | cons line rest ih =>
    have hr := fun m => ih (fun l hl => h l (mem_cons_of_mem _ hl)) m
    unfold parseLines
    split
    · exact hr migrated
    next name password role hp =>
      split
      · rfl
      · dsimp only
        rw [h line mem_cons_self name password role hp]
        exact hr _

lemma parseLines_of_full (h : parsed.length = userCapacity)
    (migrated : Bool) : (parseLines sha texts parsed migrated).1 = parsed := by
  induction texts generalizing migrated with
  | nil => rfl
  | cons line rest ih =>
    unfold parseLines
    split
    · exact ih migrated
    · rw [if_pos h]

/-- What stands behind the records gives no record, or there is no room for one. -/
def Quiet (sha : Bytes → Digest) (d : Nat → Bytes) (store : UserStore) : Prop :=
  ∃ rest : Text, (behind d store.data).rdropWhile (· == 0) = utf8 rest ∧
    (store.records.length = userCapacity ∨ ∀ line ∈ lines rest, NoRecord sha line)

lemma applyUserBlob_utf8 (text : Text) : applyUserBlob sha (utf8 text) =
    if (parseLines sha (lines text) [] false).1 = [] then none
    else some (⟨(parseLines sha (lines text) [] false).1, length_parseLines sha _ _ _ (Nat.zero_le _)⟩,
      (parseLines sha (lines text) [] false).2) := by
  unfold applyUserBlob
  rw [Fs.fromUtf8_utf8]

lemma applyUserBlob_append (hne : store.records ≠ []) {rest : Text}
    (h : store.records.length = userCapacity ∨ ∀ line ∈ lines rest, NoRecord sha line) :
    ∃ migrated, applyUserBlob sha (store.data ++ utf8 rest) = some (store, migrated) := by
  have hp : (parseLines sha (lines rest) store.records false).1 = store.records := by
    rcases h with hf | hq
    · exact parseLines_of_full hf false
    · exact parseLines_of_noRecord hq store.records false
  have ht : parseLines sha (lines (recordsText store.records ++ rest)) [] false =
      parseLines sha (lines rest) store.records false := by
    rw [lines_recordsText, parseLines_text sha _ _ _ (by simpa using store.small), nil_append]
  refine ⟨(parseLines sha (lines rest) store.records false).2, ?_⟩
  rw [UserStore.data, ← utf8_append, applyUserBlob_utf8]
  simp only [ht, hp, if_neg hne]

lemma loadRecords_userWrites (hne : store.records ≠ []) (hq : Quiet sha d store) :
    ∃ migrated, loadRecords sha (apply d (userWrites store.data)) = some (store, migrated) := by
  obtain ⟨rest, hr, hn⟩ := hq
  obtain ⟨migrated, hb⟩ := applyUserBlob_append hne hn
  refine ⟨migrated, hb ▸ loadRecords_of_header ?_ (le_refl _) ?_ ?_⟩
  · rw [apply_userWrites_header, parseHeader_encodeHeader]
  · rw [region_userWrites, rdropWhile_append (getLast?_data hne) (by decide), hr]
  · exact append_ne_nil_of_left_ne_nil (data_ne_nil hne) _

lemma applyUserBlob_eq_none (h : ∀ line ∈ lines rest, NoRecord sha line) :
    applyUserBlob sha (utf8 rest) = none := by
  rw [applyUserBlob_utf8, if_pos (parseLines_of_noRecord h [] false)]

lemma loadRecords_eq_none (hn : store.records = []) (hq : Quiet sha d store) :
    loadRecords sha (apply d (userWrites store.data)) = none := by
  obtain ⟨rest, hs, ho⟩ := hq
  have hl : ∀ line ∈ lines rest, NoRecord sha line := by
    rcases ho with hf | hl
    · rw [hn] at hf
      cases hf
    · exact hl
  have hd : store.data = [] := by
    rw [UserStore.data, hn]
    rfl
  have hr : ((recordBlocks recordSectors).flatMap (apply d (userWrites store.data))).rdropWhile (· == 0) = utf8 rest := by
    rw [region_userWrites, ← hs, hd, nil_append]
  by_cases he : utf8 rest = []
  · unfold loadRecords
    rw [apply_userWrites_header, parseHeader_encodeHeader]
    dsimp only
    rw [if_neg (lt_irrefl _), hr, if_pos he]
  · rw [loadRecords_of_header _ (le_refl _) hr he, applyUserBlob_eq_none hl]
    rw [apply_userWrites_header, parseHeader_encodeHeader]

lemma applyUserBlob_ne_nil (h : applyUserBlob sha blob = some (store, migrated)) : store.records ≠ [] := by
  unfold applyUserBlob at h
  split at h
  · cases h
  · dsimp only at h
    split at h
    · cases h
    next hne =>
      cases h
      exact hne

lemma loadRecords_ne_nil (h : loadRecords sha d = some (store, migrated)) :
    store.records ≠ [] := by
  unfold loadRecords at h
  split at h
  · cases h
  split at h
  · cases h
  dsimp only at h
  split at h
  · cases h
  · exact applyUserBlob_ne_nil h

end

/-! ## Restarts -/

section

variable {sha}

/-- The command leaves a user, if `/etc/users` has any, and it is quiet behind the records that it writes. -/
def Settles (sha : Bytes → Digest) (defaults : Option Bytes) (s : Daemon) (cmd : UserCommand) : Prop :=
  ((s.store.exec sha cmd).2.records ≠ [] ∨ defaults.bind (applyUserBlob sha) = none) ∧ Quiet sha s.disk (s.store.exec sha cmd).2

def Restarts (sha : Bytes → Digest) (defaults : Option Bytes) (s : Daemon) : Prop :=
  (initUserStore sha defaults s.disk).store = s.store

lemma Restarts.of_load {migrated : Bool} (h : loadRecords sha s.disk = some (s.store, migrated)) :
    Restarts sha defaults s := by
  change (initStore sha defaults s.disk).1 = s.store
  unfold initStore
  rw [h]

lemma Restarts.init (hq : (initStore sha defaults d).2 = true → Quiet sha d (initStore sha defaults d).1) :
    Restarts sha defaults (initUserStore sha defaults d) := by
  -- if the start has written the users, they are read again; if not, nothing has changed
  by_cases hw : (initStore sha defaults d).2 = true
  · have hne : (initStore sha defaults d).1.records ≠ [] := by
      unfold initStore at hw ⊢
      split at hw
      next loaded hl => exact loadRecords_ne_nil hl
      · split at hw
        next seeded hs =>
          obtain ⟨blob, -, hb⟩ := Option.bind_eq_some_iff.mp hs
          exact applyUserBlob_ne_nil hb
        · cases hw
    obtain ⟨migrated, hl⟩ := loadRecords_userWrites hne (hq hw)
    refine @Restarts.of_load sha defaults _ migrated ?_
    unfold initUserStore
    dsimp only
    rw [if_pos hw, persistUsers_eq]
    exact hl
  · have hd : (initUserStore sha defaults d).disk = d := if_neg hw
    rw [Restarts, hd]

lemma Restarts.of_none (hl : loadRecords sha s.disk = none) (hd : defaults.bind (applyUserBlob sha) = none)
    (hn : s.store.records = []) : Restarts sha defaults s := by
  change (initStore sha defaults s.disk).1 = s.store
  unfold initStore
  rw [hl]
  dsimp only
  rw [hd]
  exact UserStore.ext hn.symm

lemma Restarts.step {cmd : UserCommand} (hsl : Settles sha defaults s cmd) (hs : s.Step sha cmd t) :
    Restarts sha defaults t := by
  obtain ⟨hm, hq⟩ := hsl
  unfold Daemon.Step Daemon.next at hs
  dsimp only at hs
  rw [persistUsers_eq] at hs
  split at hs
  · cases hs
    by_cases hn : (s.store.exec sha cmd).2.records = []
    · exact .of_none (loadRecords_eq_none hn hq) (hm.resolve_left (absurd hn)) hn
    · obtain ⟨migrated, hl⟩ := loadRecords_userWrites hn hq
      exact .of_load hl
  · cases hs

/-- The users survive a restart. After commands that have all succeeded, the daemon starts with the users
that were in memory. -/
theorem users_survive_restart {cmds : List UserCommand}
    (hquiet : (initStore sha defaults d).2 = true → Quiet sha d (initStore sha defaults d).1)
    (hrun : Run (Transition.Guarded (Settles sha defaults) (Daemon.Step sha)) (initUserStore sha defaults d) cmds s) :
    (initUserStore sha defaults s.disk).store = s.store := by
  cases hrun with
  | nil => exact Restarts.init hquiet
  | snoc _ hs => exact Restarts.step hs.1 hs.2

lemma store_of_region {store : UserStore} (hne : store.records ≠ []) (hh : parseHeader (d hdrLba) = some recordSectors)
    (hr : ((recordBlocks recordSectors).flatMap d).rdropWhile (· == 0) = store.data) :
    (initUserStore sha defaults d).store = store := by
  obtain ⟨migrated, hb⟩ := @applyUserBlob_append sha store hne []
    (.inr fun line hl => absurd hl not_mem_nil)
  have hn : utf8 [] = [] := rfl
  rw [hn, append_nil] at hb
  exact @Restarts.of_load sha defaults ⟨d, store⟩ migrated
    ((loadRecords_of_header hh (le_refl _) hr (data_ne_nil hne)).trans hb)

def blankDisk : Nat → Bytes := fun _ => List.replicate sectorSize 0

lemma behind_blankDisk (data : Bytes) :
    behind blankDisk data = List.replicate (behind blankDisk data).length 0 := by
  refine eq_replicate_of_mem fun b hb => ?_
  rcases mem_append.mp hb with hb | hb
  · exact eq_of_mem_replicate hb
  · obtain ⟨a, -, hb⟩ := mem_flatMap.mp hb
    exact eq_of_mem_replicate hb

lemma Quiet.of_zero (h : (behind d store.data).all (· == 0) = true) :
    Quiet sha d store := by
  refine ⟨[], ?_, .inr fun line hl => absurd hl not_mem_nil⟩
  have ha : (behind d store.data).rdropWhile (· == 0) = [] := by
    rw [rdropWhile_eq_nil_iff]
    exact all_eq_true.mp h
  exact ha

lemma Quiet.of_blankDisk (store : UserStore) : Quiet sha blankDisk store := by
  refine .of_zero (all_eq_true.mpr fun b hb => ?_)
  rw [behind_blankDisk] at hb
  rw [eq_of_mem_replicate hb]
  rfl

/-- The same as `Settles`, if there are only zeros behind the records. -/
def settles (sha : Bytes → Digest) (s : Daemon) (cmd : UserCommand) : Bool :=
  !(s.store.exec sha cmd).2.records.isEmpty && (behind s.disk (s.store.exec sha cmd).2.data).all (· == 0)

lemma Settles.of_settles (h : settles sha s cmd = true) :
    Settles sha defaults s cmd := by
  simp only [settles, Bool.and_eq_true, Bool.not_eq_true', isEmpty_eq_false_iff] at h
  exact ⟨.inl h.1, .of_zero h.2⟩

/-- A user is added and gets another password, and the first user is deleted. -/
theorem users_survive_restart_delete : ∃ s, ((initStore blankDigest (some (bytesOf "a:p:admin")) blankDisk).2 = true →
      Quiet blankDigest blankDisk (initStore blankDigest (some (bytesOf "a:p:admin")) blankDisk).1) ∧
    Run (Transition.Guarded (Settles blankDigest (some (bytesOf "a:p:admin"))) (Daemon.Step blankDigest))
      (initUserStore blankDigest (some (bytesOf "a:p:admin")) blankDisk)
      [.add (bytesOf "b\x00q"), .passwd (bytesOf "b\x00r"), .delete (bytesOf "a")] s ∧
    s.store.records.map UserRecord.username = ["b".toList] ∧
    (initUserStore blankDigest (some (bytesOf "a:p:admin")) s.disk).store = s.store := by
  have hq : Quiet blankDigest blankDisk
      (initStore blankDigest (some (bytesOf "a:p:admin")) blankDisk).1 := .of_blankDisk _
  have hc : (execute (guardedNext (settles blankDigest) (Daemon.next blankDigest))
      (initUserStore blankDigest (some (bytesOf "a:p:admin")) blankDisk)
      [.add (bytesOf "b\x00q"), .passwd (bytesOf "b\x00r"), .delete (bytesOf "a")]).any
        (fun s => decide (s.store.records.map UserRecord.username = ["b".toList])) = true := by decide +kernel
  obtain ⟨s, hrun, hn⟩ := @exists_guardedRun_of_execute _ _ (Daemon.Step blankDigest) _ _ _ _
    (Settles blankDigest (some (bytesOf "a:p:admin"))) Settles.of_settles id _ hc
  exact ⟨s, fun _ => hq, hrun, of_decide_eq_true hn, users_survive_restart (fun _ => hq) hrun⟩

/-- Seven users, the first six of which take a sector. -/
def sevenUsers : Bytes := bytesOf "a:p:user\nb:p:user\nc:p:user\nd:p:user\nee:p:user\nff:p:user\ng:p:admin"

/-- The last of seven users is deleted, and is there again after a restart; the only user is deleted, and is
there again after a restart. -/
theorem deleted_user_returns : (∃ s, Run (Daemon.Step blankDigest) (initUserStore blankDigest (some sevenUsers) blankDisk)
        [.delete (bytesOf "g")] s ∧
      s.store.records.length = 6 ∧
      (initUserStore blankDigest (some sevenUsers) s.disk).store.records.length = 7) ∧
    ∃ s, Run (Daemon.Step blankDigest) (initUserStore blankDigest (some (bytesOf "a:p:user")) blankDisk)
        [.delete (bytesOf "a")] s ∧
      s.store.records.length = 0 ∧
      (initUserStore blankDigest (some (bytesOf "a:p:user")) s.disk).store.records.length = 1 := by
  refine ⟨?_, exists_run_decide id (by decide +kernel)⟩
  refine exists_run_and id (fun s => decide (s.store.records.length = 6) &&
    (decide (parseHeader (s.disk hdrLba) = some recordSectors) &&
      decide (((recordBlocks recordSectors).flatMap s.disk).rdropWhile (· == 0) =
        (initUserStore blankDigest (some sevenUsers) blankDisk).store.data))) (by decide +kernel) fun _ h => ?_
  simp only [Bool.and_eq_true, decide_eq_true_eq] at h
  obtain ⟨hx, hh, hr⟩ := h
  have hs : (initUserStore blankDigest (some sevenUsers) blankDisk).store.records.length = 7 := by decide +kernel
  have hne : (initUserStore blankDigest (some sevenUsers) blankDisk).store.records ≠ [] := by
    intro hn
    rw [hn] at hs
    cases hs
  have hb := @store_of_region blankDigest _ (some sevenUsers) _ hne hh hr
  exact ⟨hx, by rw [hb, hs]⟩

end

end ZeroOS.Security
