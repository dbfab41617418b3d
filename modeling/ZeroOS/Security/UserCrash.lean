import ZeroOS.Security.UserDisk

/-!
# Interrupted writes of the users

The header of the region is meant as a commit mark, but it is the same every time: once there is one, the sectors
of a new text count as soon as they are written. A text of two sectors is read with its first sector new and its
second one old if the machine stops in between.
-/

namespace ZeroOS.Security

open Disk List Option Transition Wire
open Fs (utf8 Digest)

/-! ## A part of a line -/

lemma parseLine_eq_none (hv : ∀ c ∈ line, isWhitespace c = false)
    (h : ∀ name password role rest, line.splitOn ':' = name :: password :: role :: rest →
      UserRole.ofText (trim role) = none) : parseLine line = none := by
  unfold parseLine
  dsimp only
  rw [trim_eq_self hv]
  split
  · rfl
  split
  next name password role rest hs =>
    rw [h name password role rest hs]
    rfl
  · rfl

lemma UserRole.ofText_take (r : UserRole) (h : n < r.asText.length) :
    ofText (trim (r.asText.take n)) = none := by
  have ha : ∀ n < 5, ofText (trim ((UserRole.admin.asText).take n)) = none := by decide +kernel
  have hu : ∀ n < 4, ofText (trim ((UserRole.user.asText).take n)) = none := by decide +kernel
  cases r with
  | admin => exact ha n h
  | user => exact hu n h

/-- A line that is cut off gives no record. -/
lemma parseLine_take (r : UserRecord) (h : n < r.line.length) : parseLine (r.line.take n) = none := by
  have hu := colon_notMem fun c hc => (r.plain_username.2 c hc).1
  have hp := colon_notMem r.plain_password.2
  have hr := colon_notMem r.role.plain_asText.2
  refine parseLine_eq_none (fun c hc => line_visible r c (mem_of_mem_take hc)) ?_
  intro name password role rest hs
  unfold UserRecord.line at hs h
  -- where the line is cut: in the name, in the password or in the role
  by_cases hn : n ≤ r.username.length
  · rw [take_append_of_le_length hn,
      splitOn_eq_singleton fun hc => hu (mem_of_mem_take hc)] at hs
    cases hs
  obtain ⟨m, rfl⟩ : ∃ m, n = r.username.length + (m + 1) := ⟨n - r.username.length - 1, by omega⟩
  rw [take_length_add_append, take_succ_cons, splitOn_append_cons_self,
    splitOn_eq_singleton hu] at hs
  by_cases hw : m ≤ r.password.length
  · rw [take_append_of_le_length hw,
      splitOn_eq_singleton fun hc => hp (mem_of_mem_take hc)] at hs
    cases hs
  obtain ⟨k, rfl⟩ : ∃ k, m = r.password.length + (k + 1) := ⟨m - r.password.length - 1, by omega⟩
  rw [take_length_add_append, take_succ_cons, splitOn_append_cons_self,
    splitOn_eq_singleton hp,
    splitOn_eq_singleton fun hc => hr (mem_of_mem_take hc)] at hs
  obtain rfl : r.role.asText.take k = role := some.inj (congrArg (fun l => l[2]?) hs)
  refine r.role.ofText_take ?_
  simp only [length_append, length_cons] at h
  omega

lemma lines_of_visible (h : ∀ c ∈ text, isWhitespace c = false) (hne : text ≠ []) :
    lines text = [text] := by
  have hn : '\n' ∉ text := fun hc => by cases h _ hc
  unfold lines
  rw [splitOn_eq_singleton hn]
  dsimp only [List.dropLast, List.getLast?, List.map]
  split
  next heq => exact absurd (some.inj heq) hne
  next heq => cases heq
  next rest _ heq =>
    have hr : text = rest := some.inj heq
    rw [hr]
    rfl

/-! ## Interrupted writes -/

section

variable {sha : Bytes → Digest} {d d' : Nat → Bytes} {A B : UserStore} {n : Nat}

/-- What `load_persisted_records` finds. -/
def found (sha : Bytes → Digest) (d : Nat → Bytes) : Option UserStore := (loadRecords sha d).map Prod.fst

/-- Of the sectors that are written, all but one have what is written to them. -/
def Single (d : Nat → Bytes) (store : UserStore) : Prop :=
  ∃ k, ∀ (j : Nat) (w : Nat × Bytes), j ≠ k → (userWrites store.data)[j]? = some w → d w.1 = w.2

/-- The region has the lines of `A` and then zeros, and `B` has one more user at the end. -/
def Appends (d : Nat → Bytes) (A B : UserStore) : Prop := parseHeader (d hdrLba) = some recordSectors ∧
    (∀ a ∈ recordBlocks recordSectors, d a = apply blankDisk (userWrites A.data) a) ∧
    ∃ r, B.records = A.records ++ [r]

lemma nodup_userWrites (data : Bytes) : ((userWrites data).map Prod.fst).Nodup := by
  rw [userWrites, map_append, map_fst_writes]
  refine nodup_append.mpr ⟨nodup_recordBlocks _, nodup_singleton _, ?_⟩
  intro a ha b hb heq
  rw [map_singleton, mem_singleton] at hb
  exact hdrLba_notMem _ (hb ▸ heq ▸ ha)

lemma found_userWrites (hq : Quiet sha d B) :
    found sha (apply d (userWrites B.data)) = none ∨ found sha (apply d (userWrites B.data)) = some B := by
  by_cases hn : B.records = []
  · refine .inl ?_
    rw [found, loadRecords_eq_none hn hq]
    rfl
  · obtain ⟨migrated, hl⟩ := loadRecords_userWrites hn hq
    refine .inr ?_
    rw [found, hl]
    rfl

lemma found_congr (hh : parseHeader (d hdrLba) = some recordSectors) (hh' : parseHeader (d' hdrLba) = some recordSectors)
    (hr : (recordBlocks recordSectors).flatMap d' = (recordBlocks recordSectors).flatMap d) :
    found sha d' = found sha d := by
  unfold found loadRecords
  rw [hh, hh']
  dsimp only
  rw [hr]

lemma Single.found (hs : Single d B) (hq : Quiet sha d B) (ho : found sha d = some A) (n : Nat) :
    found sha (apply d ((userWrites B.data).take n)) = some A ∨ found sha (apply d ((userWrites B.data).take n)) = some B ∨
      found sha (apply d ((userWrites B.data).take n)) = none := by
  obtain ⟨k, hk⟩ := hs
  rcases apply_take_of_idle (nodup_userWrites B.data) hk n with heq | heq
  · rw [heq]
    exact .inl ho
  · rw [heq]
    exact .inr (found_userWrites hq).symm

/-! ### Another user -/

lemma region_take (hr : ∀ a ∈ recordBlocks recordSectors, (d a).length = sectorSize)
    (hn : n ≤ usedSectors data) (hu : usedSectors data ≤ recordSectors) (hl : n * sectorSize ≤ data.length) :
    (recordBlocks recordSectors).flatMap
        (apply d ((writes sectorSize (recordBlocks (usedSectors data)) data).take n)) =
      data.take (n * sectorSize) ++ ((recordBlocks recordSectors).flatMap d).drop (n * sectorSize) := by
  have hs : (recordBlocks n).length = n := length_range'
  have hb := recordBlocks_eq_append (le_trans hn hu)
  have ht : (recordBlocks (usedSectors data)).take n = recordBlocks n := by
    rw [recordBlocks_eq_append hn, take_append_of_le_length (by rw [hs]), take_of_length_le (by rw [hs])]
  have hf : (recordBlocks n).flatMap (apply d (writes sectorSize (recordBlocks n) (data.take (n * sectorSize)))) =
      data.take (n * sectorSize) := by
    have hh : (data.take (n * sectorSize)).length = n * sectorSize := by rw [length_take, min_eq_left hl]
    rw [flatMap_apply_writes (nodup_recordBlocks n) (by rw [hh, hs]), hh, hs, Nat.sub_self, replicate_zero, append_nil]
  have hrs : (List.range' (recordLba + n) (recordSectors - n)).flatMap
      (apply d (writes sectorSize (recordBlocks n) (data.take (n * sectorSize)))) =
      (List.range' (recordLba + n) (recordSectors - n)).flatMap d := by
    refine flatMap_congr fun a ha => apply_of_notMem ?_
    have hg := (mem_range'_1.mp ha).1
    rw [map_fst_writes]
    intro hm
    have hlt := (mem_range'_1.mp hm).2
    omega
  have ho : ((recordBlocks n).flatMap d).length = n * sectorSize := by
    rw [length_flatMap, map_congr_left fun a ha => hr a (hb ▸ mem_append_left _ ha)]
    simp [hs]
  rw [take_writes, ht, hb, flatMap_append, hf, hrs, flatMap_append, ← ho, drop_left]

lemma length_userWrites_blank (data : Bytes) (a : Nat) : (apply blankDisk (userWrites data) a).length = sectorSize := by
  refine length_apply (fun _ => length_replicate) (fun w hw => ?_) a
  rcases mem_append.mp hw with hw | hw
  · exact length_of_mem_writes hw
  · rw [mem_singleton.mp hw]
    decide +kernel

lemma data_append (h : B.records = A.records ++ [r]) :
    B.data = A.data ++ utf8 (r.line ++ ['\n']) := by
  rw [UserStore.data, UserStore.data, h, recordsText, flatMap_append, utf8_append, flatMap_singleton]
  rfl

lemma applyUserBlob_last {r : UserRecord} (h : B.records = A.records ++ [r]) :
    ∃ migrated, applyUserBlob sha (A.data ++ utf8 r.line) = some (B, migrated) := by
  have hl : lines (recordsText A.records ++ r.line) = B.records.map UserRecord.line ++ [] := by
    have hne : r.line ≠ [] := by
      rw [UserRecord.line]
      simp
    rw [lines_recordsText, lines_of_visible (line_visible r) hne, h, map_append, append_nil]
    rfl
  have hp : parseLines sha (lines (recordsText A.records ++ r.line)) [] false = (B.records, false) := by
    rw [hl, parseLines_text sha _ _ _ (by simpa using B.small)]
    rfl
  refine ⟨false, ?_⟩
  have hne : B.records ≠ [] := by
    rw [h]
    exact append_ne_nil_of_right_ne_nil _ (cons_ne_nil _ _)
  rw [UserStore.data, ← utf8_append, applyUserBlob_utf8]
  simp only [hp, if_neg hne]

lemma applyUserBlob_take {r : UserRecord} (hne : A.records ≠ []) (h : B.records = A.records ++ [r]) {n : Nat}
    (hn : n ≤ r.line.length) :
    ∃ migrated, applyUserBlob sha (A.data ++ utf8 (r.line.take n)) = some (A, migrated) ∨
      applyUserBlob sha (A.data ++ utf8 (r.line.take n)) = some (B, migrated) := by
  by_cases hs : n = r.line.length
  · obtain ⟨migrated, hb⟩ := @applyUserBlob_last sha A B r h
    rw [hs, take_length]
    exact ⟨migrated, .inr hb⟩
  · have ho := parseLine_take r (by omega : n < r.line.length)
    obtain ⟨migrated, hb⟩ := @applyUserBlob_append sha A hne (r.line.take n) (.inr (by
      intro line hl name password role hp
      by_cases hnl : r.line.take n = []
      · rw [hnl] at hl
        exact absurd hl not_mem_nil
      · rw [lines_of_visible (fun c hc => line_visible r c (mem_of_mem_take hc)) hnl, mem_singleton] at hl
        rw [hl, ho] at hp
        cases hp))
    exact ⟨migrated, .inl hb⟩

lemma rdropWhile_replicate {l : Bytes} (h : ∀ b ∈ l, b ≠ 0) (n : Nat) :
    (l ++ List.replicate n 0).rdropWhile (· == 0) = l := by
  have hz : (List.replicate n (0 : UInt8)).rdropWhile (· == 0) = [] := by
    rw [rdropWhile_eq_nil_iff]
    intro b hb
    rw [eq_of_mem_replicate hb]
    rfl
  cases hl : l.getLast? with
  | none => rw [getLast?_eq_none_iff.mp hl, nil_append, hz]
  | some b => rw [rdropWhile_append hl (h b (mem_of_getLast? hl)), hz, append_nil]

lemma take_line (r : UserRecord) (hn : n ≤ r.line.length) :
    (utf8 (r.line ++ ['\n'])).take n = utf8 (r.line.take n) ∧ ∀ b ∈ utf8 (r.line.take n), b ≠ 0 := by
  have ha := line_newline_ascii r
  have hl : ∀ c ∈ r.line.take n, 1 ≤ c.toNat ∧ c.toNat ≤ 127 := fun c hc =>
    ha c (mem_append_left _ (mem_of_mem_take hc))
  constructor
  · rw [utf8_eq_map fun c hc => (ha c hc).2, utf8_eq_map fun c hc => (hl c hc).2, ← map_take, take_append_of_le_length hn]
  · intro b hb
    rw [utf8_eq_map fun c hc => (hl c hc).2] at hb
    obtain ⟨c, hc, rfl⟩ := mem_map.mp hb
    have hp := hl c hc
    intro hz
    have ht : c.toNat % 256 = 0 := by
      have := congrArg UInt8.toNat hz
      rwa [UInt32.toNat_toUInt8] at this
    omega

lemma found_take (hh : parseHeader (d hdrLba) = some recordSectors) (hn : usedSectors B.data ≤ n) :
    found sha (apply d ((userWrites B.data).take n)) = found sha (apply d (userWrites B.data)) := by
  have ht : (userWrites B.data).take n = writes sectorSize (recordBlocks (usedSectors B.data)) B.data ++
      [(hdrLba, encodeHeader recordSectors)].take (n - usedSectors B.data) := by
    have hs : (writes sectorSize (recordBlocks (usedSectors B.data)) B.data).length = usedSectors B.data := by
      rw [length_writes, recordBlocks, length_range']
    rw [userWrites, take_append, take_of_length_le (by omega), hs]
  refine found_congr ?_ ?_ (flatMap_congr fun a ha => ?_)
  · rw [apply_userWrites_header, parseHeader_encodeHeader]
  · rw [ht, apply_append]
    cases n - usedSectors B.data with
    | zero => rw [take_zero, apply_nil, apply_of_notMem (by simpa using hdrLba_notMem _), hh]
    | succ m => rw [take_succ_cons, take_nil, apply, apply_nil, Function.update_self, parseHeader_encodeHeader]
  · have hne : a ≠ hdrLba := by
      rintro rfl
      exact hdrLba_notMem _ ha
    rw [ht, apply_append, apply_userWrites _ hne, apply_of_notMem]
    intro hm
    obtain ⟨w, hw, rfl⟩ := mem_map.mp hm
    rw [mem_singleton.mp (mem_of_mem_take hw)] at hne
    exact hne rfl

lemma Appends.torn (hp : Appends d A B) (hn : n < usedSectors B.data) :
    parseHeader (apply d ((userWrites B.data).take n) hdrLba) = some recordSectors ∧
      n * sectorSize ≤ B.data.length ∧ (0 < n → n * sectorSize < B.data.length) ∧
      ∃ k, (recordBlocks recordSectors).flatMap d = A.data ++ List.replicate k 0 ∧
        (recordBlocks recordSectors).flatMap (apply d ((userWrites B.data).take n)) =
          B.data.take (n * sectorSize) ++ (A.data ++ List.replicate k 0).drop (n * sectorSize) := by
  obtain ⟨hh, hrw, -⟩ := hp
  have ht : (userWrites B.data).take n = (writes sectorSize (recordBlocks (usedSectors B.data)) B.data).take n := by
    refine take_append_of_le_length ?_
    rw [length_writes, recordBlocks, length_range']
    omega
  have hl : n * sectorSize ≤ B.data.length ∧ (0 < n → n * sectorSize < B.data.length) := by
    change n < max ((B.data.length + 512 - 1) / 512) 1 at hn
    change n * 512 ≤ B.data.length ∧ (0 < n → n * 512 < B.data.length)
    omega
  have hr : (recordBlocks recordSectors).flatMap d = A.data ++ List.replicate (behind blankDisk A.data).length 0 := by
    rw [flatMap_congr hrw, region_userWrites, ← behind_blankDisk]
  refine ⟨?_, hl.1, hl.2, (behind blankDisk A.data).length, hr, ?_⟩
  · rw [ht, apply_of_notMem, hh]
    intro hm
    obtain ⟨w, hw, hb⟩ := mem_map.mp hm
    refine hdrLba_notMem (usedSectors B.data) (hb ▸ ?_)
    rw [← @map_fst_writes sectorSize (recordBlocks (usedSectors B.data)) B.data]
    exact mem_map_of_mem (mem_of_mem_take hw)
  · rw [ht, region_take (fun a ha => by rw [hrw a ha, length_userWrites_blank]) (by omega)
      (usedSectors_bounds B).2 hl.1, hr]

lemma found_of_cut {r : UserRecord} (hne : A.records ≠ []) (hr : B.records = A.records ++ [r])
    (hh : parseHeader (d hdrLba) = some recordSectors) {m k : Nat} (hm : m ≤ r.line.length)
    (hg : (recordBlocks recordSectors).flatMap d = A.data ++ ((utf8 (r.line ++ ['\n'])).take m ++ List.replicate k 0)) :
    found sha d = some A ∨ found sha d = some B := by
  obtain ⟨hp, hy⟩ := take_line r hm
  have hu : ((recordBlocks recordSectors).flatMap d).rdropWhile (· == 0) = A.data ++ utf8 (r.line.take m) := by
    rw [hg, hp, rdropWhile_append (getLast?_data hne) (by decide), rdropWhile_replicate hy]
  have hl := @loadRecords_of_header sha _ _ hh (le_refl _) _ hu
    (append_ne_nil_of_left_ne_nil (data_ne_nil hne) _)
  obtain ⟨migrated, hb⟩ := @applyUserBlob_take sha A B r hne hr m hm
  rw [found, hl]
  rcases hb with hb | hb
  · rw [hb]
    exact .inl rfl
  · rw [hb]
    exact .inr rfl

lemma Appends.found (ha : Appends d A B) (hne : A.records ≠ []) (hq : Quiet sha d B) (ho : found sha d = some A) (n : Nat) :
    found sha (apply d ((userWrites B.data).take n)) = some A ∨ found sha (apply d ((userWrites B.data).take n)) = some B ∨
      found sha (apply d ((userWrites B.data).take n)) = none := by
  have ha' := ha
  obtain ⟨hh, -, r, hr⟩ := ha'
  by_cases hl : usedSectors B.data ≤ n
  · rw [found_take hh hl]
    exact .inr (found_userWrites hq).symm
  · obtain ⟨hh', hle, hlt, k, hg, ht⟩ := ha.torn (by omega : n < usedSectors B.data)
    have hd := data_append hr
    by_cases hct : n * sectorSize ≤ A.data.length
    · -- the sectors so far end before the new line
      refine .inl ((found_congr hh hh' ?_).trans ho)
      rw [ht, hg, hd, take_append_of_le_length hct, drop_append_of_le_length hct, ← append_assoc, take_append_drop]
    · obtain ⟨m, hm⟩ : ∃ m, n * sectorSize = A.data.length + m := ⟨n * sectorSize - A.data.length, by omega⟩
      have hml : m ≤ r.line.length := by
        have hb : (utf8 (r.line ++ ['\n'])).length = r.line.length + 1 := by
          rw [utf8_eq_map fun c hc => (line_newline_ascii r c hc).2, length_map, length_append]
          rfl
        have hp : 0 < n := by
          rcases Nat.eq_zero_or_pos n with rfl | hp
          · omega
          · exact hp
        have hlt := hlt hp
        rw [hd, length_append, hb] at hlt
        omega
      rw [hm, hd, take_length_add_append, drop_length_add_append, drop_replicate, append_assoc, ← hd] at ht
      rcases @found_of_cut sha _ A B r hne hr hh' m (k - m) hml ht with heq | heq
      · exact .inl heq
      · exact .inr (.inl heq)

def written (store : UserStore) : Nat → Bytes := apply blankDisk (userWrites store.data)

end

end ZeroOS.Security
