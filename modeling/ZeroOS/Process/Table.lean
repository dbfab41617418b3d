import ZeroOS.Process.Record

/-!
# The process table

`PROCESS_TABLE` is a vector of optional records that only ever grows, up to `MAX_PROCESSES`; a
removed record leaves a hole that the next allocation reuses. The structure carries the two facts
every index-based function of the kernel relies on: the vector is no longer than `MAX_PROCESSES`,
and a record's `slot` field is the index it is stored at.

`get` is what the kernel sees at an index.
-/

namespace ZeroOS.Process

open List Option

structure ProcessTable where
  entries : List (Option ProcessRecord)
  size_le : entries.length ≤ maxProcesses
  slot_eq : ∀ {i : Nat} {r : ProcessRecord}, entries[i]? = some (some r) → r.slot = i

namespace ProcessTable

/-- The record at an index, if the slot exists and is taken. -/
def get (t : ProcessTable) (slot : Nat) : Option ProcessRecord := (t.entries[slot]?).join

def empty : ProcessTable where
  entries := []
  size_le := Nat.zero_le _
  slot_eq := by simp

variable {t : ProcessTable} {i j : Nat} {r : ProcessRecord} {p : ProcessRecord → Bool} {pid : Nat}

lemma get_eq_some : t.get i = some r ↔ t.entries[i]? = some (some r) := by
  rw [get, join_eq_some_iff]

lemma slot_of_get (h : t.get i = some r) : r.slot = i := t.slot_eq (get_eq_some.mp h)

/-! ## Changing one row -/

/-- Empty a slot: `table[slot].take()`. -/
def take (t : ProcessTable) (slot : Nat) : ProcessTable where
  entries := t.entries.set slot none
  size_le := by rw [length_set]; exact t.size_le
  slot_eq := by
    intro i r h
    rw [getElem?_set] at h
    split at h
    · split at h <;> simp at h
    · exact t.slot_eq h

lemma get_take (t : ProcessTable) (i j : Nat) : (t.take i).get j = if j = i then none else t.get j := by
  simp only [get, take, getElem?_set]
  by_cases h : i = j
  · subst h
    by_cases hlt : i < t.entries.length <;> simp [hlt]
  · simp [h, Ne.symm h]

@[simp] lemma get_take_self (t : ProcessTable) (i : Nat) : (t.take i).get i = none := by
  simp [get_take]

lemma get_take_of_ne (t : ProcessTable) (h : j ≠ i) : (t.take i).get j = t.get j := by
  simp [get_take, h]

/-- Apply `f` to the record at a slot, if there is one; `f` keeps the `slot` field. -/
def modify (t : ProcessTable) (slot : Nat) (f : ProcessRecord → ProcessRecord)
    (hf : ∀ r, (f r).slot = r.slot := by intro; rfl) : ProcessTable where
  entries := t.entries.modify slot (Option.map f)
  size_le := by rw [length_modify]; exact t.size_le
  slot_eq := by
    intro i r h
    rw [getElem?_modify] at h
    split at h
    · obtain ⟨e, he, hr⟩ := map_eq_some_iff.mp h
      obtain ⟨r', rfl, rfl⟩ := map_eq_some_iff.mp hr
      rw [hf]
      exact t.slot_eq he
    · exact t.slot_eq (by simpa using h)

lemma get_modify (t : ProcessTable) (i j : Nat) (f : ProcessRecord → ProcessRecord) (hf : ∀ r, (f r).slot = r.slot) :
    (t.modify i f hf).get j = if j = i then (t.get j).map f else t.get j := by
  simp only [get, modify, getElem?_modify]
  by_cases h : i = j
  · subst h
    cases t.entries[i]? with
    | none => simp
    | some e => cases e <;> simp
  · simp [h, Ne.symm h]

lemma get_modify_of_ne {hf : ∀ r, (f r).slot = r.slot} (h : j ≠ i) : (t.modify i f hf).get j = t.get j := by
  simp [get_modify, h]

/-! ## A new row -/

/-- `alloc_table_slot_locked`: the first hole, else one slot more if the table may grow. -/
def allocSlot (t : ProcessTable) : Option Nat :=
  match t.entries.findIdx? (·.isNone) with
  | some i => some i
  | none => if t.entries.length < maxProcesses then some t.entries.length else none

lemma allocSlot_spec (h : t.allocSlot = some i) :
    t.get i = none ∧ i ≤ t.entries.length ∧ i < maxProcesses := by
  unfold allocSlot at h
  split at h
  next k hk =>
    cases h
    obtain ⟨hlt, hn, -⟩ := findIdx?_eq_some_iff_getElem.mp hk
    refine ⟨?_, Nat.le_of_lt hlt, Nat.lt_of_lt_of_le hlt t.size_le⟩
    rw [get, getElem?_eq_getElem hlt]
    simpa using hn
  · split at h
    · cases h
      exact ⟨by simp [get], Nat.le_refl _, ‹_›⟩
    · cases h

/-- Store `r` at an index that exists or is the next one. -/
def put (t : ProcessTable) (i : Nat) (r : ProcessRecord) (hr : r.slot = i)
    (hi : i ≤ t.entries.length) (hmax : i < maxProcesses) : ProcessTable where
  entries := if i < t.entries.length then t.entries.set i (some r) else t.entries ++ [some r]
  size_le := by
    have := t.size_le
    split <;> simp <;> omega
  slot_eq := by
    intro j r' h
    split at h
    · rw [getElem?_set] at h
      split at h
      · rename_i hij
        have hrr : r = r' := by simpa using h
        rw [← hrr, hr, hij]
      · exact t.slot_eq h
    · rename_i hlt
      rw [getElem?_append] at h
      split at h
      · exact t.slot_eq h
      · have hj : j - t.entries.length = 0 ∧ r = r' := by
          rcases hk : j - t.entries.length with _ | k
          · simpa [hk] using h
          · simp [hk] at h
        rw [← hj.2, hr]
        omega

lemma get_put (t : ProcessTable) (i j : Nat) (r : ProcessRecord) (hr : r.slot = i)
    (hi : i ≤ t.entries.length) (hm : i < maxProcesses) :
    (t.put i r hr hi hm).get j = if j = i then some r else t.get j := by
  simp only [get, put]
  by_cases hlt : i < t.entries.length
  · simp only [hlt, if_true, getElem?_set]
    by_cases h : i = j
    · subst h; simp
    · simp [h, Ne.symm h]
  · obtain rfl : i = t.entries.length := by omega
    simp only [Nat.lt_irrefl, if_false, getElem?_append]
    by_cases hj : j < t.entries.length
    · simp [hj, Nat.ne_of_lt hj]
    · by_cases heq : j = t.entries.length
      · subst heq; simp
      · obtain ⟨k, hk⟩ : ∃ k, j - t.entries.length = k + 1 := ⟨j - t.entries.length - 1, by omega⟩
        simp [hj, heq, hk]

/-- Write a new record, built for the slot it goes to, into a free slot. `none` is `TableFull`. -/
def insert (t : ProcessTable) (mk : Nat → ProcessRecord)
    (hmk : ∀ i, (mk i).slot = i := by intro; rfl) : Option (Nat × ProcessTable) :=
  match h : t.allocSlot with
  | some i => some (i, t.put i (mk i) (hmk i) (allocSlot_spec h).2.1 (allocSlot_spec h).2.2)
  | none => none

lemma insert_spec {mk : Nat → ProcessRecord} {hm : ∀ i, (mk i).slot = i} {t' : ProcessTable}
    (h : t.insert mk hm = some (i, t')) :
    t.get i = none ∧ ∀ j, t'.get j = if j = i then some (mk i) else t.get j := by
  unfold insert at h
  split at h
  next k hk =>
    cases h
    exact ⟨(allocSlot_spec hk).1, fun j => get_put ..⟩
  · cases h

/-! ## Searching -/

/-- The index of the first record that satisfies `p`. -/
def position (t : ProcessTable) (p : ProcessRecord → Bool) : Option Nat := t.entries.findIdx? (·.any p)

lemma position_eq_some (h : t.position p = some i) : ∃ r, t.get i = some r ∧ p r = true := by
  obtain ⟨hlt, hp, -⟩ := List.findIdx?_eq_some_iff_getElem.mp h
  obtain ⟨r, hr, hpr⟩ := (Option.any_eq_true ..).mp hp
  exact ⟨r, by rw [get, List.getElem?_eq_getElem hlt, hr]; rfl, hpr⟩

lemma position_eq_none (h : t.position p = none) (hr : t.get i = some r) : p r = false := by
  have hm : some r ∈ t.entries := mem_of_getElem? (get_eq_some.mp hr)
  have := findIdx?_eq_none_iff.mp h _ hm
  simpa using this

/-- The index of the record with a given pid: `iter().flatten().find(|r| r.pid == pid)`. -/
def find (t : ProcessTable) (pid : Nat) : Option Nat := t.position (·.pid == pid)

lemma find_eq_some (h : t.find pid = some i) : ∃ r, t.get i = some r ∧ r.pid = pid := by
  obtain ⟨r, hr, hp⟩ := position_eq_some h
  exact ⟨r, hr, by simpa using hp⟩

lemma find_eq_none (h : t.find pid = none) (hr : t.get i = some r) : r.pid ≠ pid := by
  simpa using position_eq_none h hr

lemma find_isSome (hr : t.get i = some r) (hp : r.pid = pid) : ∃ j, t.find pid = some j := by
  cases h : t.find pid with
  | some j => exact ⟨j, rfl⟩
  | none => exact absurd hp (find_eq_none h hr)

def lookup (t : ProcessTable) (pid : Nat) : Option ProcessRecord := (t.find pid).bind t.get

lemma lookup_eq_some (h : t.lookup pid = some r) :
    t.get r.slot = some r ∧ r.pid = pid := by
  obtain ⟨i, hi, hr⟩ := bind_eq_some_iff.mp h
  obtain ⟨r', hr', hp⟩ := find_eq_some hi
  obtain rfl := mem_unique hr' hr
  exact ⟨slot_of_get hr ▸ hr, hp⟩

lemma lookup_eq_none (h : t.lookup pid = none) (hr : t.get i = some r) :
    r.pid ≠ pid := by
  intro hp
  obtain ⟨j, hj⟩ := find_isSome hr hp
  obtain ⟨r', hr', -⟩ := find_eq_some hj
  simp [lookup, hj, hr'] at h

def PidsUnique (t : ProcessTable) : Prop := ∀ (i j : Nat) (r r' : ProcessRecord),
    t.get i = some r → t.get j = some r' → r.pid = r'.pid → i = j

lemma PidsUnique.lookup_iff (h : t.PidsUnique) :
    t.lookup pid = some r ↔ t.get r.slot = some r ∧ r.pid = pid := by
  refine ⟨lookup_eq_some, fun ⟨hr, hp⟩ => ?_⟩
  obtain ⟨j, hj⟩ := find_isSome hr hp
  obtain ⟨r', hr', hp'⟩ := find_eq_some hj
  obtain rfl := h _ _ _ _ hr hr' (hp.trans hp'.symm)
  rw [lookup, hj]
  exact hr

lemma PidsUnique.lookup_of_get (h : t.PidsUnique) (hr : t.get i = some r) :
    t.lookup r.pid = some r :=
  h.lookup_iff.mpr ⟨slot_of_get hr ▸ hr, rfl⟩

/-! ## Changing every row -/

/-- Replace every record by `f` of it, which keeps the slot or empties it. -/
def mapAll (t : ProcessTable) (f : ProcessRecord → Option ProcessRecord)
    (hf : ∀ r r', f r = some r' → r'.slot = r.slot) : ProcessTable where
  entries := t.entries.map (·.bind f)
  size_le := by rw [length_map]; exact t.size_le
  slot_eq := by
    intro i r h
    rw [getElem?_map] at h
    obtain ⟨e, he, hr⟩ := map_eq_some_iff.mp h
    obtain ⟨r', rfl, hr'⟩ := bind_eq_some_iff.mp hr
    rw [hf r' r hr']
    exact t.slot_eq he

lemma get_mapAll (t : ProcessTable) (f : ProcessRecord → Option ProcessRecord)
    (hf : ∀ r r', f r = some r' → r'.slot = r.slot) (j : Nat) :
    (t.mapAll f hf).get j = (t.get j).bind f := by
  simp only [get, mapAll, getElem?_map]
  cases t.entries[j]? with
  | none => rfl
  | some e => rfl

def records (t : ProcessTable) : List ProcessRecord := t.entries.filterMap id

lemma mem_records : r ∈ t.records ↔ ∃ i, t.get i = some r := by
  simp only [records, mem_filterMap, id_eq, exists_eq_right]
  constructor
  · intro h
    obtain ⟨i, hi⟩ := mem_iff_getElem?.mp h
    exact ⟨i, get_eq_some.mpr hi⟩
  · rintro ⟨i, hi⟩
    exact mem_of_getElem? (get_eq_some.mp hi)

lemma records_slots_nodup (t : ProcessTable) : (t.records.map (·.slot)).Nodup := by
  rw [records, List.Nodup, pairwise_map, pairwise_filterMap, pairwise_iff_getElem]
  intro i j hi hj hlt r hr r' hr'
  have hri : t.entries[i]? = some (some r) := by rw [getElem?_eq_getElem hi]; simpa using hr
  have hrj : t.entries[j]? = some (some r') := by rw [getElem?_eq_getElem hj]; simpa using hr'
  rw [t.slot_eq hri, t.slot_eq hrj]
  exact Nat.ne_of_lt hlt

lemma length_records_le (t : ProcessTable) : t.records.length ≤ maxProcesses := Nat.le_trans (length_filterMap_le _ _) t.size_le

end ProcessTable

end ZeroOS.Process
