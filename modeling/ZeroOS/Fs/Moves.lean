import ZeroOS.Fs.Volume

/-!
# Renaming

A rename takes some entries out of the directory and puts them back under other paths. As the paths
they go to are all free, no entry is lost or doubled: the directory after it is the one before it
under other keys (`Rekeys`), and doing the same backwards restores it (`moveBack_moveAll`).
-/

namespace ZeroOS.Fs

open List Volume

def KeysNormal (m : Entries) : Prop := ∀ (k : Path) (e : DirectoryEntry), m[k]? = some e → NormalPath k

/-- The entries of `m`, under the keys that `ρ` gives them. -/
structure Rekeys (m m' : Entries) (ρ : Path → Path) : Prop where
  get : ∀ (k : Path) (e : DirectoryEntry), m'[k]? = some e ↔ ∃ k₀, m[k₀]? = some e ∧ ρ k₀ = k
  inj : ∀ (k₀ k₁ : Path) (e e' : DirectoryEntry), m[k₀]? = some e → m[k₁]? = some e' → ρ k₀ = ρ k₁ → k₀ = k₁

section

variable {dir : DirectoryIndex} {moves : List Move} {k : Path} {e : DirectoryEntry} (f : Move → Path)

lemma get_removeAll : (moves.foldl (fun dir m => dir.remove (f m)) dir).entries[k]? =
    if k ∈ moves.map (fun m => normalize (f m)) then none else dir.entries[k]? := by
  induction moves generalizing dir with
  | nil => simp
  | cons m moves ih =>
    rw [foldl_cons, ih, DirectoryIndex.remove, getElem?_erase', map_cons]
    by_cases hr : k ∈ moves.map fun m => normalize (f m)
    · rw [if_pos hr, if_pos (mem_cons_of_mem _ hr)]
    · by_cases hf : normalize (f m) = k
      · rw [if_neg hr, if_pos hf, if_pos (by simp [hf])]
      · rw [if_neg hr, if_neg hf, if_neg (by simp [Ne.symm hf, hr])]

lemma get_insertAll_of_notMem (h : k ∉ moves.map fun m => normalize (f m)) :
    (moves.foldl (fun dir m => dir.insert (f m) m.entry) dir).entries[k]? = dir.entries[k]? := by
  induction moves generalizing dir with
  | nil => rfl
  | cons m moves ih =>
    rw [map_cons, mem_cons, not_or] at h
    rw [foldl_cons, ih h.2, DirectoryIndex.insert, getElem?_insert', if_neg (Ne.symm h.1)]

lemma get_insertAll_of_mem (hme : k ∈ moves.map fun m => normalize (f m))
    (he : ∀ m ∈ moves, normalize (f m) = k → m.entry = e) :
    (moves.foldl (fun dir m => dir.insert (f m) m.entry) dir).entries[k]? = some e := by
  induction moves generalizing dir with
  | nil => cases hme
  | cons m moves ih =>
    rw [foldl_cons]
    by_cases hr : k ∈ moves.map fun m => normalize (f m)
    · exact ih hr fun m' hm' => he m' (mem_cons_of_mem _ hm')
    · have hf : normalize (f m) = k := by
        rw [map_cons, mem_cons] at hme
        exact (hme.resolve_right hr).symm
      rw [get_insertAll_of_notMem f hr, DirectoryIndex.insert, getElem?_insert', if_pos hf, he m mem_cons_self hf]

end

/-- The moves of a rename: what they take is there, where they put it is free, and they put two things
in one place only if they take them from one place. -/
structure Movable (m : Entries) (moves : List Move) : Prop where
  src : ∀ mv ∈ moves, m[normalize mv.src]? = some mv.entry
  dst : ∀ mv ∈ moves, m[normalize mv.dst]? = none
  agree : ∀ mv ∈ moves, ∀ mv' ∈ moves, normalize mv.dst = normalize mv'.dst ↔ normalize mv.src = normalize mv'.src

def destination (moves : List Move) (k : Path) : Path :=
  match moves.find? fun mv => normalize mv.src == k with
  | some mv => normalize mv.dst
  | none => k

namespace Movable

variable {dir : DirectoryIndex} {moves : List Move} {mv : Move} {k : Path} {e : DirectoryEntry}

lemma notMem_dst (h : Movable dir.entries moves) (hk : dir.entries[k]? = some e) :
    k ∉ moves.map fun mv => normalize mv.dst := by
  intro he
  obtain ⟨mv, hm, rfl⟩ := mem_map.mp he
  rw [h.dst mv hm] at hk
  cases hk

lemma destination_src (h : Movable dir.entries moves) (hm : mv ∈ moves) :
    destination moves (normalize mv.src) = normalize mv.dst := by
  unfold destination
  split
  next mv' hf =>
    have hs : normalize mv'.src = normalize mv.src := by simpa using find?_some hf
    exact (h.agree mv' (mem_of_find?_eq_some hf) mv hm).mpr hs
  next hf =>
    rw [find?_eq_none] at hf
    exact absurd (by simp) (hf mv hm)

lemma destination_of_notMem (hk : k ∉ moves.map fun mv => normalize mv.src) :
    destination moves k = k := by
  unfold destination
  split
  next mv hf =>
    have hs : normalize mv.src = k := by simpa using find?_some hf
    exact absurd (mem_map.mpr ⟨mv, mem_of_find?_eq_some hf, hs⟩) hk
  · rfl

lemma entry_eq (h : Movable dir.entries moves) (hm : mv ∈ moves) (hm' : mv' ∈ moves)
    (hs : normalize mv.src = normalize mv'.src) : mv.entry = mv'.entry := by
  have h1 := h.src mv hm
  rw [hs, h.src mv' hm'] at h1
  exact (Option.some.inj h1).symm

lemma get_dst (h : Movable dir.entries moves) (hm : mv ∈ moves) :
    (moveAll dir moves).entries[normalize mv.dst]? = some mv.entry := by
  refine get_insertAll_of_mem Move.dst (mem_map.mpr ⟨mv, hm, rfl⟩) fun mv' hm' heq => ?_
  exact h.entry_eq hm' hm ((h.agree mv' hm' mv hm).mp heq)

lemma get_of_notMem (hd : k ∉ moves.map fun mv => normalize mv.dst) : (moveAll dir moves).entries[k]? =
      if k ∈ moves.map (fun mv => normalize mv.src) then none else dir.entries[k]? := by
  unfold moveAll
  rw [get_insertAll_of_notMem Move.dst hd, get_removeAll Move.src]

lemma rekeys (h : Movable dir.entries moves) :
    Rekeys dir.entries (moveAll dir moves).entries (destination moves) := by
  have hg : ∀ (k₀ : Path) (e : DirectoryEntry), dir.entries[k₀]? = some e →
      (∃ mv ∈ moves, normalize mv.src = k₀ ∧ mv.entry = e ∧ destination moves k₀ = normalize mv.dst) ∨
        (k₀ ∉ moves.map (fun mv => normalize mv.src) ∧ destination moves k₀ = k₀) := by
    intro k₀ e hk₀
    by_cases he : k₀ ∈ moves.map fun mv => normalize mv.src
    · obtain ⟨mv, hm, rfl⟩ := mem_map.mp he
      refine .inl ⟨mv, hm, rfl, ?_, h.destination_src hm⟩
      rw [h.src mv hm] at hk₀
      exact Option.some.inj hk₀
    · exact .inr ⟨he, destination_of_notMem he⟩
  refine ⟨fun k e => ⟨fun hk => ?_, ?_⟩, ?_⟩
  · by_cases ht : k ∈ moves.map fun mv => normalize mv.dst
    · obtain ⟨mv, hm, rfl⟩ := mem_map.mp ht
      rw [h.get_dst hm] at hk
      exact ⟨normalize mv.src, by rw [h.src mv hm, hk], h.destination_src hm⟩
    · rw [get_of_notMem ht] at hk
      split at hk
      · cases hk
      next hs => exact ⟨k, hk, destination_of_notMem hs⟩
  · rintro ⟨k₀, hk₀, rfl⟩
    rcases hg k₀ e hk₀ with ⟨mv, hm, -, rfl, hd⟩ | ⟨hs, hd⟩
    · rw [hd]
      exact h.get_dst hm
    · rw [hd, get_of_notMem (h.notMem_dst hk₀), if_neg hs]
      exact hk₀
  · intro k₀ k₁ e e' hk₀ hk₁ heq
    rcases hg k₀ e hk₀ with ⟨mv, hm, rfl, -, hd⟩ | ⟨-, hd⟩ <;>
      rcases hg k₁ e' hk₁ with ⟨mv', hm', rfl, -, hd'⟩ | ⟨-, hd'⟩ <;>
      rw [hd, hd'] at heq
    · exact (h.agree mv hm mv' hm').mp heq
    · rw [← heq, h.dst mv hm] at hk₁
      cases hk₁
    · rw [heq, h.dst mv' hm'] at hk₀
      cases hk₀
    · exact heq

lemma moveBack_moveAll (h : Movable dir.entries moves) : moveBack (moveAll dir moves) moves = dir := by
  have he : (moveBack (moveAll dir moves) moves).entries = dir.entries := by
    refine Std.ExtTreeMap.ext_getElem? fun k => ?_
    unfold moveBack
    by_cases hs : k ∈ moves.map fun mv => normalize mv.src
    · obtain ⟨mv, hm, rfl⟩ := mem_map.mp hs
      rw [h.src mv hm]
      exact get_insertAll_of_mem Move.src hs fun mv' hm' heq => h.entry_eq hm' hm heq
    · rw [get_insertAll_of_notMem Move.src hs, get_removeAll Move.dst]
      by_cases hd : k ∈ moves.map fun mv => normalize mv.dst
      · obtain ⟨mv, hm, rfl⟩ := mem_map.mp hd
        rw [if_pos hd, h.dst mv hm]
      · rw [if_neg hd, get_of_notMem hd, if_neg hs]
  exact congrArg DirectoryIndex.mk he

end Movable

/-! ## The moves of `rename_path` -/

section

lemma mem_below : mv ∈ below m old new ↔ ∃ rest, m[trimEnd old ++ '/' :: rest]? = some mv.entry ∧
    mv.src = trimEnd old ++ '/' :: rest ∧ mv.dst = trimEnd new ++ '/' :: rest := by
  simp only [below, mem_map, mem_filter, isPrefixOf_iff_prefix]
  constructor
  · rintro ⟨⟨k, e⟩, ⟨hk, rest, rfl⟩, rfl⟩
    refine ⟨rest, ?_, by simp, by simp⟩
    simpa using mem_toList.mp hk
  · rintro ⟨rest, hk, hs, hd⟩
    refine ⟨(mv.src, mv.entry), ⟨mem_toList.mpr (hs ▸ hk), rest, by simp [hs]⟩, ?_⟩
    cases mv
    simp_all

lemma startsWithSlash_append (h : startsWithSlash p = true) :
    startsWithSlash (p ++ q) = true := by
  cases p with
  | nil => cases h
  | cons c l => simpa [startsWithSlash] using h

lemma normalPath_child (hp : pre = [] ∨ startsWithSlash pre = true)
    (hne : rest ≠ []) (hl : rest.getLast? ≠ some '/') : NormalPath (pre ++ '/' :: rest) := by
  refine ⟨?_, .inr ?_⟩
  · rcases hp with rfl | hp
    · rfl
    · exact startsWithSlash_append hp
  · rw [getLast?_append_cons, getLast?_cons_of_ne_nil hne]
    exact hl

lemma trimEnd_slash (hs : startsWithSlash new = true) :
    trimEnd new = [] ∨ startsWithSlash (trimEnd new) = true := by
  by_cases hne : trimEnd new = []
  · exact .inl hne
  · exact .inr (startsWithSlash_of_start (trimEnd_start new) hne hs)

lemma normalize_trimEnd_slash (hl : startsWithSlash new = true) :
    normalize (trimEnd new ++ ['/']) = normalize new := by
  have hs : startsWithSlash (trimEnd new ++ ['/']) = true := by
    rcases trimEnd_slash hl with hn | hs
    · rw [hn]
      rfl
    · exact startsWithSlash_append hs
  rw [normalize_eq, normalize_eq, trimEnd_append_slash, trimEnd_trimEnd, if_pos hs, if_pos hl]

lemma move_cases (hy : KeysNormal m) (hsl : startsWithSlash new = true)
    (ht : m[normalize old]? = some root) (hm : mv ∈ ⟨old, new, root⟩ :: below m old new) :
    (normalize mv.src = normalize old ∧ normalize mv.dst = normalize new ∧ mv.entry = root) ∨
      ∃ rest, rest ≠ [] ∧ m[mv.src]? = some mv.entry ∧ mv.src = trimEnd old ++ '/' :: rest ∧ NormalPath mv.src ∧
        mv.dst = trimEnd new ++ '/' :: rest ∧ NormalPath mv.dst := by
  rcases mem_cons.mp hm with rfl | hm
  · exact .inl ⟨rfl, rfl, rfl⟩
  obtain ⟨rest, he, hs, hd⟩ := mem_below.mp hm
  have hn := hy _ _ he
  by_cases hr : rest = []
  · -- a normal path that ends with a slash is the root of the volume
    subst hr
    have hk : trimEnd old ++ ['/'] = ['/'] := hn.2.resolve_right (by simp)
    have ho : normalize old = ['/'] := by rw [normalize_eq, if_pos (by simpa using hk)]
    rw [hk, ← ho, ht] at he
    refine .inl ⟨?_, ?_, (Option.some.inj he).symm⟩
    · rw [hs, hk, ho]
      rfl
    · rw [hd, normalize_trimEnd_slash hsl]
  · have hl : rest.getLast? ≠ some '/' := by
      rcases hn.2 with hk | hl
      · have hln := congrArg List.length hk
        have hp := length_pos_of_ne_nil hr
        simp only [length_append, length_cons, length_nil] at hln
        omega
      · rw [getLast?_append_cons, getLast?_cons_of_ne_nil hr] at hl
        exact hl
    refine .inr ⟨rest, hr, hs ▸ he, hs, hs ▸ hn, hd, ?_⟩
    rw [hd]
    exact normalPath_child (trimEnd_slash hsl) hr hl

lemma ne_normalize (h : rest ≠ []) : trimEnd pre ++ '/' :: rest ≠ normalize pre := by
  intro heq
  have hl := congrArg List.length heq
  have hle := length_normalize_le pre
  have hp := length_pos_of_ne_nil h
  simp only [length_append, length_cons] at hl
  omega

lemma movable_tree (hk : KeysNormal m) (hl : startsWithSlash new = true)
    (hw : m[normalize new]? = none) (hr : m[normalize old]? = some root)
    (hf : ∀ mv ∈ below m old new, m[mv.dst]? = none) :
    Movable m (⟨old, new, root⟩ :: below m old new) := by
  refine ⟨fun mv hm => ?_, fun mv hm => ?_, fun mv hm mv' hm' => ?_⟩
  · rcases move_cases hk hl hr hm with ⟨hs, -, ht⟩ | ⟨rest, -, he, -, hnr, -⟩
    · rw [hs, ht, hr]
    · rw [hnr.normalize_eq, he]
  · rcases mem_cons.mp hm with rfl | hb
    · exact hw
    rcases move_cases hk hl hr hm with ⟨-, hd, -⟩ | ⟨rest, -, -, -, -, -, hnr⟩
    · rw [hd, hw]
    · rw [hnr.normalize_eq, hf mv hb]
  · rcases move_cases hk hl hr hm with
      ⟨hs, hd, -⟩ | ⟨rest, hne, -, hs, hns, hd, hn⟩ <;>
    rcases move_cases hk hl hr hm' with
      ⟨hs', hd', -⟩ | ⟨rest', hne', -, hs', hns', hd', hn'⟩
    · simp [hs, hd, hs', hd']
    · rw [hs, hd, hns'.normalize_eq, hn'.normalize_eq, hs', hd']
      exact iff_of_false (Ne.symm (ne_normalize hne')) (Ne.symm (ne_normalize hne'))
    · rw [hs', hd', hns.normalize_eq, hn.normalize_eq, hs, hd]
      exact iff_of_false (ne_normalize hne) (ne_normalize hne)
    · rw [hns.normalize_eq, hn.normalize_eq, hns'.normalize_eq, hn'.normalize_eq, hs, hd, hs', hd']
      simp

lemma movable_single (hn : m[normalize new]? = none) (hr : m[normalize old]? = some root) :
    Movable m [⟨old, new, root⟩] := by
  constructor
  · simpa using hr
  · simpa using hn
  · simp

end

end ZeroOS.Fs
