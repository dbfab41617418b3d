import ZeroOS.Fs.Service

/-!
# The namespace

The directory is a flat map from paths to entries. It is a tree if every path has a parent that is a
directory, and then every entry can be found by listing directories from the root on (`Tree.listed`).

Making a directory and moving something look at the parent of the new path, and removing a directory looks at
what is below it. Writing a file looks at neither, and a directory can be moved below itself: what keeps the
directory a tree is that no request does that.
-/

namespace ZeroOS.Fs

open Disk Joined List Option Transition Volume Wire

variable {G : Geometry} {crc : Bytes → UInt32} {sha : Bytes → Digest} {options : MountOptions}

def IsDir (m : Entries) (ps : List Path) : Prop := ps = [] ∨ ∃ e : DirectoryEntry, m[key ps]? = some e ∧ e.kind = .directory

structure Tree (m : Entries) : Prop where
  named : ∀ (k : Path) (e : DirectoryEntry), m[k]? = some e → ∃ ps, Parts '/' ps ∧ k = key ps
  parent : ∀ (ps : List Path) (e : DirectoryEntry), Parts '/' ps → m[key ps]? = some e → IsDir m ps.dropLast
  root : ∀ e : DirectoryEntry, m[key []]? = some e → e.kind = .directory

namespace Tree

variable {m : Entries} {ps : List Path} {e : DirectoryEntry}

lemma empty : Tree ∅ := ⟨fun k e hk => by simp at hk, fun ps e _ hk => by simp at hk, fun e hk => by simp at hk⟩

lemma keysNormal (h : Tree m) : KeysNormal m := by
  intro k e hk
  obtain ⟨ps, hp, rfl⟩ := h.named k e hk
  exact normalPath_key hp

lemma childless (h : Tree m) (hp : Parts '/' ps) (he : m[key ps]? = some e) (hk : e.kind ≠ .directory)
    (hs : Parts '/' qs) (hq : m[key qs]? = some e') :
    qs.dropLast ≠ ps := by
  rintro rfl
  rcases h.parent qs e' hs hq with hn | ⟨e₁, he₁, hd⟩
  · rw [hn] at he
    exact hk (h.root e he)
  · rw [he₁] at he
    exact hk (some.inj he ▸ hd)

lemma dropLast_ne (hne : ps ≠ []) : ps.dropLast ≠ ps := by
  intro h
  have hl := congrArg List.length h
  have hp := length_pos_of_ne_nil hne
  rw [length_dropLast] at hl
  omega

lemma insert (h : Tree m) (hp : Parts '/' ps) (hpr : IsDir m ps.dropLast) (hr : ps = [] → e.kind = .directory)
    (hf : e.kind = .directory ∨ ∀ (qs : List Path) (e' : DirectoryEntry), Parts '/' qs →
      m[key qs]? = some e' → qs ≠ [] → qs.dropLast ≠ ps) : Tree (m.insert (key ps) e) where
  named k e' hk := by
    rw [getElem?_insert'] at hk
    split at hk
    next heq => exact ⟨ps, hp, heq.symm⟩
    · exact h.named k e' hk
  parent qs e' hqs hq := by
    rw [getElem?_insert'] at hq
    -- what was a directory is one, unless it is the new entry
    have hkp : ∀ rs, Parts '/' rs → IsDir m rs → (rs = ps → e.kind = .directory) → IsDir (m.insert (key ps) e) rs := by
      rintro rs hrs (hn | ⟨e₁, he₁, hd⟩) hm
      · exact .inl hn
      · by_cases heq : ps = rs
        · subst heq
          exact .inr ⟨e, by rw [getElem?_insert', if_pos rfl], hm rfl⟩
        · refine .inr ⟨e₁, ?_, hd⟩
          rw [getElem?_insert', if_neg (fun hy => heq (key_inj hp hrs hy))]
          exact he₁
    split at hq
    next heq =>
      obtain rfl := key_inj hp hqs heq
      refine hkp _ hp.dropLast hpr fun hs => ?_
      by_cases hn : ps = []
      · exact hr hn
      · exact absurd hs (dropLast_ne hn)
    · by_cases hn : qs = []
      · subst hn
        exact .inl rfl
      refine hkp _ hqs.dropLast (h.parent qs e' hqs hq) fun hs => ?_
      exact hf.resolve_right fun ho => ho qs e' hqs hq hn hs
  root e' he' := by
    rw [getElem?_insert'] at he'
    split at he'
    next heq =>
      obtain rfl := key_inj hp parts_nil heq
      cases he'
      exact hr rfl
    · exact h.root e' he'

lemma erase (h : Tree m) (hp : Parts '/' ps)
    (hf : ∀ (qs : List Path) (e' : DirectoryEntry), Parts '/' qs → m[key qs]? = some e' → qs ≠ [] →
      qs.dropLast ≠ ps) : Tree (m.erase (key ps)) where
  named k e' hk := by
    rw [getElem?_erase'] at hk
    split at hk
    · cases hk
    · exact h.named k e' hk
  parent qs e' hs hq := by
    rw [getElem?_erase'] at hq
    split at hq
    · cases hq
    by_cases hn : qs = []
    · subst hn
      exact .inl rfl
    rcases h.parent qs e' hs hq with hr | ⟨e₁, he₁, hd⟩
    · exact .inl hr
    · refine .inr ⟨e₁, ?_, hd⟩
      have hne := hf qs e' hs hq hn
      rw [getElem?_erase', if_neg fun hy => hne (key_inj hp hs.dropLast hy).symm]
      exact he₁
  root e' he' := by
    rw [getElem?_erase'] at he'
    split at he'
    · cases he'
    · exact h.root e' he'

lemma of_rekey {m' : Entries} {σ : List Path → List Path} (hg : ∀ (k : Path) (e : DirectoryEntry), m'[k]? = some e ↔
      ∃ qs, Parts '/' qs ∧ m[key qs]? = some e ∧ key (σ qs) = k)
    (hσ : ∀ qs, Parts '/' qs → Parts '/' (σ qs))
    (hp : ∀ (qs : List Path) (e : DirectoryEntry), Parts '/' qs → m[key qs]? = some e →
      (σ qs).dropLast = [] ∨ ∃ (rs : List Path) (e' : DirectoryEntry), Parts '/' rs ∧
        m[key rs]? = some e' ∧ e'.kind = .directory ∧ σ rs = (σ qs).dropLast)
    (ht : ∀ (qs : List Path) (e : DirectoryEntry), Parts '/' qs → m[key qs]? = some e → σ qs = [] →
      e.kind = .directory) : Tree m' where
  named k e hk := by
    obtain ⟨qs, hs, -, rfl⟩ := (hg k e).mp hk
    exact ⟨σ qs, hσ qs hs, rfl⟩
  parent ps e hps hk := by
    obtain ⟨qs, hs, hq, hy⟩ := (hg _ e).mp hk
    obtain rfl := key_inj (hσ qs hs) hps hy
    rcases hp qs e hs hq with hn | ⟨rs, e', hrs, hr, hd, heq⟩
    · exact .inl hn
    · exact .inr ⟨e', (hg _ e').mpr ⟨rs, hrs, hr, by rw [heq]⟩, hd⟩
  root e he := by
    obtain ⟨qs, hs, hq, hy⟩ := (hg _ e).mp he
    exact ht qs e hs hq (key_inj (hσ qs hs) parts_nil hy)

end Tree

/-! ## Renaming -/

section

variable {m : Entries} {os ns : List Path} {root : DirectoryEntry} {qs : List Path}

/-- The names after a directory has been moved, with all that is below it. -/
def moveNames (os ns qs : List Path) : List Path := if os <+: qs then ns ++ qs.drop os.length else qs

def moveName (os ns qs : List Path) : List Path := if qs = os then ns else qs

@[simp] lemma moveNames_append (rs : List Path) : moveNames os ns (os ++ rs) = ns ++ rs := by
  simp [moveNames]

lemma moveNames_self : moveNames os ns os = ns := by
  simp [moveNames]

lemma moveNames_of_not (h : ¬os <+: qs) : moveNames os ns qs = qs := if_neg h

lemma parts_moveNames (hn : Parts '/' ns) (hq : Parts '/' qs) :
    Parts '/' (moveNames os ns qs) := by
  unfold moveNames
  split
  · exact parts_append.mpr ⟨hn, fun p hp => hq p (mem_of_mem_drop hp)⟩
  · exact hq

lemma Tree.moveDir (h : Tree m) (ho : Parts '/' os) (hns : Parts '/' ns)
    (ht : m[key os]? = some root) (hk : root.kind = .directory) (hp : IsDir m ns.dropLast)
    (hor : ns.dropLast = [] ∨ ¬os <+: ns.dropLast)
    (hg : ∀ (k : Path) (e : DirectoryEntry), m'[k]? = some e ↔
      ∃ qs, Parts '/' qs ∧ m[key qs]? = some e ∧ key (moveNames os ns qs) = k) : Tree m' := by
  refine .of_rekey hg (fun qs hs => parts_moveNames hns hs) (fun qs e hs hq => ?_) fun qs e hs hq hn => ?_
  · by_cases hb : os <+: qs
    · obtain ⟨rs, rfl⟩ := hb
      rw [moveNames_append]
      by_cases hr : rs = []
      · subst hr
        rw [append_nil]
        rcases hp with hn | ⟨e₁, he₁, hd⟩
        · exact .inl hn
        · rcases hor with hn | hu
          · exact .inl hn
          · exact .inr ⟨ns.dropLast, e₁, hns.dropLast, he₁, hd, moveNames_of_not hu⟩
      · refine .inr ?_
        rw [dropLast_append_of_ne_nil hr]
        rcases h.parent _ e hs hq with hn | ⟨e₁, he₁, hd⟩
        · -- the root of the volume was moved, and this was right below it
          rw [dropLast_append_of_ne_nil hr, append_eq_nil_iff] at hn
          exact ⟨os, root, ho, ht, hk, by rw [moveNames_self, hn.2, append_nil]⟩
        · refine ⟨_, e₁, hs.dropLast, he₁, hd, ?_⟩
          rw [dropLast_append_of_ne_nil hr, moveNames_append]
    · rw [moveNames_of_not hb]
      rcases h.parent qs e hs hq with hn | ⟨e₁, he₁, hd⟩
      · exact .inl hn
      · refine .inr ⟨qs.dropLast, e₁, hs.dropLast, he₁, hd, moveNames_of_not fun hpr => hb ?_⟩
        exact hpr.trans ( dropLast_prefix qs)
  · by_cases hb : os <+: qs
    · obtain ⟨rs, rfl⟩ := hb
      rw [moveNames_append, append_eq_nil_iff] at hn
      rw [hn.2, append_nil, ht] at hq
      exact some.inj hq ▸ hk
    · rw [moveNames_of_not hb] at hn
      subst hn
      exact h.root e hq

lemma Tree.moveOne (h : Tree m) (ho : Parts '/' os) (hns : Parts '/' ns)
    (hrt : m[key os]? = some root) (hk : root.kind ≠ .directory) (hp : IsDir m ns.dropLast)
    (ht : ns ≠ [])
    (hg : ∀ (k : Path) (e : DirectoryEntry), m'[k]? = some e ↔
      ∃ qs, Parts '/' qs ∧ m[key qs]? = some e ∧ key (moveName os ns qs) = k) : Tree m' := by
  -- a directory is not what was moved
  have hdr : ∀ (rs : List Path) (e : DirectoryEntry), m[key rs]? = some e → e.kind = .directory → moveName os ns rs = rs := by
    intro rs e hr hd
    refine if_neg ?_
    rintro rfl
    rw [hrt] at hr
    exact hk (some.inj hr ▸ hd)
  refine .of_rekey hg (fun qs hqs => ?_) (fun qs e hqs hq => ?_) fun qs e hqs hq hn => ?_
  · unfold moveName
    split
    · exact hns
    · exact hqs
  · by_cases hs : qs = os
    · subst hs
      rw [moveName, if_pos rfl]
      rcases hp with hn | ⟨e₁, he₁, hd⟩
      · exact .inl hn
      · exact .inr ⟨_, e₁, hns.dropLast, he₁, hd, hdr _ e₁ he₁ hd⟩
    · rw [moveName, if_neg hs]
      rcases h.parent qs e hqs hq with hn | ⟨e₁, he₁, hd⟩
      · exact .inl hn
      · exact .inr ⟨_, e₁, hqs.dropLast, he₁, hd, hdr _ e₁ he₁ hd⟩
  · unfold moveName at hn
    split at hn
    · exact absurd hn ht
    · subst hn
      exact h.root e hq

lemma endsWithSlash_key (hp : Parts '/' ps) (hne : ps ≠ []) :
    endsWithSlash (key ps) = false := by
  have hl := getLast?_join hp
  rw [endsWithSlash, key_of_ne hne]
  simpa using hl

lemma childPrefix_key (hp : Parts '/' ps) : childPrefix (key ps) = join '/' ps ++ ['/'] := by
  by_cases hne : ps = []
  · rw [hne]
    rfl
  · rw [childPrefix, endsWithSlash_key hp hne, key_of_ne hne]
    rfl

lemma key_append (rs : List Path) (hr : rs ≠ []) : key (os ++ rs) = join '/' os ++ join '/' rs := by
  rw [key_of_ne (by simp [hr]), join_append]

lemma exists_slash_of_ne (hr : rs ≠ []) : ∃ rest, join '/' rs = '/' :: rest := by
  obtain ⟨r, rs, rfl⟩ := exists_cons_of_ne_nil hr
  exact ⟨_, rfl⟩

lemma start_of_key (ho : Parts '/' os) (hq : Parts '/' qs) (h : key qs = join '/' os ++ '/' :: rest) : os <+: qs := by
  by_cases hn : qs = []
  · -- only the root starts like the root
    rw [hn, key_nil] at h
    have hl := congrArg List.length h
    simp only [length_append, length_cons, length_nil] at hl
    have hz : join '/' os = [] := length_eq_zero_iff.mp (by omega)
    rw [join_eq_nil_iff.mp hz]
    exact nil_prefix
  · rw [key_of_ne hn] at h
    obtain ⟨rs, -, rfl, -⟩ := exists_of_join_append ho hq h
    exact prefix_append os rs

lemma destination_tree (h : Tree m) (ho : Parts '/' os) (hn : Parts '/' ns)
    (hms : moves = ⟨key os, key ns, root⟩ :: below m (key os) (key ns)) (hmo : Movable m moves)
    (hqs : Parts '/' qs) (hq : m[key qs]? = some e) :
    destination moves (key qs) = key (moveNames os ns qs) := by
  by_cases hb : os <+: qs
  · obtain ⟨rs, rfl⟩ := hb
    rw [moveNames_append]
    by_cases hr : rs = []
    · subst hr
      have hme : (⟨key os, key ns, root⟩ : Move) ∈ moves := hms ▸ mem_cons_self
      have hd := @Movable.destination_src ⟨m⟩ moves _ hmo hme
      rw [(normalPath_key ho).normalize_eq, (normalPath_key hn).normalize_eq] at hd
      rw [append_nil, append_nil, hd]
    · obtain ⟨rest, hre⟩ := exists_slash_of_ne hr
      have hs : key (os ++ rs) = trimEnd (key os) ++ '/' :: rest := by rw [trimEnd_key ho, ← hre, key_append rs hr]
      have ht : key (ns ++ rs) = trimEnd (key ns) ++ '/' :: rest := by rw [trimEnd_key hn, ← hre, key_append rs hr]
      have hme : (⟨key (os ++ rs), key (ns ++ rs), e⟩ : Move) ∈ moves := by
        rw [hms]
        exact mem_cons_of_mem _ (mem_below.mpr ⟨rest, hs ▸ hq, hs, ht⟩)
      have hd := @Movable.destination_src ⟨m⟩ moves _ hmo hme
      have hp : Parts '/' (ns ++ rs) := parts_append.mpr ⟨hn, (parts_append.mp hqs).2⟩
      rwa [(normalPath_key hqs).normalize_eq, (normalPath_key hp).normalize_eq] at hd
  · rw [moveNames_of_not hb]
    refine Movable.destination_of_notMem fun hme => hb ?_
    obtain ⟨mv, hm, hs⟩ := mem_map.mp hme
    rw [hms] at hm
    rcases mem_cons.mp hm with rfl | hm
    · rw [(normalPath_key ho).normalize_eq] at hs
      rw [key_inj ho hqs hs]
    · obtain ⟨rest, he, hf, -⟩ := mem_below.mp hm
      rw [hf, (h.keysNormal _ _ he).normalize_eq, trimEnd_key ho] at hs
      exact start_of_key ho hqs hs.symm

lemma destination_single (ho : Parts '/' os) (hn : Parts '/' ns) (hq : Parts '/' qs) :
    destination [⟨key os, key ns, root⟩] (key qs) = key (moveName os ns qs) := by
  unfold destination moveName
  rw [find?_cons, find?_nil]
  dsimp only
  rw [(normalPath_key ho).normalize_eq]
  by_cases heq : qs = os
  · subst heq
    simp [(normalPath_key hn).normalize_eq]
  · have hne : key os ≠ key qs := fun hk => heq (key_inj ho hq hk).symm
    have hb : (key os == key qs) = false := beq_eq_false_iff_ne.mpr hne
    rw [hb, if_neg heq]

end

/-! ## The requests -/

/-- A file can be put at a path: it is not the root, its parent is the root or a directory, and it is not
a directory that has something in it. -/
def Volume.Placeable (v : Volume) (path : Path) : Prop := path ≠ ['/'] ∧ v.hasParent path = true ∧
    ∀ e, v.directory.get path = some e → e.kind = .directory →
      ∀ (k : Path) (e' : DirectoryEntry), v.directory.entries[k]? = some e' → ¬childPrefix path <+: k

/-- Something can be moved: a directory not into itself, and something else not to the root. -/
def Volume.Renamable (v : Volume) (old new : Path) : Prop := ∀ root, v.directory.get old = some root →
    (root.kind = .directory → parentPath new = ['/'] ∨ ¬(parentPath new = old ∨ childPrefix old <+: parentPath new)) ∧
    (root.kind ≠ .directory → new ≠ ['/'])

/-- What the handlers do not check. -/
def Request.Sound (v : Volume) : Request → Prop
  | .vtOpen raw true => ∀ path, canonicalPath raw = some path → v.directory.get path = none → path ≠ ['/']
  | .write raw _ => ∀ path, canonicalPath raw = some path → v.Placeable path
  | .writeShared raw _ => ∀ path, canonicalPath raw = some path → v.Placeable path
  | .installBundle raw _ _ => ∀ path, canonicalPath raw = some path → v.Placeable path
  | .rename oldRaw newRaw => ∀ old new, canonicalPath oldRaw = some old → canonicalPath newRaw = some new → v.Renamable old new
  | _ => True

section

variable {v : Volume} {m : Entries} {ps : List Path}

lemma isDir_of_hasParent (hp : Parts '/' ps) (h : v.hasParent (key ps) = true) :
    IsDir v.directory.entries ps.dropLast := by
  unfold hasParent at h
  rw [parentPath_key hp, Bool.or_eq_true, decide_eq_true_eq] at h
  rcases h with hr | hd
  · exact .inl (key_inj hp.dropLast parts_nil hr)
  · obtain ⟨e, he, hk⟩ := (Option.any_eq_true ..).mp hd
    rw [DirectoryIndex.get, (normalPath_key hp.dropLast).normalize_eq] at he
    exact .inr ⟨e, he, of_decide_eq_true hk⟩

lemma childless_of_not_start (hp : Parts '/' ps)
    (h : ∀ (k : Path) (e : DirectoryEntry), m[k]? = some e → ¬childPrefix (key ps) <+: k)
    (qs : List Path) (e : DirectoryEntry) (hs : Parts '/' qs) (hq : m[key qs]? = some e) (hne : qs ≠ []) :
    qs.dropLast ≠ ps := by
  rintro rfl
  refine h _ e hq ?_
  rw [childPrefix_key hp]
  obtain ⟨last, hl⟩ := isSome_iff_exists.mp (getLast?_isSome.mpr hne)
  obtain ⟨rs, rfl⟩ := getLast?_eq_some_iff.mp hl
  rw [key_append [last] (by simp), dropLast_concat]
  exact ⟨last, by simp⟩

lemma Tree.place (h : Tree v.directory.entries) (hp : Parts '/' ps)
    (hl : v.Placeable (key ps)) : Tree (v.directory.entries.insert (key ps) e) := by
  obtain ⟨hne, hpr, hm⟩ := hl
  have hn : ps ≠ [] := by
    rintro rfl
    exact hne rfl
  refine h.insert hp (isDir_of_hasParent hp hpr) (fun heq => absurd heq hn) (.inr ?_)
  intro qs e' hs hq hqn
  cases ho : v.directory.entries[key ps]? with
  | none =>
    rintro rfl
    rcases h.parent qs e' hs hq with hr | ⟨e₁, he₁, -⟩
    · exact hn hr
    · rw [ho] at he₁
      cases he₁
  | some e₀ =>
    by_cases hk : e₀.kind = .directory
    · have hg : v.directory.get (key ps) = some e₀ := by rw [DirectoryIndex.get, (normalPath_key hp).normalize_eq, ho]
      exact childless_of_not_start hp (hm e₀ hg hk) qs e' hs hq hqn
    · exact h.childless hp ho hk hs hq

lemma outer_of_renamable (ho : Parts '/' os) (hs : Parts '/' ns)
    (h : parentPath (key ns) = ['/'] ∨ ¬(parentPath (key ns) = key os ∨ childPrefix (key os) <+: parentPath (key ns))) :
    ns.dropLast = [] ∨ ¬os <+: ns.dropLast := by
  rw [parentPath_key hs] at h
  rcases h with hrt | ht
  · exact .inl (key_inj hs.dropLast parts_nil hrt)
  · refine .inr fun hp => ht ?_
    obtain ⟨rs, hrs⟩ := hp
    rw [← hrs]
    by_cases hn : rs = []
    · exact .inl (by rw [hn, append_nil])
    · refine .inr ?_
      obtain ⟨rest, hr⟩ := exists_slash_of_ne hn
      rw [childPrefix_key ho, key_append rs hn, hr]
      exact ⟨rest, by simp⟩

lemma Tree.change (h : Tree v.directory.entries) (hiss : Issues v req op) (hs : req.Sound v)
    (hc : Change sha v op fresh entries old inode) : Tree entries := by
  cases hc with
  | @write path data expected fresh _ =>
    -- a file that is there stays where it is, and the others go to places that were looked at
    have hw : ∀ {raw : Path}, canonicalPath raw = some path → v.Placeable path →
        Tree (v.directory.entries.insert (normalize path)
          (newEntry v .file 0o644 data.1.length fresh (some (sha data.1)))) := by
      intro raw hr hpl
      obtain ⟨ps, hp, rfl⟩ := canonicalPath_eq hr
      rw [(normalPath_key hp).normalize_eq]
      exact h.place hp hpl
    cases hiss with
    | create hr hno hpr => exact hw hr ⟨hs _ hr hno, hpr, fun e he => by rw [hno] at he; cases he⟩
    | append hg hkn =>
      have hne : ¬InodeKind.file = InodeKind.directory := by decide
      obtain ⟨ps, hp, hy⟩ := h.named _ _ hg
      rw [DirectoryIndex.get, hy] at hg
      rw [hy]
      refine h.insert hp (h.parent ps _ hp hg) (fun hnl => ?_) (.inr fun qs e' hqs hq _ => ?_)
      · subst hnl
        exact absurd (hkn.symm.trans (h.root _ hg)) hne
      · exact h.childless hp hg (hkn ▸ hne) hqs hq
    | write hr | writeShared hr | install hr => exact hw hr (hs _ hr)
  | remove hg hkn =>
    obtain ⟨ps, hp, hy⟩ := h.named _ _ hg
    rw [hy] at hg ⊢
    refine h.erase hp fun qs e' hqs hq _ => h.childless hp hg ?_ hqs hq
    rw [hkn]
    decide
  | mkdir hrt _ _ _ =>
    cases hiss with
    | mkdir hr hpr =>
      obtain ⟨ps, hp, rfl⟩ := canonicalPath_eq hr
      rw [(normalPath_key hp).normalize_eq]
      exact h.insert hp (isDir_of_hasParent hp hpr) (fun _ => rfl) (.inl rfl)
  | rmdir _ _ hem =>
    cases hiss with
    | rmdir hr =>
      obtain ⟨ps, hp, rfl⟩ := canonicalPath_eq hr
      rw [(normalPath_key hp).normalize_eq]
      exact h.erase hp (childless_of_not_start hp hem)
  | @rename old new root moves _ _ hrt hm hv =>
    cases hiss with
    | rename hl hw hpr =>
      obtain ⟨hor, ht⟩ := hs _ _ hl hw root hrt
      obtain ⟨os, ho, rfl⟩ := canonicalPath_eq hl
      obtain ⟨ns, hn, rfl⟩ := canonicalPath_eq hw
      rw [(normalPath_key ho).normalize_eq] at hrt
      have hd := isDir_of_hasParent hn hpr
      -- the keys of the directory are paths with names
      have hg : ∀ {σ : List Path → List Path},
          (∀ (qs : List Path) (e : DirectoryEntry), Parts '/' qs → v.directory.entries[key qs]? = some e →
            destination moves (key qs) = key (σ qs)) →
          ∀ (k : Path) (e : DirectoryEntry), (moveAll v.directory moves).entries[k]? = some e ↔
            ∃ qs, Parts '/' qs ∧ v.directory.entries[key qs]? = some e ∧ key (σ qs) = k := by
        intro σ hσ k e
        rw [hv.rekeys.get]
        constructor
        · rintro ⟨k₀, hk₀, rfl⟩
          obtain ⟨qs, hqs, rfl⟩ := h.named _ _ hk₀
          exact ⟨qs, hqs, hk₀, (hσ qs e hqs hk₀).symm⟩
        · rintro ⟨qs, hqs, hq, rfl⟩
          exact ⟨key qs, hq, hσ qs e hqs hq⟩
      rcases hm with ⟨hkn, rfl⟩ | ⟨hkn, hm⟩
      · refine h.moveOne ho hn hrt hkn hd ?_ (hg fun qs e hqs _ => destination_single ho hn hqs)
        rintro rfl
        exact ht hkn rfl
      · exact h.moveDir ho hn hrt hkn hd (outer_of_renamable ho hn (hor hkn))
          (hg fun qs e hqs hq => destination_tree h ho hn hm hv hqs hq)

lemma Tree.request {s t : Service} {req : Request} (h : Tree s.sys.vol.directory.entries) (hs : req.Sound s.sys.vol)
    (hr : s.handle G crc sha fault req = some (status, t)) : Tree t.sys.vol.directory.entries := by
  rcases Service.handle_spec hr with heq | ⟨op, hiss, heq, -⟩
  · rw [heq]
    exact h
  · rw [heq]
    have he := @effect G crc sha s.sys.vol fault h.keysNormal op
    change Tree (s.sys.vol.exec G crc sha op fault).volume.directory.entries
    generalize s.sys.vol.exec G crc sha op fault = out at he
    cases he with
    | refused e => exact h
    | unwritten t n => exact h
    | uncommitted t e ws inode _ _ => exact h
    | committed t next ws _ => exact h.change hiss hs t.change
    | created _ => exact h
    | restored hop _ =>
      subst hop
      cases hiss
    | deleted hop _ =>
      subst hop
      cases hiss

end

/-! ## Listing -/

/-- What `handle_vt_list` takes off the paths it goes through. -/
def listPrefix (dir : Path) : Path := if dir = ['/'] then ['/'] else trimEnd dir ++ ['/']

/-- The paths that can be found by listing directories, from the root on. The answers to a listing are
taken to be as long as they have to be. -/
inductive Listed (m : Entries) : Path → Prop
  | root : Listed m ['/']
  | entry {dir name : Path} {e : DirectoryEntry} : Listed m dir →
      (dir = ['/'] ∨ ∃ d : DirectoryEntry, m[dir]? = some d ∧ d.kind = .directory) →
      m[ listPrefix dir ++ name]? = some e → name ≠ [] → '/' ∉ name → Listed m ( listPrefix dir ++ name)

lemma listPrefix_key (hp : Parts '/' ps) : listPrefix (key ps) = join '/' ps ++ ['/'] := by
  by_cases hne : ps = []
  · rw [hne]
    rfl
  · have hr : key ps ≠ ['/'] := fun h => hne (key_inj hp parts_nil h)
    rw [listPrefix, if_neg hr, trimEnd_key hp]

lemma Tree.listed (h : Tree m) (hps : Parts '/' ps) (he : m[key ps]? = some e) : Listed m (key ps) := by
  induction ps using List.reverseRecOn generalizing e with
  | nil => exact .root
  | append_singleton qs p ih =>
    obtain ⟨hq, hp⟩ := parts_append.mp hps
    obtain ⟨hne, hs⟩ := hp p (by simp)
    have hk : key (qs ++ [p]) = listPrefix (key qs) ++ p := by
      rw [listPrefix_key hq, key_append [p] (by simp)]
      simp
    have hr := h.parent _ e hps he
    rw [dropLast_concat] at hr
    rw [hk] at he ⊢
    rcases hr with rfl | ⟨d, hd, hn⟩
    · exact .entry .root (.inl rfl) he hne hs
    · exact .entry (ih hq hd) (.inr ⟨d, hd, hn⟩) he hne hs

/-! ## Runs -/

/-- The calls of a run of the service that stay clear of what the handlers do not check. -/
def Sound (s : Service) : Call → Prop
  | .request req _ _ => req.Sound s.sys.vol
  | .restart _ => False

lemma Tree.run (h : Tree s.sys.vol.directory.entries)
    (hrun : Run (Transition.Guarded Sound (Service.Step G crc sha)) s cs t) :
    Tree t.sys.vol.directory.entries := by
  induction hrun with
  | nil => exact h
  | @snoc cs s t c _ hs ih =>
    obtain ⟨hn, ht⟩ := hs
    cases c with
    | request req fault status => exact ih.request hn (Service.step_request ht)
    | restart options => exact hn.elim

lemma Tree.init (h : Formatted G crc options sys) : Tree sys.vol.directory.entries := by
  obtain ⟨d, hb, ht⟩ := h
  obtain ⟨v, ws, hm, rfl⟩ := System.boot_eq_some ht
  obtain ⟨sb, -, hr, -⟩ := hb.mount hm
  change Tree v.directory.entries
  rw [hr.directory]
  exact .empty

/-- The namespace is a tree. Every path but the root has a parent that is the root or a directory; every
entry can be found by listing directories; and no file is the parent of anything. -/
theorem namespace_is_tree {sys : System} {s : Service} {cs : List Call} (hstart : Formatted G crc options sys)
    (hrun : Run (Transition.Guarded Sound (Service.Step G crc sha)) (Service.start sys) cs s) :
    let m := s.sys.vol.directory.entries
    (∀ (k : Path) (e : DirectoryEntry), m[k]? = some e → k ≠ ['/'] →
      parentPath k = ['/'] ∨ ∃ d : DirectoryEntry, m[parentPath k]? = some d ∧ d.kind = .directory) ∧
    (∀ (k : Path) (e : DirectoryEntry), m[k]? = some e → Listed m k) ∧
    ∀ (k k' : Path) (e e' : DirectoryEntry), m[k]? = some e → e.kind = .file → m[k']? = some e' → parentPath k' ≠ k := by
  have hin : Tree (Service.start sys).sys.vol.directory.entries := Tree.init hstart
  have h := hin.run hrun
  refine ⟨fun k e hk _ => ?_, fun k e hk => ?_, fun k k' e e' hk hkn hk' hr => ?_⟩
  · obtain ⟨ps, hp, rfl⟩ := h.named k e hk
    rw [parentPath_key hp]
    rcases h.parent ps e hp hk with hn | hd
    · exact .inl (by rw [hn]; rfl)
    · exact .inr hd
  · obtain ⟨ps, hp, rfl⟩ := h.named k e hk
    exact h.listed hp hk
  · obtain ⟨ps, hp, rfl⟩ := h.named k e hk
    obtain ⟨qs, hq, rfl⟩ := h.named k' e' hk'
    rw [parentPath_key hq] at hr
    have hf : e.kind ≠ .directory := by
      rw [hkn]
      decide
    exact h.childless hp hk hf hq hk' (key_inj hq.dropLast hp hr)

/-- The same as `Placeable`, for a volume that is known. -/
def Volume.placeable (v : Volume) (path : Path) : Bool :=
  decide (path ≠ ['/']) && (v.hasParent path && (v.directory.get path).all fun e => decide (e.kind ≠ .directory) ||
      v.directory.entries.toList.all fun item => !(childPrefix path).isPrefixOf item.1)

/-- The same as `Renamable`, for a volume that is known. -/
def Volume.renamable (v : Volume) (old new : Path) : Bool := (v.directory.get old).all fun root =>
    if root.kind = .directory then
      decide (parentPath new = ['/']) || !(decide (parentPath new = old) || (childPrefix old).isPrefixOf (parentPath new))
    else decide (new ≠ ['/'])

/-- The same as `Sound`, for a service that is known. -/
def sound (s : Service) : Call → Bool
  | .request (.vtOpen raw _) _ _ => (canonicalPath raw).all fun path => decide (path ≠ ['/'])
  | .request (.write raw _) _ _ | .request (.writeShared raw _) _ _ | .request (.installBundle raw _ _) _ _ =>
    (canonicalPath raw).all s.sys.vol.placeable
  | .request (.rename oldRaw newRaw) _ _ =>
    (canonicalPath oldRaw).all fun old => (canonicalPath newRaw).all (s.sys.vol.renamable old)
  | .request _ _ _ => true
  | .restart _ => false

lemma Volume.Placeable.of_placeable {v : Volume} (h : v.placeable path = true) : v.Placeable path := by
  simp only [Volume.placeable, Bool.and_eq_true, decide_eq_true_eq] at h
  refine ⟨h.1, h.2.1, fun e he hkn k e' hk hp => ?_⟩
  have ha := h.2.2
  rw [he, all_some, Bool.or_eq_true, decide_eq_true_eq] at ha
  have hn := all_eq_true.mp (ha.resolve_left (not_not_intro hkn)) (k, e') (mem_toList.mpr hk)
  rw [ isPrefixOf_iff_prefix.mpr hp] at hn
  cases hn

lemma Volume.Renamable.of_renamable {v : Volume} (h : v.renamable old new = true) :
    v.Renamable old new := by
  intro root hr
  rw [Volume.renamable, hr, all_some] at h
  refine ⟨fun hk => ?_, fun hk => ?_⟩
  · rw [if_pos hk, Bool.or_eq_true, decide_eq_true_eq] at h
    refine h.imp id fun hn hin => ?_
    rw [Bool.not_eq_true', Bool.or_eq_false_iff, decide_eq_false_iff_not] at hn
    rcases hin with heq | hp
    · exact hn.1 heq
    · rw [ isPrefixOf_iff_prefix.mpr hp] at hn
      cases hn.2
  · rw [if_neg hk, decide_eq_true_eq] at h
    exact h

lemma Sound.of_sound (h : sound s c = true) : Sound s c := by
  cases c with
  | restart options => cases h
  | request req fault status =>
    cases req with
    | vtOpen raw create =>
      cases create with
      | false => trivial
      | true =>
        intro path hp _
        rw [sound, hp, all_some, decide_eq_true_eq] at h
        exact h
    | write raw data | writeShared raw view | installBundle raw data signature =>
      intro path hp
      rw [sound, hp, all_some] at h
      exact .of_placeable h
    | rename oldRaw newRaw =>
      intro old new ho hn
      rw [sound, ho, all_some, hn, all_some] at h
      exact .of_renamable h
    | _ => trivial

/-- A directory with a file in it is made and moved into another one. -/
theorem namespace_is_tree_rename : ∃ sys s, Formatted smallDevice crc32 defaultOptions sys ∧
    Run (Transition.Guarded Sound (Service.Step smallDevice crc32 zeroDigest)) (Service.start sys)
      [.request (.mkdir (pathOf "/d")) none .ok, .request (.write (pathOf "/d/f") ⟨[1], by decide⟩) none .ok,
        .request (.mkdir (pathOf "/e")) none .ok, .request (.rename (pathOf "/d") (pathOf "/e/d")) none .ok] s ∧
    Listed s.sys.vol.directory.entries (pathOf "/e/d/f") := by
  refine exists_run_of_boot (guarded_of_guardedNext Sound.of_sound id)
    (fun s => (s.sys.vol.directory.entries[pathOf "/e/d/f"]?).isSome) (by decide +kernel) fun hb hrun hs => ?_
  obtain ⟨e, he⟩ := isSome_iff_exists.mp hs
  exact (namespace_is_tree hb hrun).2.1 _ e he

/-- Some requests that the service grants leave a path whose parent is not a directory. -/
def Orphans (cs : List Call) : Prop := ∃ sys s, Formatted smallDevice crc32 defaultOptions sys ∧
    Run (Service.Step smallDevice crc32 zeroDigest) (Service.start sys) cs s ∧
    (s.sys.vol.directory.entries[pathOf "/a/b"]?).isSome = true ∧ parentPath (pathOf "/a/b") = pathOf "/a" ∧
    ∀ d : DirectoryEntry, s.sys.vol.directory.entries[pathOf "/a"]? = some d → d.kind ≠ .directory

lemma Orphans.of_execute (h : (System.boot smallDevice crc32 zeroDisk defaultOptions).any (fun sys =>
      (execute (Service.next smallDevice crc32 zeroDigest) (Service.start sys) cs).any fun s =>
        (s.sys.vol.directory.entries[pathOf "/a/b"]?).isSome &&
          (s.sys.vol.directory.entries[pathOf "/a"]?).all fun d => decide (d.kind ≠ .directory)) = true) :
    Orphans cs := by
  refine exists_run_of_boot id _ h fun _ _ h => ?_
  rw [Bool.and_eq_true] at h
  refine ⟨h.1, by decide, fun d hd => ?_⟩
  have ha := h.2
  rw [hd, all_some, decide_eq_true_eq] at ha
  exact ha

/-- A file is written where there is no directory, a file is written over a directory that has something in
it, and a directory is moved below itself. -/
theorem requests_break_tree :
    Orphans [.request (.write (pathOf "/a/b") ⟨[1], by decide⟩) none .ok] ∧
    Orphans [.request (.mkdir (pathOf "/a")) none .ok, .request (.mkdir (pathOf "/a/b")) none .ok,
      .request (.write (pathOf "/a") ⟨[1], by decide⟩) none .ok] ∧
    Orphans [.request (.mkdir (pathOf "/a")) none .ok, .request (.rename (pathOf "/a") (pathOf "/a/b")) none .ok] :=
  ⟨.of_execute (by decide +kernel), .of_execute (by decide +kernel), .of_execute (by decide +kernel)⟩

end ZeroOS.Fs
