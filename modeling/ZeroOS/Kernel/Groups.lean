import ZeroOS.Kernel.Custody

/-!
# Thread groups and their spaces

Every space is built for one group, and only records of that group carry it. `Grouped` says so for
all the places a space can be in, and from it follows that a group has one carrier at most, whether
its record is in the table or has been taken out by `full_reap`.
-/

namespace ZeroOS.Kernel

open Family Function List Nat Option ZeroOS.Process

namespace LifeStep

variable {k : State} {c : Nat} {a : Act} {f : Family} {σ : Nat}

/-! ## Spaces and groups along a step -/

lemma group_old (hs : LifeStep k c a f) (h : k.family.group[σ]? = some g) :
    f.group[σ]? = some g := by
  obtain heq | ⟨g', heq, -⟩ := hs.group_new
  · rwa [heq]
  · rw [heq, List.getElem?_append_left (List.getElem?_eq_some_iff.mp h).1, h]

lemma group_cases (hs : LifeStep k c a f) (h : f.group[σ]? = some g) :
    k.family.group[σ]? = some g ∨ σ = k.family.group.length ∧ f.group = k.family.group ++ [g] ∧ Built k c f g := by
  obtain heq | ⟨g', heq, hb⟩ := hs.group_new
  · exact .inl (heq ▸ h)
  · rw [heq] at h
    obtain hlt | rfl | ht := lt_trichotomy σ k.family.group.length
    · exact .inl (by rwa [getElem?_append_left hlt] at h)
    · rw [getElem?_concat_length, some.injEq] at h
      exact .inr ⟨rfl, h ▸ heq, h ▸ hb⟩
    · rw [getElem?_eq_none (by simp; omega)] at h
      cases h

/-- How a row comes to carry a space. -/
inductive Carried (k : State) (c : Nat) (f : Family) (i g σ : Nat) : Prop
  | held {j : Nat} {m : Life} (hm : k.family.row j = some m) (hg : m.tgid = g)
      (hσ : m.space = some σ)
  | settled {r : Reaped} (hr : (k.family.hand c).reaped = some r) (hg : r.tgid = g)
      (hσ : r.space = some σ)
  | forked (hres : (k.family.hand c).reserved = some g) (hσ : (k.family.hand c).fresh = some σ)
  | rebound {m : Life} (hs : (k.family.hand c).execs = some i) (hσ : (k.family.hand c).fresh = some σ)
      (hm : k.family.row i = some m) (hg : m.tgid = g) (hrun : k.family.RunBy c i)
      (hdoomed : (f.hand c).doomed = m.space.toList)
  | configured {m : Life} {p : Nat} (hb : (k.family.hand c).builds = some (i, p))
      (hσ : σ = k.family.group.length) (hgroup : f.group = k.family.group ++ [p])
      (hm : k.family.row i = some m) (hg : m.tgid = g)
      (hinj : ∀ c', c' ≠ c → ∀ q, (k.family.hand c').builds ≠ some (i, q))

lemma carried (hst : LifeStep k c a f) (hl : f.row i = some l) (hσ : l.space = some σ) :
    Carried k c f i l.tgid σ := by
  cases hst with
  | @spawn j | @insertThread j =>
    obtain ⟨rfl, rfl⟩ | hl := row_put hl
    · cases hσ
    · exact .held hl rfl hσ
  | @configure j p m _ _ hh hm hn =>
    obtain ⟨rfl, rfl⟩ | hl := row_put hl
    · exact .configured (by rw [hh]) (some.inj hσ).symm rfl hm rfl hn
    · exact .held hl rfl hσ
  | @setParent j m _ _ _ hm =>
    obtain ⟨rfl, rfl⟩ | hl := row_put hl
    · exact .held hm rfl hσ
    · exact .held hl rfl hσ
  | @insertFork j _ _ _ _ hh =>
    obtain ⟨rfl, rfl⟩ | hl := row_put hl
    · exact .forked (by rw [hh]) (by rw [hh]; exact hσ)
    · exact .held hl rfl hσ
  | @rebind j x m hh hm hrun =>
    obtain ⟨rfl, rfl⟩ | hl := row_put hl
    · cases hσ
      exact .rebound (by rw [hh]) (by rw [hh]) hm rfl hrun (by simp)
    · exact .held hl rfl hσ
  | @collect _ j | @deliver j =>
    by_cases hj : i = j
    · simp [hj] at hl
    · exact .held (by simpa [hj] using hl) rfl hσ
  | @zombify s _ me _ g _ he _ _ _ hv | @retire s _ me _ g _ he _ _ _ hv =>
    have hr := State.row_of_get he
    obtain heq | ⟨m, x, hm, hx, -, -, hg, -, -, heq⟩ := hv.row_eq i
    · by_cases his : i = s
      · subst his
        simp only [take_row, heq, put_row, update_self, some.injEq] at hl
        simp [← hl, Life.zombify, Life.retire] at hσ
      · exact .held (by simpa [heq, his] using hl) rfl hσ
    · simp only [take_row, heq, some.injEq] at hl
      subst hl
      exact .held hr hg.symm (hx.trans hσ)
  | @reap s me =>
    simp only at hl
    split at hl
    · cases hl
    · obtain ⟨m, hm, ho⟩ := bind_eq_some_iff.mp hl
      have hs : m.tgid = l.tgid ∧ m.space = l.space := by
        simp only [Life.orphan] at ho
        grind
      exact .held hm hs.1 (hs.2.trans hσ)
  | @transfer _ _ record _ _ g ht hv =>
    obtain heq | ⟨m, x, hm, hx, -, -, hg, -, -, heq⟩ := hv.row_eq i
    · exact .held (by simpa [heq] using hl) rfl hσ
    · simp only [take_row, heq, some.injEq] at hl
      subst hl
      exact .settled (r := ⟨record.pid, record.tgid, record.addrSpace⟩)
        (by rw [hand_eq ht]; rfl) hg.symm (hx.trans hσ)
  | _ => exact .held hl rfl hσ

lemma fresh_new (hs : LifeStep k c a f) (h : (f.hand c).fresh = some σ) :
    σ = k.family.group.length ∧ ((f.hand c).execs = none ∧
        f.group = k.family.group ++ [k.family.next] ∧ (f.hand c).reserved = some k.family.next ∨
      ∃ s l, (f.hand c).execs = some s ∧ k.family.row s = some l ∧
        f.group = k.family.group ++ [l.tgid] ∧ (f.hand c).reserved = none) := by
  cases hs with
  | retire ht _ _ _ _ hm =>
    rw [hm.frame.1] at h
    simp [hand_eq ht, Task.hand] at h
  | _ => simp_all

/-- What a CPU that executes `execve` has in hand. -/
inductive Execs (k : State) (c : Nat) (f : Family) (s : Nat) : Prop
  | accepted {l : Life} (hruns : (k.family.hand c).runs = some s)
      (hhand : f.hand c = { runs := some s, execs := some s }) (hl : f.row s = some l)
      (hcarries : l.space ≠ none)
  | built {l : Life} (hs : (k.family.hand c).execs = some s)
      (hhand : f.hand c =
        { runs := some s, execs := some s, fresh := some k.family.group.length })
      (hrow : f.row = k.family.row) (hl : k.family.row s = some l)
      (hgroup : f.group = k.family.group ++ [l.tgid])
  | rebound {l : Life} {σ : Nat} (hs : (k.family.hand c).execs = some s)
      (hfresh : (k.family.hand c).fresh = some σ)
      (hhand : f.hand c =
        { runs := some s, execs := some s, image := some σ, doomed := l.space.toList })
      (hl : k.family.row s = some l) (hm : f.row s = some { l with space := some σ })
  | loaded {d : List Nat} (hs : (k.family.hand c).execs = some s)
      (hd : (k.family.hand c).doomed = d)
      (hhand : f.hand c = { runs := some s, execs := some s, doomed := d })
      (hrow : f.row = k.family.row)

lemma execs_new (hs : LifeStep k c a f) (h : (f.hand c).execs = some s) :
    Execs k c f s := by
  cases hs with
  | exec ht _ hl _ hc =>
    obtain rfl : _ = s := by simpa using h
    exact .accepted (by rw [hand_eq ht]; rfl) (by simp) hl hc
  | execBuilt hh hl =>
    obtain rfl : _ = s := by simpa using h
    exact .built (by rw [hh]) (by simp) rfl hl rfl
  | rebind hh hl =>
    obtain rfl : _ = s := by simpa using h
    exact .rebound (by rw [hh]) (by rw [hh]) (by simp) hl (by simp)
  | execLoad hh =>
    obtain rfl : _ = s := by simpa using h
    exact .loaded (by rw [hh]) (by rw [hh]) (by simp) rfl
  | retire ht _ _ _ _ hm =>
    rw [hm.frame.1] at h
    simp [hand_eq ht, Task.hand] at h
  | _ => simp_all

lemma space_runs (ht : LifeStep k c a f) (hc : c' ≠ c)
    (hr : (k.family.hand c').runs = some s) (hl : k.family.row s = some l) (hlv : l.zombie = false)
    (hσ : l.space = some σ) (hb : ∀ p, (k.family.hand c).builds ≠ some (s, p)) :
    ∃ m, f.row s = some m ∧ m.space = some σ ∧ m.tgid = l.tgid := by
  cases ht with
  | @configure j p m _ _ hh =>
    have hne : s ≠ j := by rintro rfl; exact hb p (by rw [hh])
    exact ⟨l, by simp [hne, hl], hσ, rfl⟩
  | @rebind j x m hh hm hrun =>
    have hne : s ≠ j := by rintro rfl; exact hc ((hrun.2 c').1 hr)
    exact ⟨l, by simp [hne, hl], hσ, rfl⟩
  | @zombify t _ me _ g _ he _ hf _ hv | @retire t _ me _ g _ he _ hf _ hv =>
    have hne : s ≠ t := by rintro rfl; exact (hf c').1 hr
    obtain heq | ⟨m, x, hm, -, -, -, -, -, hn, -⟩ := hv.row_eq s
    · exact ⟨l, by simp [heq, hne, hl], hσ, rfl⟩
    · simp only [put_row, update_of_ne hne, hl, some.injEq] at hm
      simp [← hm, hσ] at hn
  | transfer _ hv =>
    obtain heq | ⟨m, x, hm, -, -, -, -, -, hn, -⟩ := hv.row_eq s
    · exact ⟨l, by simp [heq, hl], hσ, rfl⟩
    · obtain rfl := mem_unique hl hm
      simp [hσ] at hn
  | @spawn j | @insertFork j | @insertThread j =>
    have hne : s ≠ j := by rintro rfl; simp_all
    exact ⟨l, by simp [hne, hl], hσ, rfl⟩
  | @setParent j m _ _ _ hm =>
    by_cases hs : s = j
    · subst hs
      obtain rfl := mem_unique hl hm
      exact ⟨_, update_self .., hσ, rfl⟩
    · exact ⟨l, by simp [hs, hl], hσ, rfl⟩
  | @collect _ j _ _ _ _ m _ _ _ _ hm hz | @deliver j _ _ m _ hm hz =>
    have hne : s ≠ j := by
      rintro rfl
      obtain rfl := mem_unique hl hm
      simp [hlv] at hz
    exact ⟨l, by simp [hne, hl], hσ, rfl⟩
  | @reap t me _ _ _ hf =>
    have hne : s ≠ t := by rintro rfl; exact (hf c').1 hr
    simp only [hne, if_false, hl, bind_some, Life.orphan, hlv]
    split
    · exact ⟨_, rfl, hσ, rfl⟩
    · exact ⟨l, rfl, hσ, rfl⟩
  | _ => exact ⟨l, hl, hσ, rfl⟩

lemma ttbr_new (hst : LifeStep k c a f) (hr : (f.hand c).runs = some s) (hσ : f.ttbr c = some σ) :
    (k.family.hand c).runs = some s ∧ k.family.ttbr c = some σ ∨
    (∃ l j m, k.family.row s = some l ∧ k.family.row j = some m ∧ m.tgid = l.tgid ∧ m.space = some σ) ∨
    (k.family.hand c).execs = some s ∧ (k.family.hand c).image = some σ := by
  cases hst with
  | rest _ _ ho => rcases ho with rfl | rfl <;> simp_all
  | load _ hl _ hp =>
    simp only [take_hand, update_self, some.injEq] at hr hσ
    subst hr
    obtain ⟨j, m, hm, hg, hs⟩ := hp σ hσ
    exact .inr (.inl ⟨_, j, m, hl, hm, hg, hs⟩)
  | execLoad hh => simp_all
  | retire _ _ _ _ _ hv =>
    rw [hv.frame.1] at hr
    rw [hv.frame.2.2.1] at hσ
    exact .inl ⟨hr, hσ⟩
  | exec ht | collect ht => simp_all [State.family, Task.hand]
  | _ => simp_all

lemma ttbr_of_ne (hs : LifeStep k c a f) (hc : c' ≠ c) :
    f.ttbr c' = k.family.ttbr c' := by
  cases hs with
  | zombify _ _ _ _ _ hm | retire _ _ _ _ _ hm | transfer _ hm => simp only [take_ttbr, hm.frame.2.2.1, put_ttbr]
  | load | execLoad => simp [hc]
  | _ => rfl

end LifeStep

/-! ## The invariant -/

namespace Family

/-- A record with no image yet is alone in its group. -/
structure Nascent (f : Family) (i p : Nat) : Prop where
  row : ∃ l, f.row i = some l ∧ l.tgid = p ∧ l.space = none ∧ l.zombie = false
  alone : ∀ {j m}, f.row j = some m → m.tgid = p → j = i
  reaped : ∀ {c r}, (f.hand c).reaped = some r → r.tgid ≠ p
  group : ∀ {σ : Nat}, f.group[σ]? ≠ some p

/-- The space belongs to a record, in the table or taken out of it. -/
inductive Active (f : Family) (σ : Nat) : Prop
  | row {i : Nat} {l : Life} (hl : f.row i = some l) (hσ : l.space = some σ)
  | transit {c : Nat} {r : Reaped} (hr : (f.hand c).reaped = some r) (hσ : r.space = some σ)

/-- Who has a space is of the group it was built for. -/
structure Grouped (f : Family) : Prop where
  lt : ∀ {σ g : Nat}, f.group[σ]? = some g → g < f.next
  reserved : ∀ {c σ g : Nat}, (f.hand c).reserved = some g → f.group[σ]? = some g → (f.hand c).fresh = some σ
  row : ∀ {i l σ}, f.row i = some l → l.space = some σ → f.group[σ]? = some l.tgid
  reaped : ∀ {c r σ}, (f.hand c).reaped = some r → r.space = some σ → f.group[σ]? = some r.tgid
  fresh : ∀ {c σ p}, (f.hand c).fresh = some σ → (f.hand c).reserved = some p → f.group[σ]? = some p
  execs : ∀ {c s}, (f.hand c).execs = some s → (f.hand c).runs = some s ∧ ∃ l, f.row s = some l ∧ l.space ≠ none ∧
      (∀ σ, (f.hand c).image = some σ → l.space = some σ) ∧
      ∀ σ, (f.hand c).fresh = some σ ∨ σ ∈ (f.hand c).doomed → f.group[σ]? = some l.tgid
  builds : ∀ {c i p}, (f.hand c).builds = some (i, p) → f.Nascent i p
  active : ∀ {σ σ' g : Nat}, f.Active σ → f.Active σ' → f.group[σ]? = some g → f.group[σ']? = some g → σ = σ'
  loaded : ∀ {c s σ l}, (f.hand c).runs = some s → f.ttbr c = some σ → f.row s = some l → f.group[σ]? = some l.tgid

end Family

namespace LifeStep

variable {k : State} {c : Nat} {a : Act} {f : Family}

section

variable (hkin : k.family.Kin) (hg : k.family.Grouped) {σ c' : Nat}

include hkin hg

omit hkin in
lemma Built.uses (hb : Built k c f g) :
    g = k.family.next ∧ k.family.next < f.next ∧ (f.hand c).reserved = some g ∧ (f.hand c).fresh = some k.family.group.length ∨
      k.family.Uses g := by
  cases hb with
  | forked hg hn hr hf => exact .inl ⟨hg, hn, hr, hf⟩
  | configured hb =>
    obtain ⟨l, hl, ht, -, -⟩ := (hg.builds hb).row
    exact .inr (.row hl ht)
  | exec _ hl ht => exact .inr (.row hl ht)

lemma grouped_lt (hs : LifeStep k c a f) (h : f.group[σ]? = some g) :
    g < f.next := by
  obtain ho | ⟨-, -, hb⟩ := hs.group_cases h
  · exact lt_of_lt_of_le (hg.lt ho) hs.next_le
  · obtain ⟨rfl, hn, -, -⟩ | hu := hb.uses hg
    · exact hn
    · exact lt_of_lt_of_le (hkin.used_lt hu) hs.next_le

lemma grouped_reserved (hs : LifeStep k c a f) (hr : (f.hand c').reserved = some g) (h : f.group[σ]? = some g) :
    (f.hand c').fresh = some σ := by
  obtain ho | ⟨rfl, -, hb⟩ := hs.group_cases h
  · by_cases hc : c' = c
    · subst hc
      obtain ⟨rfl, -⟩ := hs.reserved_new hr
      exact absurd (hg.lt ho) (lt_irrefl _)
    · rw [hs.hand_of_ne hc] at hr ⊢
      exact hg.reserved hr ho
  · obtain ⟨rfl, -, hr', hf⟩ | hu := hb.uses hg
    · by_cases hc : c' = c
      · exact hc ▸ hf
      · rw [hs.hand_of_ne hc] at hr
        exact absurd (hkin.reserved_lt hr) (lt_irrefl _)
    · by_cases hc : c' = c
      · subst hc
        obtain ⟨rfl, -⟩ := hs.reserved_new hr
        exact absurd (hkin.used_lt hu) (lt_irrefl _)
      · rw [hs.hand_of_ne hc] at hr
        exact absurd hr (hkin.used_reserved hu)

omit hkin in
lemma grouped_row (hst : LifeStep k c a f) (hl : f.row i = some l) (hσ : l.space = some σ) : f.group[σ]? = some l.tgid := by
  cases hst.carried hl hσ with
  | held hm ht hs => exact hst.group_old (ht ▸ hg.row hm hs)
  | settled hr ht hs => exact hst.group_old (ht ▸ hg.reaped hr hs)
  | forked hrs hs => exact hst.group_old (hg.fresh hs hrs)
  | rebound hs hf hm ht =>
    obtain ⟨-, m', hm', -, -, hgr⟩ := hg.execs hs
    obtain rfl := mem_unique hm hm'
    exact hst.group_old (ht ▸ hgr σ (.inl hf))
  | configured hb hn hgr hm ht =>
    obtain ⟨m', hm', ht', -, -⟩ := (hg.builds hb).row
    obtain rfl := mem_unique hm hm'
    rw [hgr, hn, getElem?_concat_length, ← ht, ht']

omit hkin in
lemma grouped_reaped (hs : LifeStep k c a f) (hr : (f.hand c').reaped = some r)
    (hσ : r.space = some σ) : f.group[σ]? = some r.tgid := by
  by_cases hc : c' = c
  · subst hc
    obtain ⟨s, me, -, hm, -, rfl, -⟩ := hs.reaped_new hr
    have ho := hg.row (State.row_of_get hm) hσ
    exact hs.group_old ho
  · rw [hs.hand_of_ne hc] at hr
    exact hs.group_old (hg.reaped hr hσ)

omit hkin in
lemma grouped_fresh (hs : LifeStep k c a f) (hf : (f.hand c').fresh = some σ) (hr : (f.hand c').reserved = some p) :
    f.group[σ]? = some p := by
  by_cases hc : c' = c
  · subst hc
    obtain ⟨rfl, ⟨-, hgr, hr'⟩ | ⟨s, l, -, -, -, hn⟩⟩ := hs.fresh_new hf
    · rw [hgr, getElem?_concat_length, ← hr', hr]
    · exact nomatch hn.symm.trans hr
  · rw [hs.hand_of_ne hc] at hf hr
    exact hs.group_old (hg.fresh hf hr)

lemma grouped_execs (hst : LifeStep k c a f) (hs : (f.hand c').execs = some s) :
    (f.hand c').runs = some s ∧ ∃ l, f.row s = some l ∧ l.space ≠ none ∧ (∀ σ, (f.hand c').image = some σ → l.space = some σ) ∧
      ∀ σ, (f.hand c').fresh = some σ ∨ σ ∈ (f.hand c').doomed → f.group[σ]? = some l.tgid := by
  by_cases hc : c' = c
  · subst hc
    cases hst.execs_new hs with
    | accepted hr hh hl hcr =>
      rw [hh]
      exact ⟨rfl, _, hl, hcr, nofun, by simp⟩
    | built hs' hh hw hl hgr =>
      obtain ⟨-, l', hl', hp, -, -⟩ := hg.execs hs'
      obtain rfl := mem_unique hl hl'
      rw [hh]
      refine ⟨rfl, _, hw ▸ hl, hp, nofun, ?_⟩
      rintro σ (hσ | hσ)
      · cases hσ
        rw [hgr, getElem?_concat_length]
      · cases hσ
    | @rebound l x hs' hf hh hl hm =>
      obtain ⟨-, l', hl', -, -, hgr⟩ := hg.execs hs'
      obtain rfl := mem_unique hl hl'
      rw [hh]
      refine ⟨rfl, _, hm, by simp, fun σ hσ => hσ, ?_⟩
      rintro σ (hσ | hσ)
      · cases hσ
      · have ho := hg.row hl (mem_toList.mp hσ)
        exact hst.group_old ho
    | loaded hs' hd hh hw =>
      obtain ⟨-, l, hl, hp, -, hgr⟩ := hg.execs hs'
      rw [hh]
      refine ⟨rfl, l, hw ▸ hl, hp, nofun, ?_⟩
      rintro σ (hσ | hσ)
      · cases hσ
      · exact hst.group_old (hgr σ (.inr (hd ▸ hσ)))
  · rw [hst.hand_of_ne hc] at hs ⊢
    obtain ⟨hr, l, hl, hp, hig, hgr⟩ := hg.execs hs
    obtain ⟨l', hl', hv⟩ := hkin.runs hr
    obtain rfl := mem_unique hl hl'
    obtain ⟨x, hx⟩ := ne_none_iff_exists'.mp hp
    have hbl (p : Nat) : (k.family.hand c).builds ≠ some (s, p) := by
      intro hb
      obtain ⟨m, hm, -, hn, -⟩ := (hg.builds hb).row
      obtain rfl := mem_unique hl hm
      exact hp hn
    obtain ⟨m, hm, hmx, ht⟩ := hst.space_runs hc hr hl hv hx hbl
    refine ⟨hr, m, hm, by simp [hmx], fun σ hσ => ?_, fun σ hσ => ?_⟩
    · rw [hmx, ← hx]
      exact hig σ hσ
    · rw [ht]
      exact hst.group_old (hgr σ hσ)

lemma grouped_nascent (hst : LifeStep k c a f) (hc : c' ≠ c)
    (hb : (k.family.hand c').builds = some (i, p)) : f.Nascent i p := by
  have hol := hg.builds hb
  obtain ⟨l, hl, ht, hn, hv⟩ := hol.row
  have hu : k.family.Uses p := .row hl ht
  have hnotRun {s : Nat} (hrun : k.family.RunBy c s) : s ≠ i := by
    rintro rfl
    exact (hrun.2 c').2 p hb
  refine ⟨?_, fun {j m} hm hmp => ?_, fun {c'' r} hr hrp => ?_, fun {σ} hσ => ?_⟩
  · obtain ⟨-, hz | hf⟩ | ⟨m, hm, -, hmt, hz | ⟨hf, -⟩⟩ := hst.row_old hl
    · simp [hv] at hz
    · exact absurd hb ((hf c').2 p)
    · refine ⟨m, hm, hmt.trans ht, ?_, hz.trans hv⟩
      by_contra hsp
      obtain ⟨σ, hσ⟩ := ne_none_iff_exists'.mp hsp
      cases hst.carried hm hσ with
      | held hm' hg' hs =>
        obtain rfl := hol.alone hm' (hg'.trans (hmt.trans ht))
        obtain rfl := mem_unique hl hm'
        simp [hn] at hs
      | settled hr hg' => exact hol.reaped hr (hg'.trans (hmt.trans ht))
      | forked hrs => exact hkin.used_reserved hu ((hmt.trans ht) ▸ hrs)
      | rebound _ _ _ _ hrun => exact hnotRun hrun rfl
      | configured _ _ _ _ _ hin => exact hin c' hc p hb
    · exact absurd hb ((hf c').2 p)
  · obtain ⟨m', hm', -, hg'⟩ | ⟨-, -, hbr⟩ := hst.row_new hm
    · exact hol.alone hm' (hg'.symm.trans hmp)
    · cases hbr with
      | spawned _ hgn => exact absurd (hmp.symm.trans hgn) (Nat.ne_of_lt (hkin.used_lt hu))
      | forked hp hgp => exact absurd (hmp ▸ hgp ▸ hp) (hkin.used_reserved hu)
      | thread _ ho hgo _ hrun =>
        obtain ⟨s', m', hrn, -, hm', -, hog⟩ := hkin.origin ho
        obtain rfl := mem_unique hrun.1 hrn
        exact absurd (hol.alone hm' ((hog _ hgo).symm.trans hmp)) (hnotRun hrun)
  · by_cases hc'' : c'' = c
    · subst hc''
      obtain ⟨s, me, -, he, hf, rfl, -⟩ := hst.reaped_new hr
      obtain rfl := hol.alone (State.row_of_get he) hrp
      exact (hf c').2 p hb
    · exact hol.reaped (hst.hand_of_ne hc'' ▸ hr) hrp
  · obtain hσ' | ⟨-, -, hbl⟩ := hst.group_cases hσ
    · exact hol.group hσ'
    · cases hbl with
      | forked hgn => exact absurd hgn (Nat.ne_of_lt (hkin.used_lt hu))
      | configured hb' hm hin =>
        obtain ⟨m, hm', hmp, -, -⟩ := (hg.builds hb').row
        obtain rfl := hol.alone hm' hmp
        exact hin c' hc p hb
      | exec _ hm hmp hrun => exact hnotRun hrun (hol.alone hm hmp)

lemma grouped_builds (hs : LifeStep k c a f) (hb : (f.hand c').builds = some (i, p)) :
    f.Nascent i p := by
  by_cases hc : c' = c
  · subst hc
    cases hs with
    | @spawn j _ _ _ _ hh hi hn _ hb' =>
      obtain ⟨rfl, rfl⟩ := Prod.mk.inj (hb' (i, p) (by simpa using hb))
      refine ⟨⟨_, update_self .., rfl, rfl, rfl⟩, fun {j m} hm hp => ?_, fun {c'' r} hr hrp => ?_,
        fun {σ} hσ => ?_⟩
      · by_contra hj
        rw [put_row, update_of_ne hj] at hm
        exact absurd (hkin.used_lt (.row hm hp)) (lt_irrefl _)
      · by_cases hc : c'' = c'
        · subst hc
          simp at hr
        · simp only [put_hand, take_hand, update_of_ne hc] at hr
          exact absurd (hkin.used_lt (.reaped hr (.inl hrp))) (lt_irrefl _)
      · exact absurd (hg.lt hσ) (lt_irrefl _)
    | retire ht _ _ _ _ hv =>
      rw [hv.frame.1] at hb
      simp [hand_eq ht, Task.hand] at hb
    | _ => simp_all
  · rw [hs.hand_of_ne hc] at hb
    exact hs.grouped_nascent hkin hg hc hb

lemma grouped_loaded (hst : LifeStep k c a f) (hr : (f.hand c').runs = some s)
    (hσ : f.ttbr c' = some σ) (hl : f.row s = some l) :
    f.group[σ]? = some l.tgid := by
  -- the row keeps its group
  have hsm {m : Life} (hm : k.family.row s = some m) (h : k.family.group[σ]? = some m.tgid) :
      f.group[σ]? = some l.tgid := by
    obtain ⟨hn, -⟩ | ⟨l', hl', -, ht, -⟩ := hst.row_old hm
    · exact nomatch hn.symm.trans hl
    · obtain rfl := mem_unique hl hl'
      exact ht ▸ hst.group_old h
  have ho (hr' : (k.family.hand c').runs = some s) (hσ' : k.family.ttbr c' = some σ) :
      f.group[σ]? = some l.tgid := by
    obtain ⟨m, hm, -⟩ := hkin.runs hr'
    exact hsm hm (hg.loaded hr' hσ' hm)
  by_cases hc : c' = c
  · subst hc
    obtain ⟨hr', hσ'⟩ | ⟨m, j, m', hm, hm', ht, hp⟩ | ⟨hs, hig⟩ := hst.ttbr_new hr hσ
    · exact ho hr' hσ'
    · exact hsm hm (ht ▸ hg.row hm' hp)
    · obtain ⟨-, m, hm, -, hp, -⟩ := hg.execs hs
      exact hsm hm (hg.row hm (hp σ hig))
  · exact ho (hst.hand_of_ne hc ▸ hr) (hst.ttbr_of_ne hc ▸ hσ)

end

/-! ## One space for a group -/

/-- How a space becomes the space of a record. -/
inductive Joins (k : State) (c : Nat) (f : Family) (σ : Nat) : Prop
  | forked {g : Nat} (hres : (k.family.hand c).reserved = some g)
      (hσ : (k.family.hand c).fresh = some σ)
  | rebound {s : Nat} {m : Life} (hs : (k.family.hand c).execs = some s)
      (hσ : (k.family.hand c).fresh = some σ) (hm : k.family.row s = some m)
      (hdoomed : (f.hand c).doomed = m.space.toList)
  | configured {i p : Nat} (hb : (k.family.hand c).builds = some (i, p))
      (hσ : σ = k.family.group.length) (hgroup : f.group = k.family.group ++ [p])

lemma active_new (ht : LifeStep k c a f) (h : f.Active σ) :
    k.family.Active σ ∨ Joins k c f σ := by
  cases h with
  | row hl hσ =>
    cases ht.carried hl hσ with
    | held hm _ hs => exact .inl (.row hm hs)
    | settled hr _ hs => exact .inl (.transit hr hs)
    | forked hrs hs => exact .inr (.forked hrs hs)
    | rebound hs hf hm _ _ hd => exact .inr (.rebound hs hf hm hd)
    | configured hb hn hgr => exact .inr (.configured hb hn hgr)
  | @transit c' r hr hσ =>
    by_cases hc : c' = c
    · subst hc
      obtain ⟨s, me, -, he, -, rfl, -⟩ := ht.reaped_new hr
      exact .inl (.row (State.row_of_get he) hσ)
    · exact .inl (.transit (ht.hand_of_ne hc ▸ hr) hσ)

end LifeStep

namespace Family

variable {f : Family}

lemma Active.not_doomed (h : f.Active σ) (hc : f.Custody) :
    σ ∉ (f.hand c).doomed := by
  intro hm
  have hd : f.Holds σ (.doomed c) := hm
  cases h with
  | @row i l hl hσ =>
    have hw : f.Holds σ (.row i) := ⟨l, hl, hσ⟩
    exact nomatch hc.sole hd hw
  | @transit c' r hr hσ =>
    have ht : f.Holds σ (.transit c') := ⟨r, hr, hσ⟩
    exact nomatch hc.sole hd ht

lemma Active.group (h : f.Active σ) (hg : f.Grouped) : ∃ g, f.group[σ]? = some g := by
  cases h with
  | row hl hσ => exact ⟨_, hg.row hl hσ⟩
  | transit hr hσ => exact ⟨_, hg.reaped hr hσ⟩

end Family

namespace LifeStep

variable {k : State} {c : Nat} {a : Act} {f : Family}

lemma group_active (hg : k.family.Grouped) (hs : LifeStep k c a f)
    (h : k.family.Active σ) (hσ : f.group[σ]? = some g) : k.family.group[σ]? = some g := by
  obtain ⟨g', hg'⟩ := h.group hg
  rw [hg', ← hs.group_old hg', hσ]

lemma Joins.eq (hkin : k.family.Kin) (hg : k.family.Grouped) (hc : f.Custody)
    (ht : LifeStep k c a f) (h : Joins k c f σ) (h' : f.Active σ')
    (hσ : f.group[σ]? = some g) (hσ' : f.group[σ']? = some g) : σ = σ' := by
  cases h with
  | @forked p hr hf =>
    have hp := hg.fresh hf hr
    obtain rfl := mem_unique (ht.group_old hp) hσ
    obtain ho | ⟨-, -, hbl⟩ := ht.group_cases hσ'
    · exact mem_unique hf (hg.reserved hr ho)
    · obtain ⟨rfl, -⟩ | hu := hbl.uses hg
      · exact absurd (hkin.reserved_lt hr) (lt_irrefl _)
      · exact absurd hr (hkin.used_reserved hu)
  | @rebound s m hs hf hm hd =>
    obtain ⟨-, m', hm', hsp, -, hgr⟩ := hg.execs hs
    obtain rfl := mem_unique hm hm'
    have hp := hgr σ (.inl hf)
    obtain rfl := mem_unique (ht.group_old hp) hσ
    obtain ho | hj := ht.active_new h'
    · obtain ⟨x, hx⟩ := ne_none_iff_exists'.mp hsp
      obtain rfl := hg.active ho (.row hm hx) (ht.group_active hg ho hσ') (hg.row hm hx)
      have he : σ' ∈ (f.hand c).doomed := by simp [hd, hx]
      exact absurd he (h'.not_doomed hc)
    · cases hj with
      | forked _ hf' | rebound _ hf' => exact mem_unique hf hf'
      | configured hb hl hgr' =>
        rw [hl, hgr', getElem?_concat_length, some.injEq] at hσ'
        exact absurd (hσ' ▸ hp) (hg.builds hb).group
  | configured hb hl hgr =>
    rw [hl, hgr, getElem?_concat_length, some.injEq] at hσ
    subst hσ
    obtain ho | ⟨hl', -⟩ := ht.group_cases hσ'
    · exact absurd ho (hg.builds hb).group
    · exact hl.trans hl'.symm

lemma grouped (hkin : k.family.Kin) (hc : k.family.Custody) (hg : k.family.Grouped) (hs : LifeStep k c a f) : f.Grouped where
  lt := hs.grouped_lt hkin hg
  reserved := hs.grouped_reserved hkin hg
  row := hs.grouped_row hg
  reaped := hs.grouped_reaped hg
  fresh := hs.grouped_fresh hg
  execs := hs.grouped_execs hkin hg
  builds := hs.grouped_builds hkin hg
  active {σ σ' g} h h' hσ hσ' := by
    have hc' := hs.custody hc
    obtain ho | hj := hs.active_new h
    · obtain ho' | hj' := hs.active_new h'
      · exact hg.active ho ho' (hs.group_active hg ho hσ) (hs.group_active hg ho' hσ')
      · exact (hj'.eq hkin hg hc' hs h hσ' hσ).symm
    · exact hj.eq hkin hg hc' hs h' hσ hσ'
  loaded := hs.grouped_loaded hkin hg

end LifeStep

lemma Family.Grouped.init : State.init.family.Grouped where
  lt h := by simp [State.family, State.init] at h
  reserved h := by simp [init_hand] at h
  row h := nomatch h
  reaped h := by simp [init_hand] at h
  fresh h := by simp [init_hand] at h
  execs h := by simp [init_hand] at h
  builds h := by simp [init_hand] at h
  active _ _ h := by simp [State.family, State.init] at h
  loaded h := by simp [init_hand] at h

lemma CalmRun.grouped (h : CalmRun es k) : k.family.Grouped := by
  induction h with
  | nil => exact .init
  | snoc hrun hs ih =>
    have hc : CalmRun _ _ := hrun
    exact (step_life hc.inv hs.1 hs.2).grouped hc.kin hc.custody ih

end ZeroOS.Kernel
