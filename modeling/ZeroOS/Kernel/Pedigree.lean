import ZeroOS.Kernel.Lineage

/-!
# Rows, hands and pids

How a step of the family changes one row and one hand, read off the list of steps; and from that the
first invariant, `Kin`: a process that is run is there and alive, the record a new process is made
from is the one its creator runs, and a pid that is reserved is in no use.
-/

namespace ZeroOS.Kernel

open Function Option State ZeroOS.Process

namespace Family

variable {f f' : Family} {i : Nat}

lemma row_put (hy : (f.put j (some x)).row i = some y) :
    i = j ∧ x = y ∨ f.row i = some y := by
  by_cases hj : i = j
  · subst hj
    rw [put_row, update_self] at hy
    exact .inl ⟨rfl, some.inj hy⟩
  · rw [put_row, update_of_ne hj] at hy
    exact .inr hy

lemma Transfer.frame (ht : Transfer f tgid dying he space out f') :
    f'.hand = f.hand ∧ f'.group = f.group ∧ f'.ttbr = f.ttbr ∧ f'.attached = f.attached ∧
      f'.graves = f.graves ∧ f'.next = f.next := by
  cases ht <;> exact ⟨rfl, rfl, rfl, rfl, rfl, rfl⟩

lemma Transfer.row_eq (ht : Transfer f tgid dying he space out f') (i : Nat) :
    f'.row i = f.row i ∨ ∃ m s, f.row i = some m ∧ space = some s ∧ out = none ∧ he = some i ∧
      m.tgid = tgid ∧ m.pid ≠ dying ∧ m.space = none ∧
      f'.row i = some { m with space := some s } := by
  cases ht with
  | nothing | kept => exact .inl rfl
  | @given s j m hm hg hp hs =>
    by_cases hj : i = j
    · subst hj
      exact .inr ⟨m, s, hm, rfl, rfl, rfl, hg, hp, hs, by simp⟩
    · exact .inl (by simp [hj])

end Family

namespace LifeStep

open Family

lemma hand_of_ne (hs : LifeStep k c a f) (hne : c' ≠ c) :
    f.hand c' = k.family.hand c' := by
  cases hs with
  | zombify _ _ _ _ _ hm | transfer _ hm => simp [hne, hm.frame.1]
  | retire _ _ _ _ _ hm => rw [hm.frame.1]; rfl
  | _ => simp [hne]

lemma row_old (hs : LifeStep k c a f) (hl : k.family.row i = some l) :
    (f.row i = none ∧ (l.zombie = true ∨ k.family.Unused i)) ∨
    ∃ m, f.row i = some m ∧ m.pid = l.pid ∧ m.tgid = l.tgid ∧ (m.zombie = l.zombie ∨ k.family.Unused i ∧ m.zombie = true) := by
  cases hs with
  | @spawn j | @insertFork j | @insertThread j =>
    have hne : i ≠ j := by rintro rfl; simp_all
    exact .inr ⟨l, by simp [hne, hl]⟩
  | @configure j _ m _ _ _ hm | @setParent j m _ _ _ hm | @rebind j _ m _ hm =>
    by_cases hj : i = j
    · subst hj
      obtain rfl := mem_unique hl hm
      exact .inr ⟨_, update_self .., rfl, rfl, .inl rfl⟩
    · exact .inr ⟨l, by simp [hj, hl]⟩
  | @collect _ j _ _ _ _ m _ _ _ _ hm hz | @deliver j _ _ m _ hm hz =>
    by_cases hj : i = j
    · subst hj
      obtain rfl := mem_unique hl hm
      exact .inl ⟨by simp, .inl hz⟩
    · exact .inr ⟨l, by simp [hj, hl]⟩
  | @zombify s _ me _ g _ he _ hf _ hv =>
    have hr : k.family.row s = some (Life.of me) := by simp [family, he]
    have ht : ∃ m, (k.family.put s (some (Life.of me).zombify)).row i = some m ∧ m.pid = l.pid ∧
        m.tgid = l.tgid ∧ (m.zombie = l.zombie ∨ k.family.Unused i ∧ m.zombie = true) := by
      by_cases his : i = s
      · subst his
        obtain rfl := mem_unique hl hr
        exact ⟨_, update_self .., rfl, rfl, .inr ⟨hf, rfl⟩⟩
      · exact ⟨l, by simp [his, hl]⟩
    obtain ⟨m, hm, hrs⟩ := ht
    refine .inr ?_
    obtain heq | ⟨m', s', hm', -, -, -, -, -, -, heq⟩ := hv.row_eq i
    · exact ⟨m, heq.trans hm, hrs⟩
    · obtain rfl := mem_unique hm hm'
      exact ⟨_, heq, hrs⟩
  | @retire s _ me _ g _ he _ hf _ hv =>
    have hr : k.family.row s = some (Life.of me) := by simp [family, he]
    have ht : ∃ m, (k.family.put s (some (Life.of me).retire)).row i = some m ∧ m.pid = l.pid ∧
        m.tgid = l.tgid ∧ m.zombie = l.zombie := by
      by_cases his : i = s
      · subst his
        obtain rfl := mem_unique hl hr
        exact ⟨_, update_self .., rfl, rfl, rfl⟩
      · exact ⟨l, by simp [his, hl]⟩
    obtain ⟨m, hm, hp, hg, hz⟩ := ht
    refine .inr ?_
    obtain heq | ⟨m', s', hm', -, -, -, -, -, -, heq⟩ := hv.row_eq i
    · exact ⟨m, heq.trans hm, hp, hg, .inl hz⟩
    · obtain rfl := mem_unique hm hm'
      exact ⟨_, heq, hp, hg, .inl hz⟩
  | @reap s me _ _ he hf =>
    by_cases his : i = s
    · subst his
      exact .inl ⟨by simp, .inr hf⟩
    · simp only [his, if_false, hl, bind_some, Life.orphan]
      by_cases hp : l.parent = some me.pid
      · by_cases hz : l.zombie = true
        · exact .inl ⟨by simp [hp, hz], .inl hz⟩
        · exact .inr ⟨{ l with parent := some initPid }, by simp [hp, hz], rfl, rfl, .inl rfl⟩
      · exact .inr ⟨l, by simp [hp], rfl, rfl, .inl rfl⟩
  | transfer _ hv =>
    refine .inr ?_
    obtain heq | ⟨m, s, hm, -, -, -, -, -, -, heq⟩ := hv.row_eq i
    · exact ⟨l, heq.trans hl, rfl, rfl, .inl rfl⟩
    · obtain rfl := mem_unique hl hm
      exact ⟨_, heq, rfl, rfl, .inl rfl⟩
  | _ => exact .inr ⟨l, hl, rfl, rfl, .inl rfl⟩

/-- How a new row comes about. -/
inductive Born (k : State) (c : Nat) (f : Family) (m : Life) : Prop
  | spawned (hpid : m.pid = k.family.next) (hg : m.tgid = k.family.next) (hs : m.space = none)
      (hn : k.family.next < f.next) (hres : (f.hand c).reserved = none)
  | forked (hpid : (k.family.hand c).reserved = some m.pid) (hg : m.tgid = m.pid)
      (hs : m.space = (k.family.hand c).fresh) (hres : (f.hand c).reserved = none)
  | thread {s : Nat} {o : Origin} (hpid : (k.family.hand c).reserved = some m.pid)
      (ho : (k.family.hand c).origin = some o) (hg : o.tgid = some m.tgid) (hs : m.space = none)
      (hrun : k.family.RunBy c s)

lemma row_new (hs : LifeStep k c a f) (hm : f.row i = some l) :
    (∃ m, k.family.row i = some m ∧ l.pid = m.pid ∧ l.tgid = m.tgid) ∨
    k.family.row i = none ∧ l.zombie = false ∧ Born k c f l := by
  cases ho : k.family.row i with
  | some m =>
    obtain ⟨hno, -⟩ | ⟨l', hl', hp, hg, -⟩ := hs.row_old ho
    · simp [hno] at hm
    · obtain rfl := mem_unique hm hl'
      exact .inl ⟨m, rfl, hp, hg⟩
  | none =>
    refine .inr ⟨rfl, ?_⟩
    cases hs with
    | @spawn j _ _ _ _ _ _ hn =>
      obtain ⟨rfl, rfl⟩ | hm := row_put hm
      · exact ⟨rfl, .spawned rfl rfl rfl hn (by simp)⟩
      · simp [ho] at hm
    | @insertFork j _ _ _ _ hh =>
      obtain ⟨rfl, rfl⟩ | hm := row_put hm
      · exact ⟨rfl, .forked (by rw [hh]) rfl (by rw [hh]) (by simp)⟩
      · simp [ho] at hm
    | @insertThread j _ _ _ _ hh _ hg hrun =>
      obtain ⟨rfl, rfl⟩ | hm := row_put hm
      · exact ⟨rfl, .thread (by rw [hh]) (by rw [hh]) hg rfl hrun⟩
      · simp [ho] at hm
    | @configure j | @setParent j | @rebind j | @collect _ j | @deliver j =>
      by_cases hj : i = j
      · simp_all
      · simp [hj, ho] at hm
    | @zombify s _ me _ g _ he _ _ _ hv | @retire s _ me _ g _ he _ _ _ hv =>
      obtain heq | ⟨m', -, hm', -⟩ := hv.row_eq i
      · by_cases his : i = s
        · simp [family, his, he] at ho
        · simp [heq, his, ho] at hm
      · by_cases his : i = s
        · simp [family, his, he] at ho
        · simp [his, ho] at hm'
    | transfer _ hv =>
      obtain heq | ⟨m', -, hm', -⟩ := hv.row_eq i
      · simp [heq, ho] at hm
      · simp [ho] at hm'
    | reap => simp [ho] at hm
    | _ => simp [ho] at hm

/-! ## Hands -/

lemma runs_new (hs : LifeStep k c a f) (h : (f.hand c).runs = some s) :
    (k.family.hand c).runs = some s ∨ ∃ l, f.row s = some l ∧ l.zombie = false := by
  cases hs with
  | rest _ _ ho => rcases ho with rfl | rfl <;> simp_all
  | load _ hl hv =>
    simp only [take_hand, update_self, Option.some.injEq] at h
    exact .inr ⟨_, h ▸ hl, hv⟩
  | retire _ _ _ _ _ hm =>
    rw [hm.frame.1] at h
    exact .inl h
  | exec ht | collect ht => simp_all [family, Task.hand]
  | _ => simp_all

lemma origin_new (hs : LifeStep k c a f) (h : (f.hand c).origin = some o) :
    (k.family.hand c).origin = some o ∧ (f.hand c).runs = (k.family.hand c).runs ∨
    ∃ s l, (f.hand c).runs = some s ∧ (k.family.hand c).runs = some s ∧ o.slot = some s ∧
      k.family.row s = some l ∧ l.pid = o.pid ∧ ∀ g, o.tgid = some g → g = l.tgid := by
  cases hs with
  | retire _ _ _ _ _ hm =>
    rw [hm.frame.1] at h ⊢
    exact .inl ⟨h, rfl⟩
  | @snapshot s l hh hl | @fork s _ l hh hl | @forkClone s _ l hh hl =>
    simp only [take_hand, update_self, Option.some.injEq] at h
    subst h
    exact .inr ⟨s, l, by simp, by rw [hh], rfl, hl, rfl, fun g hg => (some.inj hg).symm⟩
  | spawn hh _ _ ho =>
    simp only [put_hand, take_hand, update_self] at h
    obtain ⟨s, l, rfl, hl, -, rfl⟩ := ho o h
    exact .inr ⟨s, l, by simp, by rw [hh], rfl, hl, rfl, nofun⟩
  | _ => simp_all

lemma reserved_new (hs : LifeStep k c a f) (h : (f.hand c).reserved = some p) :
    p = k.family.next ∧ k.family.next < f.next := by
  cases hs with
  | retire ht _ _ _ _ hm =>
    rw [hm.frame.1] at h
    simp [family, ht, Task.hand] at h
  | _ => simp_all

lemma next_le (hs : LifeStep k c a f) : k.family.next ≤ f.next := by
  cases hs with
  | rest _ _ _ hn => exact hn
  | reserve _ hn | fork _ _ _ hn | forkClone _ _ _ hn | spawn _ _ hn => exact le_of_lt hn
  | zombify _ _ _ _ _ hm | retire _ _ _ _ _ hm | transfer _ hm => exact le_of_eq hm.frame.2.2.2.2.2.symm
  | _ => exact le_refl _

lemma reaped_new (hs : LifeStep k c a f) (h : (f.hand c).reaped = some r) :
    ∃ s me, k.task c = .reapSeed s ∧ k.table.get s = some me ∧ k.family.Unused s ∧
      r = ⟨me.pid, me.tgid, me.addrSpace⟩ ∧ me.pid < k.family.next ∧
      (∀ j m, k.family.row j = some m → m.pid = me.pid → j = s) ∧
      (∀ c', (k.family.hand c').reserved ≠ some me.pid) ∧ f.row s = none := by
  cases hs with
  | reap ht hm hf hlt hp hr =>
    simp only [take_hand, update_self, Option.some.injEq] at h
    exact ⟨_, _, ht, hm, hf, h.symm, hlt, hp, hr, by simp⟩
  | retire ht _ _ _ _ hv =>
    rw [hv.frame.1] at h
    simp [family, ht, Task.hand] at h
  | _ => simp_all

end LifeStep

/-! ## The rows and the hands -/

namespace Family

/-- The pid is that of a group, or of a record that has been taken out. -/
inductive Uses (f : Family) (p : Nat) : Prop
  | row {i : Nat} {l : Life} (hl : f.row i = some l) (hg : l.tgid = p)
  | reaped {c : Nat} {r : Reaped} (hr : (f.hand c).reaped = some r) (hp : r.tgid = p ∨ r.pid = p)

/-- What the hands of the CPUs presuppose of the rows, and of the pids in use. -/
structure Kin (f : Family) : Prop where
  runs : ∀ {c s}, (f.hand c).runs = some s → ∃ l, f.row s = some l ∧ l.zombie = false
  origin : ∀ {c o}, (f.hand c).origin = some o → ∃ s l, (f.hand c).runs = some s ∧
    o.slot = some s ∧ f.row s = some l ∧ l.pid = o.pid ∧ ∀ g, o.tgid = some g → g = l.tgid
  reserved_lt : ∀ {c p}, (f.hand c).reserved = some p → p < f.next
  reserved_inj : ∀ {c c' p}, (f.hand c).reserved = some p → (f.hand c').reserved = some p → c = c'
  used_lt : ∀ {p}, f.Uses p → p < f.next
  used_reserved : ∀ {p c}, f.Uses p → (f.hand c).reserved ≠ some p
  reaped_gone : ∀ {c r i l}, (f.hand c).reaped = some r → f.row i = some l → l.pid ≠ r.pid

end Family

namespace LifeStep

open Family

lemma row_runs (hs : LifeStep k c a f) (hr : (k.family.hand c').runs = some s) (hl : k.family.row s = some l)
    (hv : l.zombie = false) :
    ∃ m, f.row s = some m ∧ m.pid = l.pid ∧ m.tgid = l.tgid ∧ m.zombie = false := by
  obtain ⟨-, hz | hf⟩ | ⟨m, hm, hp, hg, hz | ⟨hf, -⟩⟩ := hs.row_old hl
  · simp [hv] at hz
  · exact absurd hr (hf c').1
  · exact ⟨m, hm, hp, hg, hz.trans hv⟩
  · exact absurd hr (hf c').1

lemma uses_new (hs : LifeStep k c a f) (hk : k.family.Kin) (hp : f.Uses p) :
    (p < k.family.next ∧ ∀ c', (k.family.hand c').reserved ≠ some p) ∨
    (p = k.family.next ∧ k.family.next < f.next ∧ (f.hand c).reserved = none) ∨
    ((k.family.hand c).reserved = some p ∧ (f.hand c).reserved = none) := by
  have hol {q : Nat} (hq : k.family.Uses q) :
      q < k.family.next ∧ ∀ c', (k.family.hand c').reserved ≠ some q :=
    ⟨hk.used_lt hq, fun _ => hk.used_reserved hq⟩
  cases hp with
  | row hl hg =>
    obtain ⟨m, hm, -, hmg⟩ | ⟨-, -, hb⟩ := hs.row_new hl
    · exact .inl (hol (.row hm (hmg.symm.trans hg)))
    · cases hb with
      | spawned _ hgn _ hn hrs => exact .inr (.inl ⟨hg.symm.trans hgn, hn, hrs⟩)
      | forked hd hgp _ hrs => exact .inr (.inr ⟨hg ▸ hgp ▸ hd, hrs⟩)
      | thread _ ho hgo =>
        obtain ⟨_, m, -, -, hm, -, ht⟩ := hk.origin ho
        exact .inl (hol (.row hm ((ht _ hgo).symm.trans hg)))
  | @reaped c' r hr hp =>
    by_cases hc : c' = c
    · subst hc
      obtain ⟨s, me, -, he, -, rfl, hlt, -, hrs, -⟩ := hs.reaped_new hr
      have hw : k.family.row s = some (Life.of me) := by simp [family, he]
      rcases hp with rfl | rfl
      · exact .inl (hol (.row hw rfl))
      · exact .inl ⟨hlt, hrs⟩
    · exact .inl (hol (.reaped (hs.hand_of_ne hc ▸ hr) hp))

lemma kin (hk : k.family.Kin) (ht : LifeStep k c a f) : f.Kin where
  runs {c' s} hrn := by
    by_cases hc : c' = c
    · subst hc
      obtain hol | hn := ht.runs_new hrn
      · obtain ⟨l, hl, hv⟩ := hk.runs hol
        obtain ⟨m, hm, -, -, hz⟩ := ht.row_runs hol hl hv
        exact ⟨m, hm, hz⟩
      · exact hn
    · rw [ht.hand_of_ne hc] at hrn
      obtain ⟨l, hl, hv⟩ := hk.runs hrn
      obtain ⟨m, hm, -, -, hz⟩ := ht.row_runs hrn hl hv
      exact ⟨m, hm, hz⟩
  origin {c' o} ho := by
    have hol : ∃ s l, (f.hand c').runs = some s ∧ (k.family.hand c').runs = some s ∧
        o.slot = some s ∧ k.family.row s = some l ∧ l.pid = o.pid ∧
        ∀ g, o.tgid = some g → g = l.tgid := by
      by_cases hc : c' = c
      · subst hc
        obtain ⟨hol, hrn⟩ | hn := ht.origin_new ho
        · obtain ⟨s, l, hs, hrs⟩ := hk.origin hol
          exact ⟨s, l, hrn.trans hs, hs, hrs⟩
        · exact hn
      · rw [ht.hand_of_ne hc] at ho ⊢
        obtain ⟨s, l, hs, hrs⟩ := hk.origin ho
        exact ⟨s, l, hs, hs, hrs⟩
    obtain ⟨s, l, hs', hs, hsl, hl, hp, hg⟩ := hol
    obtain ⟨l', hl', hv⟩ := hk.runs hs
    obtain rfl := mem_unique hl hl'
    obtain ⟨m, hm, hmp, hmg, -⟩ := ht.row_runs hs hl hv
    exact ⟨s, m, hs', hsl, hm, hmp.trans hp, fun g hog => (hg g hog).trans hmg.symm⟩
  reserved_lt {c' p} h := by
    by_cases hc : c' = c
    · subst hc
      obtain ⟨rfl, hlt⟩ := ht.reserved_new h
      exact hlt
    · exact lt_of_lt_of_le (hk.reserved_lt (ht.hand_of_ne hc ▸ h)) ht.next_le
  reserved_inj {c₁ c₂ p} h₁ h₂ := by
    by_cases hc₁ : c₁ = c <;> by_cases hc₂ : c₂ = c
    · exact hc₁.trans hc₂.symm
    · subst hc₁
      rw [ht.hand_of_ne hc₂] at h₂
      exact absurd (ht.reserved_new h₁).1 (ne_of_lt (hk.reserved_lt h₂))
    · subst hc₂
      rw [ht.hand_of_ne hc₁] at h₁
      exact absurd (ht.reserved_new h₂).1 (ne_of_lt (hk.reserved_lt h₁))
    · rw [ht.hand_of_ne hc₁] at h₁
      rw [ht.hand_of_ne hc₂] at h₂
      exact hk.reserved_inj h₁ h₂
  used_lt {p} hp := by
    obtain ⟨hlt, -⟩ | ⟨rfl, hlt, -⟩ | ⟨he, -⟩ := ht.uses_new hk hp
    · exact lt_of_lt_of_le hlt ht.next_le
    · exact hlt
    · exact lt_of_lt_of_le (hk.reserved_lt he) ht.next_le
  used_reserved {p c'} hp h := by
    by_cases hc : c' = c
    · subst hc
      obtain ⟨hlt, -⟩ | ⟨-, -, hno⟩ | ⟨-, hno⟩ := ht.uses_new hk hp
      · exact absurd (ht.reserved_new h).1 (ne_of_lt hlt)
      · exact nomatch hno.symm.trans h
      · exact nomatch hno.symm.trans h
    · rw [ht.hand_of_ne hc] at h
      obtain ⟨-, he⟩ | ⟨rfl, -, -⟩ | ⟨he, -⟩ := ht.uses_new hk hp
      · exact he c' h
      · exact absurd rfl (ne_of_lt (hk.reserved_lt h))
      · exact hc (hk.reserved_inj h he)
  reaped_gone {c' r i l} hr hl hp := by
    obtain ⟨m, hm, hmp, -⟩ | ⟨-, -, hb⟩ := ht.row_new hl
    · by_cases hc : c' = c
      · subst hc
        obtain ⟨s, me, -, -, -, rfl, -, hd, -, hgn⟩ := ht.reaped_new hr
        obtain rfl := hd i m hm (hmp.symm.trans hp)
        exact nomatch hgn.symm.trans hl
      · exact hk.reaped_gone (ht.hand_of_ne hc ▸ hr) hm (hmp.symm.trans hp)
    · have hu : r.pid < k.family.next ∧ (k.family.hand c).reserved ≠ some r.pid := by
        by_cases hc : c' = c
        · subst hc
          obtain ⟨s, me, -, -, -, rfl, hlt, -, he, -⟩ := ht.reaped_new hr
          exact ⟨hlt, he c'⟩
        · have hol := Uses.reaped (ht.hand_of_ne hc ▸ hr) (.inr rfl)
          exact ⟨hk.used_lt hol, hk.used_reserved hol⟩
      cases hb with
      | spawned hd => exact absurd (hp.symm.trans hd) (ne_of_lt hu.1)
      | forked hd | thread hd => exact hu.2 (hp ▸ hd)

end LifeStep

lemma init_hand (c : Nat) : State.init.family.hand c = {} := by
  simp only [family, init]
  split <;> rfl

lemma init_row (i : Nat) : State.init.family.row i = none := rfl

lemma Family.Kin.init : State.init.family.Kin where
  runs h := by simp [init_hand] at h
  origin h := by simp [init_hand] at h
  reserved_lt h := by simp [init_hand] at h
  reserved_inj h := by simp [init_hand] at h
  used_lt h := by cases h <;> simp_all [init_hand, init_row]
  used_reserved := by simp [init_hand]
  reaped_gone h := by simp [init_hand] at h

lemma CalmRun.kin (h : CalmRun es k) : k.family.Kin := by
  induction h with
  | nil => exact .init
  | snoc hrun hs ih => exact (step_life (CalmRun.inv hrun) hs.1 hs.2).kin ih

end ZeroOS.Kernel
