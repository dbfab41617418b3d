import ZeroOS.Kernel.Pedigree

/-!
# Who holds an address space

A space is built for a group, attached to a record, handed on inside the group, taken out with a
record, and destroyed. At every moment one place has it at most: `Custody`. A step takes spaces from
place to place on a few `Route`s and never leaves one behind where it was (`LifeStep.relocates`), and
from that alone no space is in two places, or destroyed twice.
-/

namespace ZeroOS.Kernel

open Function List Option ZeroOS.Process

lemma Family.Transfer.row_dying {f f' : Family} (ht : f.Transfer tgid dying he space out f') (hm : f.row s = some m)
    (hp : m.pid = dying) : f'.row s = some m := by
  obtain heq | ⟨m', -, hm', -, -, -, -, hp', -⟩ := ht.row_eq s
  · exact heq.trans hm
  · obtain rfl := mem_unique hm hm'
    exact absurd hp hp'

lemma Family.Transfer.out_eq {f f' : Family}
    (ht : f.Transfer tgid dying he space out f') (hx : out = some x) : space = some x := by
  cases ht with
  | nothing | given => cases hx
  | kept => exact hx

/-- Where a space can be. -/
inductive Holder
  | /-- In the record at a slot. -/
    row (slot : Nat)
  | /-- Built by a CPU and not attached yet. -/
    fresh (cpu : Nat)
  | /-- In a record that `full_reap` has taken out. -/
    transit (cpu : Nat)
  | /-- About to be destroyed by a CPU. -/
    doomed (cpu : Nat)
  | /-- Destroyed. -/
    grave
  deriving DecidableEq

namespace Family

def Holds (f : Family) (σ : Nat) : Holder → Prop
  | .row i => ∃ l, f.row i = some l ∧ l.space = some σ
  | .fresh c => (f.hand c).fresh = some σ
  | .transit c => ∃ r, (f.hand c).reaped = some r ∧ r.space = some σ
  | .doomed c => σ ∈ (f.hand c).doomed
  | .grave => σ ∈ f.graves

/-- Every space is in one place at most. -/
def Sole (f : Family) : Prop := ∀ ⦃σ d e⦄, f.Holds σ d → f.Holds σ e → d = e

/-- Every space is in one place at most, and there once. -/
structure Custody (f : Family) : Prop where
  sole : f.Sole
  nodup : ∀ c, (f.hand c).doomed.Nodup
  graves_nodup : f.graves.Nodup
  bound : ∀ {σ h}, f.Holds σ h → σ < f.group.length

end Family

open Family

/-- The ways a space takes in one step of CPU `c`. -/
inductive Route (c : Nat) : Holder → Holder → Prop
  | attach (i : Nat) : Route c (.fresh c) (.row i)
  | inherit (i j : Nat) : Route c (.row i) (.row j)
  | reap (i : Nat) : Route c (.row i) (.transit c)
  | doom (i : Nat) : Route c (.row i) (.doomed c)
  | settle (j : Nat) : Route c (.transit c) (.row j)
  | drop : Route c (.transit c) (.doomed c)
  | bury : Route c (.doomed c) .grave

/-- A step of CPU `c` takes some spaces to a new place, on a route or just built, and leaves the others
where they are or nowhere. -/
structure Relocates (g f : Family) (c : Nat) (dest : Nat → Option Holder) : Prop where
  rest : ∀ σ h, f.Holds σ h → dest σ = some h ∨ g.Holds σ h
  left : ∀ σ d, dest σ = some d → ∀ h, g.Holds σ h → f.Holds σ h → h = d
  route : ∀ σ d, dest σ = some d → (∃ h, g.Holds σ h ∧ Route c h d) ∨
    σ = g.group.length ∧ f.group.length = g.group.length + 1 ∧ (d = .fresh c ∨ ∃ i, d = .row i)

namespace Relocates

lemma sole (hm : Relocates g f c dest) (hg : g.Sole) : f.Sole := by
  intro σ h h' hh hh'
  cases hd : dest σ with
  | none =>
    have ho {d : Holder} (hd' : f.Holds σ d) : g.Holds σ d := (hm.rest σ d hd').resolve_left (by simp [hd])
    exact hg (ho hh) (ho hh')
  | some d =>
    have ht {d' : Holder} (hd' : f.Holds σ d') : d' = d := by
      obtain hdd | ho := hm.rest σ d' hd'
      · exact mem_unique hdd hd
      · exact hm.left σ d hd d' ho hd'
    exact (ht hh).trans (ht hh').symm

lemma none (hr : ∀ σ h, f.Holds σ h → g.Holds σ h) : ∃ dest, Relocates g f c dest :=
  ⟨fun _ => Option.none, fun σ h hh => .inr (hr σ h hh), nofun, nofun⟩

lemma moves (hg : g.Sole) (move : Nat → Option (Holder × Holder))
    (hr : ∀ σ h, f.Holds σ h → (move σ).map Prod.snd = some h ∨ g.Holds σ h)
    (hm : ∀ σ d e, move σ = some (d, e) → g.Holds σ d ∧ ¬f.Holds σ d ∧ Route c d e) :
    ∃ dest, Relocates g f c dest := by
  refine ⟨fun σ => (move σ).map Prod.snd, hr, fun σ e he h ho hn => ?_, fun σ e he => ?_⟩
  · obtain ⟨⟨d, e⟩, hd, rfl⟩ := map_eq_some_iff.mp he
    obtain ⟨hf, hgn, -⟩ := hm σ d e hd
    obtain rfl := hg ho hf
    exact absurd hn hgn
  · obtain ⟨⟨d, e⟩, hd, rfl⟩ := map_eq_some_iff.mp he
    obtain ⟨hf, -, ht⟩ := hm σ d e hd
    exact .inl ⟨d, hf, ht⟩

lemma one (hg : g.Sole) (hr : ∀ σ h, f.Holds σ h → σ = x ∧ h = e ∨ g.Holds σ h) (hf : g.Holds x d)
    (hn : ¬f.Holds x d) (ht : Route c d e) : ∃ dest, Relocates g f c dest := by
  refine moves hg (fun σ => if σ = x then some (d, e) else Option.none) (fun σ h hh => ?_)
    fun σ d' e' hd => ?_
  · obtain ⟨rfl, rfl⟩ | ho := hr σ h hh
    · exact .inl (by simp)
    · exact .inr ho
  · obtain ⟨rfl, heq⟩ := ite_none_right_eq_some.mp hd
    cases heq
    exact ⟨hf, hn, ht⟩

lemma new (hb : ∀ {σ h}, g.Holds σ h → σ < g.group.length)
    (hr : ∀ σ h, f.Holds σ h → σ = g.group.length ∧ h = d ∨ g.Holds σ h)
    (hg : f.group.length = g.group.length + 1) (hd : d = .fresh c ∨ ∃ i, d = .row i) :
    ∃ dest, Relocates g f c dest := by
  refine ⟨fun σ => if σ = g.group.length then some d else Option.none, fun σ h hh => ?_,
    fun σ d' hd' h ho hn => ?_, fun σ d' hd' => ?_⟩
  · obtain ⟨rfl, rfl⟩ | ho := hr σ h hh
    · exact .inl (if_pos rfl)
    · exact .inr ho
  · split at hd'
    next hσ => exact absurd hσ (ne_of_lt (hb ho))
    · cases hd'
  · split at hd'
    next hσ =>
      cases hd'
      exact .inr ⟨hσ, hg, hd⟩
    · cases hd'

lemma transfer (hg : g.Sole) {f₁ f₂ : Family} {tgid dying : Nat} {he space out : Option Nat}
    (hv : Transfer f₁ tgid dying he space out f₂) (d : Holder)
    (hl : ∀ σ h, f₁.Holds σ h → g.Holds σ h)
    (hf : ∀ σ h, f.Holds σ h → f₂.Holds σ h ∨ out = some σ ∧ h = .doomed c)
    (hfr : ∀ σ, space = some σ → g.Holds σ d) (hn : ∀ σ, space = some σ → ¬f.Holds σ d)
    (hr : Route c d (.doomed c) ∧ ∀ j, Route c d (.row j)) : ∃ dest, Relocates g f c dest := by
  cases hv with
  | nothing => exact none fun σ h hh => hl σ h ((hf σ h hh).resolve_right (by simp))
  | @kept x =>
    refine one hg (x := x) (e := .doomed c) (fun σ h hh => ?_) (hfr x rfl)
      (hn x rfl) hr.1
    obtain ho | ⟨hx, rfl⟩ := hf σ h hh
    · exact .inr (hl σ h ho)
    · exact .inl ⟨(some.inj hx).symm, rfl⟩
  | @given x j m hm =>
    refine one hg (x := x) (e := .row j) (fun σ h hh => ?_) (hfr x rfl)
      (hn x rfl) (hr.2 j)
    have hp := (hf σ h hh).resolve_right (by simp)
    cases h with
    | row i =>
      by_cases hj : i = j
      · subst hj
        simp only [Holds, put_row, update_self, Option.some.injEq, exists_eq_left'] at hp
        exact .inl ⟨hp.symm, rfl⟩
      · simp only [Holds, put_row, update_of_ne hj] at hp
        exact .inr (hl σ (.row i) hp)
    | _ => exact .inr (hl σ _ hp)

end Relocates

lemma nodup_toList {α : Type} (o : Option α) : o.toList.Nodup := by
  cases o <;> simp

namespace LifeStep

variable {k : State} {c : Nat} {f : Family}

lemma relocates_rebind (hk : k.family.Custody) (hn : k.family.hand c = { runs := some s, execs := some s, fresh := some x })
    (hl : k.family.row s = some l) :
    ∃ dest, Relocates k.family { (k.family.take c
      { runs := some s, execs := some s, image := some x, doomed := l.space.toList }).put s
        (some { l with space := some x }) with attached := x :: k.family.attached } c dest := by
  have hf : k.family.Holds x (.fresh c) := by simp [Holds, hn]
  refine Relocates.moves hk.sole (fun σ => if σ = x then some (.fresh c, .row s) else
    if l.space = some σ then some (.row s, .doomed c) else none) (fun σ h hh => ?_)
    fun σ d e hd => ?_
  · have hne : l.space ≠ some x := fun hx => nomatch hk.sole hf (e := .row s) ⟨l, hl, hx⟩
    cases h <;> simp only [Holds, put_row, take_row, put_hand, take_hand, put_graves, take_graves, update_apply] at hh ⊢ <;>
      grind
  · split at hd
    next hσ =>
      cases hd
      exact ⟨hσ ▸ hf, by simp [Holds], .attach s⟩
    next hσ =>
      obtain ⟨hs, heq⟩ := ite_none_right_eq_some.mp hd
      cases heq
      exact ⟨⟨l, hl, hs⟩, by simp [Holds, Ne.symm hσ], .doom s⟩

lemma relocates_reap {s : Nat} {me : ProcessRecord} {zs : List Nat} (hk : k.family.Custody)
    (hn : k.family.hand c = {}) (he : k.table.get s = some me)
    (hzs : ∀ i ∈ zs, i ≠ s ∧ ∃ l, k.family.row i = some l ∧ l.parent = some me.pid ∧ l.zombie = true) :
    ∃ dest, Relocates k.family { k.family.take c
      { reaped := some ⟨me.pid, me.tgid, me.addrSpace⟩
        doomed := zs.filterMap fun i => (k.family.row i).bind Life.space } with
      row := fun i => if i = s then none else (k.family.row i).bind (Life.orphan me.pid) }
      c dest := by
  classical
  have hr := State.row_of_get he
  -- the zombie child a space is taken from
  let owner (σ : Nat) : Option Nat :=
    if h : ∃ i ∈ zs, (k.family.row i).bind Life.space = some σ then some h.choose else none
  have ho {σ i : Nat} (hi : owner σ = some i) : i ∈ zs ∧ k.family.Holds σ (.row i) := by
    obtain ⟨hex, heq⟩ := dite_none_right_eq_some.mp hi
    cases heq
    obtain ⟨l, hl, hσ⟩ := bind_eq_some_iff.mp hex.choose_spec.2
    exact ⟨hex.choose_spec.1, l, hl, hσ⟩
  refine Relocates.moves hk.sole (fun σ => if me.addrSpace = some σ then
    some (.row s, .transit c) else (owner σ).map fun i => (.row i, .doomed c)) (fun σ h hh => ?_)
    fun σ d e hd => ?_
  · cases h with
    | row i =>
      obtain ⟨m, hm, hs⟩ := hh
      simp only at hm
      split at hm
      · cases hm
      · obtain ⟨l, hl, hor⟩ := bind_eq_some_iff.mp hm
        refine .inr ⟨l, hl, ?_⟩
        simp only [Life.orphan] at hor
        grind
    | doomed c' =>
      by_cases hc : c' = c
      · subst hc
        simp only [Holds, take_hand, update_self] at hh
        have hex : ∃ i ∈ zs, (k.family.row i).bind Life.space = some σ := mem_filterMap.mp hh
        have hi : owner σ = some hex.choose := dif_pos hex
        have he' : me.addrSpace ≠ some σ := fun hσ => (hzs _ (ho hi).1).1
          (Holder.row.inj (hk.sole (ho hi).2 (e := .row s) ⟨_, hr, hσ⟩))
        exact .inl (by rw [if_neg he', hi]; rfl)
      · exact .inr (by simpa [Holds, hc] using hh)
    | grave => exact .inr hh
    | transit c' =>
      by_cases hc : c' = c
      · subst hc
        have hσ : me.addrSpace = some σ := by simpa [Holds] using hh
        exact .inl (by rw [if_pos hσ]; rfl)
      · exact .inr (by simpa [Holds, hc] using hh)
    | fresh c' =>
      by_cases hc : c' = c
      · subst hc
        simp [Holds] at hh
      · exact .inr (by simpa [Holds, hc] using hh)
  · split at hd
    next hσ =>
      cases hd
      exact ⟨⟨_, hr, hσ⟩, by simp [Holds], .reap s⟩
    · obtain ⟨i, hi, heq⟩ := map_eq_some_iff.mp hd
      cases heq
      obtain ⟨hmm, hol⟩ := ho hi
      obtain ⟨hne, l, hl, hp, hz⟩ := hzs i hmm
      refine ⟨hol, ?_, .doom i⟩
      simp [Holds, hne, hl, Life.orphan, hp, hz]

lemma relocates (hk : k.family.Custody) (hst : LifeStep k c a f) : ∃ dest, Relocates k.family f c dest := by
  cases hst with
  | forkClone hn | execBuilt hn =>
    refine Relocates.new hk.bound (d := .fresh c) (fun σ h hh => ?_) (by simp) (.inl rfl)
    cases h <;> simp [Holds, update_apply] at hh ⊢ <;> grind
  | @configure i =>
    refine Relocates.new hk.bound (d := .row i) (fun σ h hh => ?_) (by simp) (.inr ⟨i, rfl⟩)
    cases h <;> simp [Holds, update_apply] at hh ⊢ <;> grind
  | @insertFork i s p o sp hn hi =>
    cases sp with
    | none =>
      refine Relocates.none fun σ h hh => ?_
      cases h <;> simp [Holds, update_apply] at hh ⊢ <;> grind
    | some x =>
      refine Relocates.one hk.sole (x := x) (e := .row i) (fun σ h hh => ?_) ?_ ?_ (.attach i)
      · cases h <;> simp [Holds, update_apply] at hh ⊢ <;> grind
      · simp [Holds, hn]
      · simp [Holds]
  | rebind hn hl => exact relocates_rebind hk hn hl
  | @destroy x d hp hd =>
    refine Relocates.one hk.sole (x := x) (e := .grave) (fun σ h hh => ?_) ?_ ?_ .bury
    · cases h <;> simp [Holds, update_apply] at hh ⊢ <;> grind
    · simp [Holds, hd]
    · have := hk.nodup c
      rw [hd, nodup_cons] at this
      simp [Holds, this.1]
  | @collect s i _ _ _ _ l ht _ _ _ hl =>
    have hn : k.family.hand c = { runs := some s } := hand_eq ht
    cases hs : l.space with
    | none =>
      refine Relocates.none fun σ h hh => ?_
      cases h <;> simp [Holds, update_apply] at hh ⊢ <;> grind
    | some x =>
      refine Relocates.one hk.sole (x := x) (d := .row i) (e := .doomed c) (fun σ h hh => ?_)
        ⟨l, hl, hs⟩ ?_ (.doom i)
      · cases h <;> simp [Holds, update_apply] at hh ⊢ <;> grind
      · simp [Holds]
  | @zombify s _ me out g ht he _ _ _ hm =>
    have hn : k.family.hand c = {} := hand_eq ht
    have hr := State.row_of_get he
    refine Relocates.transfer hk.sole hm (.row s) (fun σ h hh => ?_) (fun σ h hh => ?_)
      (fun σ hσ => ⟨Life.of me, hr, hσ⟩) (fun σ hσ hh => ?_) ⟨.doom s, .inherit s⟩
    · cases h <;> simp [Holds, update_apply, Life.zombify] at hh ⊢ <;> grind
    · have := hm.frame.1
      cases h <;> simp [Holds, update_apply] at hh ⊢ <;> grind
    · have := hm.row_dying (s := s) (update_self ..) rfl
      simp [Holds, this, Life.zombify] at hh
  | @retire s _ me out g ht he _ _ _ hm =>
    have hn : k.family.hand c = {} := hand_eq ht
    have hr := State.row_of_get he
    refine Relocates.transfer hk.sole hm (.row s) (fun σ h hh => ?_) (fun σ h hh => .inl hh)
      (fun σ hσ => ⟨Life.of me, hr, hσ⟩) (fun σ hσ hh => ?_) ⟨.doom s, .inherit s⟩
    · cases h <;> simp [Holds, update_apply, Life.retire] at hh ⊢ <;> grind
    · have := hm.row_dying (s := s) (update_self ..) rfl
      simp [Holds, this, Life.retire] at hh
  | reap ht he _ _ _ _ _ hmm => exact relocates_reap hk (hand_eq ht) he fun i hi => (hmm i).mp hi
  | @transfer _ _ record casc out g ht hm =>
    have hn := hand_eq ht
    refine Relocates.transfer hk.sole hm (.transit c) (fun σ h hh => hh) (fun σ h hh => ?_)
      (fun σ hσ => ?_) (fun σ hσ hh => ?_) ⟨.drop, .settle⟩
    · have := hm.frame.1
      simp [Task.hand] at hn
      cases h <;> simp [Holds, update_apply] at hh ⊢ <;> grind
    · simp [Holds, hn, Task.hand, hσ]
    · simp [Holds] at hh
  | rest | load | snapshot | reserve | fork | exec | execLoad | setParent | insertThread | spawn | deliver =>
    refine Relocates.none fun σ h hh => ?_
    cases h <;> simp [Holds, update_apply] at hh ⊢ <;> grind

lemma graves_new (hs : LifeStep k c a f) :
    f.graves = k.family.graves ∨ ∃ s, k.family.Holds s (.doomed c) ∧ f.graves = s :: k.family.graves := by
  cases hs with
  | @destroy s d _ hd => exact .inr ⟨s, by simp [Holds, hd], rfl⟩
  | zombify _ _ _ _ _ hm | retire _ _ _ _ _ hm | transfer _ hm => exact .inl hm.frame.2.2.2.2.1
  | _ => exact .inl rfl

/-- How a new space comes about. -/
inductive Built (k : State) (c : Nat) (f : Family) (g : Nat) : Prop
  | forked (hg : g = k.family.next) (hn : k.family.next < f.next)
      (hres : (f.hand c).reserved = some g) (hfresh : (f.hand c).fresh = some k.family.group.length)
  | configured {i : Nat} {l : Life} (hb : (k.family.hand c).builds = some (i, g))
      (hl : k.family.row i = some l)
      (hinj : ∀ c', c' ≠ c → ∀ q, (k.family.hand c').builds ≠ some (i, q))
  | exec {s : Nat} {l : Life} (hs : (k.family.hand c).execs = some s) (hl : k.family.row s = some l)
      (hg : l.tgid = g) (hrun : k.family.RunBy c s)

lemma group_new (hs : LifeStep k c a f) :
    f.group = k.family.group ∨ ∃ g, f.group = k.family.group ++ [g] ∧ Built k c f g := by
  cases hs with
  | forkClone _ _ _ hn => exact .inr ⟨_, rfl, .forked rfl hn (by simp) (by simp)⟩
  | configure hh hl hin => exact .inr ⟨_, rfl, .configured (by rw [hh]) hl hin⟩
  | execBuilt hh hl hrun => exact .inr ⟨_, rfl, .exec (by rw [hh]) hl rfl hrun⟩
  | zombify _ _ _ _ _ hm | retire _ _ _ _ _ hm | transfer _ hm => exact .inl hm.frame.2.1
  | _ => exact .inl rfl

lemma group_le (hs : LifeStep k c a f) : k.family.group.length ≤ f.group.length := by
  obtain heq | ⟨g, heq, -⟩ := hs.group_new <;> simp [heq]

lemma custody (hk : k.family.Custody) (hst : LifeStep k c a f) : f.Custody := by
  obtain ⟨dest, hms⟩ := hst.relocates hk
  refine ⟨hms.sole hk.sole, fun c' => ?_, ?_, fun {σ h} hh => ?_⟩
  · by_cases hc : c' = c
    · subst hc
      have ho := hk.nodup c'
      clear hms
      cases hst with
      | retire _ _ _ _ _ hv => rwa [hv.frame.1]
      | destroy _ hdm =>
        rw [hdm] at ho
        simpa using (nodup_cons.mp ho).2
      | @reap s me zs _ _ _ _ _ _ hz =>
        simp only [take_hand, update_self]
        refine hz.filterMap fun i j σ hi hj => ?_
        obtain ⟨l, hl, hσ⟩ := bind_eq_some_iff.mp hi
        obtain ⟨m, hm, hσ'⟩ := bind_eq_some_iff.mp hj
        exact Holder.row.inj (hk.sole ⟨l, hl, hσ⟩ ⟨m, hm, hσ'⟩)
      | @transfer _ _ record casc out g ht hv =>
        have hn := hand_eq ht
        rw [hn] at ho
        simp only [take_hand, update_self]
        refine nodup_append.mpr ⟨nodup_toList out, ho, ?_⟩
        rintro x hx y hy rfl
        have hp : record.addrSpace = some x := hv.out_eq (mem_toList.mp hx)
        have htr : k.family.Holds x (.transit c') := by simp [Holds, hn, Task.hand, hp]
        have hdm : k.family.Holds x (.doomed c') := by simpa [Holds, hn, Task.hand] using hy
        cases hk.sole htr hdm
      | execLoad hn => simpa [hn] using ho
      | rebind | collect | zombify => simpa using nodup_toList _
      | _ => simp
    · rw [hst.hand_of_ne hc]
      exact hk.nodup c'
  · obtain heq | ⟨s, hs, heq⟩ := hst.graves_new
    · exact heq ▸ hk.graves_nodup
    · rw [heq, nodup_cons]
      refine ⟨fun he => ?_, hk.graves_nodup⟩
      have hg : k.family.Holds s .grave := he
      cases hk.sole hs hg
  · have hlt {d : Holder} (hd : k.family.Holds σ d) : σ < f.group.length := lt_of_lt_of_le (hk.bound hd) hst.group_le
    obtain hd | ho := hms.rest σ h hh
    · obtain ⟨d, hd, -⟩ | ⟨rfl, hr, -⟩ := hms.route σ h hd
      · exact hlt hd
      · exact hr ▸ Nat.lt_succ_self _
    · exact hlt ho

end LifeStep

lemma init_graves : State.init.family.graves = [] := rfl

lemma init_not_holds (d : Holder) : ¬State.init.family.Holds σ d := by
  cases d <;> simp [Holds, init_hand, init_row, init_graves]

lemma Family.Custody.init : State.init.family.Custody where
  sole _ _ _ hd := absurd hd (init_not_holds _)
  nodup c := by simp [init_hand]
  graves_nodup := nodup_nil
  bound hd := absurd hd (init_not_holds _)

lemma CalmRun.custody (h : CalmRun es k) : k.family.Custody := by
  induction h with
  | nil => exact .init
  | snoc hrun hs ih => exact (step_life (CalmRun.inv hrun) hs.1 hs.2).custody ih

end ZeroOS.Kernel
