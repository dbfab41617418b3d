import ZeroOS.Kernel.Groups
import ZeroOS.Kernel.Waiting

/-!
# The address space of a thread group, from its attachment to its end

The record that carries the space of a group hands it to another member when it exits; the last
member's exit has it destroyed. `Custody` says that no space is destroyed twice. Here it is shown
that none is lost, and that no member is alive when it is destroyed, as long as `Exec` is not used
and every space a dying record carries is *succeeded*: the survivor that `group_survivor_index`
names is not itself a zombie, and on the immediate path of an exit there is a survivor. The code
asks for neither: a zombie qualifies as survivor, and on the immediate path the record goes back into
the table without its space even if nobody has taken it.
-/

namespace ZeroOS.Kernel

open Family Function List Option State Transition ZeroOS.Process Bool

variable {k : State} {f : Family}

/-! ## The discipline -/

def livingHeir (t : ProcessTable) (tgid dying : Nat) : Bool :=
  (t.groupSurvivorIndex tgid dying).all fun idx => (t.get idx).all (·.state != .zombie)

/-- The space that a dying record carries, if any, gets a living heir, or nobody is left to get it;
on the immediate path of an exit somebody is. -/
def succeeded (k : State) (e : Event) : Bool := calm k e && e.act != .exec &&
    match k.task e.cpu with
    | .exitDecide slot _ =>
      (k.table.get slot).all fun me => me.addrSpace.isNone || livingHeir k.table me.tgid me.pid &&
          (k.table.dispositionOf me == .becomeZombie || (k.table.groupSurvivorIndex me.tgid me.pid).isSome)
    | .reapTransfer _ _ record _ => record.addrSpace.isNone || livingHeir k.table record.tgid record.pid
    | _ => true

lemma groupSurvivorIndex_modify {t : ProcessTable} {s tgid : Nat} {me : ProcessRecord}
    {f : ProcessRecord → ProcessRecord} {hf : ∀ r, (f r).slot = r.slot} (hm : t.get s = some me)
    (hd : (f me).pid = me.pid) :
    (t.modify s f hf).groupSurvivorIndex tgid me.pid = t.groupSurvivorIndex tgid me.pid := by
  unfold ProcessTable.groupSurvivorIndex ProcessTable.position
  generalize hp : (fun r : ProcessRecord =>
    r.tgid == tgid && r.pid != me.pid && r.state != .dying && r.addrSpace.isNone) = p
  have hs : (t.modify s f hf).entries.map (·.any p) = t.entries.map (·.any p) := by
    refine ext_getElem? fun i => ?_
    simp only [ProcessTable.modify, getElem?_map, getElem?_modify]
    by_cases hi : s = i
    · subst hi
      simp [ProcessTable.get_eq_some.mp hm, ← hp, hd]
    · simp [hi]
  simpa only [findIdx?_map, Function.id_comp] using congrArg (List.findIdx? id) hs

/-! ## The invariant -/

namespace Family

/-- The space is with a record, with a CPU that will see to it, or destroyed. -/
def Kept (f : Family) (σ : Nat) : Prop := ∃ d, f.Holds σ d ∧ ∀ c, d ≠ .fresh c

/-- Every member of the group that is in the table is dead. -/
def Extinct (f : Family) (g : Nat) : Prop := ∀ ⦃j m⦄, f.row j = some m → m.tgid = g → m.zombie = true

/-- No space is lost, and none is doomed while a member of its group is alive. -/
structure Succession (f : Family) : Prop where
  noExec : ∀ c, (f.hand c).execs = none
  bare : ∀ {i l}, f.row i = some l → l.zombie = true → l.space = none
  doomed : ∀ {c σ g : Nat}, σ ∈ (f.hand c).doomed → f.group[σ]? = some g → f.Extinct g
  kept : ∀ {σ}, σ ∈ f.attached → f.Kept σ

end Family

/-! ## Steps -/

namespace LifeStep

variable {g : Family} {tgid dying σ i : Nat} {heir out : Option Nat} {me : ProcessRecord}

lemma extinct {g : Nat} (hstep : LifeStep k c a f) (hk : k.family.Kin)
    (hlt : g < k.family.next) (hr : ∀ c, (k.family.hand c).reserved ≠ some g)
    (h : k.family.Extinct g) : f.Extinct g := by
  intro j m hm hg
  obtain ⟨l, hl, -, ht⟩ | ⟨-, -, hb⟩ := hstep.row_new hm
  · have hz := h hl (ht.symm.trans hg)
    obtain ⟨hn, -⟩ | ⟨m', hm', -, -, heq | ⟨-, hz'⟩⟩ := hstep.row_old hl
    · rw [hn] at hm; cases hm
    · rw [mem_unique hm hm', heq, hz]
    · rw [mem_unique hm hm', hz']
  · cases hb with
    | spawned _ ht => exact absurd (hg.symm.trans ht) (ne_of_lt hlt)
    | forked hp ht => exact absurd (hp.trans (congrArg some (ht.symm.trans hg))) (hr c)
    | thread _ ho hgo =>
      obtain ⟨s, l, hrn, -, hl, -, ht⟩ := hk.origin ho
      obtain ⟨l', hl', hv⟩ := hk.runs hrn
      obtain rfl := mem_unique hl hl'
      have hz := h hl ((ht _ hgo).symm.trans hg)
      rw [hv] at hz
      cases hz

lemma transfer_extinct (hv : g.Transfer tgid dying heir space (some σ) f)
    (hb : ∀ {j m}, g.row j = some m → m.tgid = tgid → m.pid ≠ dying → m.space = none)
    (hd : ∀ {j m}, g.row j = some m → m.pid = dying → m.zombie = true) : f.Extinct tgid := by
  cases hv with
  | kept hn =>
    intro j m hm hg
    by_cases hp : m.pid = dying
    · exact hd hm hp
    · exact absurd (hb hm hg hp) (hn j m hm hg hp)

lemma bare_of_active (hg : k.family.Grouped) (hσ : k.family.Active σ)
    (hr : k.family.group[σ]? = some tgid) (hm : k.family.row j = some m) (hmg : m.tgid = tgid)
    (hne : ¬k.family.Holds σ (.row j)) : m.space = none := by
  cases hs : m.space with
  | none => rfl
  | some σ' =>
    obtain rfl := hg.active (.row hm hs) hσ (hg.row hm hs) (hmg ▸ hr)
    exact absurd ⟨m, hm, hs⟩ hne

lemma noExec_step (hstep : LifeStep k c a f) (hs : k.family.Succession) (hexec : a ≠ .exec)
    (c' : Nat) : (f.hand c').execs = none := by
  by_cases hc : c' = c
  · subst hc
    have ho := hs.noExec c'
    cases hstep with
    | exec _ ha => exact absurd ha hexec
    | execBuilt hh | rebind hh | execLoad hh => simp [hh] at ho
    | retire _ _ _ _ _ hm => rw [hm.frame.1]; exact ho
    | _ => simp
  · rw [hstep.hand_of_ne hc]
    exact hs.noExec c'

lemma doomed_old {c' g : Nat} (hstep : LifeStep k c a f) (hk : k.family.Kin) (hc : k.family.Custody)
    (hg : k.family.Grouped) (hs : k.family.Succession) (hσ : σ ∈ (k.family.hand c').doomed)
    (hgr : f.group[σ]? = some g) : f.Extinct g := by
  have hd : k.family.Holds σ (.doomed c') := hσ
  have hlt := hc.bound hd
  have ho : k.family.group[σ]? = some g := by
    rw [getElem?_eq_getElem hlt, ← hgr, hstep.group_old (getElem?_eq_getElem hlt)]
  refine hstep.extinct hk (hg.lt ho) (fun c₁ hr => ?_) (hs.doomed hσ ho)
  have hf : k.family.Holds σ (.fresh c₁) := hg.reserved hr ho
  exact nomatch hc.sole hd hf

lemma doomed_new {g : Nat} (hstep : LifeStep k c a f) (hn : Inv k) (hk : k.family.Kin)
    (hc : k.family.Custody) (hg : k.family.Grouped) (hs : k.family.Succession) (hσ : σ ∈ (f.hand c).doomed)
    (hgr : f.group[σ]? = some g) : f.Extinct g := by
  have ho : σ ∈ (k.family.hand c).doomed → f.Extinct g := fun h => hstep.doomed_old hk hc hg hs h hgr
  cases hstep with
  | destroy _ hd => exact ho (by simp_all)
  | collect _ _ _ _ hl hz => simp [hs.bare hl hz] at hσ
  | @zombify s status me out f₁ ht he _ _ _ hv =>
    obtain rfl : out = some σ := by simpa using hσ
    have hsc := hv.out_eq rfl
    have hw : k.family.row s = some (Life.of me) := State.row_of_get he
    have hgp : k.family.group[σ]? = some me.tgid := hg.row hw hsc
    obtain rfl : me.tgid = g := by
      rw [take_group, hv.frame.2.1, put_group, hgp] at hgr
      exact some.inj hgr
    have hrs : ∀ {j m}, j ≠ s → (k.family.put s (some (Life.of me).zombify)).row j = some m → k.family.row j = some m := by
      intro j m hj hm
      simpa [hj] using hm
    change f₁.Extinct me.tgid
    refine transfer_extinct hv (fun {j m} hm hmg hp => ?_) fun {j m} hm hp => ?_
    · have hj : j ≠ s := by
        rintro rfl
        obtain rfl : (Life.of me).zombify = m := by simpa using hm
        exact hp rfl
      refine bare_of_active hg (.row hw hsc) hgp (hrs hj hm) hmg fun hhl => ?_
      have hcr : k.family.Holds σ (.row s) := ⟨_, hw, hsc⟩
      exact hj (Holder.row.inj (hc.sole hhl hcr))
    · by_cases hj : j = s
      · subst hj
        obtain rfl : (Life.of me).zombify = m := by simpa using hm
        rfl
      · obtain ⟨r, hr, rfl⟩ := map_eq_some_iff.mp (hrs hj hm)
        exact absurd (hn.unique _ _ _ _ hr he hp) hj
  | reap _ _ _ _ _ _ _ hmm =>
    simp only [take_hand, update_self, mem_filterMap] at hσ
    obtain ⟨i, hi, hsp⟩ := hσ
    obtain ⟨-, l, hl, -, hz⟩ := (hmm i).mp hi
    simp [hl, hs.bare hl hz] at hsp
  | @transfer _ _ record casc out f₁ ht hv =>
    simp only [take_hand, update_self, mem_append, mem_toList] at hσ
    obtain rfl | hcs := hσ
    · have hh := hand_eq ht
      have hsc := hv.out_eq rfl
      have hrp : (k.family.hand c).reaped = some ⟨record.pid, record.tgid, record.addrSpace⟩ := by rw [hh]; rfl
      have hgp : k.family.group[σ]? = some record.tgid := hg.reaped hrp hsc
      obtain rfl : record.tgid = g := by
        rw [take_group, hv.frame.2.1, hgp] at hgr
        exact some.inj hgr
      change f₁.Extinct record.tgid
      refine transfer_extinct hv (fun {j m} hm hmg _ => ?_) fun {j m} hm hp => ?_
      · refine bare_of_active hg (.transit hrp hsc) hgp hm hmg fun hhl => ?_
        have htr : k.family.Holds σ (.transit c) := ⟨_, hrp, hsc⟩
        exact nomatch hc.sole hhl htr
      · exact absurd hp (hk.reaped_gone hrp hm)
    · exact ho (by rw [hand_eq ht]; exact hcs)
  | retire ht _ _ _ _ hv =>
    rw [hv.frame.1] at hσ
    simp [hand_eq ht, Task.hand] at hσ
  | rebind hh | execLoad hh => simpa [hh] using hs.noExec c
  | _ => simp at hσ

lemma succeeded_exit (ho : succeeded k ⟨c, a⟩ = true)
    (ht : k.task c = .exitDecide s status) (hm : k.table.get s = some me) (hc : me.addrSpace ≠ none) :
    livingHeir k.table me.tgid me.pid = true ∧ (k.table.dispositionOf me = .reapImmediately →
      (k.table.groupSurvivorIndex me.tgid me.pid).isSome = true) := by
  have hs : me.addrSpace.isNone = false := by cases hs : me.addrSpace <;> simp_all
  simp only [succeeded, ht, hm, all_some, hs, Bool.false_or, Bool.and_eq_true] at ho
  refine ⟨ho.2.1, fun hd => ?_⟩
  simpa [hd] using ho.2.2

lemma succeeded_reap (ho : succeeded k ⟨c, a⟩ = true)
    (ht : k.task c = .reapTransfer seed stack record casc) (hc : record.addrSpace ≠ none) :
    livingHeir k.table record.tgid record.pid = true := by
  have hs : record.addrSpace.isNone = false := by cases hs : record.addrSpace <;> simp_all
  simp only [succeeded, ht, hs, Bool.false_or, Bool.and_eq_true] at ho
  exact ho.2

lemma heir_alive (hh : livingHeir k.table tgid dying = true)
    (hj : k.table.groupSurvivorIndex tgid dying = some j) (hm : k.family.row j = some m) :
    m.zombie = false := by
  obtain ⟨r, hr, rfl⟩ := map_eq_some_iff.mp hm
  simpa [livingHeir, hj, hr, Life.of] using hh

lemma transfer_bare (hmv : g.Transfer tgid dying heir space out f)
    (hb : ∀ {i l}, g.row i = some l → l.zombie = true → l.space = none)
    (hh : ∀ {j m}, space ≠ none → heir = some j → g.row j = some m → m.pid ≠ dying → m.zombie = false)
    (hl : f.row i = some l) (hz : l.zombie = true) :
    l.space = none := by
  obtain heq | ⟨m, σ, hm, hσ, -, hj, -, hp, -, hn⟩ := hmv.row_eq i
  · exact hb (heq ▸ hl) hz
  · obtain rfl := mem_unique hn hl
    have hv : m.zombie = false := hh (by simp [hσ]) hj hm hp
    exact absurd hz (by simp [hv])

lemma exit_bare (hs : k.family.Succession)
    (ho : me.addrSpace ≠ none → livingHeir k.table me.tgid me.pid = true) (hc : l'.space = none)
    (hd : l'.pid = me.pid)
    (hv : (k.family.put s (some l')).Transfer me.tgid me.pid (k.table.groupSurvivorIndex me.tgid me.pid) me.addrSpace out f)
    (hl : f.row i = some l) (hz : l.zombie = true) : l.space = none := by
  refine transfer_bare hv (fun {i l} hl hz => ?_) (fun {j m} hsp hj hm hp => ?_) hl hz
  · by_cases his : i = s
    · subst his
      obtain rfl : l' = l := by simpa using hl
      exact hc
    · exact hs.bare (by simpa [his] using hl) hz
  · have hjs : j ≠ s := by
      rintro rfl
      obtain rfl : l' = m := by simpa using hm
      exact hp hd
    exact heir_alive (ho hsp) hj (by simpa [hjs] using hm)

lemma bare_step (hstep : LifeStep k c a f) (hg : k.family.Grouped) (hs : k.family.Succession)
    (hk : succeeded k ⟨c, a⟩ = true) (hl : f.row i = some l) (hz : l.zombie = true) : l.space = none := by
  cases hstep with
  | @spawn j | @insertFork j | @insertThread j =>
    obtain ⟨rfl, rfl⟩ | hl := row_put hl
    · cases hz
    · exact hs.bare hl hz
  | @configure j p m r o hh hm =>
    obtain ⟨rfl, rfl⟩ | hl := row_put hl
    · obtain ⟨m', hm', -, -, hlv⟩ := (hg.builds (c := c) (i := i) (p := p) (by rw [hh])).row
      obtain rfl := mem_unique hm hm'
      exact absurd hz (by simp [hlv])
    · exact hs.bare hl hz
  | @setParent j m r o _ hm =>
    obtain ⟨rfl, rfl⟩ | hl := row_put hl
    · exact hs.bare (l := m) hm hz
    · exact hs.bare hl hz
  | rebind hh => simpa [hh] using hs.noExec c
  | @collect _ j | @deliver j =>
    by_cases hij : i = j
    · simp [hij] at hl
    · exact hs.bare (by simpa [hij] using hl) hz
  | zombify ht he _ _ _ hv | retire ht he _ _ _ hv =>
    rw [groupSurvivorIndex_modify he rfl] at hv
    exact exit_bare hs (fun hp => (succeeded_exit hk ht he hp).1) rfl rfl hv hl hz
  | transfer ht hv =>
    exact transfer_bare hv hs.bare
      (fun hp hj hm _ => heir_alive (succeeded_reap hk ht hp) hj hm) hl hz
  | @reap s me =>
    by_cases his : i = s
    · simp [his] at hl
    · simp only [his, if_false] at hl
      obtain ⟨m, hm, ho⟩ := bind_eq_some_iff.mp hl
      unfold Life.orphan at ho
      split at ho
      · split at ho
        · cases ho
        · next hlv =>
          cases ho
          exact absurd hz hlv
      · cases ho
        exact hs.bare hm hz
  | _ => exact hs.bare hl hz

lemma kept_transfer (hm : g.Transfer tgid dying heir (some σ) out f) :
    out = some σ ∧ heir = none ∨ ∃ j, f.Holds σ (.row j) := by
  cases hm with
  | kept => exact .inl ⟨rfl, rfl⟩
  | @given _ j m => exact .inr ⟨j, _, update_self .., rfl⟩

lemma kept_hand (hstep : LifeStep k c a f) (hσ : k.family.Holds σ (.transit c) ∨ k.family.Holds σ (.doomed c)) :
    f.Kept σ := by
  cases hstep with
  | @destroy s d hp hdm =>
    obtain ⟨r, hr, -⟩ | hσ := hσ
    · rw [hp] at hr; cases hr
    · have he : σ ∈ s :: d := hdm ▸ hσ
      obtain rfl | hd := mem_cons.mp he
      · exact ⟨.grave, mem_cons_self, (by simp)⟩
      · exact ⟨.doomed c, by simpa [Holds] using hd, (by simp)⟩
  | @transfer _ _ record casc out f₁ ht hm =>
    have hh := hand_eq ht
    obtain ⟨r, hr, hs⟩ | hσ := hσ
    · rw [hh] at hr
      cases hr
      have hs : record.addrSpace = some σ := hs
      rw [hs] at hm
      obtain ⟨rfl, -⟩ | ⟨j, hj⟩ := kept_transfer hm
      · exact ⟨.doomed c, by simp [Holds], (by simp)⟩
      · exact ⟨.row j, hj, (by simp)⟩
    · refine ⟨.doomed c, ?_, (by simp)⟩
      have hσ : σ ∈ (k.family.hand c).doomed := hσ
      rw [hh] at hσ
      simpa [Holds] using .inr (by simpa [Task.hand] using hσ)
  | rest hp hdm => simp [Holds, hp, hdm] at hσ
  | execLoad hh => exact ⟨.doomed c, by simpa [Holds, hh] using hσ, (by simp)⟩
  | exec ht | collect ht | zombify ht | retire ht | deliver ht | reap ht => simp [Holds, hand_eq ht, Task.hand] at hσ
  | load hh | snapshot hh | reserve hh | fork hh | forkClone hh | spawn hh
  | configure hh | setParent hh | insertFork hh | insertThread hh | execBuilt hh
  | rebind hh => simp [Holds, hh] at hσ

lemma holds_transfer (hv : g.Transfer tgid dying heir space out f) (hσ : g.Holds σ (.row i)) :
    f.Holds σ (.row i) := by
  obtain ⟨l, hl, hs⟩ := hσ
  obtain heq | ⟨m, _, hm, -, -, -, -, -, hn, -⟩ := hv.row_eq i
  · exact ⟨l, heq.trans hl, hs⟩
  · rw [mem_unique hl hm, hn] at hs
    cases hs

section

variable (hstep : LifeStep k c a f)
include hstep

lemma kept_row (hg : k.family.Grouped) (hs : k.family.Succession) (ho : succeeded k ⟨c, a⟩ = true)
    (hσ : k.family.Holds σ (.row i)) : f.Kept σ := by
  obtain ⟨l, hl, hsp⟩ := hσ
  -- the row is still there, with its space
  have stays {m : Life} (hm : f.row i = some m) (hmσ : m.space = l.space) : f.Kept σ := ⟨.row i, ⟨m, hm, hmσ.trans hsp⟩, (by simp)⟩
  cases hstep with
  | @spawn j | @insertFork j | @insertThread j =>
    have hne : i ≠ j := by rintro rfl; simp_all
    exact stays (m := l) (by simp [hne, hl]) rfl
  | @configure j p m r o hh hm =>
    by_cases hij : i = j
    · subst hij
      obtain ⟨m', hm', -, hn, -⟩ := (hg.builds (c := c) (i := i) (p := p) (by rw [hh])).row
      rw [mem_unique hl hm', hn] at hsp
      cases hsp
    · exact stays (m := l) (by simp [hij, hl]) rfl
  | @setParent j m r o _ hm =>
    by_cases hij : i = j
    · subst hij
      obtain rfl := mem_unique hl hm
      exact stays (update_self ..) rfl
    · exact stays (m := l) (by simp [hij, hl]) rfl
  | rebind hh => simpa [hh] using hs.noExec c
  | @collect _ j _ _ _ _ m _ _ _ _ hm hz | @deliver j _ _ m _ hm hz =>
    have hne : i ≠ j := by
      rintro rfl
      obtain rfl := mem_unique hl hm
      rw [hs.bare hl hz] at hsp
      cases hsp
    exact stays (m := l) (by simp [hne, hl]) rfl
  | @zombify s status me out f₁ ht he _ _ _ hv =>
    by_cases his : i = s
    · subst his
      obtain rfl := mem_unique hl (row_of_get he)
      rw [show me.addrSpace = some σ from hsp] at hv
      obtain ⟨rfl, -⟩ | ⟨j, hj⟩ := kept_transfer hv
      · exact ⟨.doomed c, by simp [Holds], (by simp)⟩
      · exact ⟨.row j, hj, (by simp)⟩
    · have hr : f₁.Holds σ (.row i) := holds_transfer hv ⟨l, by simp [his, hl], hsp⟩
      exact ⟨.row i, hr, (by simp)⟩
  | @retire s status me out f₁ ht he _ _ hpl hv =>
    by_cases his : i = s
    · subst his
      obtain rfl := mem_unique hl (row_of_get he)
      have hsp : me.addrSpace = some σ := hsp
      have hhr := (succeeded_exit ho ht he (by simp [hsp])).2 hpl
      rw [groupSurvivorIndex_modify he rfl, hsp] at hv
      obtain ⟨-, hn⟩ | ⟨j, hj⟩ := kept_transfer hv
      · rw [hn] at hhr; cases hhr
      · exact ⟨.row j, hj, (by simp)⟩
    · exact ⟨.row i, holds_transfer hv ⟨l, by simp [his, hl], hsp⟩, (by simp)⟩
  | @transfer _ _ _ _ _ f₁ ht hv =>
    have hr : f₁.Holds σ (.row i) := holds_transfer hv ⟨l, hl, hsp⟩
    exact ⟨.row i, hr, (by simp)⟩
  | @reap s me zs ht he =>
    by_cases his : i = s
    · subst his
      obtain rfl := mem_unique hl (row_of_get he)
      exact ⟨.transit c, ⟨⟨me.pid, me.tgid, me.addrSpace⟩, by simp, hsp⟩, (by simp)⟩
    · have hlv : l.zombie = false := by
        cases hz : l.zombie with
        | false => rfl
        | true => rw [hs.bare hl hz] at hsp; cases hsp
      by_cases hp : l.parent = some me.pid
      · exact stays (m := { l with parent := some initPid })
          (by simp [his, hl, Life.orphan, hp, hlv]) rfl
      · exact stays (m := l) (by simp [his, hl, Life.orphan, hp]) rfl
  | _ => exact stays (m := l) hl rfl

lemma kept_old (hg : k.family.Grouped) (hs : k.family.Succession) (ho : succeeded k ⟨c, a⟩ = true) (hσ : k.family.Kept σ) :
    f.Kept σ := by
  obtain ⟨d, hd, hf⟩ := hσ
  cases d with
  | row i => exact hstep.kept_row hg hs ho hd
  | fresh c' => exact absurd rfl (hf c')
  | transit c' =>
    by_cases hc : c' = c
    · exact hstep.kept_hand (.inl (hc ▸ hd))
    · obtain ⟨r, hr, hp⟩ := hd
      exact ⟨.transit c', ⟨r, (congrArg Hand.reaped (hstep.hand_of_ne hc)).trans hr, hp⟩, nofun⟩
  | doomed c' =>
    by_cases hc : c' = c
    · exact hstep.kept_hand (.inr (hc ▸ hd))
    · have hd : σ ∈ (k.family.hand c').doomed := hd
      rw [← hstep.hand_of_ne hc] at hd
      exact ⟨.doomed c', hd, nofun⟩
  | grave =>
    refine ⟨.grave, ?_, nofun⟩
    change σ ∈ f.graves
    obtain heq | ⟨s, -, heq⟩ := hstep.graves_new
    · exact heq ▸ hd
    · exact heq ▸ mem_cons_of_mem s hd

lemma attached_new (hσ : σ ∈ f.attached) :
    σ ∈ k.family.attached ∨ ∃ i, f.Holds σ (.row i) := by
  cases hstep with
  | @configure i p l r o hh hl =>
    obtain rfl | ho := mem_cons.mp hσ
    · exact .inr ⟨i, _, update_self .., rfl⟩
    · exact .inl ho
  | @insertFork i s p o sp =>
    obtain hn | ho := mem_append.mp hσ
    · exact .inr ⟨i, _, update_self .., mem_toList.mp hn⟩
    · exact .inl ho
  | @rebind s x l =>
    obtain rfl | ho := mem_cons.mp hσ
    · exact .inr ⟨s, _, update_self .., rfl⟩
    · exact .inl ho
  | zombify _ _ _ _ _ hm | retire _ _ _ _ _ hm | transfer _ hm =>
    have heq := hm.frame.2.2.2.1
    exact .inl (by simpa [heq] using hσ)
  | _ => exact .inl hσ

lemma succession (hn : Inv k) (hk : k.family.Kin) (hcs : k.family.Custody) (hg : k.family.Grouped)
    (hs : k.family.Succession) (ho : succeeded k ⟨c, a⟩ = true) : f.Succession where
  noExec := hstep.noExec_step hs fun ha => by simp [succeeded, ha] at ho
  bare := hstep.bare_step hg hs ho
  doomed {c' σ g} hσ hr := by
    by_cases hc : c' = c
    · exact hstep.doomed_new hn hk hcs hg hs (hc ▸ hσ) hr
    · exact hstep.doomed_old hk hcs hg hs (hstep.hand_of_ne hc ▸ hσ) hr
  kept {σ} hσ := by
    obtain hl | ⟨i, hi⟩ := hstep.attached_new hσ
    · exact hstep.kept_old hg hs ho (hs.kept hl)
    · exact ⟨.row i, hi, nofun⟩

end

end LifeStep

lemma Family.Succession.init : State.init.family.Succession where
  noExec c := by simp [init_hand]
  bare hl := nomatch hl
  doomed hσ := by simp [init_hand] at hσ
  kept hσ := nomatch hσ

/-! ## Runs -/

abbrev SucceededRun := Run (Guarded (fun k e => succeeded k e = true) Step) State.init

lemma calm_of_succeeded (h : succeeded k e = true) : calm k e = true := by
  simp only [succeeded, and_eq_true] at h
  exact h.1.1

lemma SucceededRun.calmRun (h : SucceededRun es k) : CalmRun es k :=
  h.mono fun _ _ _ hstep => ⟨calm_of_succeeded hstep.1, hstep.2⟩

lemma SucceededRun.succession (h : SucceededRun es k) : k.family.Succession := by
  induction h with
  | nil => exact .init
  | snoc hrun hstep ih =>
    have hc := SucceededRun.calmRun hrun
    exact (step_life hc.inv (calm_of_succeeded hstep.1) hstep.2).succession hc.inv hc.kin
      hc.custody hc.grouped ih hstep.1

/-- The CPU has the space in hand: in a record it has taken out, or to be destroyed. -/
def State.sees (k : State) (c σ : Nat) : Prop :=
  (∃ r, (k.task c).hand.reaped = some r ∧ r.space = some σ) ∨ σ ∈ (k.task c).hand.doomed

/-- The life of a group's address space. In every state of a succeeded run: no space has been
destroyed twice; every space that was given to a record has been destroyed, is carried by a record,
or is in the hands of a CPU that will hand it on or destroy it; and a step destroys a space only
when every member of its group that is in the table is a zombie. -/
theorem group_space_lifetime (hrun : SucceededRun es k) : (gravesIn k.log).Nodup ∧ (∀ σ ∈ attachedIn k.log, σ ∈ gravesIn k.log ∨
      (∃ s r, k.table.get s = some r ∧ r.addrSpace = some σ) ∨ ∃ c, k.sees c σ) ∧
    ∀ e k', Step k e k' → succeeded k e = true → ∀ σ ∈ gravesIn k'.log, σ ∉ gravesIn k.log →
      ∀ s r, k.table.get s = some r → k.spaces[σ]? = some r.tgid → r.state = .zombie := by
  have hc := hrun.calmRun
  have hs := hrun.succession
  refine ⟨hc.custody.graves_nodup, fun σ hσ => ?_, fun e k' hstep ho σ hσ hn s r hr hg => ?_⟩
  · obtain ⟨d, hd, hf⟩ := hs.kept hσ
    cases d with
    | row i =>
      obtain ⟨l, hl, hp⟩ := hd
      obtain ⟨r, hr, rfl⟩ := map_eq_some_iff.mp hl
      exact .inr (.inl ⟨i, r, hr, hp⟩)
    | fresh c => exact absurd rfl (hf c)
    | transit c => exact .inr (.inr ⟨c, .inl hd⟩)
    | doomed c => exact .inr (.inr ⟨c, .inr hd⟩)
    | grave => exact .inl hd
  · obtain heq | ⟨x, hx, heq⟩ := (step_life hc.inv (calm_of_succeeded ho) hstep).graves_new
    · exact absurd (heq ▸ hσ : σ ∈ k.family.graves) hn
    · have hm : σ ∈ x :: k.family.graves := heq ▸ hσ
      obtain rfl | hol := mem_cons.mp hm
      · have hz := hs.doomed hx hg (State.row_of_get hr) rfl
        simpa [Life.of] using hz
      · exact absurd hol hn

def imageLoaded : List Event := [⟨0, .spawn .bootfs⟩, ⟨0, .go true⟩, ⟨0, .go true⟩, ⟨0, .go true⟩, ⟨0, .startScheduler⟩,
    ⟨0, .pop⟩, ⟨0, .go true⟩, ⟨0, .go true⟩, ⟨0, .go true⟩]

def threadRuns : List Event := [⟨0, .createThread⟩, ⟨0, .go true⟩, ⟨0, .go true⟩, ⟨0, .go true⟩, ⟨1, .pop⟩, ⟨1, .go true⟩,
    ⟨1, .go true⟩, ⟨1, .go true⟩]

def leaderExits : List Event :=
  [⟨0, .exit 0⟩, ⟨0, .go true⟩, ⟨0, .go true⟩, ⟨0, .go true⟩, ⟨0, .go true⟩, ⟨0, .go true⟩, ⟨0, .go true⟩]

/-- The thread leaves by `svc #2`, up to the destruction of the space it has taken over. -/
def threadLeaves : List Event := [⟨1, .svcExit⟩, ⟨1, .go true⟩, ⟨1, .go true⟩, ⟨1, .go true⟩, ⟨1, .go true⟩]

theorem group_space_lifetime_handedOn : ∃ k k', SucceededRun (imageLoaded ++ threadRuns ++ leaderExits ++ threadLeaves) k ∧
      Step k ⟨1, .go true⟩ k' ∧ gravesIn k.log = [] ∧ gravesIn k'.log = [0] ∧
      ∀ s r, k.table.get s = some r → k.spaces[0]? = some r.tgid → r.state = .zombie := by
  obtain ⟨k, hrun, hc⟩ := exists_guardedRun succeeded
    (imageLoaded ++ threadRuns ++ leaderExits ++ threadLeaves)
    (fun k => succeeded k ⟨1, .go true⟩ && gravesIn k.log == [] &&
      (next? k ⟨1, .go true⟩).any fun k' => gravesIn k'.log == [0]) (by decide)
  simp only [and_eq_true, beq_iff_eq] at hc
  obtain ⟨⟨ho, hno⟩, hn⟩ := hc
  obtain ⟨k', hn, hg⟩ := (Option.any_eq_true ..).mp hn
  have hg : gravesIn k'.log = [0] := by simpa using hg
  have hstep := step_of_next? hn
  exact ⟨k, k', hrun, hstep, hno, hg, (group_space_lifetime hrun).2.2 _ k' hstep ho 0 (by simp [hg]) (by simp [hno])⟩

def secondThreadRuns : List Event := [⟨0, .createThread⟩, ⟨0, .go true⟩, ⟨0, .go true⟩, ⟨0, .go true⟩, ⟨2, .pop⟩, ⟨2, .go true⟩,
    ⟨2, .go true⟩, ⟨2, .go true⟩]

/-- The first thread exits and becomes a zombie. -/
def threadExits : List Event := [⟨1, .exit 0⟩, ⟨1, .go true⟩, ⟨1, .go true⟩, ⟨1, .go true⟩, ⟨1, .go true⟩]

lemma CalmRun.task_eq (hrun : CalmRun es k) : ∀ c, (∀ e ∈ es, e.cpu ≠ c) → k.task c = State.init.task c := by
  induction hrun with
  | nil => exact fun _ _ => rfl
  | @snoc es k k' e hrun hstep ih =>
    intro c hc
    have hm := step_waits (CalmRun.inv hrun) hstep.1 hstep.2
    rw [hm.others (Ne.symm (hc e (by simp)))]
    exact ih c fun e' he' => hc e' (by simp [he'])

/-- The space of a process without a parent is lost when it exits; and a space that was handed to a
zombie is destroyed under the thread that still runs in it. -/
theorem group_space_mishandled : (¬∀ es k σ, Run Step State.init es k → σ ∈ attachedIn k.log → σ ∈ gravesIn k.log ∨
      (∃ s r, k.table.get s = some r ∧ r.addrSpace = some σ) ∨ ∃ c, k.sees c σ) ∧
    ¬∀ es k e k' σ, Run Step State.init es k → Step k e k' → σ ∈ gravesIn k'.log →
      σ ∉ gravesIn k.log → ∀ s r, k.table.get s = some r → k.spaces[σ]? = some r.tgid → r.state = .zombie := by
  constructor
  · intro ha
    obtain ⟨k, hrun, hch⟩ := exists_guardedRun calm (imageLoaded ++ leaderExits)
      (fun k => attachedIn k.log == [0] && gravesIn k.log == [] && k.table.records == [] && (k.task 0).hand == {}) (by decide)
    simp only [and_eq_true, beq_iff_eq] at hch
    obtain ⟨⟨⟨hatt, hg⟩, hm⟩, hh⟩ := hch
    obtain hv | ⟨s, r, hr, -⟩ | ⟨c, hs⟩ := ha _ k 0 (hrun.mono fun _ _ _ hstep => hstep.2)
      (by simp [hatt])
    · simp [hg] at hv
    · have hme : r ∈ k.table.records := ProcessTable.mem_records.mpr ⟨s, hr⟩
      simp [hm] at hme
    · have hie : (k.task c).hand = {} := by
        by_cases hc : c = 0
        · rw [hc, hh]
        · have hp : ∀ e ∈ imageLoaded ++ leaderExits, e.cpu = 0 := by decide
          rw [CalmRun.task_eq hrun c fun e he h => hc (h.symm.trans (hp e he))]
          exact init_hand c
      simp [sees, hie] at hs
  · intro ha
    obtain ⟨k, hrun, hch⟩ := exists_run
      (imageLoaded ++ threadRuns ++ secondThreadRuns ++ threadExits ++ leaderExits.dropLast)
      (fun k => gravesIn k.log == [] && k.spaces == [2] && (k.table.get 2).any (fun r => r.tgid == 2 && r.state == .running) &&
        (next? k ⟨0, .go true⟩).any fun k' => gravesIn k'.log == [0]) (by decide)
    simp only [and_eq_true, beq_iff_eq] at hch
    obtain ⟨⟨⟨ho, hsp⟩, ht⟩, hn⟩ := hch
    obtain ⟨r, hr, hr'⟩ := (Option.any_eq_true ..).mp ht
    obtain ⟨k', hn, hg⟩ := (Option.any_eq_true ..).mp hn
    simp only [and_eq_true, beq_iff_eq] at hr' hg
    have hz := ha _ k _ k' 0 hrun (step_of_next? hn) (by simp [hg]) (by simp [ho]) 2 r hr
      (by simp [hsp, hr'.1])
    rw [hr'.2] at hz
    cases hz

end ZeroOS.Kernel
