import ZeroOS.Lib.Run

/-!
# Writes to an NVMe namespace

`transfer` writes whole native blocks with one command. Of a block that is written in part it first reads what is
there and then writes the block back, and between the two commands the device may execute those of another CPU: a call
locks the path of its own CPU only.
-/

namespace ZeroOS.Drivers

open Function Transition

variable {α : Type*}

def maxIoPaths : Nat := 4

/-- A namespace, with its sizes in sectors, and the queues of its controller. -/
structure Namespace where
  native : Nat
  maxTransfer : Nat
  capacity : Nat
  ioCount : Nat
  native_pos : 0 < native

namespace Namespace

def pathIndex (ns : Namespace) (cpu : Nat) : Nat := min cpu (maxIoPaths - 1) % max ns.ioCount 1

def maxDirect (ns : Namespace) : Nat := max (ns.maxTransfer / ns.native * ns.native) ns.native

end Namespace

/-- A call of `write_blocks`: its sectors and what each of them shall hold. -/
structure Write (α : Type*) where
  lba : Nat
  len : Nat
  data : Nat → α

def Write.stop (w : Write α) : Nat := w.lba + w.len

/-- A call addresses a sector. -/
def Write.Has (w : Write α) (sector : Nat) : Prop := w.lba ≤ sector ∧ sector < w.stop

/-- A call that holds the lock of its path: the next sector, and what was read of the block of this sector. -/
structure Transfer (α : Type*) where
  call : Write α
  pos : Nat
  bounce : Option (Nat → α)

/-- The rest of the call begins with a whole block. -/
def Transfer.whole (ns : Namespace) (t : Transfer α) : Bool :=
  t.pos % ns.native == 0 && decide (ns.native ≤ t.call.stop - t.pos)

/-- How many sectors the next write is for. -/
def Transfer.count (ns : Namespace) (t : Transfer α) : Nat :=
  let remain := t.call.stop - t.pos
  if t.whole ns then min (remain - remain % ns.native) ns.maxDirect else min remain (ns.native - t.pos % ns.native)

def put (disk data : Nat → α) (pos n : Nat) : Nat → α := fun s => if pos ≤ s ∧ s < pos + n then data s else disk s

structure Device (α : Type*) where
  disk : Nat → α
  path : Nat → Option (Transfer α)
  done : List (Write α)

inductive Event (α : Type*)
  | start (cpu : Nat) (w : Write α)
  | command (i : Nat)

namespace Device

variable (ns : Namespace) (d : Device α)

/-- The next command of a call. -/
def submit (i : Nat) (t : Transfer α) : Device α :=
  let ahead := update d.path i (some ⟨t.call, t.pos + t.count ns, none⟩)
  if t.whole ns then { d with disk := put d.disk t.call.data t.pos (t.count ns), path := ahead }
  else
    match t.bounce with
    | none => { d with path := update d.path i (some { t with bounce := some d.disk }) }
    | some block =>
      { d with
        disk := fun s => if s / ns.native = t.pos / ns.native then put block t.call.data t.pos (t.count ns) s else d.disk s
        path := ahead }

def next : Event α → Option (Device α)
  | .start cpu w =>
    if (d.path (ns.pathIndex cpu)).isNone ∧ w.stop ≤ ns.capacity then
      some { d with path := update d.path (ns.pathIndex cpu) (some ⟨w, w.lba, none⟩) }
    else none
  | .command i => (d.path i).map fun t =>
    if t.pos < t.call.stop then d.submit ns i t
    else { d with path := update d.path i none, done := t.call :: d.done }

def Step (e : Event α) (d' : Device α) : Prop := d.next ns e = some d'

/-- A call shares no sector with an earlier one, and no native block with one that is not finished. -/
def Apart : Event α → Prop
  | .start _ w => (∀ w' ∈ d.done, ∀ s, w'.Has s → ¬ w.Has s) ∧
    ∀ i t, d.path i = some t → ∀ s s', w.Has s → t.call.Has s' → s / ns.native ≠ s' / ns.native
  | .command _ => True

/-! ## The invariant -/

/-- A call is on its way: what it has passed is written, and no other call is in its blocks. -/
structure Going (i : Nat) (t : Transfer α) : Prop where
  lba : t.call.lba ≤ t.pos
  stop : t.pos ≤ t.call.stop
  written : ∀ s, t.call.lba ≤ s → s < t.pos → d.disk s = t.call.data s
  bounce : ∀ b, t.bounce = some b → t.pos < t.call.stop ∧ ∀ s, s / ns.native = t.pos / ns.native → b s = d.disk s
  apart : ∀ w ∈ d.done, ∀ s, w.Has s → ¬ t.call.Has s
  blocks : ∀ j u, d.path j = some u → i ≠ j → ∀ s s', t.call.Has s → u.call.Has s' → s / ns.native ≠ s' / ns.native

structure Inv : Prop where
  done : ∀ w ∈ d.done, ∀ s, w.Has s → d.disk s = w.data s
  going : ∀ i t, d.path i = some t → Going ns d i t

variable {ns d}

lemma count_le (ns : Namespace) (t : Transfer α) : t.count ns ≤ t.call.stop - t.pos := by
  unfold Transfer.count
  dsimp only
  split <;> omega

/-- A write of the next sectors. It changes sectors of the call only. -/
lemma Inv.put (h : Inv ns d) (hi : d.path i = some t) (hp : t.pos < t.call.stop) : Inv ns
    { d with
      disk := put d.disk t.call.data t.pos (t.count ns)
      path := update d.path i (some ⟨t.call, t.pos + t.count ns, none⟩) } := by
  have hg := h.going i t hi
  have hc := count_le ns t
  have hn : ∀ s, t.pos ≤ s ∧ s < t.pos + t.count ns → t.call.Has s := fun s hs => ⟨by have := hg.lba; omega, by omega⟩
  refine ⟨fun w hw s hs => ?_, fun j u hj => ?_⟩
  · exact (if_neg fun hr => hg.apart w hw s hs (hn s hr)).trans (h.done w hw s hs)
  by_cases hji : j = i
  · subst hji
    cases (update_self ..).symm.trans hj
    constructor <;> grind [Drivers.put, Write.Has, Going, update_apply]
  · -- the other call: none of the sectors is in one of its blocks
    have hu := h.going j u ((update_of_ne hji ..).symm.trans hj)
    have hb : ∀ s s', u.call.Has s → t.pos ≤ s' ∧ s' < t.pos + t.count ns → s / ns.native ≠ s' / ns.native :=
      fun s s' hs hs' => hu.blocks i t hi hji s s' hs (hn s' hs')
    constructor <;> grind [Drivers.put, Write.Has, Going, update_apply]

/-- The block that was read is still the one on the disk, so writing it back changes the sectors of the call only. -/
lemma patch_eq (h : Inv ns d) (hi : d.path i = some t) (hb : t.bounce = some b) (hw : t.whole ns = false) :
    (fun s => if s / ns.native = t.pos / ns.native then put b t.call.data t.pos (t.count ns) s else d.disk s) =
      put d.disk t.call.data t.pos (t.count ns) := by
  funext s
  have hs := ((h.going i t hi).bounce b hb).2 s
  have hc : t.count ns ≤ ns.native - t.pos % ns.native := by
    simp only [Transfer.count, hw]
    exact Nat.min_le_right ..
  have hbl : t.pos ≤ s ∧ s < t.pos + t.count ns → s / ns.native = t.pos / ns.native := by
    rintro ⟨hl, hh⟩
    have hdiv := Nat.div_add_mod t.pos ns.native
    have hmod := Nat.mod_lt t.pos ns.native_pos
    rw [Nat.mul_comm] at hdiv
    refine Nat.div_eq_of_lt_le (by omega) ?_
    rw [Nat.succ_mul]
    omega
  unfold put
  grind

lemma Inv.read (h : Inv ns d) (hi : d.path i = some t) (hp : t.pos < t.call.stop) :
    Inv ns { d with path := update d.path i (some { t with bounce := some d.disk }) } := by
  have hg := h.going
  refine ⟨h.done, fun j u hj => ?_⟩
  constructor <;> grind [Going, update_apply]

lemma Inv.finish (h : Inv ns d) (hi : d.path i = some t) (hp : t.call.stop ≤ t.pos) :
    Inv ns { d with path := update d.path i none, done := t.call :: d.done } := by
  have hg := h.going i t hi
  have ho := h.going
  refine ⟨fun w hw s hs => ?_, fun j u hj => ?_⟩
  · have hd := h.done w
    grind [Write.Has, Going]
  · constructor <;> grind [Write.Has, Going, update_apply]

lemma Inv.start (h : Inv ns d) (ha : d.Apart ns (.start i w)) :
    Inv ns { d with path := update d.path i (some ⟨w, w.lba, none⟩) } := by
  obtain ⟨hd, hb⟩ := ha
  have hg := h.going
  refine ⟨h.done, fun j u hj => ?_⟩
  constructor <;> grind [Write.stop, Going, update_apply]

lemma Inv.step {e : Event α} (h : Inv ns d) (ha : d.Apart ns e) (hs : d.Step ns e d') : Inv ns d' := by
  cases e with
  | start cpu w =>
    simp only [Step, next] at hs
    split at hs
    · cases hs
      exact h.start ha
    · cases hs
  | command i =>
    obtain ⟨t, hi, rfl⟩ := Option.map_eq_some_iff.mp hs
    split
    next hp =>
      rw [submit]
      split
      · exact h.put hi hp
      next hw =>
        split
        · exact h.read hi hp
        next b hb =>
          rw [patch_eq h hi hb (Bool.eq_false_iff.mpr hw)]
          exact h.put hi hp
    next hp => exact h.finish hi (by omega)

/-- A controller with two queues and blocks of eight sectors. -/
def twoQueues : Namespace := ⟨8, 256, 8192, 2, by decide⟩

/-- A call that was done before does not matter to the next step. -/
lemma Step.after (hs : d.Step ns e d') (w : Write α) :
    Step ns { d with done := d.done ++ [w] } e { d' with done := d'.done ++ [w] } := by
  cases e with
  | start cpu v =>
    simp only [Step, next] at hs ⊢
    split at hs
    next hf => cases hs; rw [if_pos hf]
    · cases hs
  | command i =>
    obtain ⟨t, hi, rfl⟩ := Option.map_eq_some_iff.mp hs
    simp only [Step, next, hi, Option.map_some, submit]
    repeat' split
    all_goals rfl

/-- Sectors that no call addresses stay as they are, though the blocks they are in are written back. -/
theorem others_untouched {disk : Nat → α} (hrun : Run (Guarded (Apart ns) (Step ns)) ⟨disk, fun _ => none, []⟩ es d)
    (hs : ∀ cpu w, .start cpu w ∈ es → ¬w.Has s) : d.disk s = disk s := by
  -- as if a call had written what the sector holds
  have hi : Inv ns { d with done := d.done ++ [⟨s, 1, disk⟩] } := by
    induction hrun with
    | nil => exact ⟨by simp, by simp⟩
    | @snoc es d d' e _ hst ih =>
      refine (ih fun cpu w hw => hs cpu w (List.mem_append_left _ hw)).step ?_ (hst.2.after _)
      cases e with
      | command i => trivial
      | start cpu w =>
        refine ⟨fun w' hw' s' hs' => ?_, hst.1.2⟩
        obtain hw' | hw' := List.mem_append.mp hw'
        · exact hst.1.1 w' hw' s' hs'
        · obtain rfl := List.mem_singleton.mp hw'
          obtain rfl : s' = s := by simp only [Write.Has, Write.stop] at hs'; omega
          exact hs cpu w (by simp)
  exact hi.done _ (List.mem_append_right _ List.mem_cons_self) s ⟨le_refl _, Nat.lt_succ_self _⟩

theorem others_untouched_part : ∃ d : Device Nat, Run (Guarded (Apart twoQueues) (Step twoQueues)) ⟨fun _ => 0, fun _ => none, []⟩
      [.start 0 ⟨9, 1, fun _ => 2⟩, .command 0, .command 0] d ∧ d.disk 8 = 0 :=
  Exists.imp (fun _ h => ⟨h, others_untouched h (by simp +contextual [Write.Has])⟩)
    ⟨_, .cons ⟨⟨by simp, by simp⟩, rfl⟩ (.cons ⟨trivial, rfl⟩ (.single ⟨trivial, rfl⟩))⟩

/-! ## Progress -/

/-- How many commands a call needs at most until all is written. -/
def left (t : Transfer α) : Nat := 2 * (t.call.stop - t.pos) - if t.bounce.isSome then 1 else 0

def isCommand (i : Nat) : Event α → Bool
  | .start _ _ => false
  | .command j => j == i

/-- A call is over after `n` more commands of its path. -/
def Due (d : Device α) (i : Nat) (w : Write α) (n : Nat) : Prop := w ∈ d.done ∨ ∃ t, d.path i = some t ∧ t.call = w ∧ left t < n

lemma submit_left (d : Device α) (i : Nat) (hp : t.pos < t.call.stop) : (d.submit ns i t).done = d.done ∧
    ∃ t', (d.submit ns i t).path = update d.path i (some t') ∧ t'.call = t.call ∧ left t' < left t := by
  have hc : 0 < t.count ns := by
    have hn := ns.native_pos
    have hm := Nat.mod_lt t.pos hn
    have hr := Nat.mod_lt (t.call.stop - t.pos) hn
    unfold Transfer.count Namespace.maxDirect
    dsimp only
    split
    next hw =>
      simp only [Transfer.whole, Bool.and_eq_true, decide_eq_true_eq] at hw
      omega
    · omega
  have hl : left ⟨t.call, t.pos + t.count ns, none⟩ < left t := by
    simp only [left, Option.isSome_none, Bool.false_eq_true, if_false]
    split <;> omega
  rw [submit]
  split
  · exact ⟨rfl, _, rfl, rfl, hl⟩
  · split
    next hb =>
      refine ⟨rfl, _, rfl, rfl, ?_⟩
      simp [left, hb, hp]
    · exact ⟨rfl, _, rfl, rfl, hl⟩

lemma Due.step (h : d.Due i w n) (hs : d.Step ns e d') : d'.Due i w (n - if isCommand i e then 1 else 0) := by
  cases e with
  | start cpu v =>
    simp only [Step, next] at hs
    split at hs
    next hf =>
      cases hs
      refine h.imp_right ?_
      rintro ⟨t, hi, hw⟩
      have hne : i ≠ ns.pathIndex cpu := by
        rintro rfl
        simp [hi] at hf
      exact ⟨t, (update_of_ne hne ..).trans hi, hw⟩
    · cases hs
  | command j =>
    obtain ⟨u, hj, rfl⟩ := Option.map_eq_some_iff.mp hs
    split
    next hp =>
      obtain ⟨hd, u', hu, hc, hlt⟩ := @submit_left _ ns _ d j hp
      refine h.imp (hd ▸ ·) ?_
      rintro ⟨t, hi, rfl, hl⟩
      rw [hu]
      by_cases hji : j = i
      · subst hji
        cases hi.symm.trans hj
        exact ⟨u', update_self .., hc, by simp only [isCommand, beq_self_eq_true, if_true]; omega⟩
      · exact ⟨t, (update_of_ne (Ne.symm hji) ..).trans hi, rfl, by simpa [isCommand, hji] using hl⟩
    · obtain hw | ⟨t, hi, rfl, hl⟩ := h
      · exact .inl (List.mem_cons_of_mem _ hw)
      by_cases hji : j = i
      · subst hji
        cases hi.symm.trans hj
        exact .inl List.mem_cons_self
      · exact .inr ⟨t, (update_of_ne (Ne.symm hji) ..).trans hi, rfl, by simpa [isCommand, hji] using hl⟩

/-- A call ends after two commands for each of its sectors and one more, whatever the other paths do. -/
theorem call_ends (hi : d.path i = some t) (hrun : Run (Step ns) d es d')
    (hn : 2 * (t.call.stop - t.pos) < es.countP (isCommand i)) : t.call ∈ d'.done := by
  have h : d'.Due i t.call (2 * (t.call.stop - t.pos) + 1 - es.countP (isCommand i)) := by
    clear hn
    induction hrun with
    | nil => exact .inr ⟨t, hi, rfl, by rw [left, List.countP_nil]; omega⟩
    | snoc _ hs ih =>
      rw [List.countP_append, List.countP_singleton, ← Nat.sub_sub]
      exact ih.step hs
  obtain hd | ⟨u, -, -, hu⟩ := h
  · exact hd
  · omega

theorem call_ends_part : ∃ d' : Device Nat, Run (Step twoQueues) ⟨fun _ => 0, fun _ => some ⟨⟨9, 1, fun _ => 2⟩, 9, none⟩, []⟩
      [.command 0, .command 1, .command 0, .command 0] d' ∧ ⟨9, 1, fun _ => 2⟩ ∈ d'.done :=
  Exists.imp (fun _ h => ⟨h, call_ends (i := 0) rfl h (by decide)⟩) ⟨_, .cons rfl (.cons rfl (.cons rfl (.single rfl)))⟩

end Device

end ZeroOS.Drivers
