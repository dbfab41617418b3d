import ZeroOS.Lib.Run

/-!
# Futexes

The table of threads that wait on a word of user memory. A thread that finds the word unchanged
registers and then blocks; `futex_wake` takes registrations off the table, in their order, and wakes
the threads.

An entry of the table is an address and a thread. The address is a virtual one, and spaces that have
nothing to do with each other use the same. `futex_wake` does not look at the space of the threads it
wakes, so it can wake those of others, and what it counts is right only if it happens not to.
-/

namespace ZeroOS.Futex

open Function List Option Transition

/-! ## The table -/

structure FutexWaiter where
  uaddr : Nat
  pid : Nat
  deriving DecidableEq

def futexTableCap : Nat := 128

/-- The errors of `futex_wait_check`. -/
inductive SysError
  | invalidArgument
  | notFound
  | noMemory
  deriving DecidableEq

/-- `futex_wait_check`. The word is read twice, the second time with the table locked. -/
def futexWaitCheck (t : List FutexWaiter) (current : Option Nat) (uaddr : Nat) (expected actual actualLocked : BitVec 32) :
    Except SysError (Option (BitVec 32)) × List FutexWaiter :=
  if uaddr % 4 ≠ 0 then (.error .invalidArgument, t)
  else if actual ≠ expected then (.ok (some actual), t)
  else
    match current with
    | none => (.error .notFound, t)
    | some pid =>
      if actualLocked ≠ expected then (.ok (some actualLocked), t)
      else if futexTableCap ≤ t.length then (.error .noMemory, t)
      else (.ok none, t ++ [⟨uaddr, pid⟩])

/-- The loop of `futex_wake`: the threads to wake, and what is left of the table. -/
def takeWaiters (uaddr : Nat) : Nat → List FutexWaiter → List Nat × List FutexWaiter
  | _, [] => ([], [])
  | 0, t => ([], t)
  | max + 1, w :: t =>
    if w.uaddr = uaddr then
      let out := takeWaiters uaddr max t
      (w.pid :: out.1, out.2)
    else
      let out := takeWaiters uaddr (max + 1) t
      (out.1, w :: out.2)

def futexDetach (t : List FutexWaiter) (pid : Nat) : List FutexWaiter := t.filter fun w => w.pid ≠ pid

/-! ## The machine -/

structure Thread where
  space : Nat
  /-- The thread is in `futex_wait`. -/
  waiting : Bool
  /-- `ProcessState::Blocked`. -/
  blocked : Bool
  wakePending : Bool
  deriving DecidableEq

def Thread.asleep (t : Thread) : Bool := t.waiting && !t.wakePending

/-- `request_wake`: a blocked thread returns from its wait, any other latches the wake. -/
def Thread.requestWake (t : Thread) : Thread :=
  if t.blocked then
    { t with
      waiting := false
      blocked := false
      wakePending := false }
  else { t with wakePending := true }

structure System where
  table : List FutexWaiter
  thread : Nat → Option Thread

inductive Event
  | spawn (pid space : Nat)
  | wait (pid uaddr : Nat) (expected actual actualLocked : BitVec 32)
  | /-- The second half of the wait. -/
    block (pid : Nat)
  | wake (pid uaddr max : Nat)
  | exit (pid : Nat)

/-- `scheduler::wake`, for one thread after another. -/
def wakeAll (thread : Nat → Option Thread) (pids : List Nat) : Nat → Option Thread :=
  pids.foldl (fun th p => update th p ((th p).map Thread.requestWake)) thread

namespace System

def init : System := ⟨[], fun _ => none⟩

def running (s : System) (pid : Nat) : Bool := (s.thread pid).any fun t => !t.waiting

def next (s : System) : Event → Option System
  | .spawn pid space =>
    if (s.thread pid).isNone then
      some { s with thread := update s.thread pid (some ⟨space, false, false, false⟩) }
    else none
  | .wait pid uaddr expected actual actualLocked =>
    if s.running pid then
      match futexWaitCheck s.table (some pid) uaddr expected actual actualLocked with
      | (.ok none, t) => some ⟨t, update s.thread pid ((s.thread pid).map ({ · with waiting := true }))⟩
      | (_, t) => some { s with table := t }
    else none
  | .block pid =>
    match s.thread pid with
    | some t =>
      if t.waiting ∧ t.blocked = false then
        if t.wakePending then
          some { s with thread := update s.thread pid (some
            { t with
              waiting := false
              wakePending := false }) }
        else some { s with thread := update s.thread pid (some { t with blocked := true }) }
      else none
    | none => none
  | .wake pid uaddr max =>
    if s.running pid then
      let out := takeWaiters uaddr max s.table
      some ⟨out.2, wakeAll s.thread out.1⟩
    else none
  | .exit pid => if s.running pid then some ⟨futexDetach s.table pid, update s.thread pid none⟩ else none

def Step (s : System) (e : Event) (s' : System) : Prop := s.next e = some s'

end System

/-! ## The loop of `futex_wake` -/

section

lemma takeWaiters_spec (uaddr max : Nat) (t : List FutexWaiter) :
    ∃ taken : List FutexWaiter, (takeWaiters uaddr max t).1 = taken.map FutexWaiter.pid ∧
      (taken ++ (takeWaiters uaddr max t).2).Perm t ∧ (takeWaiters uaddr max t).2.Sublist t ∧
      (∀ w ∈ taken, w.uaddr = uaddr) ∧
      taken.length = min max (t.filter fun w => w.uaddr = uaddr).length := by
  fun_induction takeWaiters uaddr max t with
  | case1 | case2 t => exact ⟨[], rfl, .refl _, .refl _, nofun, by simp⟩
  | case3 max w t hu out ih =>
    obtain ⟨taken, hp, hr, hsub, ha, hl⟩ := ih
    refine ⟨w :: taken, by simp [out, hp], hr.cons w, hsub.cons w, ?_, ?_⟩
    · simpa [hu] using ha
    · simp only [length_cons, hl, hu, decide_true, filter_cons_of_pos]
      omega
  | case4 max w t hu out ih =>
    obtain ⟨taken, hp, hr, hsub, ha, hl⟩ := ih
    refine ⟨taken, hp, ?_, hsub.cons_cons w, ha, ?_⟩
    · exact perm_middle.trans (hr.cons w)
    · rw [hl, filter_cons_of_neg (by simpa using hu)]

end

/-! ## The invariant -/

def Thread.Sound (t : Thread) : Prop := (t.blocked = true → t.asleep = true) ∧ (t.wakePending = true → t.waiting = true)

/-- The registrations are those of the threads that wait and have not been woken, one each. -/
structure Inv (s : System) : Prop where
  nodup : (s.table.map FutexWaiter.pid).Nodup
  registered : ∀ p, p ∈ s.table.map FutexWaiter.pid ↔ (s.thread p).any Thread.asleep = true
  sound : ∀ p t, s.thread p = some t → t.Sound

variable {s s' : System} {pid : Nat}

lemma wakeAll_of_notMem (h : p ∉ pids) :
    wakeAll thread pids p = thread p := by
  induction pids generalizing thread with
  | nil => rfl
  | cons q pids ih =>
    obtain ⟨hq, hp⟩ := not_or.mp (mem_cons.not.mp h)
    rw [wakeAll, foldl_cons]
    exact (ih hp).trans (update_of_ne hq ..)

lemma wakeAll_of_mem (hn : pids.Nodup) (h : p ∈ pids) : wakeAll thread pids p = (thread p).map Thread.requestWake := by
  induction pids generalizing thread with
  | nil => cases h
  | cons q pids ih =>
    obtain ⟨hq, hn⟩ := nodup_cons.mp hn
    rw [wakeAll, foldl_cons]
    rcases mem_cons.mp h with rfl | h
    · exact (wakeAll_of_notMem hq).trans (update_self ..)
    · have hne : p ≠ q := fun heq => hq (heq ▸ h)
      exact (ih hn h).trans (by rw [update_of_ne hne])

lemma running_iff :
    s.running pid = true ↔ ∃ t, s.thread pid = some t ∧ t.waiting = false := by
  unfold System.running
  rw [Option.any_eq_true]
  simp

lemma Inv.not_registered (h : Inv s) (hrun : s.running pid = true) :
    pid ∉ s.table.map FutexWaiter.pid := by
  obtain ⟨t, ht, hw⟩ := running_iff.mp hrun
  rw [h.registered pid, ht]
  simp [Thread.asleep, hw]

lemma Inv.update_thread (h : Inv s) (hn : (t.map FutexWaiter.pid).Nodup)
    (ho : ∀ p, p ≠ pid → (p ∈ t.map FutexWaiter.pid ↔ p ∈ s.table.map FutexWaiter.pid))
    (hs : pid ∈ t.map FutexWaiter.pid ↔ o.any Thread.asleep = true) (hsn : ∀ u, o = some u → u.Sound) :
    Inv ⟨t, update s.thread pid o⟩ where
  nodup := hn
  registered p := by
    by_cases hp : p = pid
    · subst hp
      simpa using hs
    · simpa [update_of_ne hp] using (ho p hp).trans (h.registered p)
  sound p u hu := by
    by_cases hp : p = pid
    · subst hp
      exact hsn u (by simpa using hu)
    · exact h.sound p u (by simpa [update_of_ne hp] using hu)

lemma Inv.init : Inv System.init := ⟨List.nodup_nil, by simp [System.init], nofun⟩

lemma Inv.wait (h : Inv s) (hs : s.next (.wait pid uaddr expected actual actualLocked) = some s') : Inv s' := by
  simp only [System.next, ite_none_right_eq_some] at hs
  obtain ⟨hrun, hs⟩ := hs
  have hn := h.not_registered hrun
  obtain ⟨u, hu, hw⟩ := running_iff.mp hrun
  unfold futexWaitCheck at hs
  split at hs
  next t heq =>
    cases hs
    obtain rfl : t = s.table ++ [⟨uaddr, pid⟩] := by grind
    refine h.update_thread ?_ (fun p hp => by simp [hp]) ?_ ?_
    · rw [map_append, nodup_append']
      exact ⟨h.nodup, by simp, by simpa using hn⟩
    · have hp : u.wakePending = false := by
        by_contra hp
        have := (h.sound pid u hu).2 (by simpa using hp)
        rw [hw] at this
        cases this
      simp [hu, Thread.asleep, hp]
    · intro u' hu'
      simp only [hu, map_some, Option.some.injEq] at hu'
      subst hu'
      refine ⟨fun hb => ?_, fun _ => rfl⟩
      have := (h.sound pid u hu).1 hb
      simp [Thread.asleep, hw] at this
  next out t hne heq =>
    cases hs
    obtain rfl : t = s.table := by grind
    exact h

lemma Inv.block (h : Inv s) (hs : s.next (.block pid) = some s') : Inv s' := by
  simp only [System.next] at hs
  split at hs
  next t ht =>
    have hn := h.sound pid t ht
    split at hs
    next hw =>
      split at hs
      next hp =>
        cases hs
        refine h.update_thread h.nodup (fun _ _ => Iff.rfl) ?_ ?_
        · rw [h.registered pid, ht]
          simp [Thread.asleep, hp]
        · rintro u hu
          cases hu
          exact ⟨fun hb => by simp [hw.2] at hb, nofun⟩
      next hp =>
        cases hs
        refine h.update_thread h.nodup (fun _ _ => Iff.rfl) ?_ ?_
        · rw [h.registered pid, ht]
          simp [Thread.asleep]
        · rintro u hu
          cases hu
          exact ⟨fun _ => by simp [Thread.asleep, hw.1, hp], fun _ => hw.1⟩
    · cases hs
  · cases hs

lemma asleep_requestWake {t : Thread} (h : t.asleep = true) :
    t.requestWake.asleep = false ∧ t.requestWake.Sound ∧ t.requestWake.blocked = false := by
  simp only [Thread.asleep, Bool.and_eq_true, Bool.not_eq_true'] at h
  unfold Thread.requestWake
  split
  · simp [Thread.asleep, Thread.Sound]
  next hb => simp [Thread.asleep, Thread.Sound, hb, h.1]

lemma Inv.wake {uaddr max : Nat} (h : Inv s) (hs : s.next (.wake pid uaddr max) = some s') :
    Inv s' := by
  simp only [System.next, ite_none_right_eq_some] at hs
  obtain ⟨-, hs⟩ := hs
  cases hs
  obtain ⟨taken, hpd, hpr, -, -, -⟩ := takeWaiters_spec uaddr max s.table
  have hl := (hpr.map FutexWaiter.pid).nodup_iff.mpr h.nodup
  rw [map_append, ← hpd, nodup_append'] at hl
  obtain ⟨hk, hr, hd⟩ := hl
  have hm (p : Nat) : p ∈ s.table.map FutexWaiter.pid ↔ p ∈ (takeWaiters uaddr max s.table).1 ∨
        p ∈ (takeWaiters uaddr max s.table).2.map FutexWaiter.pid := by
    rw [← (hpr.map FutexWaiter.pid).mem_iff, map_append, mem_append, hpd]
  refine ⟨hr, fun p => ?_, fun p t ht => ?_⟩
  · by_cases hp : p ∈ (takeWaiters uaddr max s.table).1
    · have ha := (h.registered p).mp ((hm p).mpr (.inl hp))
      obtain ⟨t, ht, ha⟩ := (Option.any_eq_true ..).mp ha
      simp only [wakeAll_of_mem hk hp, ht, Option.map_some, Option.any_some,
        (asleep_requestWake ha).1, Bool.false_eq_true, iff_false]
      exact fun hp' => hd hp hp'
    · simp only [wakeAll_of_notMem hp]
      rw [← h.registered p, hm p]
      simp [hp]
  · by_cases hp : p ∈ (takeWaiters uaddr max s.table).1
    · have ha := (h.registered p).mp ((hm p).mpr (.inl hp))
      obtain ⟨t', ht', ha⟩ := (Option.any_eq_true ..).mp ha
      simp only [wakeAll_of_mem hk hp, ht', Option.map_some, Option.some.injEq] at ht
      exact ht ▸ (asleep_requestWake ha).2.1
    · simp only [wakeAll_of_notMem hp] at ht
      exact h.sound p t ht

lemma Inv.step {e : Event} (h : Inv s) (hs : s.Step e s') : Inv s' := by
  cases e with
  | spawn pid space =>
    simp only [System.Step, System.next, ite_none_right_eq_some] at hs
    obtain ⟨hn, hs⟩ := hs
    cases hs
    refine h.update_thread h.nodup (fun _ _ => Iff.rfl) ?_ ?_
    · rw [h.registered pid, isNone_iff_eq_none.mp hn]
      simp [Thread.asleep]
    · rintro u hu
      cases hu
      exact ⟨nofun, nofun⟩
  | wait pid uaddr expected actual actualLocked => exact h.wait hs
  | block pid => exact h.block hs
  | wake pid uaddr max => exact h.wake hs
  | exit pid =>
    simp only [System.Step, System.next, ite_none_right_eq_some] at hs
    obtain ⟨hrun, hs⟩ := hs
    cases hs
    refine h.update_thread (h.nodup.sublist (List.filter_sublist.map _)) (fun p hp => ?_) ?_ nofun
    · simp only [futexDetach, List.mem_map, List.mem_filter, decide_eq_true_eq]
      constructor
      · rintro ⟨w, ⟨hw, -⟩, rfl⟩
        exact ⟨w, hw, rfl⟩
      · rintro ⟨w, hw, rfl⟩
        exact ⟨w, ⟨hw, hp⟩, rfl⟩
    · simp [futexDetach]

lemma Inv.run (hrun : Run System.Step System.init es s) : Inv s := hrun.invariant (fun _ _ _ h hs => h.step hs) Inv.init

/-! ## What a wake does -/

/-- Memory as it is seen through the tables of the caller: the pages that the kernel can read, those
among them that the caller can read, and the bytes. -/
structure View where
  el1 : Nat → Bool
  el0 : Nat → Bool
  byte : Nat → BitVec 8
  el1_of_el0 : ∀ page, el0 page = true → el1 page = true

/-- `read_user_u32`, or the fault. -/
def readUserU32 (v : View) (uaddr : Nat) : Option (BitVec 32) :=
  if v.el1 (uaddr / 4096) then
    some (v.byte (uaddr + 3) ++ v.byte (uaddr + 2) ++ v.byte (uaddr + 1) ++ v.byte uaddr)
  else none

/-- `FutexWait`, up to the point where a thread that has registered blocks. Another processor may
write between the two loads: `locked` is what the second one sees. -/
def futexWait (t : List FutexWaiter) (current : Option Nat) (v locked : View) (uaddr : Nat)
    (expected : BitVec 32) : Option (Except SysError (Option (BitVec 32)) × List FutexWaiter) :=
  if uaddr % 4 ≠ 0 then some (.error .invalidArgument, t)
  else
    match readUserU32 v uaddr with
    | none => none
    | some actual =>
      if actual ≠ expected ∨ current = none then
        some (futexWaitCheck t current uaddr expected actual actual)
      else (readUserU32 locked uaddr).map (futexWaitCheck t current uaddr expected actual)

section

end

end ZeroOS.Futex
