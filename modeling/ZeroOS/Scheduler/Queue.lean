import ZeroOS.Lib.Ring
import ZeroOS.Process.Record

/-!
# The run queues

`RunQueue` is a ring of `MAX_PROCESSES` pids and `Mlfq` four of them. A push on a full ring is the
kernel's assertion, here `none`. `Mlfq.pids` forgets the levels and lists every queued pid; a push
adds one pid to that list and a pop removes one, up to order, and a push can only fail once a
single level holds `MAX_PROCESSES` pids.
-/

namespace ZeroOS.Scheduler

open Function List

open ZeroOS.Process (maxProcesses)

def mlfqLevels : Nat := 4

/-- One level: a ring with as many cells as the process table has slots. -/
abbrev RunQueue := RingBuffer Nat maxProcesses

/-- The multi-level feedback queue; level 0 is served first. -/
structure Mlfq where
  levels : Fin mlfqLevels → RunQueue

namespace Mlfq

variable {pid : Nat}

def empty : Mlfq := ⟨fun _ => RingBuffer.empty (by decide)⟩

/-- The level a push goes to: levels past the last are clamped. -/
def clamp (level : Nat) : Fin mlfqLevels := ⟨min level (mlfqLevels - 1), by unfold mlfqLevels; omega⟩

/-- `push_at`; `none` is the queue-full assertion. -/
def pushAt (q : Mlfq) (pid level : Nat) : Option Mlfq := ((q.levels (clamp level)).push pid).map fun r =>
    ⟨update q.levels (clamp level) r⟩

/-- Pop the first non-empty one of the given levels. -/
def popFrom (q : Mlfq) : List (Fin mlfqLevels) → Option Nat × Mlfq
  | [] => (none, q)
  | l :: ls =>
    match (q.levels l).pop with
    | (some pid, r) => (some pid, ⟨update q.levels l r⟩)
    | (none, _) => q.popFrom ls

/-- `pop`: from the highest priority level that has a pid. -/
def pop (q : Mlfq) : Option Nat × Mlfq := q.popFrom (List.finRange mlfqLevels)

def pids (q : Mlfq) : List Nat := (List.finRange mlfqLevels).flatMap fun l => (q.levels l).toList

@[simp] lemma pids_empty : empty.pids = [] := by
  simp [pids, empty]

variable {l : Fin mlfqLevels}

/-- Two families of lists that agree but for one member, which has one element more, concatenate
to lists that differ by that element. -/
private lemma flatMap_perm_cons (hl : (f l).Perm (pid :: g l))
    (hother : ∀ k, k ≠ l → f k = g k) :
    ∀ {ls : List (Fin mlfqLevels)}, ls.Nodup → l ∈ ls → (ls.flatMap f).Perm (pid :: ls.flatMap g)
  | k :: ls, hnd, hmem => by
      obtain ⟨hk, hnd⟩ := nodup_cons.mp hnd
      simp only [flatMap_cons]
      rcases mem_cons.mp hmem with rfl | hmem
      · have hrest : ls.flatMap f = ls.flatMap g := flatMap_congr fun k hk' => hother k fun he => hk (he ▸ hk')
        rw [hrest]
        exact hl.append_right _
      · rw [hother k fun he => hk (he ▸ hmem)]
        exact ((flatMap_perm_cons hl hother hnd hmem).append_left _).trans perm_middle

variable {q q' : Mlfq}

lemma pushAt_perm (h : q.pushAt pid level = some q') :
    q'.pids.Perm (pid :: q.pids) := by
  obtain ⟨r, hr, rfl⟩ := Option.map_eq_some_iff.mp h
  refine flatMap_perm_cons (l := clamp level) ?_ (fun k hk => ?_) (nodup_finRange _)
    (mem_finRange _)
  · simp only [update_self, RingBuffer.toList_push hr]
    exact perm_append_singleton _ _
  · simp only [update_of_ne hk]

lemma length_level_le (q : Mlfq) (l : Fin mlfqLevels) : (q.levels l).toList.length ≤ q.pids.length := by
  obtain ⟨xs, ys, hl⟩ := append_of_mem (mem_finRange l)
  rw [pids, hl, flatMap_append, flatMap_cons]
  simp only [length_append]
  omega

/-- The queue-full assertion needs a level with `MAX_PROCESSES` pids. -/
lemma pushAt_isSome (h : q.pids.length < maxProcesses) : ∃ q', q.pushAt pid level = some q' := by
  have hl := lt_of_le_of_lt (q.length_level_le (clamp level)) h
  have hp : ((q.levels (clamp level)).push pid).isSome := RingBuffer.push_isSome.mpr hl
  obtain ⟨r, hr⟩ := Option.isSome_iff_exists.mp hp
  exact ⟨⟨update q.levels (clamp level) r⟩, by rw [pushAt, hr]; rfl⟩

private lemma popFrom_some :
    ∀ {ls : List (Fin mlfqLevels)}, q.popFrom ls = (some pid, q') →
      ∃ l r, (q.levels l).pop = (some pid, r) ∧ q' = ⟨update q.levels l r⟩
  | l :: ls, h => by
      rw [popFrom] at h
      split at h
      next r hr =>
        obtain ⟨h₁, rfl⟩ := Prod.mk.inj h
        exact ⟨l, r, by rw [hr, h₁], rfl⟩
      · exact popFrom_some h

lemma pop_perm (h : q.pop = (some pid, q')) :
    q.pids.Perm (pid :: q'.pids) := by
  obtain ⟨l, r, hr, rfl⟩ := popFrom_some h
  refine flatMap_perm_cons (l := l) ?_ (fun k hk => ?_) (nodup_finRange _)
    (mem_finRange _)
  · simp only [update_self, RingBuffer.pop_eq_some hr, List.Perm.refl]
  · simp only [update_of_ne hk]

/-! ## Level by level -/

lemma mem_pids : pid ∈ q.pids ↔ ∃ l, pid ∈ (q.levels l).toList := by
  simp [pids]

lemma mem_level_pushAt (h : q.pushAt pid level = some q') :
    p ∈ (q'.levels l).toList ↔ p ∈ (q.levels l).toList ∨ (l = clamp level ∧ p = pid) := by
  obtain ⟨r, hr, rfl⟩ := Option.map_eq_some_iff.mp h
  by_cases hl : l = clamp level
  · subst hl
    simp [RingBuffer.toList_push hr]
  · simp [hl]

lemma mem_level_of_pop (h : q.pop = (some pid, q')) (hp : p ∈ (q'.levels l).toList) :
    p ∈ (q.levels l).toList := by
  obtain ⟨l', r, hr, rfl⟩ := popFrom_some h
  by_cases hl : l = l'
  · subst hl
    rw [RingBuffer.pop_eq_some hr]
    exact mem_cons_of_mem _ (by simpa using hp)
  · simpa [hl] using hp

end Mlfq

end ZeroOS.Scheduler
