import ZeroOS.Heap.Blocks
import ZeroOS.Lib.Run

/-!
# The owners of pointers

What a heap is for: its clients ask for memory, they write to the words of the payloads they were
given, and they give back what they hold. `live` is what they hold. Clients keep to the rules, that
is, they write only to what they hold and give back only what they hold, and each of it once.
-/

namespace ZeroOS.Heap

open List Transition

variable {σ : Type}

/-- The interface of a heap. The null pointer is 0. -/
structure Allocator (σ : Type) where
  alloc : σ → Layout → Except Fault (σ × Nat)
  dealloc : σ → Nat → Except Fault σ
  /-- A word of memory is written. -/
  store : σ → Nat → Nat → σ

structure Client (σ : Type) where
  heap : σ
  live : List Use

inductive Event
  | alloc (layout : Layout)
  | dealloc (ptr : Nat)
  /-- The owner of `ptr` writes to a word of its payload. -/
  | store (ptr word value : Nat)

lemma ok_of_toOption {α ε : Type} {e : Except ε α} {a : α} (h : e.toOption = some a) : e = .ok a := by
  cases e with
  | error _ => cases h
  | ok b => exact congrArg _ (Option.some.inj h)

namespace Client

def Allowed (c : Client σ) : Event → Prop
  | .alloc _ => True
  | .dealloc ptr => ∃ u ∈ c.live, u.ptr = ptr
  | .store ptr word _ => ∃ u ∈ c.live, u.ptr = ptr ∧ 8 * word < u.layout.size

variable (A : Allocator σ)

def next (c : Client σ) : Event → Except Fault (Client σ)
  | .alloc layout => do
      let (heap, ptr) ← A.alloc c.heap layout
      return ⟨heap, if ptr = 0 then c.live else ⟨ptr, layout⟩ :: c.live⟩
  | .dealloc ptr => do
      let heap ← A.dealloc c.heap ptr
      return ⟨heap, c.live.eraseP (·.ptr == ptr)⟩
  | .store ptr word value => .ok { c with heap := A.store c.heap (ptr + 8 * word) value }

instance (c : Client σ) : (e : Event) → Decidable (c.Allowed e)
  | .alloc _ => inferInstanceAs (Decidable True)
  | .dealloc ptr => inferInstanceAs (Decidable (∃ u ∈ c.live, u.ptr = ptr))
  | .store ptr word _ => inferInstanceAs (Decidable (∃ u ∈ c.live, u.ptr = ptr ∧ 8 * word < u.layout.size))

def Step (c : Client σ) (e : Event) (c' : Client σ) : Prop := c.Allowed e ∧ c.next A e = .ok c'

def step? (c : Client σ) (e : Event) : Option (Client σ) :=
  if c.Allowed e then (c.next A e).toOption else none

lemma step_of_step? {A : Allocator σ} {c c' : Client σ} {e : Event} (h : c.step? A e = some c') :
    c.Step A e c' := by
  unfold step? at h
  split at h
  next ho => exact ⟨ho, ok_of_toOption h⟩
  · cases h

end Client

def deallocAll (A : Allocator σ) : σ → List Nat → Except Fault σ
  | s, [] => .ok s
  | s, ptr :: rest => do deallocAll A (← A.dealloc s ptr) rest

/-- The operations keep `good`, and they return. -/
structure Correct (A : Allocator σ) (good : σ → List Use → Prop) : Prop where
  perm : ∀ {s live live'}, live.Perm live' → good s live → good s live'
  alloc : ∀ {s live} layout, good s live → ∃ s' ptr, A.alloc s layout = .ok (s', ptr) ∧
    good s' (if ptr = 0 then live else ⟨ptr, layout⟩ :: live)
  dealloc : ∀ {s u live}, good s (u :: live) → ∃ s', A.dealloc s u.ptr = .ok s' ∧ good s' live
  store : ∀ {s live u word} value, good s live → u ∈ live → 8 * word < u.layout.size →
    good (A.store s (u.ptr + 8 * word) value) live

namespace Correct

variable {A : Allocator σ} {good : σ → List Use → Prop} {c c' : Client σ} {e : Event}

section

variable (C : Correct A good)
include C

lemma progress (hg : good c.heap c.live) (ho : c.Allowed e) : ∃ c', c.next A e = .ok c' ∧ good c'.heap c'.live := by
  cases e with
  | alloc layout =>
    obtain ⟨s', ptr, hrun, hg'⟩ := C.alloc layout hg
    exact ⟨_, by simp only [Client.next, hrun]; rfl, hg'⟩
  | dealloc ptr =>
    obtain ⟨u, hu, ht⟩ := ho
    obtain ⟨v, l₁, l₂, -, hv, hl, he⟩ := @List.exists_of_eraseP _ (fun v => v.ptr == ptr) _ _ hu (by simpa using ht)
    obtain rfl : v.ptr = ptr := by simpa using hv
    have hp : c.live.Perm (v :: c.live.eraseP (·.ptr == v.ptr)) := by
      rw [he]
      conv_lhs => rw [hl]
      exact perm_middle
    obtain ⟨s', hrun, hg'⟩ := C.dealloc (C.perm hp hg)
    exact ⟨_, by simp only [Client.next, hrun]; rfl, hg'⟩
  | store ptr word value =>
    obtain ⟨u, hu, rfl, hw⟩ := ho
    exact ⟨_, rfl, C.store value hg hu hw⟩

lemma step (hg : good c.heap c.live) (h : c.Step A e c') :
    good c'.heap c'.live := by
  obtain ⟨c'', hrun, hg'⟩ := C.progress hg h.1
  obtain rfl : c'' = c' := Except.ok.inj (hrun.symm.trans h.2)
  exact hg'

lemma run (hg : good c.heap c.live) (h : Run (Client.Step A) c es c') :
    good c'.heap c'.live := by
  induction h with
  | nil => exact hg
  | snoc _ hs ih => exact C.step ih hs

lemma deallocAll_ok (hg : good s live) (ho : order.Perm (live.map Use.ptr)) :
    ∃ s', deallocAll A s order = .ok s' ∧ good s' [] := by
  induction order generalizing s live with
  | nil =>
    obtain rfl : live = [] := by simpa using ho.nil_eq.symm
    exact ⟨s, rfl, hg⟩
  | cons ptr rest ih =>
    obtain ⟨u, hu, rfl⟩ := mem_map.mp (ho.subset mem_cons_self)
    obtain ⟨l₁, l₂, rfl⟩ := append_of_mem hu
    obtain ⟨s₁, hrun, hg₁⟩ := C.dealloc (C.perm perm_middle hg)
    have hr : rest.Perm ((l₁ ++ l₂).map Use.ptr) := by
      rw [map_append, map_cons] at ho
      rw [map_append]
      exact (ho.trans perm_middle).cons_inv
    obtain ⟨s', hr', hg'⟩ := ih hg₁ hr
    exact ⟨s', by simp only [deallocAll, hrun]; exact hr', hg'⟩

end

end Correct

end ZeroOS.Heap
