import Mathlib

/-!
# Runs of a labelled transition system

`Run step s es t` says that the events `es`, in this order, lead from `s` to `t`. The relation
grows at its end, which is the shape safety arguments want: an invariant is carried from the
first state to the last one, one event at a time.

A *guarded* system takes only the steps whose event is acceptable in the state before it.
Results that need a discipline of the environment, or that leave out the steps on which a known
defect shows, are stated over guarded runs; `Run.mono` turns a guarded run back into a plain one.
-/

universe u v

namespace Transition

open Option

variable {σ : Type u} {ε : Type v}

/-- `Run step s es t`: the events `es` lead from `s` to `t`. -/
inductive Run (step : σ → ε → σ → Prop) (s : σ) : List ε → σ → Prop
  | /-- The empty run stays where it is. -/
    nil : Run step s [] s
  | /-- A run is extended by one step at its end. -/
    snoc {es : List ε} {t u : σ} {e : ε} : Run step s es t → step t e u → Run step s (es ++ [e]) u

/-- The steps of `step` whose event `ok` accepts in the state before it. -/
def Guarded (ok : σ → ε → Prop) (step : σ → ε → σ → Prop) (s : σ) (e : ε) (t : σ) : Prop := ok s e ∧ step s e t

namespace Run

variable {step step' : σ → ε → σ → Prop} {s t u : σ} {es fs : List ε}

lemma single (h : step s e t) : Run step s [e] t := List.nil_append [e] ▸ Run.nil.snoc h

lemma trans (h₁ : Run step s es t) (h₂ : Run step t fs u) : Run step s (es ++ fs) u := by
  induction h₂ with
  | nil => simpa using h₁
  | snoc _ hs ih => rw [← List.append_assoc]; exact ih.snoc hs

lemma cons (h₁ : step s e t) (h₂ : Run step t es u) : Run step s (e :: es) u := (single h₁).trans h₂

/-- Invariant rule. What holds at the start and is kept by every step holds at the end. -/
lemma invariant {inv : σ → Prop} (ht : ∀ s e t, inv s → step s e t → inv t) (h : Run step s es t) (h₀ : inv s) : inv t := by
  induction h with
  | nil => exact h₀
  | snoc _ hs ih => exact ht _ _ _ ih hs

/-- Trace rule. An assertion about the events so far and the state they lead to, true of the
empty trace and kept by every step, is true of every run. -/
lemma traceInvariant {inv : List ε → σ → Prop} (ht : ∀ es s e t, inv es s → step s e t → inv (es ++ [e]) t)
    (h : Run step s es t) (h₀ : inv [] s) : inv es t := by
  induction h with
  | nil => exact h₀
  | snoc _ hs ih => exact ht _ _ _ _ ih hs

lemma mono (hle : ∀ s e t, step s e t → step' s e t) (h : Run step s es t) :
    Run step' s es t := by
  induction h with
  | nil => exact .nil
  | snoc _ hs ih => exact ih.snoc (hle _ _ _ hs)

lemma map {τ : Type*} {stepτ : τ → ε → τ → Prop} (f : σ → τ)
    (hf : ∀ s e t, step s e t → stepτ (f s) e (f t)) (h : Run step s es t) :
    Run stepτ (f s) es (f t) := by
  induction h with
  | nil => exact .nil
  | snoc _ hs ih => exact ih.snoc (hf _ _ _ hs)

end Run

/-! ## Executable systems -/

section

variable {step : σ → ε → σ → Prop} {next : σ → ε → Option σ} {s t : σ} {es : List ε}

/-- Run an executable step function over a list of events. -/
def execute (next : σ → ε → Option σ) : σ → List ε → Option σ
  | s, [] => some s
  | s, e :: es => (next s e).bind (execute next · es)

lemma run_of_execute (hnext : ∀ {s e t}, next s e = some t → step s e t) :
    ∀ {s : σ} {es : List ε}, execute next s es = some t → Run step s es t
  | s, [], h => by
      cases h
      exact .nil
  | s, e :: es, h => by
      obtain ⟨u, hu, h⟩ := bind_eq_some_iff.mp h
      exact .cons (hnext hu) (run_of_execute hnext h)

lemma execute_append (next : σ → ε → Option σ) (s : σ) (es fs : List ε) :
    execute next s (es ++ fs) = (execute next s es).bind (execute next · fs) := by
  induction es generalizing s with
  | nil => rfl
  | cons e es ih =>
    simp only [List.cons_append, execute, bind_assoc]
    exact bind_congr fun t _ => ih t

/-- A system that is executable has one run for each list of events. -/
lemma execute_of_run (h : Run (fun s e t => next s e = some t) s es t) : execute next s es = some t := by
  induction h with
  | nil => rfl
  | snoc _ hs ih => simp [execute_append, ih, execute, hs]

/-- A check of the last state of an execution is a check of a reachable state. -/
lemma exists_run_of_execute (hn : ∀ {s e t}, next s e = some t → step s e t)
    {p : σ → Bool} (h : (execute next s es).any p = true) : ∃ t, Run step s es t ∧ p t = true := by
  obtain ⟨t, ht, hp⟩ := (any_eq_true ..).mp h
  exact ⟨t, run_of_execute hn ht, hp⟩

/-- The step function that takes only the steps whose event `ok` accepts. -/
def guardedNext (ok : σ → ε → Bool) (next : σ → ε → Option σ) (s : σ) (e : ε) : Option σ :=
  if ok s e then next s e else none

lemma guarded_of_guardedNext {guard : σ → ε → Prop}
    (ho : ∀ {s e}, ok s e = true → guard s e) (hn : ∀ {s e t}, next s e = some t → step s e t) (h : guardedNext ok next s e = some t) :
    Guarded guard step s e t := by
  unfold guardedNext at h
  split at h
  next ht => exact ⟨ho ht, hn h⟩
  · cases h

/-- The same for guarded runs, with a guard that `ok` checks. -/
lemma exists_run_and {Q : σ → Prop} (hn : ∀ {s e t}, next s e = some t → step s e t) (p : σ → Bool)
    (h : (execute next s es).any p = true) (hq : ∀ {t}, Run step s es t → p t = true → Q t) :
    ∃ t, Run step s es t ∧ Q t := by
  obtain ⟨t, hrun, hp⟩ := exists_run_of_execute hn h
  exact ⟨t, hrun, hq hrun hp⟩

lemma exists_run_decide {Q : σ → Prop} [DecidablePred Q] (hn : ∀ {s e t}, next s e = some t → step s e t)
    (h : (execute next s es).any (fun t => decide (Q t)) = true) : ∃ t, Run step s es t ∧ Q t :=
  exists_run_and hn _ h fun _ ht => of_decide_eq_true ht

lemma exists_guardedRun_of_execute {ok : σ → ε → Bool} {guard : σ → ε → Prop}
    (ho : ∀ {s e}, ok s e = true → guard s e) (hn : ∀ {s e t}, next s e = some t → step s e t) {p : σ → Bool}
    (h : (execute (guardedNext ok next) s es).any p = true) :
    ∃ t, Run (Guarded guard step) s es t ∧ p t = true :=
  exists_run_of_execute (fun ht => guarded_of_guardedNext ho hn ht) h

end

end Transition
