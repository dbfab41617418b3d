import Mathlib

/-!
# Loops that stop at an error

`tryEach f as` runs `f` on the elements of `as`, in their order, up to the first one that fails. The
state is kept, whichever way the loop ends.
-/

namespace Loop

variable {α σ ε : Type} {f : α → σ → Except ε Unit × σ} {as : List α} {s : σ}

def tryEach (f : α → σ → Except ε Unit × σ) : List α → σ → Except ε Unit × σ
  | [], s => (.ok (), s)
  | a :: as, s =>
    match f a s with
    | (.ok (), s') => tryEach f as s'
    | (.error e, s') => (.error e, s')

/-- The rule for loops. What every pass that begins without an error leads to, the loop leads to. -/
theorem tryEach_rule {R : Except ε Unit × σ → Prop} (h : ∀ a ∈ as, ∀ s, R (.ok (), s) → R (f a s))
    (hs : R (.ok (), s)) : R (tryEach f as s) := by
  induction as generalizing s with
  | nil => exact hs
  | cons a as ih =>
    have ha := h a List.mem_cons_self s hs
    unfold tryEach
    split
    next s' heq =>
      rw [heq] at ha
      exact ih (fun b hb => h b (List.mem_cons_of_mem _ hb)) ha
    next e s' heq =>
      rw [heq] at ha
      exact ha

theorem tryEach_keeps {P : σ → Prop} (h : ∀ a ∈ as, ∀ s, P s → P (f a s).2) (hs : P s) :
    P (tryEach f as s).2 :=
  tryEach_rule (R := fun out => P out.2) h hs

end Loop
