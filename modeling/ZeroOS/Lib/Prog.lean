import Mathlib

/-!
# Programs over atomic actions

A `Prog` asks for actions one after another and is told their answers. What an action does is not
part of the program: `run` takes a state and the meaning of the actions and executes the program
from its first action to its last, with nobody in between. A scheduler that gives other programs a
turn between two actions takes the actions off one at a time, from the same program.

Reasoning is about the actions. `Rules` say what an action needs of a ghost state and what it may do
to it, and `wp` is what a whole program needs for a result. Rules are sound for a state machine if
some invariant ties its states to the ghost states, and one action at a time is enough to know that.
-/

namespace Atomic

/-- A program with actions from `Act`, which are answered in `Resp`. -/
inductive Prog (Act : Type) (Resp : Act → Type) (α : Type) : Type
  | /-- The program is done. -/
    ret (a : α)
  | /-- The program asks for an action and goes on with the answer. -/
    act (a : Act) (k : Resp a → Prog Act Resp α)

namespace Prog

variable {Act : Type} {Resp : Act → Type} {α β γ ε σ G : Type}

/-- One program after another. -/
def bind : Prog Act Resp α → (α → Prog Act Resp β) → Prog Act Resp β
  | .ret a, f => f a
  | .act a k, f => .act a fun x => (k x).bind f

instance : Monad (Prog Act Resp) where
  pure := .ret
  bind := bind

@[simp] lemma pure_eq (a : α) : (pure a : Prog Act Resp α) = .ret a := rfl

@[simp] lemma ret_bind (a : α) (f : α → Prog Act Resp β) : (Prog.ret a >>= f) = f a := rfl

@[simp] lemma act_bind (a : Act) (k : Resp a → Prog Act Resp α) (f : α → Prog Act Resp β) :
    (Prog.act a k >>= f) = .act a fun x => k x >>= f := rfl

lemma bind_bind (p : Prog Act Resp α) (f : α → Prog Act Resp β) (h : β → Prog Act Resp γ) :
    ((p >>= f) >>= h) = (p >>= fun a => f a >>= h) := by
  induction p with
  | ret a => rfl
  | act a k ih =>
    simp only [act_bind]
    exact congrArg _ (funext fun x => ih x)

/-- The body for each element, in order. -/
def each (f : β → Prog Act Resp Unit) : List β → Prog Act Resp Unit
  | [] => .ret ()
  | x :: xs => f x >>= fun _ => each f xs

/-- Go on with the result of a program, or stop with its error. -/
def tryBind (p : Prog Act Resp (Except ε α)) (f : α → Prog Act Resp (Except ε β)) :
    Prog Act Resp (Except ε β) :=
  p >>= fun
    | .ok a => f a
    | .error e => .ret (.error e)

/-- The body for each element, in order, up to the first one that fails. -/
def forEach (f : β → Prog Act Resp (Except ε Unit)) : List β → Prog Act Resp (Except ε Unit)
  | [] => .ret (.ok ())
  | x :: xs => (f x).tryBind fun _ => forEach f xs

lemma each_append (f : β → Prog Act Resp Unit) : ∀ xs ys : List β, each f (xs ++ ys) = (each f xs >>= fun _ => each f ys)
  | [], _ => rfl
  | x :: xs, ys => by
      simp only [List.cons_append, each, each_append f xs ys]
      exact (bind_bind (f x) _ _).symm

lemma each_map (f : β → Prog Act Resp Unit) (h : γ → β) : ∀ xs : List γ, each f (xs.map h) = each (fun x => f (h x)) xs
  | [] => rfl
  | x :: xs => congrArg (f (h x) >>= ·) (funext fun _ => each_map f h xs)

lemma each_flatMap (f : β → Prog Act Resp Unit) (h : γ → List β) : ∀ xs : List γ,
    each (fun x => each f (h x)) xs = each f (xs.flatMap h)
  | [] => rfl
  | x :: xs => by
      rw [List.flatMap_cons, each_append, ← each_flatMap f h xs]
      rfl

/-! ## Running a program alone -/

section

variable (exec : (a : Act) → σ → Option (Resp a × σ))

/-- Execute a program from its first action to its last. There is no result if an action has
none. -/
def run : Prog Act Resp α → σ → Option (α × σ)
  | .ret a, s => some (a, s)
  | .act a k, s => (exec a s).bind fun out => (k out.1).run out.2

variable {exec}

@[simp] lemma run_ret (a : α) (s : σ) : (Prog.ret a : Prog Act Resp α).run exec s = some (a, s) :=
  rfl

lemma run_bind (p : Prog Act Resp α) (f : α → Prog Act Resp β) (s : σ) :
    (p >>= f).run exec s = (p.run exec s).bind fun out => (f out.1).run exec out.2 := by
  induction p generalizing s with
  | ret a => rfl
  | act a k ih =>
    simp only [act_bind, run, Option.bind_assoc]
    exact congrArg _ (funext fun out => ih out.1 out.2)

/-- A program that ran to its end ran its first part, and then the rest. -/
lemma run_bind_eq_some {p : Prog Act Resp α} {f : α → Prog Act Resp β} {s t : σ} {b : β}
    (h : (p >>= f).run exec s = some (b, t)) :
    ∃ a u, p.run exec s = some (a, u) ∧ (f a).run exec u = some (b, t) := by
  rw [run_bind] at h
  obtain ⟨⟨a, u⟩, hp, hf⟩ := Option.bind_eq_some_iff.mp h
  exact ⟨a, u, hp, hf⟩

end

end Prog

open List Prog

/-! ## Rules -/

/-- What an action needs of a ghost state, and what it may answer and leave. -/
structure Rules (Act : Type) (Resp : Act → Type) (G : Type) where
  can : Act → G → Prop
  does : (a : Act) → G → Resp a → G → Prop

namespace Prog

variable {Act : Type} {Resp : Act → Type} {α β γ ε σ G : Type} {I : List β → G → Prop}

/-- What a program needs of the ghost state for its result to satisfy `Q`. -/
def wp (L : Rules Act Resp G) (Q : α → G → Prop) : Prog Act Resp α → G → Prop
  | .ret a, g => Q a g
  | .act a k, g => L.can a g ∧ ∀ x g', L.does a g x g' → (k x).wp L Q g'

variable {L : Rules Act Resp G} {Q Q' : α → G → Prop} {g : G}

@[simp] lemma wp_ret (a : α) : (Prog.ret a : Prog Act Resp α).wp L Q g ↔ Q a g := Iff.rfl

variable {p : Prog Act Resp α}

lemma wp_mono (hQ : ∀ a g, Q a g → Q' a g) (h : p.wp L Q g) :
    p.wp L Q' g := by
  induction p generalizing g with
  | ret a => exact hQ a g h
  | act a k ih => exact ⟨h.1, fun x g' hd => ih x (h.2 x g' hd)⟩

lemma wp_bind {R : β → G → Prop} : (p >>= f).wp L R g ↔ p.wp L (fun a g' => (f a).wp L R g') g := by
  induction p generalizing g with
  | ret a => exact Iff.rfl
  | act a k ih => exact and_congr_right fun _ => forall_congr' fun x => forall_congr' fun g' =>
    imp_congr_right fun _ => ih x

/-- Loops. The invariant is about the elements that are still to come. -/
lemma wp_each {Q : Unit → G → Prop}
    (hstep : ∀ x xs g, I (x :: xs) g → (f x).wp L (fun _ g' => I xs g') g) (hdone : ∀ g, I [] g → Q () g) :
    ∀ {xs : List β} {g : G}, I xs g → (each f xs).wp L Q g
  | [], g, h => hdone g h
  | x :: xs, g, h => wp_bind.mpr (wp_mono (fun _ _ h => wp_each hstep hdone h) (hstep x xs g h))

lemma wp_tryBind {p : Prog Act Resp (Except ε α)} {f : α → Prog Act Resp (Except ε β)}
    {R : Except ε β → G → Prop}
    (h : p.wp L (fun r g' => (∀ a, r = .ok a → (f a).wp L R g') ∧ ∀ e, r = .error e → R (.error e) g') g) :
    (p.tryBind f).wp L R g := by
  refine wp_bind.mpr (wp_mono (fun r g' hr => ?_) h)
  match r with
  | .ok a => exact hr.1 a rfl
  | .error e => exact hr.2 e rfl

/-- The same for a loop that may end early. -/
lemma wp_forEach {Q : Except ε Unit → G → Prop}
    (hstep : ∀ x xs g, I (x :: xs) g → (f x).wp L (fun r g' => (r = .ok () → I xs g') ∧ ∀ e, r = .error e → Q (.error e) g') g)
    (hdone : ∀ g, I [] g → Q (.ok ()) g) :
    ∀ {xs : List β} {g : G}, I xs g → (forEach f xs).wp L Q g
  | [], g, h => hdone g h
  | x :: xs, g, h => wp_tryBind (wp_mono (fun _ _ hr =>
    ⟨fun _ ha => wp_forEach hstep hdone (hr.1 ha), hr.2⟩) (hstep x xs g h))

/-- A loop over the first `n` numbers, with an invariant for each. -/
lemma wp_forEach_range {I : Nat → G → Prop}
    {Q : Except ε Unit → G → Prop}
    (hs : ∀ i < n, ∀ g, I i g → (f i).wp L (fun r g' => (r = .ok () → I (i + 1) g') ∧ ∀ e, r = .error e → Q (.error e) g') g)
    (hd : ∀ g, I n g → Q (.ok ()) g) (h : I 0 g) : (forEach f (range n)).wp L Q g := by
  have hl : ∀ xs : List Nat, ∀ g : G, (∃ i, i + xs.length = n ∧ xs = range' i xs.length ∧ I i g) → (forEach f xs).wp L Q g := by
    intro xs g hx
    refine wp_forEach (I := fun xs g => ∃ i, i + xs.length = n ∧ xs = range' i xs.length ∧ I i g)
      ?_ ?_ hx
    · rintro x xs g ⟨i, hn, hx, hi⟩
      rw [length_cons, range'_succ] at hx
      obtain ⟨rfl, hx⟩ := cons.inj hx
      rw [length_cons] at hn
      exact wp_mono (fun r g' hr => ⟨fun ho => ⟨x + 1, by omega, hx, hr.1 ho⟩, hr.2⟩)
        (hs x (by omega) g hi)
    · rintro g ⟨i, hn, -, hi⟩
      obtain rfl : i = n := by simpa using hn
      exact hd g hi
  exact hl _ g ⟨0, by simp, by simp [range_eq_range'], h⟩

/-! ## Soundness -/

section

variable {exec : (a : Act) → σ → Option (Resp a × σ)}

/-- Soundness for a program that runs alone. -/
lemma run_sound {I : σ → G → Prop} (hs : ∀ {a s g x s'}, I s g → L.can a g → exec a s = some (x, s') →
      ∃ g', L.does a g x g' ∧ I s' g')
    (hI : I s g) (hp : p.wp L Q g)
    (h : p.run exec s = some (a, t)) : ∃ g', Q a g' ∧ I t g' := by
  induction p generalizing s g with
  | ret b =>
    cases h
    exact ⟨g, hp, hI⟩
  | act b k ih =>
    obtain ⟨⟨x, s'⟩, hexec, hr⟩ := Option.bind_eq_some_iff.mp h
    obtain ⟨g', hd, hI'⟩ := hs hI hp.1 hexec
    exact ih x hI' (hp.2 x g' hd) hr

end

end Prog

end Atomic
