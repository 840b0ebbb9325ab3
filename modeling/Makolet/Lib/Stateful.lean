import Mathlib.Logic.Basic

/-!
# Triples of stateful computations

`Triple P x Q E` says what a computation with a state and exceptions does from the states of `P`: it
returns a value and a state of `Q`, or it raises an exception in a state of `E`. The state is kept
where an exception is raised. One rule for each way to build a computation.
-/

set_option autoImplicit false

namespace Makolet.Lib

universe u

variable {ε σ α β : Type u}

/-- The precondition, the postcondition, and the condition under which an exception is raised. -/
def Triple (P : σ → Prop) (x : EStateM ε σ α) (Q : α → σ → Prop) (E : ε → σ → Prop) : Prop :=
  ∀ s, P s → match x s with
    | .ok a s' => Q a s'
    | .error e s' => E e s'

namespace Triple

variable {P P' : σ → Prop} {Q Q' : α → σ → Prop} {R : β → σ → Prop} {E E' : ε → σ → Prop}
  {x : EStateM ε σ α} {f : α → EStateM ε σ β}

theorem of_ok {s s' : σ} {a : α} (h : Triple P x Q E) (hs : P s) (hx : x s = .ok a s') :
    Q a s' := by
  have hpost := h s hs
  rwa [hx] at hpost

theorem of_error {s s' : σ} {e : ε} (h : Triple P x Q E) (hs : P s) (hx : x s = .error e s') :
    E e s' := by
  have hpost := h s hs
  rwa [hx] at hpost

theorem consequence (h : Triple P x Q E) (hP : ∀ s, P' s → P s) (hQ : ∀ a s, Q a s → Q' a s)
    (hE : ∀ e s, E e s → E' e s) : Triple P' x Q' E' := by
  intro s hs
  have hpost := h s (hP s hs)
  cases hx : x s with
  | ok a s' =>
    rw [hx] at hpost
    exact hQ a s' hpost
  | error e s' =>
    rw [hx] at hpost
    exact hE e s' hpost

/-- More may hold where an exception is raised. -/
theorem error_mono (h : Triple P x Q E) (hE : ∀ e s, E e s → E' e s) : Triple P x Q E' :=
  h.consequence (fun _ hs => hs) (fun _ _ hs => hs) hE

theorem pure {a : α} (h : ∀ s, P s → Q a s) : Triple P (Pure.pure a : EStateM ε σ α) Q E :=
  fun s hs => h s hs

theorem throw {e : ε} (h : ∀ s, P s → E e s) : Triple P (throw e : EStateM ε σ α) Q E :=
  fun s hs => h s hs

theorem modify {g : σ → σ} {S : PUnit → σ → Prop} (h : ∀ s, P s → S ⟨⟩ (g s)) :
    Triple P (modify g : EStateM ε σ PUnit) S E :=
  fun s hs => h s hs

theorem get {S : σ → σ → Prop} (h : ∀ s, P s → S s s) :
    Triple P (get : EStateM ε σ σ) S E :=
  fun s hs => h s hs

theorem bind (hx : Triple P x Q E) (hf : ∀ a, Triple (Q a) (f a) R E) :
    Triple P (x >>= f) R E := by
  intro s hs
  have hpost := hx s hs
  have hrun : (x >>= f) s = match x s with
      | .ok a s' => f a s'
      | .error e s' => .error e s' := rfl
  rw [hrun]
  cases h : x s with
  | ok a s' =>
    rw [h] at hpost
    exact hf a s' hpost
  | error e s' =>
    rw [h] at hpost
    exact hpost

/-- A precondition for some value. -/
theorem of_exists {ι : Sort*} {P : ι → σ → Prop} (h : ∀ i, Triple (P i) x Q E) :
    Triple (fun s => ∃ i, P i s) x Q E :=
  fun s ⟨i, hs⟩ => h i s hs

/-- A part of the precondition that is not about the state. -/
theorem of_and {c : Prop} (h : c → Triple P x Q E) : Triple (fun s => c ∧ P s) x Q E :=
  fun s hs => h hs.1 s hs.2

/-- A condition of the program. -/
theorem ite {c : Prop} [Decidable c] {y : EStateM ε σ α} (hx : c → Triple P x Q E)
    (hy : ¬c → Triple P y Q E) : Triple P (if c then x else y) Q E := by
  split
  · exact hx ‹_›
  · exact hy ‹_›

end Triple

/-- An exception is raised as another, which may tell of the state. -/
def raiseAs (g : ε → σ → ε) (x : EStateM ε σ α) : EStateM ε σ α := fun s =>
  match x s with
  | .ok a s' => .ok a s'
  | .error e s' => .error (g e s') s'

theorem Triple.raiseAs {P : σ → Prop} {Q : α → σ → Prop} {I : σ → Prop} {x : EStateM ε σ α}
    (g : ε → σ → ε) (h : Triple P x Q fun _ => I) : Triple P (raiseAs g x) Q fun _ => I := by
  intro s hs
  have hpost := h s hs
  rw [Lib.raiseAs]
  cases hx : x s with
  | ok a s' =>
    rw [hx] at hpost
    exact hpost
  | error e s' =>
    rw [hx] at hpost
    exact hpost

end Makolet.Lib
