import Mathlib.Data.List.Forall2

/-!
# Fallible computations

`Except` programs with explicit guards. `require` raises unless its condition holds; the lemmas
invert a program that returned, so that a proof peels it apart statement by statement without
unfolding the monad. `RaisesOnly` bounds the failures of a program, with one rule for each way to
build it. `runList` executes a list of fallible steps.
-/

set_option autoImplicit false

namespace Makolet.Lib

universe u v

variable {ε : Type u} {α β : Type v}

/-- Raise `e` unless `c` holds. -/
def require (c : Prop) [Decidable c] (e : ε) : Except ε PUnit.{v + 1} :=
  if c then .ok ⟨⟩ else .error e

theorem require_eq_ok {c : Prop} [Decidable c] {e : ε} {r : PUnit.{v + 1}} :
    require c e = .ok r ↔ c := by
  unfold require
  split <;> simp_all

theorem bind_eq_ok {x : Except ε α} {f : α → Except ε β} {r : β} :
    (x >>= f) = .ok r ↔ ∃ a, x = .ok a ∧ f a = .ok r := by
  cases x <;> simp [bind, Except.bind]

theorem bind_eq_error {x : Except ε α} {f : α → Except ε β} {e : ε} :
    (x >>= f) = .error e ↔ x = .error e ∨ ∃ a, x = .ok a ∧ f a = .error e := by
  cases x <;> simp [bind, Except.bind]

theorem map_eq_ok {x : Except ε α} {f : α → β} {r : β} :
    x.map f = .ok r ↔ ∃ a, x = .ok a ∧ f a = r := by
  cases x <;> simp [Except.map]

theorem map_eq_error {x : Except ε α} {f : α → β} {e : ε} :
    x.map f = .error e ↔ x = .error e := by
  cases x <;> simp [Except.map]

theorem mapError_eq_ok {φ : Type u} {x : Except ε α} {f : ε → φ} {a : α} :
    x.mapError f = .ok a ↔ x = .ok a := by
  cases x <;> simp [Except.mapError]

theorem mapError_eq_error {φ : Type u} {x : Except ε α} {f : ε → φ} {e : φ}
    (h : x.mapError f = .error e) : ∃ e', x = .error e' ∧ e = f e' := by
  cases x with
  | ok a => cases h
  | error e' =>
    cases h
    exact ⟨e', rfl, rfl⟩

/-- A guard in front of a program that returned was met. -/
theorem require_bind_eq_ok {c : Prop} [Decidable c] {e : ε} {f : PUnit.{v + 1} → Except ε β}
    {r : β} : (require c e >>= f) = .ok r ↔ c ∧ f ⟨⟩ = .ok r := by
  rw [bind_eq_ok]
  constructor
  · rintro ⟨a, ha, hf⟩
    exact ⟨require_eq_ok.mp ha, hf⟩
  · rintro ⟨hc, hf⟩
    exact ⟨⟨⟩, require_eq_ok.mpr hc, hf⟩

/-- A guard that is met lets the program go on. -/
theorem require_bind_of {c : Prop} [Decidable c] {e : ε} (hc : c) (f : PUnit.{v + 1} → Except ε β) :
    (require c e >>= f) = f ⟨⟩ := by
  rw [require, if_pos hc]
  rfl

/-- A guard that is not met raises its failure. -/
theorem require_bind_of_not {c : Prop} [Decidable c] {e : ε} (hc : ¬c)
    (f : PUnit.{v + 1} → Except ε β) : (require c e >>= f) = .error e := by
  rw [require, if_neg hc]
  rfl

theorem pure_eq_ok {a r : α} : (pure a : Except ε α) = .ok r ↔ a = r := by
  simp [pure, Except.pure]

theorem error_bind (e : ε) (f : α → Except ε β) : ((.error e : Except ε α) >>= f) = .error e := rfl

theorem ok_bind (a : α) (f : α → Except ε β) : ((.ok a : Except ε α) >>= f) = f a := rfl

/-- A guard for every element of a list passed if the loop did. -/
theorem forM_eq_ok {f : α → Except ε PUnit.{v + 1}} {xs : List α} (h : xs.forM f = .ok ⟨⟩) :
    ∀ x ∈ xs, f x = .ok ⟨⟩ := by
  induction xs with
  | nil => exact fun x hx => by cases hx
  | cons a rest ih =>
    obtain ⟨_, ha, hrest⟩ := bind_eq_ok.mp (show (f a >>= fun _ => rest.forM f) = .ok ⟨⟩ from h)
    intro x hx
    rcases List.mem_cons.mp hx with rfl | hx
    · exact ha
    · exact ih hrest x hx

theorem toOption_eq_some {x : Except ε α} {r : α} : x.toOption = some r ↔ x = .ok r := by
  cases x <;> simp [Except.toOption]

/-- The full result behind a projected one. -/
theorem exists_of_map_fst {x : Except ε (α × β)} {r : α} (h : x.map Prod.fst = .ok r) :
    ∃ s, x = .ok (r, s) := by
  obtain ⟨p, hp, rfl⟩ := map_eq_ok.mp h
  exact ⟨p.2, hp⟩

/-- A program mapped over a list returned if it did for every element. -/
theorem mapM_eq_ok {f : α → Except ε β} {xs : List α} {ys : List β} :
    xs.mapM f = .ok ys ↔ List.Forall₂ (fun x y => f x = .ok y) xs ys := by
  induction xs generalizing ys with
  | nil =>
    rw [List.mapM_nil, pure_eq_ok, List.forall₂_nil_left_iff, eq_comm]
  | cons x rest ih =>
    rw [List.mapM_cons, bind_eq_ok]
    constructor
    · rintro ⟨y, hy, hrest⟩
      obtain ⟨ys', hys', heq⟩ := bind_eq_ok.mp hrest
      cases pure_eq_ok.mp heq
      exact .cons hy (ih.mp hys')
    · rintro (_ | ⟨hy, hrest⟩)
      exact ⟨_, hy, bind_eq_ok.mpr ⟨_, ih.mpr hrest, rfl⟩⟩

/-! ## Which failures a program raises -/

/-- Every failure of the program is one of `P`. -/
def RaisesOnly (P : ε → Prop) (x : Except ε α) : Prop :=
  ∀ e, x = .error e → P e

section RaisesOnly

variable {P : ε → Prop} {x : Except ε α} {f : α → Except ε β}

theorem RaisesOnly.pure (a : α) : RaisesOnly P (pure a : Except ε α) := by
  intro e h
  cases h

theorem RaisesOnly.error {e : ε} (h : P e) : RaisesOnly P (.error e : Except ε α) := by
  intro e' he
  cases he
  exact h

/-- A guard that is met raises nothing, and any other raises its own failure. -/
theorem RaisesOnly.require {c : Prop} [Decidable c] {e : ε} (h : c ∨ P e) :
    RaisesOnly P (require c e : Except ε PUnit.{v + 1}) := by
  intro e' he
  unfold Makolet.Lib.require at he
  split at he
  · cases he
  · rename_i hc
    cases he
    exact h.resolve_left hc

theorem RaisesOnly.bind (hx : RaisesOnly P x) (hf : ∀ a, x = .ok a → RaisesOnly P (f a)) :
    RaisesOnly P (x >>= f) := by
  intro e he
  cases hres : x with
  | error e' =>
    rw [hres] at he
    cases he
    exact hx e hres
  | ok a =>
    rw [hres] at he
    exact hf a hres e he

theorem RaisesOnly.guard {c : Prop} [Decidable c] {e : ε} {f : PUnit.{v + 1} → Except ε β}
    (h : c ∨ P e) (hf : c → RaisesOnly P (f ⟨⟩)) : RaisesOnly P (Makolet.Lib.require c e >>= f) :=
  (RaisesOnly.require h).bind fun _ ha => hf (require_eq_ok.mp ha)

theorem RaisesOnly.forM {γ : Type v} {rows : List γ} {g : γ → Except ε PUnit.{v + 1}}
    (h : ∀ r ∈ rows, RaisesOnly P (g r)) : RaisesOnly P (rows.forM g) := by
  induction rows with
  | nil => exact RaisesOnly.pure _
  | cons r rest ih =>
    exact (h r List.mem_cons_self).bind fun _ _ => ih fun r hr => h r (List.mem_cons_of_mem _ hr)

end RaisesOnly

/-- Execute the steps of a list in order; the first failure ends the run. -/
def runList {σ : Type v} {ι : Type v} (step : σ → ι → Except ε σ) : σ → List ι → Except ε σ
  | s, [] => .ok s
  | s, i :: rest => step s i >>= fun s' => runList step s' rest

end Makolet.Lib
