import Mathlib.Logic.Function.Basic

/-!
# Labelled transition systems with guarded runs

A `System` has a set of initial states and a partial step function: `next s i` is the state
after the label `i`, or `none` when `i` is not enabled in `s`. All nondeterminism (the choice of
the acting process, the replies of the environment, a crash) sits in the label.

`Reach S ok s` says that `s` is reached by a run all of whose steps meet the side condition `ok`,
a relation between the state before the step and its label. Unrestricted reachability is
`Reach S Any`. The rules `Reach.invariant` and `Reach.invariant_of` turn a step lemma into a run
lemma; `reach_after` turns an executed list of labels into a reachable state. `Inevitable` is what
every run comes to, with a rule that reduces it to a measure.
-/

set_option autoImplicit false

namespace Makolet.Lib

universe u v

variable {σ : Type u} {ι : Type v}

/-- A labelled transition system with a partial step function. -/
structure System (σ : Type u) (ι : Type v) where
  init : σ → Prop
  next : σ → ι → Option σ

/-- The side condition met by every step. -/
def Any : σ → ι → Prop := fun _ _ => True

/-- States reached by runs whose steps all meet `ok`. -/
inductive Reach (S : System σ ι) (ok : σ → ι → Prop) : σ → Prop
  | init {s : σ} : S.init s → Reach S ok s
  | step {s s' : σ} (i : ι) : Reach S ok s → ok s i → S.next s i = some s' → Reach S ok s'

/-- A weaker side condition reaches at least the same states. -/
theorem Reach.mono {S : System σ ι} {ok ok' : σ → ι → Prop} (h : ∀ s i, ok s i → ok' s i)
    {s : σ} (hs : Reach S ok s) : Reach S ok' s := by
  induction hs with
  | init hi => exact .init hi
  | step i _ hok hnext ih => exact .step i ih (h _ _ hok) hnext

theorem Reach.any {S : System σ ι} {ok : σ → ι → Prop} {s : σ} (hs : Reach S ok s) :
    Reach S Any s :=
  hs.mono fun _ _ _ => trivial

/-- The invariant rule whose step may also use reachability of the state before the step, and
so every invariant proved earlier. -/
theorem Reach.invariant_of {S : System σ ι} {ok : σ → ι → Prop} {P : σ → Prop}
    (hinit : ∀ s, S.init s → P s)
    (hstep : ∀ s i s', Reach S ok s → P s → ok s i → S.next s i = some s' → P s')
    {s : σ} (hs : Reach S ok s) : P s := by
  induction hs with
  | init hi => exact hinit _ hi
  | step i hr hok hnext ih => exact hstep _ i _ hr ih hok hnext

/-- The invariant rule: initially true and preserved by every admitted step. -/
theorem Reach.invariant {S : System σ ι} {ok : σ → ι → Prop} {P : σ → Prop}
    (hinit : ∀ s, S.init s → P s)
    (hstep : ∀ s i s', P s → ok s i → S.next s i = some s' → P s')
    {s : σ} (hs : Reach S ok s) : P s :=
  hs.invariant_of hinit fun s i s' _ hP hok hnext => hstep s i s' hP hok hnext

/-- Execute a list of labels. -/
def System.run (S : System σ ι) : σ → List ι → Option σ
  | s, [] => some s
  | s, i :: rest => (S.next s i).bind fun s' => S.run s' rest

@[simp] theorem System.run_nil (S : System σ ι) (s : σ) : S.run s [] = some s := rfl

theorem System.run_cons (S : System σ ι) (s : σ) (i : ι) (rest : List ι) :
    S.run s (i :: rest) = (S.next s i).bind fun s' => S.run s' rest := rfl

/-- An executed run from a reachable state ends in a reachable state. -/
theorem Reach.of_run {S : System σ ι} {s s' : σ} {labels : List ι} (hs : Reach S Any s)
    (hrun : S.run s labels = some s') : Reach S Any s' := by
  induction labels generalizing s with
  | nil =>
    rw [System.run_nil, Option.some.injEq] at hrun
    exact hrun ▸ hs
  | cons i rest ih =>
    rw [System.run_cons, Option.bind_eq_some_iff] at hrun
    obtain ⟨m, hm, hrest⟩ := hrun
    exact ih (.step i hs trivial hm) hrest

/-- The state after a list of labels; the start where the list cannot be executed. -/
def System.after (S : System σ ι) (s : σ) (labels : List ι) : σ :=
  (S.run s labels).getD s

theorem System.run_after {S : System σ ι} {s : σ} {labels : List ι}
    (h : (S.run s labels).isSome = true) : S.run s labels = some (S.after s labels) := by
  obtain ⟨s', hs'⟩ := Option.isSome_iff_exists.mp h
  rw [System.after, hs', Option.getD_some]

theorem reach_after {S : System σ ι} {s : σ} (labels : List ι) (hs : S.init s)
    (hrun : (S.run s labels).isSome = true) : Reach S Any (S.after s labels) :=
  Reach.of_run (.init hs) (System.run_after hrun)

/-- Execute a list of labels each of which must meet the side condition. -/
def System.runChecked (S : System σ ι) (ok : σ → ι → Prop) [∀ s i, Decidable (ok s i)] :
    σ → List ι → Option σ
  | s, [] => some s
  | s, i :: rest => if ok s i then (S.next s i).bind fun s' => S.runChecked ok s' rest else none

theorem Reach.of_runChecked {S : System σ ι} {ok : σ → ι → Prop} [∀ s i, Decidable (ok s i)]
    {s s' : σ} {labels : List ι} (hs : Reach S ok s) (hrun : S.runChecked ok s labels = some s') :
    Reach S ok s' := by
  induction labels generalizing s with
  | nil =>
    rw [System.runChecked, Option.some.injEq] at hrun
    exact hrun ▸ hs
  | cons i rest ih =>
    rw [System.runChecked] at hrun
    split at hrun
    · rename_i hok
      obtain ⟨m, hm, hrest⟩ := Option.bind_eq_some_iff.mp hrun
      exact ih (.step i hs hok hm) hrest
    · cases hrun

/-- The state after a checked list of labels; the start where the list cannot be executed. -/
def System.afterChecked (S : System σ ι) (ok : σ → ι → Prop) [∀ s i, Decidable (ok s i)] (s : σ)
    (labels : List ι) : σ :=
  (S.runChecked ok s labels).getD s

theorem reach_afterChecked {S : System σ ι} {ok : σ → ι → Prop} [∀ s i, Decidable (ok s i)]
    {s : σ} (labels : List ι) (hs : S.init s)
    (hrun : (S.runChecked ok s labels).isSome = true) : Reach S ok (S.afterChecked ok s labels) := by
  obtain ⟨s', hs'⟩ := Option.isSome_iff_exists.mp hrun
  rw [System.afterChecked, hs', Option.getD_some]
  exact Reach.of_runChecked (.init hs) hs'

/-! ## Runs that end -/

/-- Every run from `s` whose steps meet `ok` and that goes on as long as it can reaches `P`: a state
without `P` has an admitted step, and all its admitted steps lead on to `P`. -/
inductive Inevitable (S : System σ ι) (ok : σ → ι → Prop) (P : σ → Prop) : σ → Prop
  | now {s : σ} : P s → Inevitable S ok P s
  | later {s : σ} : (∃ i s', ok s i ∧ S.next s i = some s') →
      (∀ i s', ok s i → S.next s i = some s' → Inevitable S ok P s') → Inevitable S ok P s

/-- The measure rule: no reachable state without `P` is stuck, and every step lowers the measure. -/
theorem Inevitable.of_measure {S : System σ ι} {ok : σ → ι → Prop} {P : σ → Prop} (μ : σ → Nat)
    (hprogress : ∀ s, Reach S ok s → ¬ P s → ∃ i s', ok s i ∧ S.next s i = some s')
    (hdecrease : ∀ s i s', Reach S ok s → ¬ P s → ok s i → S.next s i = some s' → μ s' < μ s)
    {s : σ} (hs : Reach S ok s) : Inevitable S ok P s := by
  -- Induction on the measure, for all states below it at once.
  induction h : μ s using Nat.strongRecOn generalizing s with
  | ind n ih =>
    subst h
    by_cases hP : P s
    · exact .now hP
    · refine .later (hprogress s hs hP) fun i s' hok hnext => ?_
      exact ih _ (hdecrease s i s' hs hP hok hnext) (.step i hs hok hnext) rfl

end Makolet.Lib
