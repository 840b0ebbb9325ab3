import Mathlib.Logic.Function.Basic
import Mathlib.Data.List.Basic

/-!
# Interruptible programs over a durable state

A `Program` awaits one durable operation at a time. `act` is the operation that the program awaits
in its local state: it commits and continues, it raises without a commit, or it is not answered yet
(`none`). `handle` is where the program goes when an awaited operation raises.

A step is a `Reply` to the awaited operation. Besides the regular answer the environment may raise
a fault before the operation commits, or commit it and lose the answer. Between two steps a program
may also be dropped altogether, which is left to the system that runs it.

`Program.step_cases` says everything a step can do. The rule `Program.step_durable` reduces an
invariant of the durable state to the operations alone, and `Program.step_local` a relation between
the durable and the local state to the operations and the handler.
-/

set_option autoImplicit false

namespace Makolet.Lib

universe u

variable {σ κ ι φ ε : Type u}

/-- A program with local state `κ` over durable states `σ`. Faults `φ` are what the environment
may raise; `ε` are the exceptions of the program. -/
structure Program (σ κ ι φ ε : Type u) where
  act : σ → κ → ι → Option (Except ε (σ × κ))
  raised : φ → ε
  handle : κ → ε → Option κ

/-- The answers to an awaited operation. -/
inductive Reply (ι φ : Type u)
  | ok (i : ι)
  | raise (f : φ)
  | lost (i : ι) (f : φ)

/-- The operation raised and did not commit. -/
def Reply.isRaise {ι φ : Type u} : Reply ι φ → Bool
  | .raise _ => true
  | _ => false

/-- The operation committed and its answer was lost. -/
def Reply.isLost {ι φ : Type u} : Reply ι φ → Bool
  | .lost _ _ => true
  | _ => false

namespace Program

variable (P : Program σ κ ι φ ε)

/-- The durable and the local state after a reply. -/
def step (s : σ) (k : κ) : Reply ι φ → Option (σ × κ)
  | .ok i =>
    match P.act s k i with
    | some (.ok next) => some next
    | some (.error e) => (P.handle k e).map fun k' => (s, k')
    | none => none
  | .raise f => (P.handle k (P.raised f)).map fun k' => (s, k')
  | .lost i f =>
    match P.act s k i with
    | some (.ok next) => (P.handle k (P.raised f)).map fun k' => (next.1, k')
    | _ => none

variable {P} {s s' : σ} {k k' : κ} {r : Reply ι φ}

/-- What a step can do: commit and continue, raise without a commit, or commit and raise. -/
theorem step_cases (h : P.step s k r = some (s', k')) :
    (∃ i, r = .ok i ∧ P.act s k i = some (.ok (s', k'))) ∨
      (∃ e, P.handle k e = some k' ∧ s' = s ∧
        ((∃ i, r = .ok i ∧ P.act s k i = some (.error e)) ∨ ∃ f, r = .raise f ∧ e = P.raised f)) ∨
      ∃ i f next, r = .lost i f ∧ P.act s k i = some (.ok (s', next)) ∧
        P.handle k (P.raised f) = some k' := by
  cases r with
  | ok i =>
    simp only [step] at h
    split at h
    · rename_i next hact
      cases h
      exact .inl ⟨i, rfl, hact⟩
    · rename_i e hact
      obtain ⟨j, hj, heq⟩ := Option.map_eq_some_iff.mp h
      cases heq
      exact .inr (.inl ⟨e, hj, rfl, .inl ⟨i, rfl, hact⟩⟩)
    · cases h
  | raise f =>
    obtain ⟨j, hj, heq⟩ := Option.map_eq_some_iff.mp h
    cases heq
    exact .inr (.inl ⟨P.raised f, hj, rfl, .inr ⟨f, rfl, rfl⟩⟩)
  | lost i f =>
    simp only [step] at h
    split at h
    · rename_i next hact
      obtain ⟨j, hj, heq⟩ := Option.map_eq_some_iff.mp h
      cases heq
      exact .inr (.inr ⟨i, f, next.2, rfl, hact, hj⟩)
    · cases h

/-- The durable state changes by a committed operation only. -/
theorem step_durable (h : P.step s k r = some (s', k')) :
    s' = s ∨ ∃ i next, P.act s k i = some (.ok (s', next)) := by
  rcases step_cases h with ⟨i, -, hact⟩ | ⟨e, -, rfl, -⟩ | ⟨i, f, next, -, hact, -⟩
  · exact .inr ⟨i, k', hact⟩
  · exact .inl rfl
  · exact .inr ⟨i, next, hact⟩

/-- A relation between the durable and the local state survives a step if every operation
establishes it again for its continuation and for the handler of its state. -/
theorem step_local {J : σ → κ → Prop} (h : P.step s k r = some (s', k'))
    (hact : ∀ i next, P.act s k i = some (.ok (s', next)) → J s' next)
    (hraise : ∀ e, P.handle k e = some k' → s' = s → J s k')
    (hlost : ∀ i f next, P.act s k i = some (.ok (s', next)) →
      P.handle k (P.raised f) = some k' → J s' k') : J s' k' := by
  rcases step_cases h with ⟨i, -, h⟩ | ⟨e, he, rfl, -⟩ | ⟨i, f, next, -, h, hk⟩
  · exact hact i k' h
  · exact hraise e he rfl
  · exact hlost i f next h hk

/-! ### Runs -/

/-- The local states that a program went through, oldest first, and the one it is in. Other programs
change the durable state in between, so that every step may find any. -/
inductive Run (P : Program σ κ ι φ ε) (start : κ) : List κ → κ → Prop
  | start : Run P start [] start
  | step {path : List κ} {k k' : κ} {s s' : σ} {r : Reply ι φ} (h : Run P start path k)
      (hstep : P.step s k r = some (s', k')) : Run P start (path ++ [k]) k'

/-- A credit that every step from a marked state takes from bounds the marked states of a run. -/
theorem Run.countP_add_credit_le {start : κ} {path : List κ} (h : P.Run start path k)
    (inv : κ → Prop) (mark : κ → Bool) (credit : κ → Nat) (hstart : inv start)
    (hstep : ∀ {s s' : σ} {k k' : κ} {r : Reply ι φ}, inv k → P.step s k r = some (s', k') →
      inv k' ∧ credit k' + (if mark k then 1 else 0) ≤ credit k) :
    inv k ∧ path.countP mark + credit k ≤ credit start := by
  induction h with
  | start => exact ⟨hstart, by simp⟩
  | @step path k k' s s' r _ h ih =>
    obtain ⟨hinv, hcount⟩ := ih
    obtain ⟨hinv', hcredit⟩ := hstep hinv h
    refine ⟨hinv', ?_⟩
    rw [List.countP_append, List.countP_singleton]
    omega

/-- Execute a list of replies, without other programs in between: the states gone through, and the
ones reached. -/
def trace (P : Program σ κ ι φ ε) : σ → κ → List (Reply ι φ) → Option (List κ × σ × κ)
  | s, k, [] => some ([], s, k)
  | s, k, r :: rs =>
    (P.step s k r).bind fun next => (P.trace next.1 next.2 rs).map fun t => (k :: t.1, t.2)

theorem Run.of_trace {start : κ} {path l : List κ} {k k' : κ} {s s' : σ}
    {rs : List (Reply ι φ)} (h : P.Run start path k) (ht : P.trace s k rs = some (l, s', k')) :
    P.Run start (path ++ l) k' := by
  induction rs generalizing s k path l with
  | nil =>
    cases ht
    rwa [List.append_nil]
  | cons r rs ih =>
    obtain ⟨⟨s₁, k₁⟩, hstep, hmap⟩ := Option.bind_eq_some_iff.mp ht
    obtain ⟨⟨l, rest⟩, hrest, heq⟩ := Option.map_eq_some_iff.mp hmap
    cases heq
    rw [List.append_cons]
    exact ih (h.step hstep) hrest

end Program

/-! ## Pools of processes -/

section Pool

variable {α β : Type u} [DecidableEq α] {pool : α → Option β} {a b : α} {v d : β}

/-- A member of an updated pool is the new one or an old one under another name. -/
theorem update_some_eq_some (h : Function.update pool a (some v) b = some d) :
    (b = a ∧ d = v) ∨ (b ≠ a ∧ pool b = some d) := by
  by_cases hb : b = a
  · subst hb
    rw [Function.update_self, Option.some.injEq] at h
    exact .inl ⟨rfl, h.symm⟩
  · rw [Function.update_of_ne hb] at h
    exact .inr ⟨hb, h⟩

theorem update_none_eq_some (h : Function.update pool a none b = some d) :
    b ≠ a ∧ pool b = some d := by
  by_cases hb : b = a
  · subst hb
    rw [Function.update_self] at h
    cases h
  · rw [Function.update_of_ne hb] at h
    exact ⟨hb, h⟩

end Pool

end Makolet.Lib
