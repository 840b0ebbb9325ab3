import Mathlib.Data.List.Perm.Basic
import Mathlib.Data.List.Nodup

/-!
# Task queues and pools of tasks

A `TaskQueue` is a bounded first-in first-out queue that counts the items put and not yet reported
done, as a waiter for the whole queue needs it. A pool of tasks is the list of their states; a step
of one task replaces its state. Facts about a pool do not depend on the order of its tasks, so
`pool_at` and `pool_set` show the acting task in front of the others, before and after its step.
-/

set_option autoImplicit false

namespace Makolet.Lib

universe u

variable {α : Type u}

/-- A bounded queue with the number of items that are put and not done. -/
structure TaskQueue (α : Type u) where
  capacity : Nat
  items : List α
  unfinished : Nat
  deriving DecidableEq

namespace TaskQueue

def empty (capacity : Nat) : TaskQueue α := ⟨capacity, [], 0⟩

def Full (q : TaskQueue α) : Prop := q.capacity ≤ q.items.length

instance (q : TaskQueue α) : Decidable q.Full := inferInstanceAs (Decidable (_ ≤ _))

/-- Put an item at the end, unless the queue is full. -/
def put (q : TaskQueue α) (a : α) : Option (TaskQueue α) :=
  if q.Full then none
  else some { q with items := q.items ++ [a], unfinished := q.unfinished + 1 }

/-- Take the first item, if there is one. -/
def get (q : TaskQueue α) : Option (α × TaskQueue α) :=
  match q.items with
  | [] => none
  | a :: rest => some (a, { q with items := rest })

/-- Report one taken item done; `none` when it is reported more often than items were put. -/
def taskDone (q : TaskQueue α) : Option (TaskQueue α) :=
  if q.unfinished = 0 then none else some { q with unfinished := q.unfinished - 1 }

variable {q q' : TaskQueue α} {a : α}

theorem put_cases (h : q.put a = some q') : ¬ q.Full ∧
    q' = { q with items := q.items ++ [a], unfinished := q.unfinished + 1 } := by
  unfold put at h
  split at h
  · cases h
  · rename_i hfull
    exact ⟨hfull, (Option.some.inj h).symm⟩

theorem get_cases (h : q.get = some (a, q')) :
    q.items = a :: q'.items ∧ q'.unfinished = q.unfinished ∧ q'.capacity = q.capacity := by
  unfold get at h
  split at h
  · cases h
  · rename_i b rest heq
    obtain ⟨rfl, rfl⟩ := Prod.mk.injEq .. ▸ Option.some.inj h
    exact ⟨heq, rfl, rfl⟩

theorem get_isSome (h : q.items ≠ []) : ∃ a q', q.get = some (a, q') := by
  obtain ⟨a, rest, heq⟩ := List.exists_cons_of_ne_nil h
  exact ⟨a, { q with items := rest }, by rw [get, heq]⟩

theorem taskDone_of {n : Nat} (h : q.unfinished = n + 1) :
    q.taskDone = some { q with unfinished := n } := by
  rw [taskDone, if_neg (by omega), h, Nat.add_sub_cancel]

end TaskQueue

/-! ## Pools -/

section Pool

variable {pool : List α} {i : Nat} {a : α}

/-- The acting task before the others. -/
theorem pool_at (h : pool[i]? = some a) : pool.Perm (a :: pool.eraseIdx i) := by
  obtain ⟨hlt, rfl⟩ := List.getElem?_eq_some_iff.mp h
  exact (List.getElem_cons_eraseIdx_perm hlt).symm

/-- The acting task after its step, before the others. -/
theorem pool_set (h : pool[i]? = some a) (b : α) : (pool.set i b).Perm (b :: pool.eraseIdx i) := by
  obtain ⟨hlt, rfl⟩ := List.getElem?_eq_some_iff.mp h
  exact List.set_perm_cons_eraseIdx hlt b

end Pool

end Makolet.Lib
