import Mathlib.Data.List.Sort
import Mathlib.Order.Lattice
import Mathlib.Algebra.Order.Ring.Int

/-!
# Offset tables

A local clock runs at an offset from the universal one, and the offset changes at finitely many
instants. `OffsetTable.offsetAt` reads the offset of an instant. The way back is ambiguous: a wall
time may have no instant or several. `OffsetTable.wallOffset` is the lookup by wall time that a time
zone library makes, once for each value of the fold flag, with a bisection over the wall times at
which the transitions begin and end.

`offsetAt_eq_wallOffset` says that every instant of a wall time is found by one of the two lookups,
provided that the wall times of consecutive transitions do not overlap (`Separated`).
-/

set_option autoImplicit false

namespace Makolet.Lib

/-! ## Bisection -/

section Bisection

variable {α : Type} [LinearOrder α]

/-- The loop of a bisection for the first position above a value, between two positions. -/
def bisectLoop (starts : List α) (x : α) : Nat → Nat → Nat → Nat
  | 0, lo, _ => lo
  | fuel + 1, lo, hi =>
    if lo < hi then
      match starts[(lo + hi) / 2]? with
      | some s =>
        if x < s then bisectLoop starts x fuel lo ((lo + hi) / 2)
        else bisectLoop starts x fuel ((lo + hi) / 2 + 1) hi
      | none => lo
    else lo

/-- The first position of a list above a value. -/
def bisectRight (starts : List α) (x : α) : Nat :=
  bisectLoop starts x starts.length 0 starts.length

variable {starts : List α} {x : α}

/-- The loop keeps the values below `lo` at or under `x` and those from `hi` on above it. -/
theorem bisectLoop_spec (hsorted : starts.Pairwise (· ≤ ·)) {fuel lo hi : Nat}
    (hfuel : hi - lo ≤ fuel) (hlo : lo ≤ hi) (hhi : hi ≤ starts.length)
    (hbelow : ∀ i (h : i < starts.length), i < lo → starts[i] ≤ x)
    (habove : ∀ i (h : i < starts.length), hi ≤ i → x < starts[i]) :
    bisectLoop starts x fuel lo hi ≤ starts.length ∧
      ∀ i (h : i < starts.length), i < bisectLoop starts x fuel lo hi ↔ starts[i] ≤ x := by
  have hmono : ∀ i j (hi : i < starts.length) (hj : j < starts.length), i ≤ j →
      starts[i] ≤ starts[j] := by
    intro i j hi hj hij
    rcases Nat.lt_or_eq_of_le hij with hij | rfl
    · exact List.pairwise_iff_getElem.mp hsorted i j hi hj hij
    · exact le_refl _
  -- A position that divides the list is the count.
  have hdivides : ∀ n, n ≤ starts.length →
      (∀ i (h : i < starts.length), i < n → starts[i] ≤ x) →
      (∀ i (h : i < starts.length), n ≤ i → x < starts[i]) →
      n ≤ starts.length ∧ ∀ i (h : i < starts.length), i < n ↔ starts[i] ≤ x := by
    intro n hn hbelow habove
    refine ⟨hn, fun i h => ⟨hbelow i h, fun hle => ?_⟩⟩
    by_contra hge
    exact absurd (habove i h (Nat.le_of_not_lt hge)) (not_lt_of_ge hle)
  induction fuel generalizing lo hi with
  | zero =>
    obtain rfl : lo = hi := by omega
    exact hdivides lo hhi hbelow habove
  | succ fuel ih =>
    rw [bisectLoop]
    split
    · rename_i hlt
      have hmid : (lo + hi) / 2 < starts.length := by omega
      rw [List.getElem?_eq_getElem hmid]
      dsimp only
      split
      · rename_i hx
        refine ih (by omega) (by omega) (by omega) hbelow fun i h hi => ?_
        exact lt_of_lt_of_le hx (hmono _ i hmid h hi)
      · rename_i hx
        refine ih (by omega) (by omega) hhi (fun i h hi => ?_) habove
        exact le_trans (hmono i _ h hmid (by omega)) (le_of_not_gt hx)
    · obtain rfl : lo = hi := by omega
      exact hdivides lo hhi hbelow habove

theorem bisectRight_le (hsorted : starts.Pairwise (· ≤ ·)) :
    bisectRight starts x ≤ starts.length :=
  (bisectLoop_spec hsorted (by omega) (Nat.zero_le _) (le_refl _) (fun _ _ h => absurd h (by omega))
    fun i h hi => absurd h (by omega)).1

/-- Of a sorted list the bisection counts the values at or under the given one. -/
theorem lt_bisectRight_iff (hsorted : starts.Pairwise (· ≤ ·)) {i : Nat} (h : i < starts.length) :
    i < bisectRight starts x ↔ starts[i] ≤ x :=
  (bisectLoop_spec hsorted (by omega) (Nat.zero_le _) (le_refl _) (fun _ _ h => absurd h (by omega))
    fun i h hi => absurd h (by omega)).2 i h

end Bisection

/-! ## Tables -/

/-- The offset before the first transition, and the transitions with the offset from each on. -/
structure OffsetTable where
  before : Int
  transitions : List (Int × Int)
  increasing : (transitions.map Prod.fst).Pairwise (· < ·)

namespace OffsetTable

variable (z : OffsetTable)

/-- The offset after so many transitions. -/
def offsetAfter (n : Nat) : Int := (z.before :: z.transitions.map Prod.snd).getD n 0

def instants : List Int := z.transitions.map Prod.fst

/-- The offset of an instant. -/
def offsetAt (u : Int) : Int := z.offsetAfter (bisectRight z.instants u)

/-- The wall times from which the lookups with the given fold see the transitions: with the larger
of the two offsets while the fold flag is not set, with the smaller one when it is. -/
def wallStarts (fold : Bool) : List Int :=
  z.transitions.zipIdx.map fun ((t, _), i) =>
    t + if fold then min (z.offsetAfter i) (z.offsetAfter (i + 1))
      else max (z.offsetAfter i) (z.offsetAfter (i + 1))

/-- The offset of a wall time. -/
def wallOffset (fold : Bool) (w : Int) : Int :=
  let starts := z.wallStarts fold
  if (starts.head?.any fun s => decide (w < s)) = true then z.before
  else if (starts.getLast?.all fun s => decide (s < w)) = true then
    z.offsetAfter z.transitions.length
  else z.offsetAfter (bisectRight starts w)

/-- The wall times of a transition lie before those of the next one. -/
def Separated : Prop :=
  ∀ i (h : i + 1 < z.transitions.length),
    z.transitions[i].1 + max (z.offsetAfter i) (z.offsetAfter (i + 1)) ≤
      z.transitions[i + 1].1 + min (z.offsetAfter (i + 1)) (z.offsetAfter (i + 1 + 1))

variable {z} {w : Int} {fold : Bool}

@[simp] theorem length_instants : z.instants.length = z.transitions.length := List.length_map _

@[simp] theorem length_wallStarts : (z.wallStarts fold).length = z.transitions.length := by
  simp [wallStarts]

theorem getElem_wallStarts {i : Nat} (h : i < z.transitions.length)
    (hi : i < (z.wallStarts fold).length) :
    (z.wallStarts fold)[i] = z.transitions[i].1 +
      if fold then min (z.offsetAfter i) (z.offsetAfter (i + 1))
        else max (z.offsetAfter i) (z.offsetAfter (i + 1)) := by
  simp [wallStarts]

/-- The lookups of separated transitions are ordered. -/
theorem Separated.sorted (hz : z.Separated) : (z.wallStarts fold).Pairwise (· ≤ ·) := by
  rw [List.pairwise_iff_getElem]
  have hnext : ∀ i (hi : i + 1 < (z.wallStarts fold).length),
      (z.wallStarts fold)[i] ≤ (z.wallStarts fold)[i + 1] := by
    intro i hi
    have h : i + 1 < z.transitions.length := by rwa [length_wallStarts] at hi
    rw [getElem_wallStarts (by omega), getElem_wallStarts h]
    have hsep := hz i h
    split <;> omega
  intro i j hi hj hij
  -- Induction on the distance.
  induction j, hij using Nat.le_induction with
  | base => exact hnext i hj
  | succ j hij ih => exact le_trans (ih (by omega)) (hnext j hj)

theorem sorted_instants : z.instants.Pairwise (· ≤ ·) :=
  z.increasing.imp fun h => le_of_lt h

/-- Where the lookups are ordered, both shortcuts agree with the bisection. -/
theorem wallOffset_eq (hsorted : (z.wallStarts fold).Pairwise (· ≤ ·)) :
    z.wallOffset fold w = z.offsetAfter (bisectRight (z.wallStarts fold) w) := by
  have hle := bisectRight_le (x := w) hsorted
  unfold wallOffset
  dsimp only
  split
  · rename_i hhead
    obtain ⟨s, hs, hlt⟩ := (Option.any_eq_true _ _).mp hhead
    rw [List.head?_eq_getElem?] at hs
    obtain ⟨hpos, rfl⟩ := List.getElem?_eq_some_iff.mp hs
    have hzero : bisectRight (z.wallStarts fold) w = 0 := by
      by_contra hne
      have hunder := (lt_bisectRight_iff hsorted hpos).mp (Nat.pos_of_ne_zero hne)
      exact absurd (of_decide_eq_true hlt) (not_lt_of_ge hunder)
    rw [hzero]
    rfl
  · split
    · rename_i hlast
      have hlength : bisectRight (z.wallStarts fold) w = z.transitions.length := by
        rw [length_wallStarts] at hle
        by_contra hne
        have hin : z.transitions.length - 1 < (z.wallStarts fold).length := by
          rw [length_wallStarts]
          omega
        rw [List.getLast?_eq_getElem?, length_wallStarts, List.getElem?_eq_getElem hin,
          Option.all_some] at hlast
        have hover := (lt_bisectRight_iff hsorted hin).mpr (le_of_lt (of_decide_eq_true hlast))
        omega
      rw [hlength]
    · rfl

/-- Every instant of a wall time is found by one of the two lookups. -/
theorem offsetAt_eq_wallOffset (hz : z.Separated) {u : Int} (hu : u + z.offsetAt u = w) :
    z.offsetAt u = z.wallOffset false w ∨ z.offsetAt u = z.wallOffset true w := by
  rw [wallOffset_eq hz.sorted, wallOffset_eq hz.sorted, offsetAt]
  set k := bisectRight z.instants u with hk
  set a := bisectRight (z.wallStarts false) w with ha
  set b := bisectRight (z.wallStarts true) w with hb
  have hw : u + z.offsetAfter k = w := hu
  have hkle : k ≤ z.transitions.length := (bisectRight_le sorted_instants).trans_eq length_instants
  have hale : a ≤ z.transitions.length := (bisectRight_le hz.sorted).trans_eq length_wallStarts
  have hble : b ≤ z.transitions.length := (bisectRight_le hz.sorted).trans_eq length_wallStarts
  have hinstant : ∀ i (h : i < z.transitions.length), i < k ↔ z.transitions[i].1 ≤ u := by
    intro i h
    rw [hk, lt_bisectRight_iff sorted_instants (by simpa using h)]
    simp [instants]
  have hlater : ∀ i (h : i < z.transitions.length), i < a ↔
      z.transitions[i].1 + max (z.offsetAfter i) (z.offsetAfter (i + 1)) ≤ w := by
    intro i h
    rw [ha, lt_bisectRight_iff hz.sorted (by simpa using h), getElem_wallStarts h]
    rfl
  have hsooner : ∀ i (h : i < z.transitions.length), i < b ↔
      z.transitions[i].1 + min (z.offsetAfter i) (z.offsetAfter (i + 1)) ≤ w := by
    intro i h
    rw [hb, lt_bisectRight_iff hz.sorted (by simpa using h), getElem_wallStarts h]
    rfl
  -- The instant lies after every transition that the later lookup has passed,
  have hak : a ≤ k := by
    by_contra hlt
    have hka : k < a := Nat.lt_of_not_le hlt
    have hpassed := (hlater k (by omega)).mp hka
    have hnot := mt (hinstant k (by omega)).mpr (lt_irrefl k)
    omega
  -- and after none that the sooner lookup has not.
  have hkb : k ≤ b := by
    by_contra hlt
    have hbefore := (hinstant (k - 1) (by omega)).mp (by omega)
    have hnot := mt (hsooner (k - 1) (by omega)).mpr (by omega)
    rw [Nat.sub_add_cancel (by omega)] at hnot
    omega
  have hba : b ≤ a + 1 := by
    by_contra hlt
    have hpassed := (hsooner (a + 1) (by omega)).mp (by omega)
    have hnot := mt (hlater a (by omega)).mpr (lt_irrefl a)
    have hsep := hz a (by omega)
    omega
  have hcase : k = a ∨ k = b := by omega
  rcases hcase with h | h
  · exact .inl (by rw [h])
  · exact .inr (by rw [h])

end OffsetTable

end Makolet.Lib
