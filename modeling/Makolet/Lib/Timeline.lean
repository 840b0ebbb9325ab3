import Mathlib.Data.List.Chain
import Mathlib.Order.Basic

/-!
# Timelines of versions

A timeline is the list of the versions one subject has had, oldest first. A version holds a value
on the half-open interval from `start` to `stop`; the version without a `stop` is the open one.
`observe t x` is the only way a timeline grows: it keeps the timeline when the open version already
has the value `x`, and otherwise closes the open version at `t` and opens a new one there.

`WellFormed` is the shape every run of observations at increasing times has. Its consequences are
what a reader of the timeline relies on: one open version (`filter_open`), disjoint intervals
(`pairwise_before`) and no gaps (`chain`).
-/

set_option autoImplicit false

namespace Makolet.Lib

universe u v

/-- A value held on the half-open interval `[start, stop)`. -/
structure Version (ν : Type u) (τ : Type v) where
  value : ν
  start : τ
  stop : Option τ
  deriving DecidableEq, Repr

namespace Timeline

variable {ν : Type u} {τ : Type v}

/-- The open version is closed at `t`. -/
def close (t : τ) (tl : List (Version ν τ)) : List (Version ν τ) :=
  tl.map fun v => if v.stop.isNone then { v with stop := some t } else v

/-- The value of the open version. -/
def current (tl : List (Version ν τ)) : Option ν :=
  (tl.find? fun v => v.stop.isNone).map Version.value

/-- A value is observed at time `t`. -/
def observe [DecidableEq ν] (t : τ) (x : ν) (tl : List (Version ν τ)) : List (Version ν τ) :=
  if current tl = some x then tl else close t tl ++ [⟨x, t, none⟩]

/-- `b` takes over where `a` ends, with another value. -/
def Succeeds [LT τ] (a b : Version ν τ) : Prop :=
  a.stop = some b.start ∧ a.start < b.start ∧ a.value ≠ b.value

/-- The shape of a timeline: each version succeeds the one before it, and the last is open. -/
structure WellFormed [LT τ] (tl : List (Version ν τ)) : Prop where
  chain : tl.IsChain Succeeds
  last_open : ∀ v ∈ tl.getLast?, v.stop = none

theorem close_append (t : τ) (tl more : List (Version ν τ)) :
    close t (tl ++ more) = close t tl ++ close t more :=
  List.map_append

theorem current_append (tl more : List (Version ν τ)) :
    current (tl ++ more) = (current tl).or (current more) := by
  rw [current, List.find?_append, Option.map_or]
  rfl

theorem close_of_closed (t : τ) {tl : List (Version ν τ)} (h : ∀ v ∈ tl, v.stop.isSome) :
    close t tl = tl := by
  refine (List.map_congr_left fun v hv => ?_).trans (List.map_id tl)
  have hs := h v hv
  cases hstop : v.stop with
  | none => rw [hstop] at hs; cases hs
  | some e => simp

theorem current_of_closed {tl : List (Version ν τ)} (h : ∀ v ∈ tl, v.stop.isSome) :
    current tl = none := by
  rw [current, Option.map_eq_none_iff, List.find?_eq_none]
  intro v hv hopen
  have hs := h v hv
  rw [Option.isNone_iff_eq_none.mp hopen] at hs
  cases hs

theorem current_of_split {past : List (Version ν τ)} {last : Version ν τ}
    (hpast : ∀ v ∈ past, v.stop.isSome) (hlast : last.stop = none) :
    current (past ++ [last]) = some last.value := by
  rw [current_append, current_of_closed hpast]
  simp [current, hlast]

section Observe

variable [DecidableEq ν]

theorem observe_same {t : τ} {x : ν} {tl : List (Version ν τ)} (h : current tl = some x) :
    observe t x tl = tl :=
  if_pos h

/-- After an observation the observed value is current. -/
theorem current_observe {t : τ} {x : ν} (tl : List (Version ν τ)) :
    current (Timeline.observe t x tl) = some x := by
  unfold Timeline.observe
  split
  · assumption
  · have hclosed : ∀ v ∈ close t tl, v.stop.isSome := by
      intro v hv
      obtain ⟨w, -, rfl⟩ := List.mem_map.mp hv
      cases hs : w.stop <;> simp [hs]
    rw [current_append, current_of_closed hclosed]
    rfl

end Observe

section Order

variable [LT τ]

theorem WellFormed.nil : WellFormed ([] : List (Version ν τ)) :=
  ⟨List.isChain_nil, fun _ h => by cases h⟩

/-- Every version with a successor is closed. -/
theorem isSome_of_chain {past : List (Version ν τ)} {last : Version ν τ}
    (h : (past ++ [last]).IsChain Succeeds) : ∀ v ∈ past, v.stop.isSome := by
  induction past with
  | nil => intro v hv; cases hv
  | cons a rest ih =>
    intro v hv
    have hsplit := List.isChain_cons.mp (show (a :: (rest ++ [last])).IsChain Succeeds from h)
    rcases List.mem_cons.mp hv with rfl | hrest
    · cases hhead : (rest ++ [last]).head? with
      | none => simp at hhead
      | some b => rw [(hsplit.1 b hhead).1]; rfl
    · exact ih hsplit.2 v hrest

/-- A well-formed timeline is empty or a closed past and one open version. -/
theorem WellFormed.cases {tl : List (Version ν τ)} (h : WellFormed tl) :
    tl = [] ∨ ∃ past last, tl = past ++ [last] ∧ last.stop = none ∧ ∀ v ∈ past, v.stop.isSome := by
  rcases List.eq_nil_or_concat tl with rfl | ⟨past, last, rfl⟩
  · exact .inl rfl
  · have hchain := h.chain
    rw [List.concat_eq_append] at hchain
    refine .inr ⟨past, last, by simp, h.last_open last (by simp), isSome_of_chain hchain⟩

/-- A well-formed timeline without an open version is empty. -/
theorem WellFormed.eq_nil {tl : List (Version ν τ)} (h : WellFormed tl) (hc : current tl = none) :
    tl = [] := by
  rcases h.cases with rfl | ⟨past, last, rfl, hlast, hpast⟩
  · rfl
  · rw [current_of_split hpast hlast] at hc
    cases hc

/-- Exactly one version is open, and it holds the current value. -/
theorem WellFormed.filter_open {tl : List (Version ν τ)} (h : WellFormed tl) {x : ν}
    (hc : current tl = some x) :
    ∃ v, (tl.filter fun v => v.stop.isNone) = [v] ∧ v.value = x := by
  rcases h.cases with rfl | ⟨past, last, rfl, hlast, hpast⟩
  · cases hc
  · rw [current_of_split hpast hlast, Option.some.injEq] at hc
    refine ⟨last, ?_, hc⟩
    have hnone : past.filter (fun v => v.stop.isNone) = [] := by
      rw [List.filter_eq_nil_iff]
      intro v hv hopen
      have hs := hpast v hv
      rw [Option.isNone_iff_eq_none.mp hopen] at hs
      cases hs
    rw [List.filter_append, hnone]
    simp [hlast]

end Order

section Preorder

variable [Preorder τ]

/-- An earlier version ends before a later one starts. -/
def Before (a b : Version ν τ) : Prop :=
  ∃ e, a.stop = some e ∧ e ≤ b.start

/-- Disjoint intervals have no common point. -/
theorem Before.disjoint {a b : Version ν τ} (h : Before a b) (t : τ) :
    ¬ ((a.start ≤ t ∧ ∀ e ∈ a.stop, t < e) ∧ (b.start ≤ t ∧ ∀ e ∈ b.stop, t < e)) := by
  obtain ⟨e, he, hle⟩ := h
  rintro ⟨⟨-, ha⟩, hb, -⟩
  exact lt_irrefl t ((ha e he).trans_le (hle.trans hb))

/-- Starts only grow along a chain, so each version lies before all later ones. -/
theorem pairwise_before_of_chain {tl : List (Version ν τ)} (h : tl.IsChain Succeeds) :
    tl.Pairwise fun a b => Before a b ∧ a.start < b.start := by
  induction tl with
  | nil => exact List.Pairwise.nil
  | cons a rest ih =>
    obtain ⟨hhead, hrest⟩ := List.isChain_cons.mp h
    have hpair := ih hrest
    refine List.pairwise_cons.mpr ⟨fun c hc => ?_, hpair⟩
    cases rest with
    | nil => cases hc
    | cons b rest =>
      obtain ⟨hstop, hlt, -⟩ := hhead b rfl
      rcases List.mem_cons.mp hc with rfl | hc
      · exact ⟨⟨_, hstop, le_refl _⟩, hlt⟩
      · have hbc := (List.rel_of_pairwise_cons hpair hc).2
        exact ⟨⟨_, hstop, hbc.le⟩, hlt.trans hbc⟩

theorem WellFormed.pairwise_before {tl : List (Version ν τ)} (h : WellFormed tl) :
    tl.Pairwise Before :=
  (pairwise_before_of_chain h.chain).imp fun h => h.1

variable [DecidableEq ν]

/-- An observation later than every start keeps the shape. -/
theorem WellFormed.observe {t : τ} {x : ν} {tl : List (Version ν τ)} (h : WellFormed tl)
    (ht : ∀ v ∈ tl, v.start < t) : WellFormed (Timeline.observe t x tl) := by
  unfold Timeline.observe
  split
  · exact h
  · rename_i hne
    rcases h.cases with rfl | ⟨past, last, rfl, hlast, hpast⟩
    · exact ⟨List.isChain_singleton _, fun v hv => by cases hv; rfl⟩
    · rw [current_of_split hpast hlast, Option.some.injEq] at hne
      have hclose : close t (past ++ [last]) = past ++ [{ last with stop := some t }] := by
        rw [close_append, close_of_closed t hpast]
        simp [close, hlast]
      rw [hclose]
      obtain ⟨hp, -, hjoin⟩ := List.isChain_append.mp h.chain
      refine ⟨?_, fun v hv => ?_⟩
      · refine (hp.append (List.isChain_singleton _) ?_).append (List.isChain_singleton _) ?_
        · intro a ha b hb
          cases hb
          exact hjoin a ha last rfl
        · intro a ha b hb
          rw [List.getLast?_concat, Option.mem_some_iff] at ha
          cases ha
          cases hb
          exact ⟨rfl, ht last (by simp), hne⟩
      · rw [List.getLast?_concat, Option.mem_some_iff] at hv
        cases hv
        rfl

end Preorder

end Timeline

end Makolet.Lib
