import Makolet.Domain.CompactStamps
import Makolet.Domain.Quantities
import Makolet.Domain.Zones

/-!
# Timestamps in filenames

A filename stem with a compact timestamp in it: what stands in front of the timestamp does not end
in a digit, what stands behind it does not begin with one, and no other timestamp follows. The
timestamp is then the last match of the pattern, whatever digits the stem has in front of it.
-/

set_option autoImplicit false

namespace Makolet.Domain

open Makolet.Lib

section Scanning

variable (u : Unicode)

/-! ## One match -/

theorem matchClasses_replicate (p : Char → Bool) (k : Nat) (s : List Char) :
    matchClasses (List.replicate k p) s =
      if k ≤ (s.takeWhile p).length then some (s.take k, s.drop k) else none := by
  induction k generalizing s with
  | zero => simp [matchClasses]
  | succ k ih =>
    cases s with
    | nil => simp [matchClasses, List.replicate_succ]
    | cons c s =>
      rw [List.replicate_succ, matchClasses]
      by_cases hp : p c = true
      · rw [if_pos hp, ih, List.takeWhile_cons_of_pos hp, List.length_cons]
        by_cases hk : k ≤ (s.takeWhile p).length
        · rw [if_pos hk, if_pos (Nat.succ_le_succ hk)]
          rfl
        · rw [if_neg hk, if_neg fun h => hk (Nat.le_of_succ_le_succ h)]
          rfl
      · rw [if_neg hp, List.takeWhile_cons_of_neg hp, List.length_nil,
          if_neg (Nat.not_succ_le_zero k)]

theorem takeWhile_decimal {t s : List Char} (ht : ∀ c ∈ t, Directive.decimalClass u c = true)
    (hs : noDecimal u s.head? = true) : (t ++ s).takeWhile (Directive.decimalClass u) = t := by
  rw [List.takeWhile_append_of_pos ht]
  cases s with
  | nil => simp
  | cons c s =>
    rw [List.takeWhile_cons_of_neg, List.append_nil]
    simpa [noDecimal] using hs

/-- The shape of a match: a date, and nothing or a time that may have a separator. -/
structure StampShape (date group rest : List Char) : Prop where
  date_length : date.length = 8
  date_decimal : ∀ c ∈ date, Directive.decimalClass u c = true
  group : group = [] ∨ ∃ separator time, group = separator ++ time ∧
    (separator = [] ∨ ∃ c, separator = [c]) ∧ (time.length = 4 ∨ time.length = 6) ∧
    ∀ c ∈ time, Directive.decimalClass u c = true
  rest : noDecimal u rest.head? = true

theorem decimal_of_forall₂_replicate {k : Nat} {t : List Char}
    (h : List.Forall₂ (fun p c => p c = true) (List.replicate k (Directive.decimalClass u)) t) :
    t.length = k ∧ ∀ c ∈ t, Directive.decimalClass u c = true := by
  induction k generalizing t with
  | zero =>
    cases h
    exact ⟨rfl, fun c hc => nomatch hc⟩
  | succ k ih =>
    rw [List.replicate_succ] at h
    cases h with
    | cons hfirst hrest =>
      obtain ⟨hlength, hdecimal⟩ := ih hrest
      refine ⟨congrArg Nat.succ hlength, fun c hc => ?_⟩
      rcases List.mem_cons.mp hc with rfl | hc
      · exact hfirst
      · exact hdecimal c hc

/-- Every match has that shape. -/
theorem shape_of_stampAt {previous : Option Char} {s date group : List Char}
    (h : stampAt u previous s = some (date, group)) :
    ∃ rest, s = date ++ (group ++ rest) ∧ StampShape u date group rest := by
  rw [stampAt] at h
  split at h
  · obtain ⟨m, hfind, hm⟩ := Option.bind_eq_some_iff.mp h
    have hrest := List.find?_some hfind
    have hmem := List.mem_of_find?_eq_some hfind
    obtain ⟨⟨date', tail⟩, hdate, hmem⟩ := List.mem_flatMap.mp hmem
    obtain ⟨⟨texts, rest⟩, htexts, rfl⟩ := List.mem_map.mp hmem
    obtain ⟨⟨group', rest'⟩, hgroup, htexts⟩ := List.mem_flatMap.mp htexts
    obtain ⟨⟨texts', rest''⟩, hlast, heq⟩ := List.mem_map.mp htexts
    cases List.mem_singleton.mp hlast
    cases heq
    cases hm
    obtain ⟨classes, hclasses, hmatch⟩ := List.mem_filterMap.mp hdate
    obtain rfl := List.mem_singleton.mp hclasses
    obtain ⟨rfl, hdecimals⟩ := matchClasses_eq_some hmatch
    refine ⟨_, congrArg _ (Piece.append_of_mem_found hgroup), ?_, ?_, ?_, hrest⟩
    · rw [← hdecimals.length_eq]
      rfl
    · -- Both fixed digits of the century are decimals.
      have h2 := decimalClass_digit u (n := 2) (by decide)
      have h0 := decimalClass_digit u (n := 0) (by decide)
      rcases hdecimals with _ | ⟨hc2, hdecimals⟩
      rcases hdecimals with _ | ⟨hc0, hdecimals⟩
      have hlater := (decimal_of_forall₂_replicate u hdecimals).2
      rw [decide_eq_true_eq] at hc2 hc0
      intro c hc
      rcases List.mem_cons.mp hc with rfl | hc
      · rw [hc2]
        exact h2
      · rcases List.mem_cons.mp hc with rfl | hc
        · rw [hc0]
          exact h0
        · exact hlater c hc
    · obtain ⟨classes, hclasses, hmatch⟩ := List.mem_filterMap.mp hgroup
      obtain ⟨-, htaken⟩ := matchClasses_eq_some hmatch
      simp only [List.mem_cons, List.not_mem_nil, or_false] at hclasses
      rcases hclasses with rfl | rfl | rfl | rfl | rfl
      · rcases htaken with _ | ⟨-, htaken⟩
        obtain ⟨hlength, hall⟩ := decimal_of_forall₂_replicate u htaken
        exact .inr ⟨_, _, (List.singleton_append).symm, .inr ⟨_, rfl⟩, .inr hlength, hall⟩
      · rcases htaken with _ | ⟨-, htaken⟩
        obtain ⟨hlength, hall⟩ := decimal_of_forall₂_replicate u htaken
        exact .inr ⟨_, _, (List.singleton_append).symm, .inr ⟨_, rfl⟩, .inl hlength, hall⟩
      · obtain ⟨hlength, hall⟩ := decimal_of_forall₂_replicate u htaken
        exact .inr ⟨[], _, rfl, .inl rfl, .inr hlength, hall⟩
      · obtain ⟨hlength, hall⟩ := decimal_of_forall₂_replicate u htaken
        exact .inr ⟨[], _, rfl, .inl rfl, .inl hlength, hall⟩
      · cases htaken
        exact .inl rfl
  · cases h

/-- A match that begins in front of eight digits does not reach into them, unless the digits go on
from in front of them. -/
theorem length_le_of_shape {before digits tail date group rest : List Char}
    (h : before ++ (digits ++ tail) = date ++ (group ++ rest))
    (hshape : StampShape u date group rest) {c : Char} (hlast : before.getLast? = some c)
    (hc : Directive.decimalClass u c = false) (hlength : digits.length = 8)
    (hdigits : ∀ c ∈ digits, Directive.decimalClass u c = true) :
    date.length + group.length ≤ before.length := by
  by_contra hlong
  have hnotDecimal : ∀ {s : List Char} {i : Nat}, (∀ c ∈ s, Directive.decimalClass u c = true) →
      s[i]? ≠ some c := by
    intro s i hs heq
    rw [hs c (List.mem_of_getElem? heq)] at hc
    cases hc
  have hpos : 0 < before.length := by
    cases before with
    | nil => cases hlast
    | cons c before => exact Nat.succ_pos _
  have hat : (date ++ (group ++ rest))[before.length - 1]? = some c := by
    rw [← h, List.getElem?_append_left (by omega), ← List.getLast?_eq_getElem?, hlast]
  rw [List.getElem?_append, hshape.date_length] at hat
  split at hat
  · exact hnotDecimal hshape.date_decimal hat
  · -- The last character in front stands in the group, and only its separator is no digit.
    rename_i hdate
    rw [hshape.date_length] at hlong
    rw [List.getElem?_append_left (by omega)] at hat
    rcases hshape.group with rfl | ⟨separator, time, rfl, hseparator, htime, hdecimal⟩
    · cases hat
    · rw [List.getElem?_append] at hat
      split at hat
      · rename_i hinside
        rcases hseparator with rfl | ⟨c', rfl⟩
        · exact absurd hinside (Nat.not_lt_zero _)
        · rw [List.length_singleton] at hinside
          -- Behind the time the digits go on.
          have hnext : (before ++ (digits ++ tail))[9 + time.length]? = rest.head? := by
            rw [h, List.getElem?_append_right (by rw [hshape.date_length]; omega),
              List.getElem?_append_right (by rw [hshape.date_length]; simp; omega),
              hshape.date_length, List.head?_eq_getElem?]
            congr 1
            simp
            omega
          have hbefore : before.length = 9 := by omega
          rw [List.getElem?_append_right (by omega), hbefore, Nat.add_sub_cancel_left,
            List.getElem?_append_left (by omega)] at hnext
          have hrest := hshape.rest
          rw [← hnext, List.getElem?_eq_getElem (by omega), noDecimal, Option.any_some,
            hdigits _ (List.getElem_mem _)] at hrest
          cases hrest
      · exact hnotDecimal hdecimal hat

/-! ## All matches -/

/-- Characters that the last match has taken are skipped. -/
theorem stamps_skip (previous : Option Char) {s : List Char} (hs : s ≠ []) (behind : List Char) :
    stamps u s.length previous (s ++ behind) = stamps u 0 s.getLast? behind := by
  induction s generalizing previous with
  | nil => exact absurd rfl hs
  | cons c s ih =>
    rw [List.length_cons, List.cons_append, stamps]
    cases s with
    | nil => rfl
    | cons c' s =>
      rw [ih (some c) (List.cons_ne_nil _ _)]
      rfl

/-- Scanning what stands in front of a timestamp gets to the timestamp. -/
theorem stamps_before {before digits tail : List Char} {skip : Nat} {previous : Option Char}
    (hskip : skip ≤ before.length) (hbefore : noDecimal u before.getLast? = true)
    (hlength : digits.length = 8) (hdigits : ∀ c ∈ digits, Directive.decimalClass u c = true) :
    ∃ found, stamps u skip previous (before ++ (digits ++ tail)) =
      found ++ stamps u 0 (before.getLast?.or previous) (digits ++ tail) := by
  induction before generalizing skip previous with
  | nil =>
    obtain rfl := Nat.le_zero.mp hskip
    exact ⟨[], rfl⟩
  | cons c before ih =>
    have hlast : noDecimal u before.getLast? = true := by
      cases before with
      | nil => rfl
      | cons c' before => rwa [List.getLast?_cons_cons] at hbefore
    have hor : ((c :: before).getLast?).or previous = before.getLast?.or (some c) := by
      cases before with
      | nil => rfl
      | cons c' before =>
        rw [List.getLast?_cons_cons]
        cases h : (c' :: before).getLast? with
        | none => simp at h
        | some _ => rfl
    rw [hor, List.cons_append]
    cases skip with
    | succ skip =>
      rw [stamps]
      exact ih (Nat.le_of_succ_le_succ hskip) hlast
    | zero =>
      rw [stamps]
      split
      · rename_i date group hstamp
        obtain ⟨rest, hsplit, hshape⟩ := shape_of_stampAt u hstamp
        obtain ⟨c', hc'⟩ : ∃ c', (c :: before).getLast? = some c' := ⟨_, List.getLast?_cons⟩
        have hnot : Directive.decimalClass u c' = false := by
          rw [hc'] at hbefore
          simpa [noDecimal] using hbefore
        have hsplit' : (c :: before) ++ (digits ++ tail) = date ++ (group ++ rest) := hsplit
        have hle := length_le_of_shape u hsplit' hshape hc' hnot hlength hdigits
        rw [List.length_cons] at hle
        have hskip : date.length + group.length - 1 ≤ before.length := by omega
        obtain ⟨found, hfound⟩ := ih hskip hlast
        exact ⟨(date, group) :: found, congrArg _ hfound⟩
      · exact ih (Nat.zero_le _) hlast

/-! ## The match at a timestamp -/

theorem decimal_of_digits {s : List Char} (h : Digits s) :
    ∀ c ∈ s, Directive.decimalClass u c = true := by
  intro c hc
  obtain ⟨n, hn, rfl⟩ := h c hc
  exact decimalClass_digit u hn

theorem not_separator_of_digits {s : List Char} (h : Digits s) :
    ∀ c ∈ s, timeSeparator c = false := by
  intro c hc
  obtain ⟨n, hn, rfl⟩ := h c hc
  interval_cases n <;> rfl

/-- At the date of a compact timestamp the pattern matches the date, and then its optional group. -/
theorem stampAt_date {w : WallTime} (hw : w.Compact) {previous : Option Char}
    (hprevious : noDecimal u previous = true) (s : List Char) :
    stampAt u previous (w.dateText ++ s) =
      (((timePiece u).found s).find? fun m => noDecimal u m.2.head?).map fun m =>
        (w.dateText, m.1) := by
  have hday := WallTime.day_le hw.valid
  have hmonth := hw.valid.2.1
  have hcentury := hw.century
  have hsix : Digits (two (w.year % 100) ++ (two w.month ++ two w.day)) :=
    (digits_two (by omega)).append ((digits_two (by omega)).append (digits_two (by omega)))
  have htext : w.dateText = '2' :: '0' :: (two (w.year % 100) ++ (two w.month ++ two w.day)) := by
    have hyear : w.year / 100 = 20 := by omega
    rw [WallTime.dateText, four, hyear]
    rfl
  have hfound : (datePiece u).found (w.dateText ++ s) = [(w.dateText, s)] := by
    have hlength : 6 ≤ ((two (w.year % 100) ++ (two w.month ++ two w.day) ++ s).takeWhile
        (Directive.decimalClass u)).length := by
      rw [List.takeWhile_append_of_pos (decimal_of_digits u hsix), List.length_append]
      exact Nat.le_add_right 6 _
    rw [htext, datePiece, Piece.found]
    simp only [List.cons_append, List.nil_append, List.filterMap_cons, List.filterMap_nil,
      matchClasses, decide_true, if_true, matchClasses_replicate, if_pos hlength, Option.map_some]
    rfl
  have hmatches : sequenceMatches [datePiece u, timePiece u] (w.dateText ++ s) =
      ((timePiece u).found s).map fun m => ([w.dateText, m.1], m.2) := by
    rw [sequenceMatches, hfound, List.flatMap_singleton, sequenceMatches]
    simp only [sequenceMatches, List.map_cons, List.map_nil, List.flatMap_def]
    induction (timePiece u).found s with
    | nil => rfl
    | cons m later ih => simpa using ih
  rw [stampAt, if_pos hprevious, hmatches, List.find?_map, Function.comp_def]
  cases ((timePiece u).found s).find? fun m => noDecimal u m.2.head? <;> rfl

/-- The ways in which a group can match. -/
theorem found_timePiece (s : List Char) : (timePiece u).found s =
    (matchClasses (timeSeparator :: List.replicate 6 (Directive.decimalClass u)) s).toList ++
    ((matchClasses (timeSeparator :: List.replicate 4 (Directive.decimalClass u)) s).toList ++
    ((matchClasses (List.replicate 6 (Directive.decimalClass u)) s).toList ++
    ((matchClasses (List.replicate 4 (Directive.decimalClass u)) s).toList ++ [([], s)]))) := by
  rw [timePiece, Piece.found]
  simp only [List.filterMap_cons, List.filterMap_nil]
  generalize matchClasses (timeSeparator :: List.replicate 6 (Directive.decimalClass u)) s = m₁
  generalize matchClasses (timeSeparator :: List.replicate 4 (Directive.decimalClass u)) s = m₂
  generalize matchClasses (List.replicate 6 (Directive.decimalClass u)) s = m₃
  generalize matchClasses (List.replicate 4 (Directive.decimalClass u)) s = m₄
  cases m₁ <;> cases m₂ <;> cases m₃ <;> cases m₄ <;> rfl

/-- The time of a compact timestamp is the first group that no digit follows. -/
theorem found_time {separator time after : List Char} (htime : Digits time)
    (hlength : time.length = 4 ∨ time.length = 6)
    (hseparator : separator = [] ∨ ∃ c, separator = [c] ∧ timeSeparator c = true)
    (hafter : noDecimal u after.head? = true) :
    (((timePiece u).found (separator ++ (time ++ after))).find? fun m =>
      noDecimal u m.2.head?) = some (separator ++ time, after) := by
  have htake := takeWhile_decimal u (decimal_of_digits u htime) hafter
  have hmatch : ∀ k, matchClasses (List.replicate k (Directive.decimalClass u)) (time ++ after) =
      if k ≤ time.length then some ((time ++ after).take k, (time ++ after).drop k) else none := by
    intro k
    rw [matchClasses_replicate, htake]
  have hwhole : matchClasses (List.replicate time.length (Directive.decimalClass u))
      (time ++ after) = some (time, after) := by
    rw [hmatch, if_pos (Nat.le_refl _), List.take_left, List.drop_left]
  have hnone : ∀ k, time.length < k →
      matchClasses (List.replicate k (Directive.decimalClass u)) (time ++ after) = none := by
    intro k hk
    rw [hmatch, if_neg (Nat.not_le.mpr hk)]
  rcases hseparator with rfl | ⟨c, rfl, hc⟩
  · have hno : ∀ k, matchClasses (timeSeparator :: List.replicate k (Directive.decimalClass u))
        (time ++ after) = none := by
      intro k
      cases time with
      | nil => simp at hlength
      | cons c time =>
        rw [List.cons_append, matchClasses,
          not_separator_of_digits htime c List.mem_cons_self, if_neg Bool.false_ne_true]
    rcases hlength with hfour | hsix
    · rw [hfour] at hwhole
      rw [List.nil_append, found_timePiece, hno, hno, hnone 6 (by omega), hwhole]
      simp [hafter]
    · rw [hsix] at hwhole
      rw [List.nil_append, found_timePiece, hno, hno, hwhole]
      simp [hafter]
  · have hyes : ∀ classes, matchClasses (timeSeparator :: classes) (c :: (time ++ after)) =
        (matchClasses classes (time ++ after)).map fun m => (c :: m.1, m.2) := by
      intro classes
      rw [matchClasses, hc, if_pos rfl]
    rcases hlength with hfour | hsix
    · rw [hfour] at hwhole
      rw [List.singleton_append, found_timePiece, hyes, hyes, hnone 6 (by omega), hwhole]
      simp [hafter]
    · rw [hsix] at hwhole
      rw [List.singleton_append, found_timePiece, hyes, hwhole]
      simp [hafter]

/-! ## Stems with a timestamp -/

/-- A stem with the compact timestamp of a wall time in it: between the date and the time there may
be a separator, and no digit, no time and no other timestamp follows. -/
inductive Embedded (precision : Precision) (w : WallTime) : List Char → Prop
  | mk (before separator after : List Char) (hbefore : noDecimal u before.getLast? = true)
      (hafter : noDecimal u after.head? = true)
      (hseparator : separator = [] ∨
        precision ≠ .day ∧ ∃ c, separator = [c] ∧ timeSeparator c = true)
      (htime : precision = .day → ∀ m ∈ (timePiece u).found after,
        noDecimal u m.2.head? = true → m.1 = [])
      (hstamps : stamps u 0 (w.dateText ++ (separator ++ w.timeText precision)).getLast? after =
        []) :
      Embedded precision w
        (before ++ (w.dateText ++ (separator ++ (w.timeText precision ++ after))))

theorem timeOfGroup_digits {time : List Char} (h : Digits time) : timeOfGroup time = time := by
  cases time with
  | nil => rfl
  | cons c time =>
    rw [timeOfGroup, not_separator_of_digits h c List.mem_cons_self, if_neg Bool.false_ne_true]

/-- The group that matches behind the date of a compact timestamp. -/
theorem find?_group {w : WallTime} (hw : w.Compact) {precision : Precision}
    {separator after : List Char} (hafter : noDecimal u after.head? = true)
    (hseparator : separator = [] ∨
      precision ≠ .day ∧ ∃ c, separator = [c] ∧ timeSeparator c = true)
    (htime : precision = .day → ∀ m ∈ (timePiece u).found after,
      noDecimal u m.2.head? = true → m.1 = []) :
    (((timePiece u).found (separator ++ (w.timeText precision ++ after))).find? fun m =>
      noDecimal u m.2.head?) = some (separator ++ w.timeText precision, after) := by
  cases precision with
  | day =>
    obtain rfl := hseparator.resolve_right fun h => h.1 rfl
    cases hfind : ((timePiece u).found after).find? fun m => noDecimal u m.2.head? with
    | none =>
      have hlast : ([], after) ∈ (timePiece u).found after := by
        rw [found_timePiece]
        simp
      exact absurd hafter (List.find?_eq_none.mp hfind _ hlast)
    | some m =>
      have hmem := List.mem_of_find?_eq_some hfind
      have hnil := htime rfl m hmem
        (List.find?_some (p := fun m : List Char × List Char => noDecimal u m.2.head?) hfind)
      have happend := Piece.append_of_mem_found hmem
      rw [hnil, List.nil_append] at happend
      refine hfind.trans (congrArg some ?_)
      exact Prod.ext hnil happend.symm
  | second =>
    refine found_time u (hw.digits_timeText .second) (.inr rfl) ?_ hafter
    exact hseparator.imp_right And.right
  | minute =>
    refine found_time u (hw.digits_timeText .minute) (.inl rfl) ?_ hafter
    exact hseparator.imp_right And.right

/-- The last match in a stem with a compact timestamp is the timestamp. -/
theorem getLast?_stamps {w : WallTime} (hw : w.Compact) {precision : Precision} {stem : List Char}
    (h : Embedded u precision w stem) :
    ∃ group, (stamps u 0 none stem).getLast? = some (w.dateText, group) ∧
      timeOfGroup group = w.timeText precision := by
  obtain ⟨before, separator, after, hbefore, hafter, hseparator, htime, hstamps⟩ := h
  have hdate : w.dateText.length = 8 := rfl
  obtain ⟨found, hfound⟩ : ∃ found, stamps u 0 none
      (before ++ (w.dateText ++ (separator ++ (w.timeText precision ++ after)))) =
        found ++ stamps u 0 (before.getLast?.or none)
          (w.dateText ++ (separator ++ (w.timeText precision ++ after))) :=
    stamps_before u (Nat.zero_le _) hbefore hdate (decimal_of_digits u hw.digits_dateText)
  have hprevious : noDecimal u (before.getLast?.or none) = true := by
    rwa [Option.or_none]
  have hmatch := stampAt_date u hw hprevious (separator ++ (w.timeText precision ++ after))
  rw [find?_group u hw hafter hseparator htime, Option.map_some] at hmatch
  refine ⟨separator ++ w.timeText precision, ?_, ?_⟩
  · obtain ⟨c, text, htext, hne⟩ : ∃ c text, w.dateText = c :: text ∧ text ≠ [] :=
      ⟨_, _, rfl, List.cons_ne_nil _ _⟩
    have hrest : text ++ (separator ++ w.timeText precision) ≠ [] := List.append_ne_nil_of_left_ne_nil
      hne _
    have hskip := stamps_skip u (some c) hrest after
    have hlast : (text ++ (separator ++ w.timeText precision)).getLast? =
        (w.dateText ++ (separator ++ w.timeText precision)).getLast? := by
      rw [htext, List.cons_append, List.getLast?_cons_of_ne_nil hrest]
    rw [hlast, hstamps, List.append_assoc, List.append_assoc] at hskip
    have hlength : w.dateText.length + (separator ++ w.timeText precision).length - 1 =
        (text ++ (separator ++ w.timeText precision)).length := by
      simp only [htext, List.length_cons, List.length_append]
      omega
    have hhere : stamps u 0 (before.getLast?.or none)
        (w.dateText ++ (separator ++ (w.timeText precision ++ after))) =
          [(w.dateText, separator ++ w.timeText precision)] := by
      have hcons : w.dateText ++ (separator ++ (w.timeText precision ++ after)) =
          c :: (text ++ (separator ++ (w.timeText precision ++ after))) := by
        rw [htext, List.cons_append]
      rw [hcons] at hmatch ⊢
      rw [stamps, hmatch]
      dsimp only
      rw [hlength, hskip]
    rw [hfound, hhere, List.getLast?_append, List.getLast?_singleton, Option.some_or]
  · rcases hseparator with rfl | ⟨-, c, rfl, hc⟩
    · exact timeOfGroup_digits (hw.digits_timeText precision)
    · rw [List.singleton_append, timeOfGroup, hc, if_pos rfl]

end Scanning

/-! ## Decoding -/

section Decoding

variable (u : Unicode) (zone : Zone) (r : PathRules)

/-- The result is the one instant of a wall time at a precision. -/
def Decodes (w : WallTime) (precision : Precision)
    (result : Except Failure (Option zone.Instant)) : Prop :=
  ∃ t, zone.candidates (w.truncate precision) = [t] ∧ result = .ok (some t)

/-- An instant that a wall time maps to has that wall time. -/
theorem wall_of_candidates {w : WallTime} {t : zone.Instant} (h : zone.candidates w = [t]) :
    zone.wall t = w := by
  have hmem : t ∈ zone.candidates w := h ▸ List.mem_singleton_self t
  exact of_decide_eq_true (List.mem_filter.mp (List.mem_dedup.mp hmem)).2

theorem decodes_parse {w : WallTime} (hw : w.Compact) (precision : Precision) :
    Decodes zone w precision
        (zone.parseSourceDatetime u (some (w.dateText ++ w.timeText precision))) ↔
      (∃ t, zone.candidates (w.truncate precision) = [t]) ∧ w.ReadsBack precision := by
  rw [Decodes, parseSourceDatetime_compact u zone hw precision]
  constructor
  · rintro ⟨t, ht, hresult⟩
    refine ⟨⟨t, ht⟩, ?_⟩
    obtain ⟨t', ht', heq⟩ := map_eq_ok.mp hresult
    cases heq
    -- One instant has one wall time.
    have hread := wall_of_candidates zone (Zone.unambiguousIsraelLocalTime_eq_ok.mp ht')
    rw [wall_of_candidates zone ht] at hread
    exact (WallTime.misread_eq_truncate_iff precision).mp hread.symm
  · rintro ⟨⟨t, ht⟩, hreads⟩
    refine ⟨t, ht, ?_⟩
    rw [(WallTime.misread_eq_truncate_iff precision).mpr hreads,
      Zone.unambiguousIsraelLocalTime_eq_ok.mpr ht]
    rfl

/-- A stem with a compact timestamp has the instant that its digits are parsed to. -/
theorem decodes_extract {w : WallTime} (hw : w.Compact) {precision : Precision}
    {filename stem : List Char} (hstem : r.stripKnownSuffixes filename = .ok stem)
    (h : Embedded u precision w stem) :
    Decodes zone w precision (extractSourceTimestamp u r zone filename) ↔
      Decodes zone w precision
        (zone.parseSourceDatetime u (some (w.dateText ++ w.timeText precision))) := by
  obtain ⟨group, hlast, hgroup⟩ := getLast?_stamps u hw h
  refine exists_congr fun t => and_congr_right fun _ => ?_
  rw [extractSourceTimestamp, hstem, ← hgroup]
  simp only [bind, Except.bind]
  generalize (stamps u 0 none stem).getLast? = found at hlast ⊢
  subst hlast
  dsimp only
  cases zone.parseSourceDatetime u (some (w.dateText ++ timeOfGroup group)) with
  | ok instant => exact Iff.rfl
  | error failure =>
    dsimp only
    split
    · exact iff_of_false (fun h => by cases h) fun h => by cases h
    · exact iff_of_false (fun h => by cases h) fun h => by cases h

/-- Over the table of a zone a compact timestamp decodes where exactly one instant has its wall
time. -/
theorem decodes_parse_table {z : OffsetTable} {w : WallTime} (hw : w.Compact)
    (precision : Precision) (hsep : z.Separated) (hz : WithinDay z)
    (hvalid : (w.truncate precision).Valid) (haway : (w.truncate precision).AwayFromEnds) :
    Decodes (tableZone z) w precision
        ((tableZone z).parseSourceDatetime u (some (w.dateText ++ w.timeText precision))) ↔
      (∃ t, HasWallTime z (w.truncate precision) t ∧
        ∀ t', HasWallTime z (w.truncate precision) t' → t' = t) ∧ w.ReadsBack precision := by
  rw [decodes_parse u (tableZone z) hw precision]
  exact and_congr_left fun _ =>
    exists_congr fun t => candidates_eq_singleton hsep hz hvalid haway

/-- When a compact timestamp yields the instant of its wall time, alone and in a filename. -/
theorem compact_timestamp_exact {w : WallTime} (hw : w.Compact) (precision : Precision) :
    (Decodes zone w precision
        (zone.parseSourceDatetime u (some (w.dateText ++ w.timeText precision))) ↔
      (∃ t, zone.candidates (w.truncate precision) = [t]) ∧ w.ReadsBack precision) ∧
    ∀ filename stem, r.stripKnownSuffixes filename = .ok stem → Embedded u precision w stem →
      (Decodes zone w precision (extractSourceTimestamp u r zone filename) ↔
        (∃ t, zone.candidates (w.truncate precision) = [t]) ∧ w.ReadsBack precision) := by
  refine ⟨decodes_parse u zone hw precision, fun filename stem hstem hembedded => ?_⟩
  exact (decodes_extract u zone r hw hstem hembedded).trans (decodes_parse u zone hw precision)

end Decoding

/-! ## A timestamp of November -/

/-- The character tables of ASCII. -/
def asciiUnicode : Unicode := plainTables.toUnicode

/-- Israel in winter, two hours ahead, from two o'clock on. -/
def winterZone : Zone where
  Instant := WallTime
  utc := fun w _ => { w with hour := w.hour - 2 }
  wall := fun t => { t with hour := t.hour + 2 }
  Offset := Empty
  offset := fun _ => none
  atOffset := fun w _ => w

/-- Filenames without percent signs and directories. -/
def plainRules : PathRules where
  unquote := id
  urlPath := id
  posixName := id
  windowsName := id
  isUnsafe := fun _ => false
  encodedLength := List.length
  casefold := List.map Char.toLower

def fullHour : WallTime := ⟨2026, 11, 18, 15, 0, 0, 0⟩

def fullHourStem : List Char :=
  ['P', 'r', 'i', 'c', 'e', '7', '-', '2', '0', '2', '6', '1', '1', '1', '8', '1', '5', '0', '0']

theorem stripKnownSuffixes_fullHour :
    plainRules.stripKnownSuffixes (fullHourStem ++ ['.', 'g', 'z']) = .ok fullHourStem :=
  rfl

theorem embedded_fullHour : Embedded asciiUnicode .minute fullHour fullHourStem :=
  .mk ['P', 'r', 'i', 'c', 'e', '7', '-'] [] [] rfl rfl (.inl rfl) (fun h => nomatch h) rfl

theorem compact_fullHour : fullHour.Compact := ⟨by decide, by decide⟩

theorem full_hour_decodes :
    Decodes winterZone fullHour .minute (extractSourceTimestamp asciiUnicode plainRules winterZone
      (fullHourStem ++ ['.', 'g', 'z'])) := by
  have hexact := compact_timestamp_exact asciiUnicode winterZone plainRules compact_fullHour .minute
  refine (hexact.2 _ _ stripKnownSuffixes_fullHour embedded_fullHour).mpr ⟨?_, rfl⟩
  exact ⟨⟨2026, 11, 18, 13, 0, 0, 0⟩, by decide⟩

def halfHour : WallTime := ⟨2026, 11, 18, 15, 30, 0, 0⟩

/-- Half past three on a day in November: the twelve digits are read as three past three. -/
theorem half_hour_misread :
    ¬ ∀ w : WallTime, w.Compact → (∃ t, winterZone.candidates w = [t]) →
      ∀ precision, Decodes winterZone w precision
        (winterZone.parseSourceDatetime asciiUnicode
          (some (w.dateText ++ w.timeText precision))) := by
  intro h
  have hcompact : halfHour.Compact := ⟨by decide, by decide⟩
  have hinstant : winterZone.candidates halfHour = [⟨2026, 11, 18, 13, 30, 0, 0⟩] := by decide
  have hdecodes := h halfHour hcompact ⟨_, hinstant⟩ .minute
  have hreads := ((decodes_parse asciiUnicode winterZone hcompact .minute).mp hdecodes).2
  cases hreads

end Makolet.Domain
