import Makolet.Parsing.Records

/-!
# Where the fields of a record come from

`value` walks the aliases of a field once, and asks the record and then the header for each of them.
A header that has an early alias is therefore heard before a record that has a later one. The
theorem of this module says exactly when the record's own fields win, and when a date and its time
come from the same level.
-/

set_option autoImplicit false

namespace Makolet.Parsing

open Makolet.Domain Makolet.Lib Makolet.Normalized

/-- The two places a field can come from. -/
inductive Level
  | record
  | header
  deriving DecidableEq, Repr

/-- The level at which `value` finds the field. -/
def level (values context : Fields) : List String → Option Level
  | [] => none
  | name :: names =>
      match values name with
      | some _ => some .record
      | none =>
          match context name with
          | some _ => some .header
          | none => level values context names

/-- The date and the time that `dateTime` combines. -/
def combined (values context : Fields) (dateNames timeNames : List String) :
    Option (String × String) :=
  match value values context dateNames, value values context timeNames with
  | some date, some time => if hasTime date then none else some (date, time)
  | _, _ => none

/-- The field is some alias's value in the record wherever the record has any of them, and the
header's wherever it has none. -/
def TakesRecord (values context : Fields) (names : List String) : Prop :=
  ((∃ a ∈ names, values a ≠ none) →
    ∃ a ∈ names, values a ≠ none ∧ value values context names = values a) ∧
  ((∀ a ∈ names, values a = none) → value values context names = value context noFields names)

/-- A date and a time are combined from one level only. -/
def CombinesOneLevel (values context : Fields) (dateNames timeNames : List String) : Prop :=
  combined values context dateNames timeNames ≠ none →
    level values context dateNames = level values context timeNames

/-- The alias `a` is the first of the names that the record or the header has. -/
def FirstFound (values context : Fields) (names : List String) (a : String) : Prop :=
  ∃ before behind, names = before ++ a :: behind ∧
    (∀ b ∈ before, values b = none ∧ context b = none) ∧ (values a ≠ none ∨ context a ≠ none)

section Lookup

variable {values context : Fields} {names dateNames timeNames : List String} {a : String}

theorem FirstFound.unique {b : String} (ha : FirstFound values context names a)
    (hb : FirstFound values context names b) : a = b := by
  obtain ⟨before, behind, rfl, hbefore, ha⟩ := ha
  obtain ⟨before', behind', heq, hbefore', hb⟩ := hb
  induction before generalizing before' with
  | nil =>
    cases before' with
    | nil => exact (List.cons_eq_cons.mp heq).1
    | cons x before' =>
      obtain ⟨rfl, -⟩ := List.cons_eq_cons.mp heq
      obtain ⟨h₁, h₂⟩ := hbefore' a List.mem_cons_self
      exact absurd ha (by simp [h₁, h₂])
  | cons y before ih =>
    cases before' with
    | nil =>
      obtain ⟨rfl, -⟩ := List.cons_eq_cons.mp heq
      obtain ⟨h₁, h₂⟩ := hbefore y List.mem_cons_self
      exact absurd hb (by simp [h₁, h₂])
    | cons x before' =>
      exact ih (fun b hb => hbefore b (List.mem_cons_of_mem _ hb)) before'
        (List.cons_eq_cons.mp heq).2 fun b hb => hbefore' b (List.mem_cons_of_mem _ hb)

/-- Either no alias is found, or the first one found decides the value and the level. -/
theorem lookup_cases (values context : Fields) (names : List String) :
    (∀ a ∈ names, values a = none ∧ context a = none) ∧ value values context names = none ∧
        level values context names = none ∨
      ∃ a, FirstFound values context names a ∧
        (values a ≠ none ∧ value values context names = values a ∧
            level values context names = some .record ∨
          values a = none ∧ context a ≠ none ∧ value values context names = context a ∧
            level values context names = some .header) := by
  induction names with
  | nil => exact .inl ⟨by simp, rfl, rfl⟩
  | cons name names ih =>
    rcases hvalues : values name with _ | found
    · rcases hcontext : context name with _ | found
      · have hvalue : value values context (name :: names) = value values context names := by
          simp [value, hvalues, hcontext]
        have hlevel : level values context (name :: names) = level values context names := by
          simp [level, hvalues, hcontext]
        rw [hvalue, hlevel]
        rcases ih with ⟨hnone, hrest⟩ | ⟨a, ⟨before, behind, rfl, hbefore, hfound⟩, hrest⟩
        · exact .inl ⟨List.forall_mem_cons.mpr ⟨⟨hvalues, hcontext⟩, hnone⟩, hrest⟩
        · exact .inr ⟨a, ⟨name :: before, behind, rfl,
            List.forall_mem_cons.mpr ⟨⟨hvalues, hcontext⟩, hbefore⟩, hfound⟩, hrest⟩
      · refine .inr ⟨name, ⟨[], names, rfl, by simp, .inr (by simp [hcontext])⟩, .inr ?_⟩
        simp [value, level, hvalues, hcontext]
    · refine .inr ⟨name, ⟨[], names, rfl, by simp, .inl (by simp [hvalues])⟩, .inl ?_⟩
      simp [value, level, hvalues]

theorem FirstFound.mem (h : FirstFound values context names a) : a ∈ names := by
  obtain ⟨before, behind, rfl, -⟩ := h
  simp

/-- Where the record has no alias of a field, its value is the header's. -/
theorem value_of_header (h : ∀ a ∈ names, values a = none) :
    value values context names = value context noFields names := by
  induction names with
  | nil => rfl
  | cons name names ih =>
    obtain ⟨hname, hnames⟩ := List.forall_mem_cons.mp h
    rcases hcontext : context name with _ | found
    · simp [value, hname, hcontext, noFields, ih hnames]
    · simp [value, hname, hcontext]

/-- The condition under which the record's own field wins: the first alias found is the record's, or
the record has no alias, or the header gives the same text as some alias of the record. -/
def HeaderYields (values context : Fields) (names : List String) : Prop :=
  ∀ a, FirstFound values context names a → values a = none →
    (∀ b ∈ names, values b = none) ∨ ∃ b ∈ names, values b ≠ none ∧ context a = values b

/-- The condition under which a date and its time are of one level: where a bare date and a time are
found, their first aliases are both the record's or both the header's. -/
def LevelsAgree (values context : Fields) (dateNames timeNames : List String) : Prop :=
  ∀ a b, FirstFound values context dateNames a → FirstFound values context timeNames b →
    (∀ date, values a = some date ∨ values a = none ∧ context a = some date →
      hasTime date = false) → (values a ≠ none ↔ values b ≠ none)

theorem takesRecord_iff : TakesRecord values context names ↔ HeaderYields values context names := by
  constructor
  · rintro ⟨hrecord, -⟩ a ha hnone
    by_cases hany : ∃ b ∈ names, values b ≠ none
    · obtain ⟨b, hb, hvalue, heq⟩ := hrecord hany
      refine .inr ⟨b, hb, hvalue, ?_⟩
      rcases lookup_cases values context names with ⟨hnothing, -⟩ | ⟨a', ha', hcases⟩
      · exact absurd (hnothing b hb).1 hvalue
      · cases ha.unique ha'
        rcases hcases with ⟨hsome, -⟩ | ⟨-, -, hcontext, -⟩
        · exact absurd hnone hsome
        · rw [← hcontext, heq]
    · exact .inl fun b hb => not_not.mp fun h => hany ⟨b, hb, h⟩
  · intro h
    refine ⟨?_, value_of_header⟩
    rintro ⟨b, hb, hvalue⟩
    rcases lookup_cases values context names with ⟨hnothing, -⟩ | ⟨a, ha, hcases⟩
    · exact absurd (hnothing b hb).1 hvalue
    · rcases hcases with ⟨hsome, heq, -⟩ | ⟨hnone, -, heq, -⟩
      · exact ⟨a, ha.mem, hsome, heq⟩
      · rcases h a ha hnone with hall | ⟨b', hb', hvalue', hsame⟩
        · exact absurd (hall b hb) hvalue
        · exact ⟨b', hb', hvalue', heq.trans hsame⟩

/-- A date and a time that are combined are read together. -/
theorem dateTime_of_combined (d : Decoders) {date time : String}
    (h : combined values context dateNames timeNames = some (date, time)) :
    dateTime d values context dateNames timeNames =
      d.combineSourceDateTime (some date) (some time) := by
  rw [combined] at h
  rw [dateTime]
  cases hdate : value values context dateNames with
  | none =>
    rw [hdate] at h
    cases h
  | some date' =>
    cases htime : value values context timeNames with
    | none =>
      rw [hdate, htime] at h
      cases h
    | some time' =>
      rw [hdate, htime] at h
      simp only [Option.ite_none_left_eq_some] at h
      obtain ⟨hbare, hpair⟩ := h
      cases hpair
      exact if_neg hbare

/-- Where none are combined, the result is that of the date alone or of the time alone. -/
theorem dateTime_of_not_combined (d : Decoders)
    (h : combined values context dateNames timeNames = none) :
    dateTime d values context dateNames timeNames = dateTime d values context dateNames [] ∨
      dateTime d values context dateNames timeNames = dateTime d values context [] timeNames := by
  rw [combined] at h
  simp only [dateTime]
  cases hdate : value values context dateNames with
  | none => exact .inr rfl
  | some date =>
    refine .inl ?_
    cases htime : value values context timeNames with
    | none => rfl
    | some time =>
      rw [hdate, htime] at h
      simp only [ite_eq_left_iff, reduceCtorEq, imp_false, not_not] at h
      exact (if_pos h).trans (if_pos h).symm

theorem combined_ne_none : combined values context dateNames timeNames ≠ none ↔
    ∃ date time, value values context dateNames = some date ∧
      value values context timeNames = some time ∧ hasTime date = false := by
  unfold combined
  rcases value values context dateNames with _ | date <;>
    rcases value values context timeNames with _ | time <;> simp

theorem combinesOneLevel_iff : CombinesOneLevel values context dateNames timeNames ↔
    LevelsAgree values context dateNames timeNames := by
  unfold CombinesOneLevel LevelsAgree
  rw [combined_ne_none]
  rcases lookup_cases values context dateNames with ⟨hdates, hdate, -⟩ | ⟨a, ha, hadate⟩
  · refine iff_of_true ?_ ?_
    · rintro ⟨date, time, hsome, -⟩
      rw [hdate] at hsome
      cases hsome
    · rintro a b ha -
      obtain ⟨before, behind, rfl, -, hfound⟩ := ha
      obtain ⟨h₁, h₂⟩ := hdates a (by simp)
      exact absurd hfound (by simp [h₁, h₂])
  rcases lookup_cases values context timeNames with ⟨htimes, htime, -⟩ | ⟨b, hb, hbtime⟩
  · refine iff_of_true ?_ ?_
    · rintro ⟨date, time, -, hsome, -⟩
      rw [htime] at hsome
      cases hsome
    · rintro a b - hb
      obtain ⟨before, behind, rfl, -, hfound⟩ := hb
      obtain ⟨h₁, h₂⟩ := htimes b (by simp)
      exact absurd hfound (by simp [h₁, h₂])
  -- Both are found: the levels are those of the first aliases.
  have hlevels : level values context dateNames = level values context timeNames ↔
      (values a ≠ none ↔ values b ≠ none) := by
    rcases hadate with ⟨h₁, -, h₂⟩ | ⟨h₁, -, -, h₂⟩ <;>
      rcases hbtime with ⟨h₃, -, h₄⟩ | ⟨h₃, -, -, h₄⟩ <;> simp [h₁, h₂, h₃, h₄]
  have hbare : (∃ date time, value values context dateNames = some date ∧
      value values context timeNames = some time ∧ hasTime date = false) ↔
      ∀ date, values a = some date ∨ values a = none ∧ context a = some date →
        hasTime date = false := by
    have htime : ∃ time, value values context timeNames = some time := by
      rcases hbtime with ⟨h₁, h₂, -⟩ | ⟨-, h₁, h₂, -⟩
      · exact (Option.ne_none_iff_exists'.mp h₁).imp fun _ h => h₂.trans h
      · exact (Option.ne_none_iff_exists'.mp h₁).imp fun _ h => h₂.trans h
    obtain ⟨time, htime⟩ := htime
    rcases hadate with ⟨h₁, h₂, -⟩ | ⟨h₀, h₁, h₂, -⟩
    · obtain ⟨date, hdate⟩ := Option.ne_none_iff_exists'.mp h₁
      simp [h₂, hdate, htime]
    · obtain ⟨date, hdate⟩ := Option.ne_none_iff_exists'.mp h₁
      simp [h₂, hdate, htime, h₀]
  rw [hbare, hlevels]
  constructor
  · intro h a' b' ha' hb' hdate
    cases ha.unique ha'
    cases hb.unique hb'
    exact h hdate
  · intro h hdate
    exact h a b ha hb hdate

end Lookup

/-- When the record's own fields win over the header, and a date and its time are of one level. What
`combined` gives is what `dateTime` combines; else it reads one of the two fields alone. -/
theorem record_precedes_header (d : Decoders) (values context : Fields)
    (names dateNames timeNames : List String) :
    (TakesRecord values context names ↔ HeaderYields values context names) ∧
      (CombinesOneLevel values context dateNames timeNames ↔
        LevelsAgree values context dateNames timeNames) ∧
      (∀ date time, combined values context dateNames timeNames = some (date, time) →
        dateTime d values context dateNames timeNames =
          d.combineSourceDateTime (some date) (some time)) ∧
      (combined values context dateNames timeNames = none →
        dateTime d values context dateNames timeNames = dateTime d values context dateNames [] ∨
          dateTime d values context dateNames timeNames = dateTime d values context [] timeNames) :=
  ⟨takesRecord_iff, combinesOneLevel_iff, fun _ _ => dateTime_of_combined d,
    dateTime_of_not_combined d⟩

/-- One field of a record or of a header. -/
def field (name text : String) : Fields := fun other => if other = name then some text else none

/-- A header with `BikoretNo` over a record with its own `AuditNumber`; and a header with
`UpdateTime` over a record with `PriceUpdateDate`. -/
theorem header_overrides_record :
    ¬ TakesRecord (field "auditnumber" "7") (field "bikoretno" "9") ["bikoretno", "auditnumber"] ∧
      ¬ CombinesOneLevel (field "priceupdatedate" "2024-01-02") (field "updatetime" "10:30")
        ["priceupdatedate", "updatedate"] ["priceupdatetime", "updatetime"] := by
  constructor
  · unfold TakesRecord
    decide
  · unfold CombinesOneLevel
    decide

end Makolet.Parsing
