import Makolet.Domain.Calendar
import Makolet.Lib.Offsets

/-!
# Time zones as offset tables

The rules that `zoneinfo` reads for a zone: a table of offsets, here in microseconds. `tableZone` is
the zone of a table. Over it `_unambiguous_israel_local_time` returns an instant exactly when it is
the only one with the wall time, provided that the wall times of consecutive transitions do not
overlap (`local_time_exact`). Where they do, two of three instants can share a lookup,
and the function returns one of several.
-/

set_option autoImplicit false

namespace Makolet.Domain

open Makolet.Lib

/-- The first number after `datetime.max`. -/
def endOfTime : Int := days 3652059

/-- The wall clock of a table at an instant, in microseconds. -/
def wallClock (z : OffsetTable) (u : Time) : Int := u + z.offsetAt u

/-- The zone of a table. Instants are microseconds since the first day of the year one; that
`datetime` has only those before `endOfTime` is left to `convertible`. -/
abbrev tableZone (z : OffsetTable) : Zone where
  Instant := Time
  utc := fun w fold => (w.stamp : Int) - z.wallOffset fold w.stamp
  wall := fun u => wallTimeAt (wallClock z u).toNat
  Offset := Duration
  offset := fun _ => none
  atOffset := fun w offset => w.stamp - offset

/-- What `zoneinfo` accepts of an offset: it is shorter than a day. -/
def WithinDay (z : OffsetTable) : Prop :=
  (-days 1 < z.before ∧ z.before < days 1) ∧ ∀ t ∈ z.transitions, -days 1 < t.2 ∧ t.2 < days 1

/-- Two days away from either end of `datetime`. -/
def WallTime.AwayFromEnds (w : WallTime) : Prop := days 2 ≤ w.stamp ∧ w.stamp + days 2 ≤ endOfTime

/-- The instants of a wall time. -/
def HasWallTime (z : OffsetTable) (w : WallTime) (u : Time) : Prop := wallClock z u = w.stamp

variable {z : OffsetTable} {w : WallTime} {u : Time}

/-! ## Bounds -/

theorem WithinDay.offsetAfter (hz : WithinDay z) (n : Nat) :
    -days 1 < z.offsetAfter n ∧ z.offsetAfter n < days 1 := by
  unfold OffsetTable.offsetAfter
  rw [List.getD_eq_getElem?_getD]
  cases hn : (z.before :: z.transitions.map Prod.snd)[n]? with
  | none => decide
  | some offset =>
    rcases List.mem_cons.mp (List.mem_of_getElem? hn) with rfl | hmem
    · exact hz.1
    · obtain ⟨t, ht, rfl⟩ := List.mem_map.mp hmem
      exact hz.2 t ht

theorem WithinDay.wallOffset (hz : WithinDay z) (fold : Bool) (n : Int) :
    -days 1 < z.wallOffset fold n ∧ z.wallOffset fold n < days 1 := by
  unfold OffsetTable.wallOffset
  dsimp only
  split
  · exact hz.1
  · split
    · exact hz.offsetAfter _
    · exact hz.offsetAfter _

/-- The instant that a lookup finds for a wall time. -/
def lookup (z : OffsetTable) (w : WallTime) (fold : Bool) : Int :=
  (w.stamp : Int) - z.wallOffset fold w.stamp

/-- Away from the ends no conversion leaves the range of `datetime`. -/
theorem convertible (hz : WithinDay z) (hw : w.AwayFromEnds) (fold : Bool) :
    (0 ≤ lookup z w fold ∧ lookup z w fold < endOfTime) ∧
      0 ≤ wallClock z (lookup z w fold) ∧ wallClock z (lookup z w fold) < endOfTime := by
  have hlow : (w.stamp : Int) ≥ days 1 + days 1 := hw.1
  have hhigh : (w.stamp : Int) + (days 1 + days 1) ≤ endOfTime := hw.2
  have hsooner : z.wallOffset fold w.stamp > -days 1 := (hz.wallOffset fold w.stamp).1
  have hlater : z.wallOffset fold w.stamp < days 1 := (hz.wallOffset fold w.stamp).2
  have hback : ∀ u, z.offsetAt u > -days 1 ∧ z.offsetAt u < days 1 := fun _ => hz.offsetAfter _
  unfold lookup wallClock
  specialize hback ((w.stamp : Int) - z.wallOffset fold w.stamp)
  refine ⟨⟨?_, ?_⟩, ?_, ?_⟩ <;> omega

/-! ## Candidates -/

theorem Zone.mem_candidates {zone : Zone} {t : zone.Instant} :
    t ∈ zone.candidates w ↔ (∃ fold, zone.utc w fold = t) ∧ zone.wall t = w := by
  simp [Zone.candidates, eq_comm]

/-- The candidates are the instants of the wall time. -/
theorem mem_candidates (hsep : z.Separated) (hz : WithinDay z) (hw : w.Valid)
    (haway : w.AwayFromEnds) : u ∈ (tableZone z).candidates w ↔ HasWallTime z w u := by
  rw [Zone.mem_candidates]
  show (∃ fold, lookup z w fold = u) ∧ wallTimeAt (wallClock z u).toNat = w ↔ wallClock z u = w.stamp
  constructor
  · rintro ⟨⟨fold, rfl⟩, hwall⟩
    rw [← hwall, stamp_wallTimeAt, hwall, Int.toNat_of_nonneg (convertible hz haway fold).2.1]
  · intro hu
    have hlookup : ∀ fold, z.offsetAt u = z.wallOffset fold w.stamp → lookup z w fold = u := by
      intro fold hfold
      rw [lookup, ← hfold, ← hu]
      exact add_sub_cancel_right u _
    refine ⟨?_, by rw [hu, Int.toNat_natCast, wallTimeAt_stamp hw]⟩
    rcases OffsetTable.offsetAt_eq_wallOffset hsep hu with hfold | hfold
    · exact ⟨false, hlookup false hfold⟩
    · exact ⟨true, hlookup true hfold⟩

/-! ## One instant -/

theorem Zone.candidates_eq_singleton {zone : Zone} {t : zone.Instant} :
    zone.candidates w = [t] ↔ t ∈ zone.candidates w ∧ ∀ t' ∈ zone.candidates w, t' = t := by
  have hnodup : (zone.candidates w).Nodup := List.nodup_dedup _
  match hcandidates : zone.candidates w with
  | [] => simp
  | [t'] => simp [eq_comm]
  | a :: b :: rest =>
    rw [hcandidates] at hnodup
    have hne : a ≠ b := fun heq => (List.nodup_cons.mp hnodup).1 (heq ▸ List.mem_cons_self)
    refine iff_of_false (by simp) fun h => ?_
    exact hne ((h.2 a (by simp)).trans (h.2 b (by simp)).symm)

/-- A wall time has one candidate where exactly one instant has it. -/
theorem candidates_eq_singleton (hsep : z.Separated) (hz : WithinDay z) (hw : w.Valid)
    (haway : w.AwayFromEnds) : (tableZone z).candidates w = [u] ↔
      HasWallTime z w u ∧ ∀ u', HasWallTime z w u' → u' = u := by
  have hmem : ∀ u, u ∈ (tableZone z).candidates w ↔ HasWallTime z w u :=
    fun u => mem_candidates hsep hz hw haway
  rw [Zone.candidates_eq_singleton, hmem u]
  exact and_congr_right fun _ => forall_congr' fun u' => imp_congr_left (hmem u')

theorem Zone.unambiguousIsraelLocalTime_eq_ok {zone : Zone} {t : zone.Instant} :
    zone.unambiguousIsraelLocalTime w = .ok t ↔ zone.candidates w = [t] := by
  unfold Zone.unambiguousIsraelLocalTime
  rcases zone.candidates w with _ | ⟨t', _ | ⟨t'', later⟩⟩ <;> simp

theorem Zone.unambiguousIsraelLocalTime_of_none {zone : Zone} (h : ∀ t, t ∉ zone.candidates w) :
    zone.unambiguousIsraelLocalTime w = .error (domainInvalid
      "Source local date is nonexistent in Asia/Jerusalem; an explicit offset is required") := by
  rw [Zone.unambiguousIsraelLocalTime, List.eq_nil_iff_forall_not_mem.mpr h]

theorem Zone.unambiguousIsraelLocalTime_of_two {zone : Zone} {t t' : zone.Instant} (hne : t ≠ t')
    (ht : t ∈ zone.candidates w) (ht' : t' ∈ zone.candidates w) :
    zone.unambiguousIsraelLocalTime w = .error (domainInvalid
      "Source local date is ambiguous in Asia/Jerusalem; an explicit offset is required") := by
  unfold Zone.unambiguousIsraelLocalTime
  match hcandidates : zone.candidates w with
  | [] => simp [hcandidates] at ht
  | [only] =>
    rw [hcandidates, List.mem_singleton] at ht ht'
    exact absurd (ht.trans ht'.symm) hne
  | _ :: _ :: _ => rfl

/-- The function returns an instant exactly when it is the only one with the wall time, and raises
its error in a gap and in a fold. -/
theorem local_time_exact (z : OffsetTable) (w : WallTime) (hsep : z.Separated) (hz : WithinDay z)
    (hw : w.Valid) (haway : w.AwayFromEnds) :
    (∀ u, (tableZone z).unambiguousIsraelLocalTime w = .ok u ↔
      HasWallTime z w u ∧ ∀ u', HasWallTime z w u' → u' = u) ∧
    ((∀ u, ¬HasWallTime z w u) → (tableZone z).unambiguousIsraelLocalTime w = .error (domainInvalid
      "Source local date is nonexistent in Asia/Jerusalem; an explicit offset is required")) ∧
    ((∃ u u', u ≠ u' ∧ HasWallTime z w u ∧ HasWallTime z w u') →
      (tableZone z).unambiguousIsraelLocalTime w = .error (domainInvalid
        "Source local date is ambiguous in Asia/Jerusalem; an explicit offset is required")) := by
  have hmem : ∀ u, u ∈ (tableZone z).candidates w ↔ HasWallTime z w u :=
    fun u => mem_candidates hsep hz hw haway
  refine ⟨fun u => ?_, fun hgap => ?_, ?_⟩
  · exact Zone.unambiguousIsraelLocalTime_eq_ok.trans (candidates_eq_singleton hsep hz hw haway)
  · exact Zone.unambiguousIsraelLocalTime_of_none fun u => mt (hmem u).mp (hgap u)
  · rintro ⟨u, u', hne, hu, hu'⟩
    exact Zone.unambiguousIsraelLocalTime_of_two hne ((hmem u).mpr hu) ((hmem u').mpr hu')

/-! ## Samples -/

/-- The start of the year 2000. -/
def newYear : WallTime :=
  { year := 2000, month := 1, day := 1, hour := 0, minute := 0, second := 0, microsecond := 0 }

/-- A clock two hours ahead, with one hour of summer time for half a year from noon on. -/
def summerTable : OffsetTable where
  before := hours 2
  transitions := [(days 730119 + hours 12, hours 3), (days 730299 + hours 12, hours 2)]
  increasing := by decide

/-- Half past two in the afternoon, when summer time has begun at two. -/
def skippedTime : WallTime := { newYear with hour := 14, minute := 30 }

/-- Half past two in the afternoon, half an hour before the end of summer time and half an hour
after it. -/
def repeatedTime : WallTime := { newYear with month := 6, day := 29, hour := 14, minute := 30 }

/-- A clock that falls back by two hours one hour after it has sprung forward by four, and by two
more two hours later. -/
def overlappingTable : OffsetTable where
  before := hours (-3)
  transitions := [(days 730119, hours 1), (days 730119 + hours 1, hours (-1)),
    (days 730119 + hours 3, hours (-3))]
  increasing := by decide

theorem summerTable_separated : summerTable.Separated := by
  intro i h
  obtain rfl : i = 0 := Nat.lt_one_iff.mp (Nat.lt_of_succ_lt_succ h)
  show days 730119 + hours 12 + max (hours 2) (hours 3) ≤
    days 730299 + hours 12 + min (hours 3) (hours 2)
  decide

theorem summerTable_withinDay : WithinDay summerTable := ⟨by decide, by decide⟩

theorem newYear_only {u : Time} (hu : HasWallTime summerTable newYear u) :
    u = days 730119 - hours 2 := by
  have hoffset : summerTable.offsetAt u = hours 2 :=
    (OffsetTable.offsetAt_eq_wallOffset summerTable_separated hu).elim id id
  have hclock : u + summerTable.offsetAt u = days 730119 := hu
  rw [hoffset] at hclock
  exact eq_sub_of_add_eq hclock

/-- At either offset that the lookups find, the other one is in force. -/
theorem skippedTime_never (u : Time) : ¬ HasWallTime summerTable skippedTime u := by
  intro hu
  rcases OffsetTable.offsetAt_eq_wallOffset summerTable_separated hu with hoffset | hoffset
  · have hwinter : summerTable.offsetAt u = hours 2 := hoffset
    have hclock : u + summerTable.offsetAt u = skippedTime.stamp := hu
    rw [hwinter] at hclock
    rw [eq_sub_of_add_eq hclock] at hwinter
    revert hwinter
    decide
  · have hsummer : summerTable.offsetAt u = hours 3 := hoffset
    have hclock : u + summerTable.offsetAt u = skippedTime.stamp := hu
    rw [hsummer] at hclock
    rw [eq_sub_of_add_eq hclock] at hsummer
    revert hsummer
    decide

/-- A time with one instant, one that the clock skips and one that it shows twice. -/
theorem local_time_exact_sample :
    ((tableZone summerTable).unambiguousIsraelLocalTime newYear =
        .ok (days 730119 - hours 2 : Time) ∧
      (tableZone summerTable).unambiguousIsraelLocalTime skippedTime = .error (domainInvalid
        "Source local date is nonexistent in Asia/Jerusalem; an explicit offset is required")) ∧
      (tableZone summerTable).unambiguousIsraelLocalTime repeatedTime = .error (domainInvalid
        "Source local date is ambiguous in Asia/Jerusalem; an explicit offset is required") := by
  refine ⟨⟨?_, ?_⟩, ?_⟩
  · exact ((local_time_exact summerTable newYear summerTable_separated summerTable_withinDay
      (by decide) ⟨by decide, by decide⟩).1 _).mpr ⟨rfl, fun _ hu => newYear_only hu⟩
  · exact (local_time_exact summerTable skippedTime summerTable_separated summerTable_withinDay
      (by decide) ⟨by decide, by decide⟩).2.1 skippedTime_never
  · exact (local_time_exact summerTable repeatedTime summerTable_separated summerTable_withinDay
      (by decide) ⟨by decide, by decide⟩).2.2
      ⟨days 730299 + hours 11 + minutes 30, days 730299 + hours 12 + minutes 30, by decide, rfl, rfl⟩

/-- Of two instants with the wall time one is returned: both lookups find the later one. -/
theorem overlapping_transitions_unnoticed :
    (tableZone overlappingTable).unambiguousIsraelLocalTime newYear =
        .ok (days 730119 + hours 3 : Time) ∧
      HasWallTime overlappingTable newYear (days 730119 + hours 1) ∧
      HasWallTime overlappingTable newYear (days 730119 + hours 3) := by
  exact ⟨rfl, rfl, rfl⟩

end Makolet.Domain
