import Makolet.Lib.System
import Makolet.Normalized.Watermarks

/-!
# GTIN assertions and corroboration follow the live evidence

What `_match_exact_gtins` leaves behind, over every run of accepted applies and replays, with
catalog decisions and identifiers of other methods written in between:

* each item the last price file names has one live assertion of its GTIN, *unless* the file had
  asserted the item before and that assertion has been superseded since: the insert ignores the
  conflict on (item, kind, file) and the supersede statement has just closed the other file's row;
* a GTIN it affects has a corroborated global identifier exactly when two retailers assert it;
* operator decisions stay as they are.

`replayed_file_loses_assertion` is a run in which the first point fails: two archived files of one
retailer, of different stores and the same declared instant, replayed one after the other and then
the first one again.
-/

set_option autoImplicit false

namespace Makolet.Normalized

open Makolet.Domain Makolet.Lib

/-! ## Assertions -/

/-- The live GTIN assertions of an item. -/
def liveGtinAssertions (t : Tables) (item : ItemId) : List Assertion :=
  t.assertions.filter fun a =>
    decide (a.kind = .gtin) && a.isLive && decide (a.itemId = item)

section Assertions

variable {p : ApplyParameters} {items : List RetailerItem} {before superseded after : List Assertion}

theorem supersedeAssertions_eq_ok (h : supersedeAssertions p items before = .ok superseded) :
    superseded = before.map fun a =>
      if a.isLiveGtinOf items ∧ a.sourceFileId ≠ p.sourceFileId then
        { a with supersededAt := some p.appliedAt }
      else a := by
  obtain ⟨-, h⟩ := require_bind_eq_ok.mp h
  rw [pure_eq_ok] at h
  exact h.symm

theorem insertAssertions_eq_ok (h : insertAssertions p items superseded = .ok after) :
    after = Table.insertNew Assertion.key superseded (items.filterMap (newAssertion p)) := by
  obtain ⟨-, h⟩ := require_bind_eq_ok.mp h
  rw [pure_eq_ok] at h
  exact h.symm

theorem supersede_key (a : Assertion) :
    (if a.isLiveGtinOf items ∧ a.sourceFileId ≠ p.sourceFileId then
        { a with supersededAt := some p.appliedAt }
      else a).key = a.key := by
  split <;> rfl

/-- The statement leaves the assertions of the file itself alone. -/
theorem lookup_supersede (h : supersedeAssertions p items before = .ok superseded)
    (item : ItemId) :
    Table.lookup Assertion.key superseded (item, .gtin, p.sourceFileId) =
      Table.lookup Assertion.key before (item, .gtin, p.sourceFileId) := by
  rw [supersedeAssertions_eq_ok h, Table.lookup_map_of_key supersede_key]
  cases hl : Table.lookup Assertion.key before (item, .gtin, p.sourceFileId) with
  | none => rfl
  | some e =>
    have hkey := Table.key_of_lookup hl
    rw [Assertion.key, Prod.mk.injEq, Prod.mk.injEq] at hkey
    rw [Option.map_some, if_neg (fun hc => hc.2 hkey.2.2)]

theorem supersede_unique (h : supersedeAssertions p items before = .ok superseded)
    (hu : Table.UniqueOn Assertion.key before) : Table.UniqueOn Assertion.key superseded := by
  rw [supersedeAssertions_eq_ok h, Table.UniqueOn, List.map_map]
  exact (List.map_congr_left fun a _ => supersede_key a).symm ▸ hu

/-- Afterwards a live GTIN assertion of a named item is one of the file itself. -/
theorem source_of_live (h : supersedeAssertions p items before = .ok superseded)
    (h' : insertAssertions p items superseded = .ok after) {i : RetailerItem} (hi : i ∈ items)
    {a : Assertion} (ha : a ∈ after) (hkind : a.kind = .gtin) (hlive : a.isLive = true)
    (hitem : a.itemId = i.id) : a.sourceFileId = p.sourceFileId := by
  rw [insertAssertions_eq_ok h'] at ha
  rcases Table.mem_insertNew ha with hold | ⟨hnew, -⟩
  · rw [supersedeAssertions_eq_ok h] at hold
    obtain ⟨b, -, hb⟩ := List.mem_map.mp hold
    by_contra hne
    split at hb
    · rw [← hb] at hlive
      cases hlive
    · rename_i hcond
      subst hb
      refine hcond ⟨?_, hne⟩
      rw [Assertion.isLiveGtinOf, hkind, hlive, hitem]
      simp only [decide_true, Bool.true_and, List.any_eq_true, decide_eq_true_eq]
      exact ⟨i, hi, rfl⟩
  · obtain ⟨j, -, hj⟩ := List.mem_filterMap.mp hnew
    obtain ⟨g, -, rfl⟩ := Option.map_eq_some_iff.mp hj
    rfl

/-- The row of a named item and the file after the insert: an earlier row of the file wins over
the new one. -/
theorem lookup_insertAssertions (h : supersedeAssertions p items before = .ok superseded)
    (h' : insertAssertions p items superseded = .ok after)
    (hids : Table.UniqueOn RetailerItem.id items) {i : RetailerItem} (hi : i ∈ items) {g : String}
    (hg : i.gtin = some g) :
    Table.lookup Assertion.key after (i.id, .gtin, p.sourceFileId) =
      some ((Table.lookup Assertion.key before (i.id, .gtin, p.sourceFileId)).getD
        ⟨i.id, .gtin, g, p.sourceFileId, p.appliedAt, none⟩) := by
  have hsup := lookup_supersede h i.id
  rw [insertAssertions_eq_ok h']
  cases hl : Table.lookup Assertion.key before (i.id, .gtin, p.sourceFileId) with
  | some e => exact Table.lookup_insertNew_old (hsup.trans hl)
  | none =>
    have hnew : newAssertion p i = some ⟨i.id, .gtin, g, p.sourceFileId, p.appliedAt, none⟩ := by
      rw [newAssertion, hg]
      rfl
    obtain ⟨s, hs, hkey⟩ := @Table.exists_mem_insertNew _ _ _ Assertion.key superseded _ _
      (List.mem_filterMap.mpr ⟨i, hi, hnew⟩)
    cases hfound : Table.lookup Assertion.key (Table.insertNew Assertion.key superseded
        (items.filterMap (newAssertion p))) (i.id, .gtin, p.sourceFileId) with
    | none => exact absurd hkey (Table.lookup_eq_none.mp hfound s hs)
    | some e =>
      rw [Option.getD_none, Option.some.injEq]
      have hekey := Table.key_of_lookup hfound
      rcases Table.mem_insertNew (Table.mem_of_lookup hfound) with hold | ⟨hin, -⟩
      · exact absurd hekey (Table.lookup_eq_none.mp (hsup.trans hl) e hold)
      · obtain ⟨j, hj, hje⟩ := List.mem_filterMap.mp hin
        obtain ⟨g', hg', rfl⟩ := Option.map_eq_some_iff.mp hje
        rw [Assertion.key, Prod.mk.injEq] at hekey
        have hji : j = i := by
          have hjl := Table.lookup_of_mem hids hj
          have hil := Table.lookup_of_mem hids hi
          rw [show j.id = i.id from hekey.1] at hjl
          exact Option.some.inj (hjl.symm.trans hil)
        subst hji
        cases hg.symm.trans hg'
        rfl

/-- The live assertions of a named item with a GTIN: its row of the file, if that row is live. -/
theorem filter_live_named (h : supersedeAssertions p items before = .ok superseded)
    (h' : insertAssertions p items superseded = .ok after)
    (hu : Table.UniqueOn Assertion.key before) (hids : Table.UniqueOn RetailerItem.id items)
    {i : RetailerItem} (hi : i ∈ items) {g : String} (hg : i.gtin = some g) :
    (after.filter fun a => decide (a.kind = .gtin) && a.isLive && decide (a.itemId = i.id)) =
      [(Table.lookup Assertion.key before (i.id, .gtin, p.sourceFileId)).getD
        ⟨i.id, .gtin, g, p.sourceFileId, p.appliedAt, none⟩].filter Assertion.isLive := by
  have hunique : Table.UniqueOn Assertion.key after := by
    rw [insertAssertions_eq_ok h']
    exact Table.insertNew_unique (supersede_unique h hu)
  have hkeys : (after.filter fun a =>
      decide (a.kind = .gtin) && a.isLive && decide (a.itemId = i.id)) =
      (after.filter fun a => decide (a.key = (i.id, .gtin, p.sourceFileId))).filter
        Assertion.isLive := by
    rw [List.filter_filter]
    refine List.filter_congr fun a ha => ?_
    rw [Bool.eq_iff_iff]
    simp only [Bool.and_eq_true, decide_eq_true_eq, Assertion.key, Prod.mk.injEq]
    constructor
    · rintro ⟨⟨hkind, hlive⟩, hitem⟩
      exact ⟨hlive, hitem, hkind, source_of_live h h' hi ha hkind hlive hitem⟩
    · rintro ⟨hlive, hitem, hkind, -⟩
      exact ⟨⟨hkind, hlive⟩, hitem⟩
  rw [hkeys, Table.filter_key_eq_lookup hunique, lookup_insertAssertions h h' hids hi hg]
  rfl

/-- A named item with a GTIN has one live assertion of it exactly when an assertion that the file
had made for the item before is live and of that GTIN. -/
theorem one_live_iff (h : supersedeAssertions p items before = .ok superseded)
    (h' : insertAssertions p items superseded = .ok after)
    (hu : Table.UniqueOn Assertion.key before) (hids : Table.UniqueOn RetailerItem.id items)
    {i : RetailerItem} (hi : i ∈ items) {g : String} (hg : i.gtin = some g) :
    (∃ a, (after.filter fun a =>
        decide (a.kind = .gtin) && a.isLive && decide (a.itemId = i.id)) = [a] ∧ a.value = g) ↔
      ∀ e ∈ before, e.key = (i.id, .gtin, p.sourceFileId) → e.isLive = true ∧ e.value = g := by
  rw [filter_live_named h h' hu hids hi hg]
  cases hl : Table.lookup Assertion.key before (i.id, .gtin, p.sourceFileId) with
  | none =>
    refine iff_of_true ⟨_, rfl, rfl⟩ fun e he hkey => ?_
    exact absurd hkey (Table.lookup_eq_none.mp hl e he)
  | some e =>
    rw [Option.getD_some]
    constructor
    · rintro ⟨a, ha, hval⟩ b hb hkey
      have hbe : b = e := by
        have hbl := Table.lookup_of_mem hu hb
        rw [hkey, hl] at hbl
        exact (Option.some.inj hbl).symm
      subst hbe
      rw [List.filter_cons] at ha
      split at ha
      · rename_i hlive
        cases ha
        exact ⟨hlive, hval⟩
      · cases ha
    · intro hall
      obtain ⟨hlive, hval⟩ := hall e (Table.mem_of_lookup hl) (Table.key_of_lookup hl)
      refine ⟨e, ?_, hval⟩
      rw [List.filter_cons, if_pos hlive]
      rfl

end Assertions

/-! ## Match groups -/

theorem groupOf_insertGroups_old {p : ApplyParameters} {items : List RetailerItem} {t : Tables}
    {g : String} (h : (groupOf t.matchGroups g).isSome) :
    (groupOf (insertGroups p items t).matchGroups g).isSome := by
  obtain ⟨group, hgroup⟩ := Option.isSome_iff_exists.mp h
  rw [groupOf, insertGroups, Table.lookup_insertNew_old hgroup]
  rfl

/-- Every GTIN of a named item has a group afterwards. -/
theorem groupOf_insertGroups {p : ApplyParameters} {items : List RetailerItem} {t : Tables}
    {i : RetailerItem} (hi : i ∈ items) {g : String} (hg : i.gtin = some g) :
    (groupOf (insertGroups p items t).matchGroups g).isSome := by
  by_cases hold : (groupOf t.matchGroups g).isSome
  · exact groupOf_insertGroups_old hold
  · set withoutGroup := (items.insertionSort fun a b => a.sourceItemCode ≤ b.sourceItemCode).filter
      fun i => i.gtin.any fun g => (groupOf t.matchGroups g).isNone with hwithout
    have hmem : i ∈ withoutGroup := by
      rw [hwithout, List.mem_filter, List.mem_insertionSort, hg]
      refine ⟨hi, ?_⟩
      rw [Option.any_some, Option.isNone_iff_eq_none, ← Option.not_isSome_iff_eq_none]
      exact hold
    obtain ⟨j, hj, hjg⟩ := @Table.exists_mem_distinctOn _ _ _ RetailerItem.gtin _ _ hmem
    obtain ⟨n, hn⟩ := List.mem_iff_getElem?.mp hj
    have hcandidate : ∃ c ∈ groupCandidates t items, c.gtin = g := by
      have hzip : (j, n) ∈ _ := List.mk_mem_zipIdx_iff_getElem?.mpr hn
      cases hglobal : validatedGlobal t.identifiers g with
      | some v =>
        refine ⟨⟨v.productId, false, g, j⟩, List.mem_filterMap.mpr ⟨(j, n), hzip, ?_⟩, rfl⟩
        show (j.gtin.map _) = _
        rw [hjg, hg, Option.map_some, hglobal]
      | none =>
        refine ⟨⟨t.nextId + n, true, g, j⟩, List.mem_filterMap.mpr ⟨(j, n), hzip, ?_⟩, rfl⟩
        show (j.gtin.map _) = _
        rw [hjg, hg, Option.map_some, hglobal]
    obtain ⟨c, hc, rfl⟩ := hcandidate
    obtain ⟨s, hs, hkey⟩ := @Table.exists_mem_insertNew _ _ _ MatchGroup.key t.matchGroups _ _
      (List.mem_map.mpr ⟨c, hc, rfl⟩ : (⟨.gtin, c.gtin, c.productId⟩ : MatchGroup) ∈
        (groupCandidates t items).map fun c => ⟨.gtin, c.gtin, c.productId⟩)
    rw [groupOf, Table.lookup_isSome]
    exact ⟨s, hs, hkey⟩

/-! ## Corroboration -/

/-- The retailers with a live assertion of a GTIN. -/
def liveRetailers (t : Tables) (g : String) : List RetailerId :=
  ((t.assertions.filter fun a =>
      decide (a.kind = .gtin) && a.isLive && decide (a.value = g)).flatMap fun a =>
    (t.items.filter fun i => decide (i.id = a.itemId)).map RetailerItem.retailerId).dedup

/-- The matcher's count is the number of those retailers. -/
theorem retailerCount_eq {affected : List String} {t : Tables} {g : String} (hg : g ∈ affected) :
    (((liveGtinRetailers affected t.assertions t.items).filter fun l => decide (l.gtin = g)).map
      LiveRetailer.retailerId).dedup.length = (liveRetailers t g).length := by
  refine ((List.perm_ext_iff_of_nodup (List.nodup_dedup _) (List.nodup_dedup _)).mpr ?_).length_eq
  intro retailer
  rw [List.mem_dedup, List.mem_dedup, List.mem_map, List.mem_flatMap]
  constructor
  · rintro ⟨l, hl, rfl⟩
    obtain ⟨hl, hlg⟩ := List.mem_filter.mp hl
    obtain ⟨a, ha, hla⟩ := List.mem_flatMap.mp (List.mem_dedup.mp hl)
    obtain ⟨i, hi, rfl⟩ := List.mem_map.mp hla
    obtain ⟨hmem, hcond⟩ := List.mem_filter.mp ha
    rw [Bool.and_eq_true] at hcond
    refine ⟨a, List.mem_filter.mpr ⟨hmem, ?_⟩, List.mem_map.mpr ⟨i, hi, rfl⟩⟩
    rw [Bool.and_eq_true]
    exact ⟨hcond.1, hlg⟩
  · rintro ⟨a, ha, hr⟩
    obtain ⟨hmem, hcond⟩ := List.mem_filter.mp ha
    obtain ⟨i, hi, rfl⟩ := List.mem_map.mp hr
    rw [Bool.and_eq_true, decide_eq_true_eq] at hcond
    refine ⟨⟨a.value, i.retailerId, i.portalId⟩, List.mem_filter.mpr ⟨List.mem_dedup.mpr ?_, ?_⟩,
      rfl⟩
    · refine List.mem_flatMap.mpr ⟨a, List.mem_filter.mpr ⟨hmem, ?_⟩, List.mem_map.mpr ⟨i, hi, rfl⟩⟩
      rw [Bool.and_eq_true, decide_eq_true_eq]
      exact ⟨hcond.1, hcond.2 ▸ hg⟩
    · exact decide_eq_true hcond.2

/-- The corroboration rows of a GTIN: one for an affected GTIN with a group, with its count. -/
theorem mem_gtinCorroboration {affected : List String} {groups : List MatchGroup}
    {live : List LiveRetailer} {c : Corroboration}
    (h : c ∈ gtinCorroboration affected groups live) :
    c.gtin ∈ affected ∧ c.retailerCount = ((live.filter fun l => decide (l.gtin = c.gtin)).map
      LiveRetailer.retailerId).dedup.length := by
  obtain ⟨g, hg, hc⟩ := List.mem_filterMap.mp h
  obtain ⟨group, -, rfl⟩ := Option.map_eq_some_iff.mp hc
  exact ⟨hg, rfl⟩

theorem exists_gtinCorroboration {affected : List String} {groups : List MatchGroup}
    {live : List LiveRetailer} {g : String} (hg : g ∈ affected) (hgroup : (groupOf groups g).isSome) :
    ∃ c ∈ gtinCorroboration affected groups live, c.gtin = g := by
  obtain ⟨group, hgroup⟩ := Option.isSome_iff_exists.mp hgroup
  refine ⟨⟨g, group.productId,
    ((live.filter fun l => decide (l.gtin = g)).map LiveRetailer.retailerId).dedup.length⟩,
    List.mem_filterMap.mpr ⟨g, hg, ?_⟩, rfl⟩
  rw [hgroup]
  rfl

/-- Another method holds the global identifier of a GTIN. -/
def HeldByOther (identifiers : List ProductIdentifier) (g : String) : Prop :=
  ∃ i ∈ identifiers, i.kind = .gtin ∧ i.value = g ∧ i.issuer = none ∧
    i.validationMethod ≠ .independentRetailerCorroboration

/-- Corroborated identifiers are validated. -/
def CorroboratedValid (identifiers : List ProductIdentifier) : Prop :=
  ∀ i ∈ identifiers, i.validationMethod = .independentRetailerCorroboration → i.isValidated = true

section Identifiers

variable {p : ApplyParameters} {rows : List Corroboration} {identifiers : List ProductIdentifier}

/-- A row after the corroboration upsert comes from an old row of the same key and method, or from
a corroboration row of count two or more. -/
theorem mem_upsertCorroborated {i : ProductIdentifier}
    (h : i ∈ upsertCorroborated p rows identifiers) :
    (∃ old ∈ identifiers, i.key = old.key ∧ i.validationMethod = old.validationMethod ∧
        (old.isValidated = true → i.isValidated = true)) ∨
      (∃ c ∈ rows, 2 ≤ c.retailerCount ∧ i.key = (.gtin, c.gtin, none) ∧ i.isValidated = true) := by
  rcases Table.mem_upsert h with ⟨hold, -⟩ | ⟨old, hold, b, -, -, rfl⟩ | ⟨b, hb, rfl⟩
  · exact .inl ⟨i, hold, rfl, rfl, fun h => h⟩
  · refine .inl ⟨old, hold, ?_⟩
    split <;> exact ⟨rfl, rfl, fun h => by first | rfl | exact h⟩
  · obtain ⟨c, hc, rfl⟩ := List.mem_map.mp hb
    obtain ⟨hrow, hcount⟩ := List.mem_filter.mp hc
    exact .inr ⟨c, hrow, of_decide_eq_true hcount, rfl, rfl⟩

theorem exists_key_upsertCorroborated {c : Corroboration} (hc : c ∈ rows)
    (hcount : 2 ≤ c.retailerCount) :
    ∃ i ∈ upsertCorroborated p rows identifiers, i.key = (.gtin, c.gtin, none) := by
  refine Table.exists_mem_upsert (fun _ => rfl) (fun old new => ?_)
    (List.mem_map.mpr ⟨c, List.mem_filter.mpr ⟨hc, decide_eq_true hcount⟩, rfl⟩)
  split <;> rfl

theorem mem_of_mem_deleteUncorroborated {i : ProductIdentifier}
    (h : i ∈ deleteUncorroborated rows identifiers) : i ∈ identifiers :=
  (List.mem_filter.mp h).1

theorem isCorroborationOf_iff {i : ProductIdentifier} {g : String} :
    i.isCorroborationOf g = true ↔ i.key = (.gtin, g, none) ∧
      i.validationMethod = .independentRetailerCorroboration := by
  simp only [ProductIdentifier.isCorroborationOf, ProductIdentifier.key, decide_eq_true_eq,
    Prod.mk.injEq]
  tauto

/-- An affected GTIN with a group, whose slot no other method holds, has a corroborated identifier
exactly when its count is at least two. -/
theorem corroborated_iff {affected : List String} {groups : List MatchGroup}
    {live : List LiveRetailer} {g : String} (hg : g ∈ affected)
    (hgroup : (groupOf groups g).isSome) (hvalid : CorroboratedValid identifiers)
    (hslot : ¬ HeldByOther (upsertCorroborated p (gtinCorroboration affected groups live)
      (deleteUncorroborated (gtinCorroboration affected groups live) identifiers)) g) :
    (∃ i ∈ upsertCorroborated p (gtinCorroboration affected groups live)
        (deleteUncorroborated (gtinCorroboration affected groups live) identifiers),
        i.isCorroborationOf g = true ∧ i.isValidated = true) ↔
      2 ≤ ((live.filter fun l => decide (l.gtin = g)).map LiveRetailer.retailerId).dedup.length := by
  obtain ⟨c, hc, hcg⟩ := @exists_gtinCorroboration _ _ live _ hg hgroup
  have hcount := (mem_gtinCorroboration hc).2
  rw [hcg] at hcount
  constructor
  · rintro ⟨i, hi, hcorr, -⟩
    obtain ⟨hkey, hmethod⟩ := isCorroborationOf_iff.mp hcorr
    rcases mem_upsertCorroborated hi with ⟨old, hold, hk, hm, -⟩ | ⟨d, hd, hcount', hk, -⟩
    · -- A corroborated row that the delete kept has a count of two or more.
      by_contra hlt
      have hkept := (List.mem_filter.mp hold).2
      rw [Bool.not_eq_true', List.any_eq_false] at hkept
      refine hkept c hc ?_
      rw [Bool.and_eq_true, hcg, isCorroborationOf_iff, decide_eq_true_eq, hcount]
      exact ⟨⟨hk.symm.trans hkey, hm.symm.trans hmethod⟩, Nat.not_le.mp hlt⟩
    · rw [hkey, Prod.mk.injEq, Prod.mk.injEq] at hk
      rw [(mem_gtinCorroboration hd).2, ← hk.2.1] at hcount'
      exact hcount'
  · intro hle
    obtain ⟨i, hi, hkey⟩ := @exists_key_upsertCorroborated p _
      (deleteUncorroborated (gtinCorroboration affected groups live) identifiers) _ hc
      (hcount ▸ hle)
    rw [hcg] at hkey
    have hmethod : i.validationMethod = .independentRetailerCorroboration := by
      by_contra hne
      simp only [ProductIdentifier.key, Prod.mk.injEq] at hkey
      exact hslot ⟨i, hi, hkey.1, hkey.2.1, hkey.2.2, hne⟩
    refine ⟨i, hi, isCorroborationOf_iff.mpr ⟨hkey, hmethod⟩, ?_⟩
    rcases mem_upsertCorroborated hi with ⟨old, hold, -, hm, hval⟩ | ⟨-, -, -, -, hval⟩
    · exact hval (hvalid old (mem_of_mem_deleteUncorroborated hold) (hm.symm.trans hmethod))
    · exact hval

end Identifiers

/-! ## The whole matcher -/

/-- The statements of an accepted match, with their tables. -/
theorem matchExactGtins_eq_ok {p : ApplyParameters} {items : List RetailerItem} {t t' : Tables}
    (h : matchExactGtins p items t = .ok t') :
    ∃ t₁, assertGtins p items t = .ok t₁ ∧
      t' = rematch p items (affectedGtins items t.assertions)
        { insertGroups p items t₁ with
          identifiers := corroborateIdentifiers p items (affectedGtins items t.assertions)
            (insertGroups p items t₁) } := by
  obtain ⟨t₁, h₁, h⟩ := bind_eq_ok.mp h
  rw [pure_eq_ok] at h
  exact ⟨t₁, h₁, h.symm⟩

theorem assertGtins_eq_ok {p : ApplyParameters} {items : List RetailerItem} {t t' : Tables}
    (h : assertGtins p items t = .ok t') :
    ∃ superseded, supersedeAssertions p items t.assertions = .ok superseded ∧
      insertAssertions p items superseded = .ok t'.assertions ∧
      t' = { t with
        assertions := t'.assertions
        confirmedMatches := deleteAutomaticMatches items t.confirmedMatches } := by
  obtain ⟨superseded, hsup, h⟩ := bind_eq_ok.mp h
  obtain ⟨assertions, hins, h⟩ := bind_eq_ok.mp h
  rw [pure_eq_ok] at h
  subst h
  exact ⟨superseded, hsup, hins, rfl⟩

/-- A match that is not automatic survives the rebuild. -/
theorem mem_rematch {p : ApplyParameters} {items : List RetailerItem} {affected : List String}
    {t : Tables} {m : ConfirmedMatch} (hm : m ∈ t.confirmedMatches)
    (hauto : m.isAutomatic = false) : m ∈ (rematch p items affected t).confirmedMatches := by
  refine List.mem_map.mpr ⟨m, Table.subset_insertNew hm, ?_⟩
  rw [hauto]
  rfl

theorem mem_matchExactGtins {p : ApplyParameters} {items : List RetailerItem} {t t' : Tables}
    (h : matchExactGtins p items t = .ok t') {m : ConfirmedMatch} (hm : m ∈ t.confirmedMatches)
    (hauto : m.isAutomatic = false) : m ∈ t'.confirmedMatches := by
  obtain ⟨t₁, h₁, rfl⟩ := matchExactGtins_eq_ok h
  obtain ⟨-, -, -, h₁⟩ := assertGtins_eq_ok h₁
  refine mem_rematch ?_ hauto
  show m ∈ t₁.confirmedMatches
  rw [h₁]
  refine List.mem_filter.mpr ⟨hm, ?_⟩
  rw [hauto, Bool.false_and]
  rfl

theorem isAutomatic_of_isOperator {m : ConfirmedMatch} (h : m.isOperator = true) :
    m.isAutomatic = false := by
  have hmethod := of_decide_eq_true h
  simp [ConfirmedMatch.isAutomatic, hmethod]

/-! ## The named items -/

/-- The rows that describe the items of a price file, one a code. -/
def describingRows (s : Staging) : List StagedPrice :=
  Table.distinctOn StagedPrice.sourceItemCode
    ((priceIncoming s).insertionSort fun a b => a.sourceStoreId ≤ b.sourceStoreId)

/-- The GTIN that a price file gives an item code. -/
def stagedGtin (s : Staging) (code : String) : Option String :=
  (Table.lookup StagedPrice.sourceItemCode (describingRows s) code).bind StagedPrice.gtin

/-- The item is one that a price file of its retailer and portal names. -/
def IsNamed (p : ApplyParameters) (s : Staging) (i : RetailerItem) : Prop :=
  i.retailerId = p.retailerId ∧ i.portalId = p.portalId ∧
    ∃ r ∈ s.prices, r.sourceItemCode = i.sourceItemCode

theorem mem_namedItems {p : ApplyParameters} {s : Staging} {t : Tables} {i : RetailerItem} :
    i ∈ namedItems p s t ↔ i ∈ t.items ∧ IsNamed p s i := by
  simp only [namedItems, List.mem_filter, Bool.and_eq_true, decide_eq_true_eq, List.any_eq_true,
    IsNamed, and_assoc]

/-- Every named code has a describing row. -/
theorem exists_describingRow {s : Staging} {r : StagedPrice} (h : r ∈ s.prices) :
    ∃ b ∈ describingRows s, b.sourceItemCode = r.sourceItemCode := by
  obtain ⟨x, hx, hxk⟩ := exists_priceIncoming h
  obtain ⟨y, hy, hyk⟩ := @Table.exists_mem_distinctOn _ _ _ StagedPrice.sourceItemCode _ _
    ((List.mem_insertionSort fun a b : StagedPrice => a.sourceStoreId ≤ b.sourceStoreId).mpr hx)
  refine ⟨y, hy, hyk.trans ?_⟩
  simp only [StagedPrice.key, Prod.mk.injEq] at hxk
  exact hxk.2.2

section Named

variable {p : ApplyParameters} {s : Staging} {t t' : Tables}

theorem upsertRetailerItems_items (h : upsertRetailerItems p s t = .ok t') :
    t'.nextId = t.nextId + (describingRows s).length ∧
      t'.items = Table.upsert RetailerItem.key
        (fun b : StagedPrice × Nat => (p.retailerId, p.portalId, b.1.sourceItemCode))
        (fun b => ⟨b.2, p.retailerId, p.portalId, b.1.sourceItemCode, b.1.gtin, b.1.description,
          p.appliedAt, p.appliedAt, p.sourceFileId⟩)
        (fun old b => { old with
          gtin := b.1.gtin
          description := b.1.description
          lastSeenAt := p.appliedAt
          lastSourceFileId := p.sourceFileId })
        t.items ((describingRows s).zipIdx t.nextId) := by
  obtain ⟨-, h⟩ := require_bind_eq_ok.mp h
  rw [pure_eq_ok] at h
  subst h
  refine ⟨?_, rfl⟩
  show t.nextId + ((describingRows s).zipIdx t.nextId).length = _
  rw [List.length_zipIdx]

theorem lookup_describingRow {b : StagedPrice × Nat}
    (hb : b ∈ (describingRows s).zipIdx t.nextId) :
    stagedGtin s b.1.sourceItemCode = b.1.gtin := by
  have hunique : Table.UniqueOn StagedPrice.sourceItemCode (describingRows s) :=
    Table.distinctOn_unique _
  rw [stagedGtin, Table.lookup_of_mem hunique (List.fst_mem_of_mem_zipIdx hb)]
  rfl

/-- A named item after the upsert has the GTIN of the file, and is an old item or a fresh one. -/
theorem named_after (h : upsertRetailerItems p s t = .ok t') {i : RetailerItem}
    (hi : i ∈ t'.items) (hn : IsNamed p s i) :
    i.gtin = stagedGtin s i.sourceItemCode ∧
      (t.nextId ≤ i.id ∨ ∃ old ∈ t.items, old.id = i.id ∧ IsNamed p s old ∧
        old.sourceItemCode = i.sourceItemCode) := by
  rw [(upsertRetailerItems_items h).2] at hi
  rcases Table.mem_upsert hi with ⟨-, hnone⟩ | ⟨old, hold, b, hb, hkey, rfl⟩ | ⟨b, hb, rfl⟩
  · -- A named key is always addressed by a describing row.
    obtain ⟨hret, hpor, r, hr, hcode⟩ := hn
    obtain ⟨x, hx, hbcode⟩ := exists_describingRow hr
    obtain ⟨b, hb, rfl⟩ := Table.exists_mem_zipIdx hx t.nextId
    refine absurd ?_ (Table.lookup_eq_none.mp hnone b hb)
    rw [RetailerItem.key, hret, hpor, hbcode, hcode]
  · simp only [RetailerItem.key, Prod.mk.injEq] at hkey
    have hcode : b.1.sourceItemCode = old.sourceItemCode := hkey.2.2
    refine ⟨?_, .inr ⟨old, hold, rfl, hn, rfl⟩⟩
    show b.1.gtin = stagedGtin s old.sourceItemCode
    rw [← hcode, lookup_describingRow hb]
  · exact ⟨(lookup_describingRow hb).symm, .inl (List.le_snd_of_mem_zipIdx hb)⟩

/-- An old named item is still there, under the same id. -/
theorem named_before (h : upsertRetailerItems p s t = .ok t') {old : RetailerItem}
    (hold : old ∈ t.items) (hn : IsNamed p s old) :
    ∃ i ∈ t'.items, IsNamed p s i ∧ i.id = old.id ∧ i.sourceItemCode = old.sourceItemCode := by
  rw [(upsertRetailerItems_items h).2]
  refine ⟨_, List.mem_append_left _ (List.mem_map.mpr ⟨old, hold, rfl⟩), ?_⟩
  cases Table.lookup (fun b : StagedPrice × Nat => (p.retailerId, p.portalId, b.1.sourceItemCode))
    ((describingRows s).zipIdx t.nextId) old.key with
  | none => exact ⟨hn, rfl, rfl⟩
  | some b => exact ⟨hn, rfl, rfl⟩

theorem upsertRetailerItems_id_lt (h : upsertRetailerItems p s t = .ok t')
    (hlt : ∀ i ∈ t.items, i.id < t.nextId) : ∀ i ∈ t'.items, i.id < t'.nextId := by
  obtain ⟨hnext, hitems⟩ := upsertRetailerItems_items h
  intro i hi
  rw [hitems] at hi
  rw [hnext]
  rcases Table.mem_upsert hi with ⟨hold, -⟩ | ⟨old, hold, b, -, -, rfl⟩ | ⟨b, hb, rfl⟩
  · exact Nat.lt_add_right _ (hlt i hold)
  · exact Nat.lt_add_right _ (hlt old hold)
  · exact List.snd_lt_add_of_mem_zipIdx hb

end Named

/-! ## The catalog invariant -/

/-- What the matcher relies on from earlier applies. -/
structure CatalogInvariant (t : Tables) : Prop where
  items_lt : ∀ i ∈ t.items, i.id < t.nextId
  asserted_lt : ∀ a ∈ t.assertions, a.itemId < t.nextId
  unique : Table.UniqueOn Assertion.key t.assertions
  grouped : ∀ a ∈ t.assertions, a.kind = .gtin → a.isLive = true →
    (groupOf t.matchGroups a.value).isSome
  validated : CorroboratedValid t.identifiers

theorem CatalogInvariant.empty : CatalogInvariant Tables.empty where
  items_lt _ h := by cases h
  asserted_lt _ h := by cases h
  unique := List.nodup_nil
  grouped _ h := by cases h
  validated _ h := by cases h

/-- Statements that write none of the matcher's tables keep the invariant. -/
theorem CatalogInvariant.frame {t t' : Tables} (h : CatalogInvariant t)
    (hitems : ∀ i ∈ t'.items, i.id < t'.nextId) (hassertions : t'.assertions = t.assertions)
    (hgroups : t'.matchGroups = t.matchGroups) (hidentifiers : t'.identifiers = t.identifiers)
    (hnext : t.nextId ≤ t'.nextId) : CatalogInvariant t' where
  items_lt := hitems
  asserted_lt a ha := (h.asserted_lt a (hassertions ▸ ha)).trans_le hnext
  unique := hassertions ▸ h.unique
  grouped a ha := by
    rw [hgroups]
    exact h.grouped a (hassertions ▸ ha)
  validated := hidentifiers ▸ h.validated

theorem CatalogInvariant.items_lt_of_le {t t' : Tables} (h : CatalogInvariant t)
    (hitems : t'.items = t.items) (hnext : t.nextId ≤ t'.nextId) :
    ∀ i ∈ t'.items, i.id < t'.nextId :=
  fun i hi => (h.items_lt i (hitems ▸ hi)).trans_le hnext

theorem upsertPriceStores_nextId {p : ApplyParameters} {s : Staging} {t t' : Tables}
    (h : upsertPriceStores p s t = .ok t') : t.nextId ≤ t'.nextId := by
  obtain ⟨-, h⟩ := require_bind_eq_ok.mp h
  rw [pure_eq_ok] at h
  subst h
  exact Nat.le_add_right _ _

theorem CatalogInvariant.priceStores {p : ApplyParameters} {s : Staging} {t t' : Tables}
    (h : CatalogInvariant t) (hstep : upsertPriceStores p s t = .ok t') : CatalogInvariant t' := by
  have hnext := upsertPriceStores_nextId hstep
  have hframe := upsertPriceStores_frame hstep
  refine h.frame (h.items_lt_of_le ?_ hnext) ?_ ?_ ?_ hnext <;> rw [hframe]

theorem CatalogInvariant.retailerItems {p : ApplyParameters} {s : Staging} {t t' : Tables}
    (h : CatalogInvariant t) (hstep : upsertRetailerItems p s t = .ok t') :
    CatalogInvariant t' := by
  have hframe := upsertRetailerItems_frame hstep
  have hnext : t.nextId ≤ t'.nextId := by
    rw [(upsertRetailerItems_items hstep).1]
    exact Nat.le_add_right _ _
  refine h.frame (upsertRetailerItems_id_lt hstep h.items_lt) ?_ ?_ ?_ hnext <;> rw [hframe]

theorem corroboratedValid_scoped {p : ApplyParameters} {items : List RetailerItem}
    {groups : List MatchGroup} {identifiers : List ProductIdentifier}
    (h : CorroboratedValid identifiers) :
    CorroboratedValid (upsertScopedIdentifiers p items groups identifiers) := by
  intro i hi hmethod
  rcases Table.mem_upsert hi with ⟨hold, -⟩ | ⟨old, hold, b, -, -, rfl⟩ | ⟨b, hb, rfl⟩
  · exact h i hold hmethod
  · split at hmethod
    · rename_i hcond
      rw [if_pos hcond]
      exact h old hold hmethod
    · rename_i hcond
      rw [if_neg hcond]
      exact h old hold hmethod
  · obtain ⟨j, -, hj⟩ := List.mem_filterMap.mp (Table.mem_of_mem_distinctOn hb)
    obtain ⟨g, -, hg⟩ := Option.bind_eq_some_iff.mp hj
    obtain ⟨group, -, rfl⟩ := Option.map_eq_some_iff.mp hg
    cases hmethod

theorem corroboratedValid_corroborate {p : ApplyParameters} {items : List RetailerItem}
    {affected : List String} {t : Tables} (h : CorroboratedValid t.identifiers) :
    CorroboratedValid (corroborateIdentifiers p items affected t) := by
  intro i hi hmethod
  rcases mem_upsertCorroborated hi with ⟨old, hold, -, hm, hval⟩ | ⟨-, -, -, -, hval⟩
  · have hkept := (List.mem_filter.mp (mem_of_mem_deleteUncorroborated hold)).1
    exact hval (corroboratedValid_scoped h old hkept (hm.symm.trans hmethod))
  · exact hval

/-- The assertions after a match: those before it, possibly superseded, and those of the file. -/
theorem mem_assertGtins {p : ApplyParameters} {items : List RetailerItem} {t t' : Tables}
    (h : assertGtins p items t = .ok t') {a : Assertion} (ha : a ∈ t'.assertions) :
    (∃ b ∈ t.assertions, a.key = b.key ∧ a.value = b.value ∧
        (a.isLive = true → b.isLive = true)) ∨
      ∃ i ∈ items, a.itemId = i.id ∧ i.gtin = some a.value := by
  obtain ⟨superseded, hsup, hins, -⟩ := assertGtins_eq_ok h
  rw [insertAssertions_eq_ok hins] at ha
  rcases Table.mem_insertNew ha with hold | ⟨hnew, -⟩
  · rw [supersedeAssertions_eq_ok hsup] at hold
    obtain ⟨b, hb, hab⟩ := List.mem_map.mp hold
    refine .inl ⟨b, hb, ?_⟩
    split at hab
    · subst hab
      exact ⟨rfl, rfl, fun hlive => by cases hlive⟩
    · subst hab
      exact ⟨rfl, rfl, fun hlive => hlive⟩
  · obtain ⟨i, hi, hia⟩ := List.mem_filterMap.mp hnew
    obtain ⟨g, hg, rfl⟩ := Option.map_eq_some_iff.mp hia
    exact .inr ⟨i, hi, rfl, hg⟩

theorem CatalogInvariant.matched {p : ApplyParameters} {items : List RetailerItem} {t t' : Tables}
    (h : CatalogInvariant t) (hstep : matchExactGtins p items t = .ok t')
    (hitems : ∀ i ∈ items, i ∈ t.items) : CatalogInvariant t' := by
  obtain ⟨t₁, h₁, rfl⟩ := matchExactGtins_eq_ok hstep
  obtain ⟨superseded, hsup, hins, hframe⟩ := assertGtins_eq_ok h₁
  have hnext : t.nextId ≤ (insertGroups p items t₁).nextId := by
    show t.nextId ≤ t₁.nextId + _
    rw [hframe]
    exact Nat.le_add_right _ _
  have hgroup : ∀ g, (groupOf t.matchGroups g).isSome →
      (groupOf (insertGroups p items t₁).matchGroups g).isSome := by
    intro g hg
    refine groupOf_insertGroups_old ?_
    rw [hframe]
    exact hg
  refine ⟨fun i hi => ?_, fun a ha => ?_, ?_, fun a ha hkind hlive => ?_, ?_⟩
  · have hi' : i ∈ t₁.items := hi
    rw [hframe] at hi'
    exact (h.items_lt i hi').trans_le hnext
  · rcases mem_assertGtins h₁ ha with ⟨b, hb, hkey, -⟩ | ⟨i, hi, hai, -⟩
    · rw [Assertion.key, Assertion.key, Prod.mk.injEq] at hkey
      rw [hkey.1]
      exact (h.asserted_lt b hb).trans_le hnext
    · rw [hai]
      exact (h.items_lt i (hitems i hi)).trans_le hnext
  · show Table.UniqueOn Assertion.key t₁.assertions
    rw [insertAssertions_eq_ok hins]
    exact Table.insertNew_unique (supersede_unique hsup h.unique)
  · show (groupOf (insertGroups p items t₁).matchGroups a.value).isSome
    rcases mem_assertGtins h₁ ha with ⟨b, hb, hkey, hvalue, hblive⟩ | ⟨i, hi, -, hg⟩
    · rw [Assertion.key, Assertion.key, Prod.mk.injEq, Prod.mk.injEq] at hkey
      rw [hvalue]
      exact hgroup _ (h.grouped b hb (hkey.2.1.symm.trans hkind) (hblive hlive))
    · exact groupOf_insertGroups hi hg
  · refine corroboratedValid_corroborate ?_
    show CorroboratedValid t₁.identifiers
    rw [hframe]
    exact h.validated

theorem CatalogInvariant.applyPrices {a : DocumentApply} {t t' : Tables} {summary : ApplySummary}
    (h : CatalogInvariant t) (hstep : applyPrices a t = .ok (t', summary)) :
    CatalogInvariant t' := by
  obtain ⟨t₁, t₂, t₃, maps, _, _, _, _, hstores, hitems, hmaps, _, hgtins, _, _, rfl, _, _⟩ :=
    applyPrices_eq_ok hstep
  have hmatched := ((h.priceStores hstores).retailerItems hitems).matched hgtins (by
    intro i hi
    rw [(materializePriceMaps_eq_ok hmaps).1] at hi
    exact (mem_namedItems.mp hi).1)
  exact hmatched.frame hmatched.items_lt rfl rfl rfl (le_refl _)

theorem CatalogInvariant.applyStores {a : DocumentApply} {t t' : Tables} {summary : ApplySummary}
    (h : CatalogInvariant t) (hstep : applyStores a t = .ok (t', summary)) :
    CatalogInvariant t' := by
  have hframe := applyStores_frame hstep
  have hnext : t.nextId ≤ t'.nextId := by
    obtain ⟨t₁, h₁, rfl⟩ := applyStores_eq_ok hstep
    obtain ⟨-, h₁⟩ := require_bind_eq_ok.mp h₁
    rw [pure_eq_ok] at h₁
    subst h₁
    exact Nat.le_add_right _ _
  refine h.frame (h.items_lt_of_le ?_ hnext) ?_ ?_ ?_ hnext <;> rw [hframe]

theorem ensurePromotionItems_id_lt {p : ApplyParameters} {s : Staging} {t t' : Tables}
    (h : ensurePromotionItems p s t = .ok t') (hlt : ∀ i ∈ t.items, i.id < t.nextId) :
    t.nextId ≤ t'.nextId ∧ ∀ i ∈ t'.items, i.id < t'.nextId := by
  obtain ⟨-, h⟩ := require_bind_eq_ok.mp h
  rw [pure_eq_ok] at h
  subst h
  refine ⟨Nat.le_add_right _ _, fun i hi => ?_⟩
  show i.id < t.nextId + List.length _
  rw [List.length_zipIdx]
  rcases Table.mem_upsert hi with ⟨hold, -⟩ | ⟨old, hold, b, -, -, rfl⟩ | ⟨b, hb, rfl⟩
  · exact Nat.lt_add_right _ (hlt i hold)
  · exact Nat.lt_add_right _ (hlt old hold)
  · exact List.snd_lt_add_of_mem_zipIdx hb

theorem CatalogInvariant.applyPromotions {a : DocumentApply} {t t' : Tables}
    {summary : ApplySummary} (h : CatalogInvariant t)
    (hstep : applyPromotions a t = .ok (t', summary)) : CatalogInvariant t' := by
  have hframe := applyPromotions_frame hstep
  obtain ⟨t₁, t₂, t₃, promotions, h₁, h₂, -, h₃, hend⟩ := applyPromotions_eq_ok hstep
  obtain ⟨hn₁, hlt₁⟩ := ensurePromotionItems_id_lt h₁ h.items_lt
  have hn₂ : t₁.nextId ≤ t₂.nextId := by
    obtain ⟨-, h₂⟩ := require_bind_eq_ok.mp h₂
    obtain ⟨-, h₂⟩ := require_bind_eq_ok.mp h₂
    rw [pure_eq_ok] at h₂
    subst h₂
    exact Nat.le_add_right _ _
  have hn₃ : t₂.nextId ≤ t₃.nextId := by
    obtain ⟨-, h₃⟩ := require_bind_eq_ok.mp h₃
    rw [pure_eq_ok] at h₃
    subst h₃
    exact Nat.le_add_right _ _
  have hitems₃ : t₃.items = t₁.items := by
    rw [(insertPromotions_eq_ok h₃).2, ensurePromotionStores_frame h₂]
  have hend' : t'.items = t₁.items ∧ t'.nextId = t₃.nextId := by
    rcases hend with ⟨-, rfl⟩ | ⟨-, n, hn⟩
    · exact ⟨hitems₃, rfl⟩
    · rw [(closeAbsentPromotions_eq_ok hn).2]
      exact ⟨hitems₃, rfl⟩
  have hnext : t₁.nextId ≤ t'.nextId := by
    rw [hend'.2]
    exact hn₂.trans hn₃
  refine h.frame (fun i hi => ?_) ?_ ?_ ?_ (hn₁.trans hnext)
  · rw [hend'.1] at hi
    exact (hlt₁ i hi).trans_le hnext
  all_goals rw [hframe]

/-- Every accepted apply keeps the invariant. -/
theorem CatalogInvariant.apply {r : ApplyRequest} {t t' : Tables} {summary : ApplySummary}
    (h : CatalogInvariant t) (hstep : Makolet.Normalized.apply r t = .ok (t', summary)) :
    CatalogInvariant t' := by
  obtain ⟨family, -, -, hwrite⟩ := apply_eq_ok hstep
  obtain ⟨written, hwritten, rfl⟩ := writeDocument_eq_ok hwrite
  have hclaimed : CatalogInvariant (claimContent r t).1 := by
    rw [claimContent_frame]
    exact h.frame h.items_lt rfl rfl rfl (le_refl _)
  have hdone : CatalogInvariant written := by
    cases family with
    | stores => exact hclaimed.applyStores hwritten
    | prices => exact hclaimed.applyPrices hwritten
    | promotions => exact hclaimed.applyPromotions hwritten
  exact hdone.frame hdone.items_lt rfl rfl rfl (le_refl _)

/-! ## One price apply -/

section Match

variable {p : ApplyParameters} {items : List RetailerItem} {t t' : Tables}

/-- The named items all have their one live assertion exactly when the assertions that the file had
made for them are live and of the same GTIN. -/
theorem matchExactGtins_one_live (h : matchExactGtins p items t = .ok t')
    (hu : Table.UniqueOn Assertion.key t.assertions) (hids : Table.UniqueOn RetailerItem.id items)
    {i : RetailerItem} (hi : i ∈ items) {g : String} (hg : i.gtin = some g) :
    (∃ a, liveGtinAssertions t' i.id = [a] ∧ a.value = g) ↔
      ∀ e ∈ t.assertions, e.key = (i.id, .gtin, p.sourceFileId) → e.isLive = true ∧ e.value = g := by
  obtain ⟨t₁, h₁, rfl⟩ := matchExactGtins_eq_ok h
  obtain ⟨superseded, hsup, hins, -⟩ := assertGtins_eq_ok h₁
  exact one_live_iff hsup hins hu hids hi hg

/-- Every affected GTIN has a group once the groups are inserted. -/
theorem groupOf_affected (h : CatalogInvariant t) {t₁ : Tables} (h₁ : assertGtins p items t = .ok t₁)
    {g : String} (hg : g ∈ affectedGtins items t.assertions) :
    (groupOf (insertGroups p items t₁).matchGroups g).isSome := by
  obtain ⟨-, -, -, hframe⟩ := assertGtins_eq_ok h₁
  rw [affectedGtins, List.mem_dedup, List.mem_append] at hg
  rcases hg with hnamed | hasserted
  · obtain ⟨i, hi, hig⟩ := List.mem_filterMap.mp hnamed
    exact groupOf_insertGroups hi hig
  · obtain ⟨a, ha, rfl⟩ := List.mem_map.mp hasserted
    obtain ⟨hmem, hlive⟩ := List.mem_filter.mp ha
    rw [Assertion.isLiveGtinOf, Bool.and_eq_true, Bool.and_eq_true, decide_eq_true_eq] at hlive
    refine groupOf_insertGroups_old ?_
    rw [hframe]
    exact h.grouped a hmem hlive.1.1 hlive.1.2

theorem matchExactGtins_corroborated (hinv : CatalogInvariant t)
    (h : matchExactGtins p items t = .ok t') {g : String}
    (hg : g ∈ affectedGtins items t.assertions) (hslot : ¬ HeldByOther t'.identifiers g) :
    (∃ i ∈ t'.identifiers, i.isCorroborationOf g = true ∧ i.isValidated = true) ↔
      2 ≤ (liveRetailers t' g).length := by
  obtain ⟨t₁, h₁, rfl⟩ := matchExactGtins_eq_ok h
  obtain ⟨-, -, -, hframe⟩ := assertGtins_eq_ok h₁
  have hvalid : CorroboratedValid (deleteStaleScoped (affectedGtins items t.assertions)
      (liveGtinRetailers (affectedGtins items t.assertions) (insertGroups p items t₁).assertions
        (insertGroups p items t₁).items)
      (upsertScopedIdentifiers p items (insertGroups p items t₁).matchGroups
        (insertGroups p items t₁).identifiers)) := by
    intro i hi hmethod
    refine corroboratedValid_scoped ?_ i (List.mem_filter.mp hi).1 hmethod
    show CorroboratedValid t₁.identifiers
    rw [hframe]
    exact hinv.validated
  have hiff := corroborated_iff hg (groupOf_affected hinv h₁ hg) hvalid hslot
  rw [retailerCount_eq hg] at hiff
  exact hiff

end Match

/-- What the claim of a price file asks of the tables after it. -/
structure GtinEvidence (p : ApplyParameters) (s : Staging) (before after : Tables) : Prop where
  /-- A named item with a GTIN has one live assertion, of that GTIN. -/
  one_live : ∀ i ∈ namedItems p s after, ∀ g, i.gtin = some g →
    ∃ a, liveGtinAssertions after i.id = [a] ∧ a.value = g
  /-- The corroborated identifier of an affected GTIN exists while two retailers assert it. -/
  corroborated : ∀ g ∈ affectedGtins (namedItems p s after) before.assertions,
    ¬ HeldByOther after.identifiers g →
      ((∃ i ∈ after.identifiers, i.isCorroborationOf g = true ∧ i.isValidated = true) ↔
        2 ≤ (liveRetailers after g).length)
  /-- Operator decisions stay as they are. -/
  operator_kept : ∀ m ∈ before.confirmedMatches, m.isOperator = true → m ∈ after.confirmedMatches

/-- Every assertion that the file has already made for an item it names is still live and of the
GTIN that the file gives the item. -/
def ReassertsLive (p : ApplyParameters) (s : Staging) (t : Tables) : Prop :=
  ∀ a ∈ t.assertions, a.kind = .gtin → a.sourceFileId = p.sourceFileId →
    ∀ i ∈ t.items, i.id = a.itemId → IsNamed p s i →
      ∀ g, stagedGtin s i.sourceItemCode = some g → a.isLive = true ∧ a.value = g

/-- After an accepted price apply the evidence is as it should be exactly when the file asserts
nothing again that was superseded. -/
theorem applyPrices_evidence {a : DocumentApply} {t t' : Tables} {summary : ApplySummary}
    (hinv : CatalogInvariant t) (h : applyPrices a t = .ok (t', summary)) :
    GtinEvidence a.parameters a.staging t t' ↔ ReassertsLive a.parameters a.staging t := by
  obtain ⟨t₁, t₂, t₃, maps, _, prices, _, final, hstores, hitems, hmaps, _, hgtins, _, _, rfl, _, _⟩ :=
    applyPrices_eq_ok h
  obtain ⟨hmaps, hids⟩ := materializePriceMaps_eq_ok hmaps
  have hinv₁ := hinv.priceStores hstores
  have hinv₂ := hinv₁.retailerItems hitems
  have hstoresFrame := upsertPriceStores_frame hstores
  have hitemsFrame := upsertRetailerItems_frame hitems
  have hasserted : t₂.assertions = t.assertions := by rw [hitemsFrame, hstoresFrame]
  have hmatches : t₂.confirmedMatches = t.confirmedMatches := by rw [hitemsFrame, hstoresFrame]
  have holditems : t₁.items = t.items := by rw [hstoresFrame]
  have hkeep : t₃.items = t₂.items := by rw [matchExactGtins_frame hgtins]
  have hnamed : namedItems a.parameters a.staging
      { t₃ with prices := prices, availability := final } = maps.1 := by
    rw [hmaps]
    show List.filter _ t₃.items = _
    rw [hkeep]
    rfl
  have hone := fun {i : RetailerItem} (hi : i ∈ maps.1) {g : String} (hg : i.gtin = some g) =>
    matchExactGtins_one_live hgtins hinv₂.unique hids hi hg
  rw [hasserted] at hone
  constructor
  · -- A file that asserted an item before is bound to the row it made then.
    intro hev e he hkind hsource old hold hid hn g hg
    obtain ⟨i, hi, hin, hii, hcode⟩ := named_before hitems (holditems ▸ hold) hn
    have himaps : i ∈ maps.1 := by
      rw [hmaps]
      exact mem_namedItems.mpr ⟨hi, hin⟩
    have hgtin : i.gtin = some g := by rw [(named_after hitems hi hin).1, hcode, hg]
    refine (hone himaps hgtin).mp (hev.one_live i (hnamed ▸ himaps) g hgtin) e he ?_
    rw [Assertion.key, ← hid, hkind, hsource, hii]
  · intro hlive
    refine ⟨fun i hi g hg => ?_, fun g hg hslot => ?_, fun m hm hop => ?_⟩
    · rw [hnamed] at hi
      refine (hone hi hg).mpr fun e he hkey => ?_
      rw [Assertion.key, Prod.mk.injEq, Prod.mk.injEq] at hkey
      obtain ⟨hitem, hkind, hsource⟩ := hkey
      rw [hmaps] at hi
      obtain ⟨hi, hin⟩ := mem_namedItems.mp hi
      obtain ⟨hgtin, hfresh | ⟨old, hold, hid, holdn, hcode⟩⟩ := named_after hitems hi hin
      · -- A fresh item has no earlier assertion.
        have hlt : e.itemId < t₁.nextId := hinv₁.asserted_lt e (by rw [hstoresFrame]; exact he)
        rw [hitem] at hlt
        exact absurd hlt (Nat.not_lt.mpr hfresh)
      · refine hlive e he hkind hsource old (holditems ▸ hold) (hid.trans hitem.symm) holdn g ?_
        rw [hcode, ← hgtin, hg]
    · rw [hnamed, ← hasserted] at hg
      exact matchExactGtins_corroborated hinv₂ hgtins hg hslot
    · exact mem_matchExactGtins hgtins (hmatches ▸ hm) (isAutomatic_of_isOperator hop)

/-! ## Runs

Between two applies the catalog may give an item without a match an isolated product, an operator
may accept a candidate in its place, and identifiers of other methods may appear. -/

/-- A write to the catalog. -/
inductive CatalogEvent
  | apply (r : ApplyRequest)
  | isolate (item : ItemId) (product : ProductId) (time : Time)
  | accept (item : ItemId) (product : ProductId) (time : Time) (reviewedBy : String)
  | identify (i : ProductIdentifier)

/-- The last price apply: its parameters, what it staged and the tables it found. -/
structure LastApply where
  parameters : ApplyParameters
  staging : Staging
  before : Tables

/-- The tables, with the price apply that was the last step, if it was one. -/
structure CatalogState where
  tables : Tables
  last : Option LastApply

/-- `_ISOLATED_ACTOR`. -/
def isolatedActor : String := "system:isolated-catalog"

/-- The row that `_bootstrap_isolated_products` inserts. -/
def isolatedMatch (item : ItemId) (product : ProductId) (time : Time) : ConfirmedMatch :=
  ⟨item, product, .isolatedRetailerItem, none, time, isolatedActor⟩

def ConfirmedMatch.isIsolatedOf (item : ItemId) (m : ConfirmedMatch) : Bool :=
  decide (m.itemId = item ∧ m.method = .isolatedRetailerItem ∧ m.confirmedBy = isolatedActor)

/-- The update of `accept_candidate`, which replaces an isolated match only. -/
def acceptCandidate (item : ItemId) (product : ProductId) (time : Time) (reviewedBy : String)
    (confirmed : List ConfirmedMatch) : List ConfirmedMatch :=
  confirmed.map fun m =>
    if m.isIsolatedOf item then ⟨item, product, .manualReview, none, time, reviewedBy⟩ else m

/-- The methods whose identifiers the exact matcher writes. -/
def ProductIdentifier.isMatcherOwned (i : ProductIdentifier) : Bool :=
  decide (i.validationMethod ∈ [.retailerAssertion, .independentRetailerCorroboration])

def CatalogState.next (s : CatalogState) : CatalogEvent → Option CatalogState
  | .apply r =>
    match apply r s.tables with
    | .error _ => none
    | .ok (t, _) => some ⟨t, if family? r.documentType = some .prices then
        some ⟨(r.documentApply (claimContent r s.tables).2).parameters, r.staging, s.tables⟩
      else none⟩
  | .isolate item product time =>
    if s.tables.confirmedMatches.all fun m => decide (m.itemId ≠ item) then
      some ⟨{ s.tables with
        confirmedMatches := s.tables.confirmedMatches ++ [isolatedMatch item product time] }, none⟩
    else none
  | .accept item product time reviewedBy =>
    if s.tables.confirmedMatches.any (ConfirmedMatch.isIsolatedOf item) then
      some ⟨{ s.tables with
        confirmedMatches := acceptCandidate item product time reviewedBy s.tables.confirmedMatches },
        none⟩
    else none
  | .identify i =>
    if i.isMatcherOwned = false ∧ ∀ j ∈ s.tables.identifiers, j.key ≠ i.key then
      some ⟨{ s.tables with identifiers := s.tables.identifiers ++ [i] }, none⟩
    else none

def catalogSystem : Makolet.Lib.System CatalogState CatalogEvent where
  init s := s = ⟨Tables.empty, none⟩
  next := CatalogState.next

/-- After a price apply the assertions, the corroboration and the operator decisions are as the
last applied file has it. -/
def EvidenceFollows (s : CatalogState) : Prop :=
  ∀ l ∈ s.last, GtinEvidence l.parameters l.staging l.before s.tables

/-- The side condition of a step: a price apply asserts nothing again that was superseded. -/
def ReassertsOnlyLive (s : CatalogState) : CatalogEvent → Prop
  | .apply r => family? r.documentType = some .prices →
    ReassertsLive (r.documentApply (claimContent r s.tables).2).parameters r.staging s.tables
  | _ => True

/-- The evidence after an accepted apply of a price file. -/
theorem apply_evidence {r : ApplyRequest} {t t' : Tables} {summary : ApplySummary}
    (hinv : CatalogInvariant t) (h : apply r t = .ok (t', summary))
    (hfamily : family? r.documentType = some .prices) :
    GtinEvidence (r.documentApply (claimContent r t).2).parameters r.staging t t' ↔
      ReassertsLive (r.documentApply (claimContent r t).2).parameters r.staging t := by
  obtain ⟨family, hf, -, hwrite⟩ := apply_eq_ok h
  cases hfamily.symm.trans hf
  obtain ⟨written, hwritten, rfl⟩ := writeDocument_eq_ok hwrite
  have hclaimed : CatalogInvariant (claimContent r t).1 := by
    rw [claimContent_frame]
    exact hinv.frame hinv.items_lt rfl rfl rfl (le_refl _)
  have hiff := applyPrices_evidence hclaimed hwritten
  -- The claim and the watermarks are no part of the evidence.
  rw [claimContent_frame] at hiff
  refine Iff.trans ?_ hiff
  constructor
  · exact fun hev => ⟨hev.one_live, hev.corroborated, hev.operator_kept⟩
  · exact fun hev => ⟨hev.one_live, hev.corroborated, hev.operator_kept⟩

/-- What a step of the catalog is. -/
theorem catalog_cases {s s' : CatalogState} {e : CatalogEvent}
    (h : catalogSystem.next s e = some s') :
    (∃ r summary, e = .apply r ∧ apply r s.tables = .ok (s'.tables, summary) ∧
      s'.last = if family? r.documentType = some .prices then
          some ⟨(r.documentApply (claimContent r s.tables).2).parameters, r.staging, s.tables⟩
        else none) ∨
    (∃ item product time, e = .isolate item product time ∧
      s' = ⟨{ s.tables with
        confirmedMatches := s.tables.confirmedMatches ++ [isolatedMatch item product time] },
        none⟩) ∨
    (∃ item product time reviewedBy, e = .accept item product time reviewedBy ∧
      s' = ⟨{ s.tables with
        confirmedMatches := acceptCandidate item product time reviewedBy s.tables.confirmedMatches },
        none⟩) ∨
    (∃ i, e = .identify i ∧ i.isMatcherOwned = false ∧
      s' = ⟨{ s.tables with identifiers := s.tables.identifiers ++ [i] }, none⟩) := by
  cases e with
  | apply r =>
    simp only [catalogSystem, CatalogState.next] at h
    split at h
    · cases h
    · rename_i t summary happly
      cases h
      exact .inl ⟨r, summary, rfl, happly, rfl⟩
  | isolate item product time =>
    simp only [catalogSystem, CatalogState.next] at h
    split at h
    · cases h
      exact .inr (.inl ⟨item, product, time, rfl, rfl⟩)
    · cases h
  | accept item product time reviewedBy =>
    simp only [catalogSystem, CatalogState.next] at h
    split at h
    · cases h
      exact .inr (.inr (.inl ⟨item, product, time, reviewedBy, rfl, rfl⟩))
    · cases h
  | identify i =>
    simp only [catalogSystem, CatalogState.next] at h
    split at h
    · rename_i hcond
      cases h
      exact .inr (.inr (.inr ⟨i, rfl, hcond.1, rfl⟩))
    · cases h

theorem catalog_invariant {ok : CatalogState → CatalogEvent → Prop} {s : CatalogState}
    (hs : Reach catalogSystem ok s) : CatalogInvariant s.tables := by
  refine hs.invariant (P := fun s => CatalogInvariant s.tables) ?_ ?_
  · intro s hinit
    rw [show s = ⟨Tables.empty, none⟩ from hinit]
    exact .empty
  · intro s e s' hinv _ hnext
    obtain ⟨r, summary, rfl, happly, -⟩ | ⟨_, _, _, rfl, rfl⟩ | ⟨_, _, _, _, rfl, rfl⟩ |
      ⟨i, rfl, hmethod, rfl⟩ := catalog_cases hnext
    · exact hinv.apply happly
    · exact hinv.frame hinv.items_lt rfl rfl rfl (le_refl _)
    · exact hinv.frame hinv.items_lt rfl rfl rfl (le_refl _)
    · refine ⟨hinv.items_lt, hinv.asserted_lt, hinv.unique, hinv.grouped, fun j hj hj' => ?_⟩
      rcases List.mem_append.mp hj with hold | hnew
      · exact hinv.validated j hold hj'
      · rw [List.mem_singleton.mp hnew] at hj'
        simp [ProductIdentifier.isMatcherOwned, hj'] at hmethod

/-- Operator decisions survive every apply, of whatever family. -/
theorem apply_operator_kept {r : ApplyRequest} {t t' : Tables} {summary : ApplySummary}
    (h : apply r t = .ok (t', summary)) {m : ConfirmedMatch} (hm : m ∈ t.confirmedMatches)
    (hop : m.isOperator = true) : m ∈ t'.confirmedMatches := by
  obtain ⟨family, -, -, hwrite⟩ := apply_eq_ok h
  obtain ⟨written, hwritten, rfl⟩ := writeDocument_eq_ok hwrite
  have hclaimed : m ∈ (claimContent r t).1.confirmedMatches := by
    rw [claimContent_frame]
    exact hm
  show m ∈ written.confirmedMatches
  cases family with
  | stores =>
    rw [applyStores_frame hwritten]
    exact hclaimed
  | prices =>
    obtain ⟨t₁, t₂, t₃, maps, _, _, _, _, hstores, hitems, _, _, hgtins, _, _, rfl, _, _⟩ :=
      applyPrices_eq_ok hwritten
    refine mem_matchExactGtins hgtins ?_ (isAutomatic_of_isOperator hop)
    rw [upsertRetailerItems_frame hitems, upsertPriceStores_frame hstores]
    exact hclaimed
  | promotions =>
    rw [applyPromotions_frame hwritten]
    exact hclaimed

theorem catalog_operator_kept {s s' : CatalogState} {e : CatalogEvent}
    (h : catalogSystem.next s e = some s') {m : ConfirmedMatch}
    (hm : m ∈ s.tables.confirmedMatches) (hop : m.isOperator = true) :
    m ∈ s'.tables.confirmedMatches := by
  obtain ⟨r, summary, rfl, happly, -⟩ | ⟨_, _, _, rfl, rfl⟩ | ⟨item, _, _, _, rfl, rfl⟩ |
    ⟨i, rfl, -, rfl⟩ := catalog_cases h
  · exact apply_operator_kept happly hm hop
  · exact List.mem_append_left _ hm
  · refine List.mem_map.mpr ⟨m, hm, ?_⟩
    have hmethod := of_decide_eq_true hop
    rw [if_neg]
    simp [ConfirmedMatch.isIsolatedOf, hmethod]
  · exact hm

/-- In every run in which price files assert nothing again that was superseded, the live evidence
is as the last price file has it; a price apply that does loses it; operator decisions are kept by
every step. -/
theorem evidence_follows_live_assertions (s : CatalogState) :
    (Reach catalogSystem ReassertsOnlyLive s → EvidenceFollows s) ∧
      (∀ r s', Reach catalogSystem Any s → catalogSystem.next s (.apply r) = some s' →
        (EvidenceFollows s' ↔ ReassertsOnlyLive s (.apply r))) ∧
      ∀ e s', Reach catalogSystem Any s → catalogSystem.next s e = some s' →
        ∀ m ∈ s.tables.confirmedMatches, m.isOperator = true → m ∈ s'.tables.confirmedMatches := by
  have hstep : ∀ s r s', CatalogInvariant s.tables → catalogSystem.next s (.apply r) = some s' →
      (EvidenceFollows s' ↔ ReassertsOnlyLive s (.apply r)) := by
    intro s r s' hinv hnext
    obtain ⟨r', summary, he, happly, hlast⟩ | ⟨_, _, _, he, -⟩ | ⟨_, _, _, _, he, -⟩ |
      ⟨_, he, -, -⟩ := catalog_cases hnext
    · cases he
      rw [EvidenceFollows, hlast, ReassertsOnlyLive]
      by_cases hfamily : family? r.documentType = some .prices
      · rw [if_pos hfamily, ← apply_evidence hinv happly hfamily]
        simp only [Option.mem_def, Option.some.injEq, forall_eq', hfamily, true_implies]
      · simp [hfamily]
    all_goals cases he
  refine ⟨fun hs => ?_, fun r s' hs hnext => hstep s r s' (catalog_invariant hs) hnext,
    fun e s' _ hnext m hm hop => catalog_operator_kept hnext hm hop⟩
  refine hs.invariant_of (P := EvidenceFollows) ?_ ?_
  · intro s hinit l hl
    rw [show s = ⟨Tables.empty, none⟩ from hinit] at hl
    cases hl
  · intro s e s' hreach _ hok hnext
    obtain ⟨r, _, rfl, -, -⟩ | ⟨_, _, _, rfl, rfl⟩ | ⟨_, _, _, _, rfl, rfl⟩ | ⟨_, rfl, -, rfl⟩ :=
      catalog_cases hnext
    · exact (hstep s r s' (catalog_invariant hreach) hnext).mpr hok
    all_goals
      intro l hl
      cases hl

/-- The replay of an archived price delta of one store, declared at the instant 100, with one
record whose item code is a GTIN. -/
def sampleGtinReplay (fileId : FileId) (store : String) : ApplyRequest :=
  { samplePriceRequest fileId 100 200 (toString fileId) with
    source := ⟨1, 1, .priceDelta, .archived, some 100, some 90, 90, some (toString fileId)⟩
    staging := { Staging.empty with
      prices := [{ sampleRecord store "00000000" 500 with gtin := some "00000000" }] }
    replayActive := true }

/-- A file of one retailer with the GTIN and an item without, an operator who accepts a match of the
latter, and a file of another retailer with the same GTIN. -/
def corroboratingEvents : List CatalogEvent :=
  [.apply { sampleGtinReplay 1 "17" with
      staging := { Staging.empty with
        prices := [{ sampleRecord "17" "00000000" 500 with gtin := some "00000000" },
          { sampleRecord "17" "4001" 700 with recordIndex := 1 }] } },
    .isolate 2 50 150, .accept 2 51 160 "operator",
    .apply { sampleGtinReplay 2 "18" with
      source := ⟨2, 2, .priceDelta, .archived, some 100, some 90, 90, some "2"⟩ }]

/-- An apply of a file that has asserted nothing yet. -/
def AssertsFirst (s : CatalogState) : CatalogEvent → Prop
  | .apply r => ∀ a ∈ s.tables.assertions, a.sourceFileId ≠ r.sourceFileId
  | _ => True

instance (s : CatalogState) : (e : CatalogEvent) → Decidable (AssertsFirst s e)
  | .apply _ => inferInstanceAs (Decidable (∀ a ∈ s.tables.assertions, _))
  | .isolate _ _ _ | .accept _ _ _ _ | .identify _ => instDecidableTrue

theorem reassertsOnlyLive_of_assertsFirst {s : CatalogState} {e : CatalogEvent}
    (h : AssertsFirst s e) : ReassertsOnlyLive s e := by
  cases e with
  | apply r => exact fun _ a ha _ hfile => absurd hfile (h a ha)
  | _ => trivial

/-- Two retailers assert the GTIN, and the operator's match stays. -/
theorem evidence_follows_live_assertions_sample :
    EvidenceFollows (catalogSystem.afterChecked AssertsFirst ⟨Tables.empty, none⟩
        corroboratingEvents) ∧
      (catalogSystem.afterChecked AssertsFirst ⟨Tables.empty, none⟩
        corroboratingEvents).tables.identifiers.map ProductIdentifier.validationMethod =
          [.retailerAssertion, .retailerAssertion, .independentRetailerCorroboration] ∧
      (catalogSystem.afterChecked AssertsFirst ⟨Tables.empty, none⟩
        corroboratingEvents).tables.confirmedMatches.map ConfirmedMatch.method =
          [.exactValidatedGtin, .manualReview, .exactValidatedGtin] := by
  refine ⟨(evidence_follows_live_assertions _).1 ?_, by decide +kernel, by decide +kernel⟩
  refine Reach.mono (fun _ _ => reassertsOnlyLive_of_assertsFirst)
    (reach_afterChecked corroboratingEvents rfl ?_)
  decide +kernel

/-- The first file again, after the second one superseded its assertion: the item has a GTIN and no
live assertion. -/
def replayedFileEvents : List CatalogEvent :=
  [.apply (sampleGtinReplay 1 "17"), .apply (sampleGtinReplay 2 "18"),
    .apply (sampleGtinReplay 1 "17")]

theorem replayed_file_loses_assertion :
    ¬ ∀ s, Reach catalogSystem Any s → EvidenceFollows s := by
  intro hall
  have hrun : (catalogSystem.run ⟨Tables.empty, none⟩ replayedFileEvents).isSome = true := by
    decide +kernel
  have hev := hall _ (reach_after replayedFileEvents rfl hrun)
  have hlast : ∃ l, (catalogSystem.after ⟨Tables.empty, none⟩ replayedFileEvents).last = some l ∧
      ∃ i ∈ namedItems l.parameters l.staging
        (catalogSystem.after ⟨Tables.empty, none⟩ replayedFileEvents).tables,
        i.gtin = some "00000000" ∧ liveGtinAssertions
          (catalogSystem.after ⟨Tables.empty, none⟩ replayedFileEvents).tables i.id = [] := by
    have hsome : ((catalogSystem.after ⟨Tables.empty, none⟩ replayedFileEvents).last.any fun l =>
        (namedItems l.parameters l.staging
          (catalogSystem.after ⟨Tables.empty, none⟩ replayedFileEvents).tables).any fun i =>
          decide (i.gtin = some "00000000") && (liveGtinAssertions
            (catalogSystem.after ⟨Tables.empty, none⟩ replayedFileEvents).tables i.id).isEmpty) =
        true := by
      decide +kernel
    rw [Option.any_eq_true] at hsome
    obtain ⟨l, hl, hitem⟩ := hsome
    obtain ⟨i, hi, hcond⟩ := List.any_eq_true.mp hitem
    rw [Bool.and_eq_true, decide_eq_true_eq, List.isEmpty_iff] at hcond
    exact ⟨l, hl, i, hi, hcond⟩
  obtain ⟨l, hl, i, hi, hgtin, hnone⟩ := hlast
  obtain ⟨a, ha, -⟩ := (hev l hl).one_live i hi _ hgtin
  rw [hnone] at ha
  cases ha

end Makolet.Normalized
