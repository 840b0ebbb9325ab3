import Makolet.Catalog.Review
import Makolet.Normalized.Identities

/-!
# What every apply keeps of the catalog

`Represented` relates the tables of the catalog to each other: which products the match groups own,
which ones isolated matches own, and whose identifier the code of a retailer's item is. The exact
matcher of an apply writes groups, identifiers of the kind GTIN and automatic matches; it never
takes a product of an isolated match, and it leaves the identifiers of retailer items alone.
-/

set_option autoImplicit false

namespace Makolet.Catalog

open Makolet.Domain Makolet.Lib Makolet.Normalized

/-- The product of a match group. -/
def IsGrouped (t : Tables) (product : ProductId) : Prop :=
  ∃ g ∈ t.matchGroups, g.productId = product

/-- A row of `canonical_products`. -/
def IsProduct (t : Tables) (product : ProductId) : Prop :=
  ∃ r ∈ t.products, r.id = product

/-- Who decided a match, and on which kind of product it is. -/
def Decided (t : Tables) (m : ConfirmedMatch) : Prop :=
  m.isAutomatic = true ∧ IsGrouped t m.productId ∨ IsIsolated m ∧ ¬ IsGrouped t m.productId ∨
    m.method = .manualReview

theorem isAutomatic_of_isIsolated {m : ConfirmedMatch} (h : IsIsolated m) :
    m.isAutomatic = false := by
  simp [ConfirmedMatch.isAutomatic, h.1]

theorem isAutomatic_of_manual {m : ConfirmedMatch} (h : m.method = .manualReview) :
    m.isAutomatic = false := by
  simp [ConfirmedMatch.isAutomatic, h]

/-- The invariant of the tables. -/
structure Represented (t : Tables) : Prop where
  items : Identified RetailerItem.id RetailerItem.key t.items t.nextId
  products_lt : ∀ r ∈ t.products, r.id < t.nextId
  grouped_product : ∀ p, IsGrouped t p → IsProduct t p
  gtin_grouped : ∀ i ∈ t.identifiers, i.kind = .gtin → IsGrouped t i.productId
  conflict_grouped : ∀ c ∈ t.candidates, IsGrouped t c.productId
  conflict_item : ∀ c ∈ t.candidates, ∃ k, itemIdOf t k = some c.itemId
  matches_unique : Table.UniqueOn ConfirmedMatch.itemId t.confirmedMatches
  matched_item : ∀ m ∈ t.confirmedMatches, ∃ k, itemIdOf t k = some m.itemId
  matched_product : ∀ m ∈ t.confirmedMatches, IsProduct t m.productId
  decided : ∀ m ∈ t.confirmedMatches, Decided t m
  identifiers_unique : Table.UniqueOn ProductIdentifier.key t.identifiers
  /-- An isolated or reviewed item has its identifier on the product of its match. -/
  identified : ∀ m ∈ t.confirmedMatches, m.isAutomatic = false →
    ∀ k, itemIdOf t k = some m.itemId →
      ∃ i ∈ t.identifiers, i.key = retailerIdentifierKey k ∧ i.productId = m.productId
  /-- No other item has one. -/
  owned : ∀ i ∈ t.identifiers, i.kind = .retailerItem →
    ∃ m ∈ t.confirmedMatches, m.isAutomatic = false ∧
      ∃ k, itemIdOf t k = some m.itemId ∧ i.key = retailerIdentifierKey k

namespace Represented

theorem empty : Represented Tables.empty where
  items := IdentityKeyed.empty.items
  products_lt _ h := by cases h
  grouped_product _ h := by
    obtain ⟨_, h, -⟩ := h
    cases h
  gtin_grouped _ h := by cases h
  conflict_grouped _ h := by cases h
  conflict_item _ h := by cases h
  matches_unique := List.nodup_nil
  matched_item _ h := by cases h
  matched_product _ h := by cases h
  decided _ h := by cases h
  identifiers_unique := List.nodup_nil
  identified _ h := by cases h
  owned _ h := by cases h

variable {t t' : Tables}

/-- The match of an item is found. -/
theorem matchOf_of_mem (h : Represented t) {m : ConfirmedMatch} (hm : m ∈ t.confirmedMatches) :
    matchOf t m.itemId = some m :=
  Table.lookup_of_mem h.matches_unique hm

/-- The id under a later key is the one under the earlier key of the same id. -/
theorem key_eq (h : Represented t) (hkeeps : KeepsIdentities t t')
    {k k' : RetailerId × PortalId × String} {item : ItemId} (hk : itemIdOf t k = some item)
    (hk' : itemIdOf t' k' = some item) : k' = k :=
  (hkeeps.keyedItems h.items).idAt_injective hk' (hkeeps.items k item hk)

end Represented

/-- What a statement keeps of the catalog: the products and which of them a group has, the ids of
the items, and the matches that are not automatic. -/
structure KeepsCatalog (t t' : Tables) : Prop where
  represented : Represented t'
  products : ∀ p, IsProduct t p → IsProduct t' p
  grouped : ∀ p, IsGrouped t p → IsGrouped t' p
  ungrouped : ∀ p, IsProduct t p → IsGrouped t' p → IsGrouped t p
  items : ∀ k i, itemIdOf t k = some i → itemIdOf t' k = some i
  matches_iff : ∀ m : ConfirmedMatch, m.isAutomatic = false →
    (m ∈ t'.confirmedMatches ↔ m ∈ t.confirmedMatches)

namespace KeepsCatalog

variable {t t' : Tables}

theorem trans {t'' : Tables} (h : KeepsCatalog t t') (h' : KeepsCatalog t' t'') :
    KeepsCatalog t t'' where
  represented := h'.represented
  products p hp := h'.products p (h.products p hp)
  grouped p hp := h'.grouped p (h.grouped p hp)
  ungrouped p hp hg := h.ungrouped p hp (h'.ungrouped p (h.products p hp) hg)
  items k i hk := h'.items k i (h.items k i hk)
  matches_iff m hm := (h'.matches_iff m hm).trans (h.matches_iff m hm)

/-- Statements that write items and their keys only. -/
theorem of_identities (h : Represented t) (hkeeps : KeepsIdentities t t')
    (hgroups : t'.matchGroups = t.matchGroups) (hproducts : t'.products = t.products)
    (hidentifiers : t'.identifiers = t.identifiers)
    (hmatches : t'.confirmedMatches = t.confirmedMatches)
    (hcandidates : t'.candidates = t.candidates) : KeepsCatalog t t' := by
  have hgrouped : ∀ p, IsGrouped t' p ↔ IsGrouped t p := fun p => by
    rw [IsGrouped, IsGrouped, hgroups]
  have hproduct : ∀ p, IsProduct t' p ↔ IsProduct t p := fun p => by
    rw [IsProduct, IsProduct, hproducts]
  refine ⟨⟨hkeeps.keyedItems h.items, fun r hr => ?_, fun p hp => ?_, fun i hi hkind => ?_,
    fun c hc => ?_, fun c hc => ?_, ?_, fun m hm => ?_, fun m hm => ?_, fun m hm => ?_, ?_,
    fun m hm hauto k hk => ?_, fun i hi hkind => ?_⟩, fun p => (hproduct p).mpr,
    fun p => (hgrouped p).mpr, fun p _ => (hgrouped p).mp, hkeeps.items,
    fun m _ => by rw [hmatches]⟩
  · exact (h.products_lt r (hproducts ▸ hr)).trans_le hkeeps.nextId
  · exact (hproduct p).mpr (h.grouped_product p ((hgrouped p).mp hp))
  · exact (hgrouped _).mpr (h.gtin_grouped i (hidentifiers ▸ hi) hkind)
  · exact (hgrouped _).mpr (h.conflict_grouped c (hcandidates ▸ hc))
  · obtain ⟨k, hk⟩ := h.conflict_item c (hcandidates ▸ hc)
    exact ⟨k, hkeeps.items k _ hk⟩
  · exact hmatches ▸ h.matches_unique
  · obtain ⟨k, hk⟩ := h.matched_item m (hmatches ▸ hm)
    exact ⟨k, hkeeps.items k _ hk⟩
  · exact (hproduct _).mpr (h.matched_product m (hmatches ▸ hm))
  · rw [Decided, hgrouped]
    exact h.decided m (hmatches ▸ hm)
  · exact hidentifiers ▸ h.identifiers_unique
  · obtain ⟨k', hk'⟩ := h.matched_item m (hmatches ▸ hm)
    cases h.key_eq hkeeps hk' hk
    rw [hidentifiers]
    exact h.identified m (hmatches ▸ hm) hauto k hk'
  · obtain ⟨m, hm, hauto, k, hk, hkey⟩ := h.owned i (hidentifiers ▸ hi) hkind
    exact ⟨m, hmatches ▸ hm, hauto, k, hkeeps.items k _ hk, hkey⟩

end KeepsCatalog

/-! ## The groups of a price apply -/

section Groups

variable {p : ApplyParameters} {items : List RetailerItem} {t : Tables}

/-- A candidate takes the product of a validated identifier or reserves a fresh one. -/
theorem mem_groupCandidates {c : GroupCandidate} (h : c ∈ groupCandidates t items) :
    (c.createsProduct = true ∧ t.nextId ≤ c.productId ∧
        c.productId < t.nextId + (groupCandidates t items).length) ∨
      c.createsProduct = false ∧ ∃ i ∈ t.identifiers, i.kind = .gtin ∧ i.productId = c.productId := by
  obtain ⟨⟨i, n⟩, hin, hc⟩ := List.mem_filterMap.mp h
  obtain ⟨g, -, hc⟩ := Option.map_eq_some_iff.mp hc
  cases hv : validatedGlobal t.identifiers g with
  | some v =>
    rw [hv] at hc
    subst hc
    have hspec := List.find?_some hv
    rw [decide_eq_true_eq] at hspec
    exact .inr ⟨rfl, v, List.mem_of_find?_eq_some hv, hspec.1, rfl⟩
  | none =>
    rw [hv] at hc
    subst hc
    refine .inl ⟨rfl, Nat.le_add_right _ _, Nat.add_lt_add_left ?_ _⟩
    -- Every numbered item is a candidate, since it has a GTIN.
    have hall : (groupCandidates t items).length =
        (Table.distinctOn RetailerItem.gtin
          ((items.insertionSort fun a b => a.sourceItemCode ≤ b.sourceItemCode).filter
            fun i => i.gtin.any fun g => (groupOf t.matchGroups g).isNone)).length := by
      rw [groupCandidates, List.length_filterMap_eq_countP, List.countP_eq_length.mpr,
        List.length_zipIdx]
      rintro ⟨j, m⟩ hj
      have hmem := Table.mem_of_mem_distinctOn (List.fst_mem_of_mem_zipIdx hj)
      obtain ⟨g, hg, -⟩ := (Option.any_eq_true _ _).mp (List.mem_filter.mp hmem).2
      show (j.gtin.map _).isSome = true
      rw [Option.isSome_map, show j.gtin = some g from hg]
      rfl
    rw [hall]
    simpa using List.snd_lt_add_of_mem_zipIdx hin

/-- A group afterwards is an old one, or one of a candidate. -/
theorem mem_insertGroups {g : MatchGroup} (h : g ∈ (insertGroups p items t).matchGroups) :
    g ∈ t.matchGroups ∨ ∃ c ∈ groupCandidates t items, c.productId = g.productId := by
  rcases Table.mem_insertNew h with hold | ⟨hnew, -⟩
  · exact .inl hold
  · obtain ⟨c, hc, rfl⟩ := List.mem_map.mp hnew
    exact .inr ⟨c, hc, rfl⟩

/-- Only reserved products are dropped, so a product of an earlier apply stays. -/
theorem isProduct_insertGroups (h : Represented t) {product : ProductId}
    (hproduct : IsProduct t product) : IsProduct (insertGroups p items t) product := by
  obtain ⟨r, hr, rfl⟩ := hproduct
  refine ⟨r, List.mem_filter.mpr ⟨List.mem_append_left _ hr, ?_⟩, rfl⟩
  rw [Bool.or_eq_true, Bool.not_eq_true']
  refine .inl (List.any_eq_false.mpr fun c hc hcond => ?_)
  rw [Bool.and_eq_true, decide_eq_true_eq] at hcond
  rcases mem_groupCandidates hc with ⟨-, hle, -⟩ | ⟨hfalse, -⟩
  · rw [hcond.2] at hle
    exact absurd (h.products_lt r hr) (Nat.not_lt.mpr hle)
  · rw [hfalse] at hcond
    cases hcond.1

theorem isGrouped_insertGroups {product : ProductId} (h : IsGrouped t product) :
    IsGrouped (insertGroups p items t) product := by
  obtain ⟨g, hg, rfl⟩ := h
  exact ⟨g, Table.subset_insertNew hg, rfl⟩

/-- The product of a new group exists. -/
theorem isProduct_of_grouped (h : Represented t) {product : ProductId}
    (hgrouped : IsGrouped (insertGroups p items t) product) :
    IsProduct (insertGroups p items t) product := by
  obtain ⟨g, hg, rfl⟩ := hgrouped
  rcases mem_insertGroups hg with hold | ⟨c, hc, hcg⟩
  · exact isProduct_insertGroups h (h.grouped_product _ ⟨g, hold, rfl⟩)
  · cases hcreates : c.createsProduct with
    | true =>
      refine ⟨c.product p, List.mem_filter.mpr ⟨List.mem_append_right _
        (List.mem_map.mpr ⟨c, List.mem_filter.mpr ⟨hc, hcreates⟩, rfl⟩), ?_⟩, hcg⟩
      rw [Bool.or_eq_true]
      refine .inr (List.any_eq_true.mpr ⟨g, hg, decide_eq_true ?_⟩)
      exact hcg.symm
    | false =>
      rcases mem_groupCandidates hc with ⟨htrue, -⟩ | ⟨-, i, hi, hkind, hip⟩
      · rw [hcreates] at htrue
        cases htrue
      · rw [← hcg, ← hip]
        exact isProduct_insertGroups h (h.grouped_product _ (h.gtin_grouped i hi hkind))

/-- No group takes an existing product that had none. -/
theorem not_isGrouped_insertGroups (h : Represented t) {product : ProductId}
    (hproduct : IsProduct t product) (hnot : ¬ IsGrouped t product) :
    ¬ IsGrouped (insertGroups p items t) product := by
  rintro ⟨g, hg, rfl⟩
  rcases mem_insertGroups hg with hold | ⟨c, hc, hcg⟩
  · exact hnot ⟨g, hold, rfl⟩
  · rcases mem_groupCandidates hc with ⟨-, hle, -⟩ | ⟨-, i, hi, hkind, hip⟩
    · obtain ⟨r, hr, hrg⟩ := hproduct
      have hlt := h.products_lt r hr
      rw [hrg, ← hcg] at hlt
      exact absurd hlt (Nat.not_lt.mpr hle)
    · exact hnot ((hip.trans hcg) ▸ h.gtin_grouped i hi hkind)

theorem products_lt_insertGroups (h : Represented t) :
    ∀ r ∈ (insertGroups p items t).products, r.id < (insertGroups p items t).nextId := by
  intro r hr
  rcases List.mem_append.mp (List.mem_filter.mp hr).1 with hold | hnew
  · exact (h.products_lt r hold).trans_le (Nat.le_add_right _ _)
  · obtain ⟨c, hc, rfl⟩ := List.mem_map.mp hnew
    obtain ⟨hc, hcreates⟩ := List.mem_filter.mp hc
    rcases mem_groupCandidates hc with ⟨-, -, hlt⟩ | ⟨hfalse, -⟩
    · exact hlt
    · rw [hcreates] at hfalse
      cases hfalse

end Groups

/-! ## The identifiers of a price apply -/

section Identifiers

variable {p : ApplyParameters} {items : List RetailerItem} {affected : List String} {t : Tables}

/-- An upsert of GTIN identifiers leaves the other kinds alone. -/
theorem mem_upsert_of_kind {update : ProductIdentifier → ProductIdentifier → ProductIdentifier}
    {rows source : List ProductIdentifier} (hsource : ∀ b ∈ source, b.kind = .gtin)
    (hupd : ∀ a b, (update a b).key = a.key) {i : ProductIdentifier} (hkind : i.kind ≠ .gtin) :
    i ∈ Table.upsert ProductIdentifier.key ProductIdentifier.key id update rows source ↔
      i ∈ rows := by
  constructor
  · intro h
    rcases Table.mem_upsert h with ⟨hold, -⟩ | ⟨a, ha, b, hb, hkey, rfl⟩ | ⟨b, hb, rfl⟩
    · exact hold
    · have hka := congrArg Prod.fst (hupd a b)
      have hkb := congrArg Prod.fst hkey
      exact absurd (hka.trans (hkb.symm.trans (hsource b hb))) hkind
    · exact absurd (hsource _ hb) hkind
  · intro h
    refine List.mem_append_left _ (List.mem_map.mpr ⟨i, h, ?_⟩)
    cases hl : Table.lookup ProductIdentifier.key source i.key with
    | none => rfl
    | some b =>
      have hkey := congrArg Prod.fst (Table.key_of_lookup hl)
      exact absurd (hkey.symm.trans (hsource b (Table.mem_of_lookup hl))) hkind

/-- The source rows of the scoped identifiers are on products of groups. -/
theorem mem_upsertScopedIdentifiers {i : ProductIdentifier}
    (h : i ∈ upsertScopedIdentifiers p items t.matchGroups t.identifiers) :
    (∃ old ∈ t.identifiers, old.key = i.key ∧ old.productId = i.productId) ∨
      i.kind = .gtin ∧ IsGrouped t i.productId := by
  rcases Table.mem_upsert h with ⟨hold, -⟩ | ⟨a, ha, b, hb, hkey, rfl⟩ | ⟨b, hb, rfl⟩
  · exact .inl ⟨i, hold, rfl, rfl⟩
  · refine .inl ⟨a, ha, ?_⟩
    split <;> exact ⟨rfl, rfl⟩
  · obtain ⟨j, -, hj⟩ := List.mem_filterMap.mp (Table.mem_of_mem_distinctOn hb)
    obtain ⟨g, -, hg⟩ := Option.bind_eq_some_iff.mp hj
    obtain ⟨group, hgroup, rfl⟩ := Option.map_eq_some_iff.mp hg
    exact .inr ⟨rfl, group, Table.mem_of_lookup hgroup, rfl⟩

theorem mem_corroborateIdentifiers {i : ProductIdentifier}
    (h : i ∈ corroborateIdentifiers p items affected t) :
    (∃ old ∈ t.identifiers, old.key = i.key ∧ old.productId = i.productId) ∨
      i.kind = .gtin ∧ IsGrouped t i.productId := by
  have hkept : ∀ {j : ProductIdentifier} {rows : List Corroboration},
      j ∈ deleteUncorroborated rows (deleteStaleScoped affected
        (liveGtinRetailers affected t.assertions t.items)
        (upsertScopedIdentifiers p items t.matchGroups t.identifiers)) →
      (∃ old ∈ t.identifiers, old.key = j.key ∧ old.productId = j.productId) ∨
        j.kind = .gtin ∧ IsGrouped t j.productId := fun hj =>
    mem_upsertScopedIdentifiers (List.mem_filter.mp (List.mem_filter.mp hj).1).1
  rcases Table.mem_upsert h with ⟨hold, -⟩ | ⟨a, ha, b, hb, hkey, rfl⟩ | ⟨b, hb, rfl⟩
  · exact hkept hold
  · have hold := hkept ha
    split <;> exact hold
  · obtain ⟨c, hc, rfl⟩ := List.mem_map.mp hb
    obtain ⟨g, -, hg⟩ := List.mem_filterMap.mp (List.mem_filter.mp hc).1
    obtain ⟨group, hgroup, rfl⟩ := Option.map_eq_some_iff.mp hg
    exact .inr ⟨rfl, group, Table.mem_of_lookup hgroup, rfl⟩

/-- The matcher writes no identifier of another kind. -/
theorem mem_corroborateIdentifiers_iff {i : ProductIdentifier} (hkind : i.kind ≠ .gtin) :
    i ∈ corroborateIdentifiers p items affected t ↔ i ∈ t.identifiers := by
  have hscoped : ∀ b ∈ Table.distinctOn ProductIdentifier.key (items.filterMap fun i =>
      i.gtin.bind fun g => (groupOf t.matchGroups g).map fun group =>
        ({ productId := group.productId
           kind := .gtin
           value := g
           issuer := some (i.retailerId, i.portalId)
           isValidated := false
           validationMethod := .retailerAssertion
           evidenceFileId := some p.sourceFileId
           evidenceRetailerCount := none
           createdAt := p.appliedAt } : ProductIdentifier)), b.kind = .gtin := by
    intro b hb
    obtain ⟨j, -, hj⟩ := List.mem_filterMap.mp (Table.mem_of_mem_distinctOn hb)
    obtain ⟨g, -, hg⟩ := Option.bind_eq_some_iff.mp hj
    obtain ⟨group, -, rfl⟩ := Option.map_eq_some_iff.mp hg
    rfl
  rw [corroborateIdentifiers, upsertCorroborated, mem_upsert_of_kind ?_ ?_ hkind,
    deleteUncorroborated, List.mem_filter, deleteStaleScoped, List.mem_filter,
    upsertScopedIdentifiers, mem_upsert_of_kind hscoped ?_ hkind]
  · simp [ProductIdentifier.isCorroborationOf, hkind]
  · intro a b
    split <;> rfl
  · intro b hb
    obtain ⟨c, -, rfl⟩ := List.mem_map.mp hb
    rfl
  · intro a b
    split <;> rfl

theorem corroborateIdentifiers_unique (h : Table.UniqueOn ProductIdentifier.key t.identifiers)
    (haffected : affected.Nodup) :
    Table.UniqueOn ProductIdentifier.key (corroborateIdentifiers p items affected t) := by
  have hscoped : Table.UniqueOn ProductIdentifier.key
      (upsertScopedIdentifiers p items t.matchGroups t.identifiers) := by
    refine Table.upsert_unique (fun _ => rfl) (fun a b => ?_) h (Table.distinctOn_unique _)
    split <;> rfl
  have hkept : ∀ {rows : List ProductIdentifier} (keep : ProductIdentifier → Bool),
      Table.UniqueOn ProductIdentifier.key rows →
        Table.UniqueOn ProductIdentifier.key (rows.filter keep) := fun keep hrows =>
    (List.filter_sublist.map ProductIdentifier.key).nodup hrows
  refine Table.upsert_unique (fun _ => rfl) (fun a b => ?_) (hkept _ (hkept _ hscoped)) ?_
  · split <;> rfl
  · -- One corroboration row for each affected GTIN.
    rw [Table.UniqueOn, List.map_map]
    refine List.Nodup.map_on (fun a ha b hb hab => ?_) (List.Nodup.filter _ ?_)
    · have hgtin : a.gtin = b.gtin := congrArg (fun k => k.2.1) hab
      obtain ⟨g, -, hg⟩ := List.mem_filterMap.mp (List.mem_filter.mp ha).1
      obtain ⟨group, hgroup, rfl⟩ := Option.map_eq_some_iff.mp hg
      obtain ⟨g', -, hg'⟩ := List.mem_filterMap.mp (List.mem_filter.mp hb).1
      obtain ⟨group', hgroup', rfl⟩ := Option.map_eq_some_iff.mp hg'
      obtain rfl : g = g' := hgtin
      cases hgroup.symm.trans hgroup'
      rfl
    · refine List.Nodup.filterMap (fun a b c ha hb => ?_) haffected
      obtain ⟨group, -, rfl⟩ := Option.map_eq_some_iff.mp ha
      obtain ⟨group', -, hb⟩ := Option.map_eq_some_iff.mp hb
      exact (congrArg Corroboration.gtin hb).symm

end Identifiers

/-! ## The matches of a price apply -/

section Matches

variable {p : ApplyParameters} {items : List RetailerItem} {affected : List String} {t : Tables}

theorem isAutomatic_exactMethod {m : ConfirmedMatch} (validated : Option ProductIdentifier)
    (hmethod : (m.method, m.confirmedBy) = (exactMethod validated, systemExactGtinEvidence)) :
    m.isAutomatic = true := by
  obtain ⟨hmethod, hactor⟩ := Prod.mk.inj hmethod
  rw [ConfirmedMatch.isAutomatic, hmethod, hactor]
  unfold exactMethod
  split <;> rfl

/-- A rebuilt match is automatic, for a named item and on the product of a group. -/
theorem exactMatchOf_spec {i : RetailerItem} {m : ConfirmedMatch}
    (h : exactMatchOf p t i = some m) :
    m.itemId = i.id ∧ m.isAutomatic = true ∧ IsGrouped t m.productId := by
  simp only [exactMatchOf, Option.bind_eq_bind, Option.bind_eq_some_iff, Option.pure_def,
    Option.some.injEq] at h
  obtain ⟨g, -, a, -, group, hgroup, _, -, _, -, _, -, rfl⟩ := h
  exact ⟨rfl, isAutomatic_exactMethod _ rfl, group, Table.mem_of_lookup hgroup, rfl⟩

/-- A refreshed match keeps its item, its product and who decides it. -/
theorem mem_refreshExactMatches {m : ConfirmedMatch} (h : m ∈ refreshExactMatches p affected t) :
    ∃ old ∈ t.confirmedMatches, old.itemId = m.itemId ∧ old.productId = m.productId ∧
      old.isAutomatic = m.isAutomatic ∧ (m.isAutomatic = false → old = m) := by
  obtain ⟨old, hold, rfl⟩ := List.mem_map.mp h
  refine ⟨old, hold, ?_⟩
  split
  · rename_i hauto
    split
    · exact ⟨rfl, rfl, rfl, fun _ => rfl⟩
    · split
      · split
        · refine ⟨rfl, rfl, ?_, fun hfalse => ?_⟩
          · rw [hauto]
            exact (isAutomatic_exactMethod _ rfl).symm
          · exact absurd ((isAutomatic_exactMethod _ rfl).symm.trans hfalse) (by decide)
        · exact ⟨rfl, rfl, rfl, fun _ => rfl⟩
      · exact ⟨rfl, rfl, rfl, fun _ => rfl⟩
  · exact ⟨rfl, rfl, rfl, fun _ => rfl⟩

theorem refreshExactMatches_itemIds :
    (refreshExactMatches p affected t).map ConfirmedMatch.itemId =
      t.confirmedMatches.map ConfirmedMatch.itemId := by
  rw [refreshExactMatches, List.map_map]
  refine List.map_congr_left fun m _ => ?_
  show ConfirmedMatch.itemId (if m.isAutomatic then _ else m) = m.itemId
  split
  · split
    · rfl
    · split
      · split <;> rfl
      · rfl
  · rfl

theorem mem_insertConflictCandidates {c : MatchCandidate}
    (h : c ∈ insertConflictCandidates p items t) (hglobal : ∀ i ∈ t.identifiers, i.kind = .gtin →
      IsGrouped t i.productId) :
    c ∈ t.candidates ∨ IsGrouped t c.productId ∧ ∃ i ∈ items, i.id = c.itemId := by
  rcases Table.mem_insertNew h with hold | ⟨hnew, -⟩
  · exact .inl hold
  · obtain ⟨i, hi, hc⟩ := List.mem_flatMap.mp hnew
    obtain ⟨g, -, hc⟩ := List.mem_flatMap.mp hc
    obtain ⟨group, hgroup, hc⟩ := List.mem_flatMap.mp hc
    obtain ⟨⟨product, reason⟩, hconflict, rfl⟩ := List.mem_map.mp hc
    have hgrouped : IsGrouped t group.productId :=
      ⟨group, Table.mem_of_lookup (Option.mem_toList.mp hgroup), rfl⟩
    refine .inr ⟨?_, i, hi, rfl⟩
    simp only [conflictsOf, List.mem_append] at hconflict
    rcases hconflict with (hmanual | hscoped) | hvalidated
    · obtain ⟨_, -, heq⟩ := List.mem_map.mp hmanual
      cases heq
      exact hgrouped
    · obtain ⟨_, -, heq⟩ := List.mem_map.mp hscoped
      cases heq
      exact hgrouped
    · obtain ⟨s, hs, heq⟩ := List.mem_map.mp hvalidated
      cases heq
      obtain ⟨hs, hcond⟩ := List.mem_filter.mp hs
      exact hglobal s hs (of_decide_eq_true hcond).1

end Matches

/-! ## The whole matcher -/

theorem exists_itemIdOf {t : Tables} (h : Identified RetailerItem.id RetailerItem.key t.items
    t.nextId) {i : RetailerItem} (hi : i ∈ t.items) : itemIdOf t i.key = some i.id := by
  rw [itemIdOf, Identified.idAt, Table.lookup_of_mem h.keys hi]
  rfl

section Matcher

variable {p : ApplyParameters} {items : List RetailerItem} {affected : List String}
  {t t' : Tables}

/-- The deleted matches are automatic, and nothing of the invariant depends on these. -/
theorem keepsCatalog_assertGtins (h : Represented t) (hstep : assertGtins p items t = .ok t') :
    KeepsCatalog t t' := by
  obtain ⟨-, -, -, hframe⟩ := assertGtins_eq_ok hstep
  rw [hframe]
  have hkept : ∀ {m : ConfirmedMatch}, m ∈ t.confirmedMatches → m.isAutomatic = false →
      m ∈ deleteAutomaticMatches items t.confirmedMatches := by
    intro m hm hauto
    refine List.mem_filter.mpr ⟨hm, ?_⟩
    rw [hauto, Bool.false_and]
    rfl
  have hold : ∀ {m : ConfirmedMatch}, m ∈ deleteAutomaticMatches items t.confirmedMatches →
      m ∈ t.confirmedMatches := fun hm => (List.mem_filter.mp hm).1
  refine ⟨⟨h.items, h.products_lt, h.grouped_product, h.gtin_grouped, h.conflict_grouped,
    h.conflict_item, ?_, fun m hm => h.matched_item m (hold hm),
    fun m hm => h.matched_product m (hold hm), fun m hm => h.decided m (hold hm),
    h.identifiers_unique, fun m hm => h.identified m (hold hm), fun i hi hkind => ?_⟩,
    fun _ => id, fun _ => id, fun _ _ => id, fun _ _ => id,
    fun m hauto => ⟨hold, fun hm => hkept hm hauto⟩⟩
  · exact (List.filter_sublist.map ConfirmedMatch.itemId).nodup h.matches_unique
  · obtain ⟨m, hm, hauto, hk⟩ := h.owned i hi hkind
    exact ⟨m, hkept hm hauto, hauto, hk⟩

/-- The groups and the identifiers are written without regard to the matches. -/
theorem keepsCatalog_groups (p : ApplyParameters) (items : List RetailerItem)
    (h : Represented t) (haffected : affected.Nodup) :
    KeepsCatalog t { insertGroups p items t with
      identifiers := corroborateIdentifiers p items affected (insertGroups p items t) } := by
  have hungrouped : ∀ q, IsProduct t q → IsGrouped (insertGroups p items t) q → IsGrouped t q := by
    intro q hq hg
    by_contra hnot
    exact not_isGrouped_insertGroups h hq hnot hg
  refine ⟨⟨h.items.mono (Nat.le_add_right _ _), products_lt_insertGroups h,
    fun q hq => isProduct_of_grouped h hq, fun i hi hkind => ?_,
    fun c hc => isGrouped_insertGroups (p := p) (h.conflict_grouped c hc), h.conflict_item,
    h.matches_unique, h.matched_item,
    fun m hm => isProduct_insertGroups (p := p) h (h.matched_product m hm), fun m hm => ?_,
    corroborateIdentifiers_unique h.identifiers_unique haffected,
    fun m hm hauto k hk => ?_, fun i hi hkind => ?_⟩,
    fun q hq => isProduct_insertGroups (p := p) h hq,
    fun q hq => isGrouped_insertGroups (p := p) hq, hungrouped,
    fun _ _ => id, fun _ _ => Iff.rfl⟩
  · rcases mem_corroborateIdentifiers hi with ⟨old, hold, hkey, hproduct⟩ | ⟨-, hgrouped⟩
    · have hkind' : old.kind = .gtin := (congrArg Prod.fst hkey).trans hkind
      rw [← hproduct]
      exact isGrouped_insertGroups (p := p) (h.gtin_grouped old hold hkind')
    · exact hgrouped
  · rcases h.decided m hm with ⟨hauto, hgrouped⟩ | ⟨hisolated, hnot⟩ | hmanual
    · exact .inl ⟨hauto, isGrouped_insertGroups (p := p) hgrouped⟩
    · exact .inr (.inl ⟨hisolated, fun hg => hnot (hungrouped _ (h.matched_product m hm) hg)⟩)
    · exact .inr (.inr hmanual)
  · obtain ⟨i, hi, hkey, hproduct⟩ := h.identified m hm hauto k hk
    have hkind : i.kind ≠ .gtin := by
      rw [show i.kind = .retailerItem from congrArg Prod.fst hkey]
      decide
    have hi' : i ∈ (insertGroups p items t).identifiers := hi
    exact ⟨i, (mem_corroborateIdentifiers_iff hkind).mpr hi', hkey, hproduct⟩
  · have hne : i.kind ≠ .gtin := by
      rw [hkind]
      decide
    have hold : i ∈ (insertGroups p items t).identifiers :=
      (mem_corroborateIdentifiers_iff hne).mp hi
    exact h.owned i hold hkind

/-- A match after the rebuild continues one from before, or is automatic. -/
theorem mem_rematch_iff {m : ConfirmedMatch}
    (hm : m ∈ (rematch p items affected t).confirmedMatches) :
    (∃ old ∈ t.confirmedMatches, old.itemId = m.itemId ∧ old.productId = m.productId ∧
        old.isAutomatic = m.isAutomatic ∧ (m.isAutomatic = false → old = m)) ∨
      m.isAutomatic = true ∧ IsGrouped t m.productId ∧ ∃ i ∈ items, i.id = m.itemId := by
  obtain ⟨old, hold, hitem, hproduct, hauto, heq⟩ := mem_refreshExactMatches hm
  rcases Table.mem_insertNew hold with hold | ⟨hnew, -⟩
  · exact .inl ⟨old, hold, hitem, hproduct, hauto, heq⟩
  · obtain ⟨i, hi, hmatch⟩ := List.mem_filterMap.mp hnew
    obtain ⟨hid, hoa, hgrouped⟩ := exactMatchOf_spec hmatch
    exact .inr ⟨hauto ▸ hoa, hproduct ▸ hgrouped, i, hi, hid.symm.trans hitem⟩

/-- The rebuilt matches are automatic and on products of groups. -/
theorem keepsCatalog_rematch (h : Represented t) (hitems : ∀ i ∈ items, i ∈ t.items) :
    KeepsCatalog t (rematch p items affected t) := by
  have hnamed : ∀ i ∈ items, itemIdOf t i.key = some i.id := fun i hi =>
    exists_itemIdOf h.items (hitems i hi)
  refine ⟨⟨h.items, h.products_lt, h.grouped_product, h.gtin_grouped, fun c hc => ?_,
    fun c hc => ?_, ?_, fun m hm => ?_, fun m hm => ?_, fun m hm => ?_, h.identifiers_unique,
    fun m hm hauto k hk => ?_, fun i hi hkind => ?_⟩,
    fun _ => id, fun _ => id, fun _ _ => id, fun _ _ => id, fun m hauto => ⟨fun hm => ?_,
    fun hm => mem_rematch hm hauto⟩⟩
  · rcases mem_insertConflictCandidates hc h.gtin_grouped with hold | ⟨hgrouped, -⟩
    · exact h.conflict_grouped c hold
    · exact hgrouped
  · rcases mem_insertConflictCandidates hc h.gtin_grouped with hold | ⟨-, i, hi, hid⟩
    · exact h.conflict_item c hold
    · exact ⟨i.key, hid ▸ hnamed i hi⟩
  · show Table.UniqueOn ConfirmedMatch.itemId (refreshExactMatches p affected _)
    rw [Table.UniqueOn, refreshExactMatches_itemIds]
    exact Table.insertNew_unique h.matches_unique
  · rcases mem_rematch_iff hm with ⟨old, hold, hitem, -, -, -⟩ | ⟨-, -, i, hi, hid⟩
    · rw [← hitem]
      exact h.matched_item old hold
    · exact ⟨i.key, hid ▸ hnamed i hi⟩
  · rcases mem_rematch_iff hm with ⟨old, hold, -, hproduct, -, -⟩ | ⟨-, hgrouped, -⟩
    · rw [← hproduct]
      exact h.matched_product old hold
    · exact h.grouped_product _ hgrouped
  · rcases mem_rematch_iff hm with ⟨old, hold, -, hproduct, hauto, heq⟩ | ⟨hauto, hgrouped, -⟩
    · rcases h.decided old hold with ⟨hoa, hgrouped⟩ | ⟨hisolated, hnot⟩ | hmanual
      · exact .inl ⟨hauto ▸ hoa, hproduct ▸ hgrouped⟩
      · obtain rfl := heq (hauto ▸ isAutomatic_of_isIsolated hisolated)
        exact .inr (.inl ⟨hisolated, hnot⟩)
      · obtain rfl := heq (hauto ▸ isAutomatic_of_manual hmanual)
        exact .inr (.inr hmanual)
    · exact .inl ⟨hauto, hgrouped⟩
  · rcases mem_rematch_iff hm with ⟨old, hold, -, -, -, heq⟩ | ⟨htrue, -, -⟩
    · obtain rfl := heq hauto
      exact h.identified old hold hauto k hk
    · rw [hauto] at htrue
      cases htrue
  · obtain ⟨m, hm, hauto, hk⟩ := h.owned i hi hkind
    exact ⟨m, mem_rematch hm hauto, hauto, hk⟩
  · rcases mem_rematch_iff hm with ⟨old, hold, -, -, -, heq⟩ | ⟨htrue, -, -⟩
    · exact heq hauto ▸ hold
    · rw [hauto] at htrue
      cases htrue

theorem affectedGtins_nodup (items : List RetailerItem) (assertions : List Assertion) :
    (affectedGtins items assertions).Nodup :=
  List.nodup_dedup _

theorem keepsCatalog_matchExactGtins (h : Represented t)
    (hstep : matchExactGtins p items t = .ok t') (hitems : ∀ i ∈ items, i ∈ t.items) :
    KeepsCatalog t t' := by
  obtain ⟨t₁, h₁, rfl⟩ := matchExactGtins_eq_ok hstep
  have hasserted := keepsCatalog_assertGtins h h₁
  have hwritten := hasserted.trans (keepsCatalog_groups p items hasserted.represented
    (affectedGtins_nodup items t.assertions))
  refine hwritten.trans (keepsCatalog_rematch hwritten.represented fun i hi => ?_)
  obtain ⟨-, -, -, hframe⟩ := assertGtins_eq_ok h₁
  show i ∈ t₁.items
  rw [hframe]
  exact hitems i hi

end Matcher

/-! ## Every apply -/

section Applies

variable {a : DocumentApply} {t t' : Tables} {summary : ApplySummary}

theorem keepsCatalog_applyStores (h : Represented t)
    (hstep : applyStores a t = .ok (t', summary)) : KeepsCatalog t t' := by
  refine .of_identities h (keepsIdentities_applyStores hstep) ?_ ?_ ?_ ?_ ?_ <;>
    rw [applyStores_frame hstep]

theorem keepsCatalog_applyPromotions (h : Represented t)
    (hstep : applyPromotions a t = .ok (t', summary)) : KeepsCatalog t t' := by
  refine .of_identities h (keepsIdentities_applyPromotions hstep) ?_ ?_ ?_ ?_ ?_ <;>
    rw [applyPromotions_frame hstep]

theorem keepsCatalog_applyPrices (h : Represented t)
    (hstep : applyPrices a t = .ok (t', summary)) : KeepsCatalog t t' := by
  obtain ⟨t₁, t₂, t₃, maps, _, _, _, _, hstores, hitems, hmaps, _, hgtins, _, _, rfl, _, _⟩ :=
    applyPrices_eq_ok hstep
  have h₁ : KeepsCatalog t t₁ := by
    refine .of_identities h (keepsIdentities_upsertPriceStores hstores) ?_ ?_ ?_ ?_ ?_ <;>
      rw [upsertPriceStores_frame hstores]
  have h₂ : KeepsCatalog t₁ t₂ := by
    refine .of_identities h₁.represented (keepsIdentities_upsertRetailerItems hitems)
      ?_ ?_ ?_ ?_ ?_ <;> rw [upsertRetailerItems_frame hitems]
  have h₃ : KeepsCatalog t₂ t₃ := keepsCatalog_matchExactGtins h₂.represented hgtins (by
    intro i hi
    rw [(materializePriceMaps_eq_ok hmaps).1] at hi
    exact (mem_namedItems.mp hi).1)
  exact ((h₁.trans h₂).trans h₃).trans
    (.of_identities h₃.represented (.of_eq rfl rfl (le_refl _)) rfl rfl rfl rfl rfl)

end Applies

/-- Every accepted apply keeps the catalog. -/
theorem keepsCatalog_apply {r : ApplyRequest} {t t' : Tables} {summary : ApplySummary}
    (h : Represented t) (hstep : apply r t = .ok (t', summary)) : KeepsCatalog t t' := by
  obtain ⟨family, -, -, hwrite⟩ := apply_eq_ok hstep
  obtain ⟨written, hwritten, rfl⟩ := writeDocument_eq_ok hwrite
  have hclaimed : KeepsCatalog t (claimContent r t).1 := by
    rw [claimContent_frame]
    exact .of_identities h (.of_eq rfl rfl (le_refl _)) rfl rfl rfl rfl rfl
  have hdone : KeepsCatalog (claimContent r t).1 written := by
    cases family with
    | stores => exact keepsCatalog_applyStores hclaimed.represented hwritten
    | prices => exact keepsCatalog_applyPrices hclaimed.represented hwritten
    | promotions => exact keepsCatalog_applyPromotions hclaimed.represented hwritten
  exact (hclaimed.trans hdone).trans
    (.of_identities hdone.represented (.of_eq rfl rfl (le_refl _)) rfl rfl rfl rfl rfl)

end Makolet.Catalog
