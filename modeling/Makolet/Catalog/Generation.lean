import Makolet.Catalog.Represented

/-!
# Isolated representations and generated candidates

What a page of the generation writes. An item without a match gets a product, a match and an
identifier of its own; an item that is represented already keeps its three rows. The candidates of
a page are on active products, and never on the product that represents their own item.
-/

set_option autoImplicit false

namespace Makolet.Catalog

open Makolet.Domain Makolet.Lib Makolet.Normalized
open Makolet.Maintenance (bootstrapItem sourceSubjects bootstrapBatchSize)

/-! ## Representations -/

/-- What bootstrapping adds: isolated matches of unmatched items, on products that did not exist. -/
structure Isolates (t t' : Tables) : Prop where
  represented : Represented t'
  products : ∀ p, IsProduct t p → IsProduct t' p
  groups : t'.matchGroups = t.matchGroups
  items : t'.items = t.items
  kept : ∀ m ∈ t.confirmedMatches, m ∈ t'.confirmedMatches
  added : ∀ m ∈ t'.confirmedMatches, m ∈ t.confirmedMatches ∨
    IsIsolated m ∧ ¬ IsProduct t m.productId ∧ ∀ m' ∈ t.confirmedMatches, m'.itemId ≠ m.itemId

namespace Isolates

variable {t t' t'' : Tables}

theorem refl (h : Represented t) : Isolates t t :=
  ⟨h, fun _ => id, rfl, rfl, fun _ => id, fun _ => .inl⟩

theorem trans (h : Isolates t t') (h' : Isolates t' t'') : Isolates t t'' where
  represented := h'.represented
  products p hp := h'.products p (h.products p hp)
  groups := h'.groups.trans h.groups
  items := h'.items.trans h.items
  kept m hm := h'.kept m (h.kept m hm)
  added m hm := by
    rcases h'.added m hm with hold | ⟨hisolated, hfresh, hunmatched⟩
    · exact h.added m hold
    · exact .inr ⟨hisolated, fun hp => hfresh (h.products _ hp),
        fun m' hm' => hunmatched m' (h.kept m' hm')⟩

/-- The items that a page may take stay such items. -/
theorem isolated_only (h : Isolates t t') {item : ItemId}
    (hitem : ∀ m ∈ t.confirmedMatches, m.itemId = item → m.method = .isolatedRetailerItem) :
    ∀ m ∈ t'.confirmedMatches, m.itemId = item → m.method = .isolatedRetailerItem := by
  intro m hm hmi
  rcases h.added m hm with hold | ⟨hisolated, -, -⟩
  · exact hitem m hold hmi
  · exact hisolated.1

end Isolates

theorem insertNew_of_mem {key : ProductIdentifier → IdentifierKind × String ×
    Option (RetailerId × PortalId)} {rows : List ProductIdentifier} {r s : ProductIdentifier}
    (hs : s ∈ rows) (hkey : key s = key r) : Table.insertNew key rows [r] = rows := by
  have hsome : (Table.lookup key rows (key r)).isNone = false := by
    rw [Option.isNone_eq_false_iff]
    exact Table.lookup_isSome.mpr ⟨s, hs, hkey⟩
  rw [Table.insertNew, List.filter_cons, hsome, if_neg Bool.false_ne_true]
  exact List.append_nil rows

theorem insertNew_of_not_mem {key : ProductIdentifier → IdentifierKind × String ×
    Option (RetailerId × PortalId)} {rows : List ProductIdentifier} {r : ProductIdentifier}
    (hnot : ∀ s ∈ rows, key s ≠ key r) : Table.insertNew key rows [r] = rows ++ [r] := by
  have hnone : (Table.lookup key rows (key r)).isNone = true := by
    rw [Option.isNone_iff_eq_none]
    exact Table.lookup_eq_none.mpr hnot
  rw [Table.insertNew, List.filter_cons, if_pos hnone]
  rfl

theorem retailerIdentifierKey_injective {k k' : RetailerId × PortalId × String}
    (h : retailerIdentifierKey k = retailerIdentifierKey k') : k = k' := by
  obtain ⟨r, p, c⟩ := k
  obtain ⟨r', p', c'⟩ := k'
  simp only [retailerIdentifierKey, Prod.mk.injEq, Option.some.injEq, true_and] at h
  obtain ⟨rfl, rfl, rfl⟩ := h
  rfl

/-- The identifier of an item that has no match is free. -/
theorem Represented.identifier_free {t : Tables} (h : Represented t) {item : RetailerItem}
    (hitem : item ∈ t.items) (hunmatched : ∀ m ∈ t.confirmedMatches, m.itemId ≠ item.id) :
    ∀ i ∈ t.identifiers, i.key ≠ retailerIdentifierKey item.key := by
  intro i hi hkey
  have hkind : i.kind = .retailerItem := congrArg Prod.fst hkey
  obtain ⟨m, hm, -, k, hk, hik⟩ := h.owned i hi hkind
  obtain rfl := retailerIdentifierKey_injective (hik.symm.trans hkey)
  rw [exists_itemIdOf h.items hitem, Option.some.injEq] at hk
  exact hunmatched m hm hk.symm

/-- An item without a match is represented by a product of its own. -/
theorem isolates_bootstrapItem {now : Time} {t : Tables} {item : RetailerItem} (h : Represented t)
    (hitem : item ∈ t.items) (hunmatched : ∀ m ∈ t.confirmedMatches, m.itemId ≠ item.id) :
    Isolates t (bootstrapItem now t item) := by
  have hidentifiers : (bootstrapItem now t item).identifiers = t.identifiers ++
      [retailerIdentifier item t.nextId .isolatedRetailerItem now] :=
    insertNew_of_not_mem (h.identifier_free hitem hunmatched)
  have hfresh : ¬ IsProduct t t.nextId := by
    rintro ⟨r, hr, hid⟩
    exact absurd (h.products_lt r hr) (hid ▸ Nat.lt_irrefl _)
  have hids : itemIdOf t item.key = some item.id := exists_itemIdOf h.items hitem
  have hproduct : ∀ p, IsProduct t p → IsProduct (bootstrapItem now t item) p := by
    rintro p ⟨r, hr, hid⟩
    exact ⟨r, List.mem_append_left _ hr, hid⟩
  have hown : IsProduct (bootstrapItem now t item) t.nextId :=
    ⟨_, List.mem_append_right _ List.mem_cons_self, rfl⟩
  have hmatches : ∀ m ∈ (bootstrapItem now t item).confirmedMatches, m ∈ t.confirmedMatches ∨
      m = ⟨item.id, t.nextId, .isolatedRetailerItem, none, now, isolatedActor⟩ := by
    intro m hm
    rcases List.mem_append.mp hm with hold | hnew
    · exact .inl hold
    · exact .inr (List.mem_singleton.mp hnew)
  have hisolated : IsIsolated ⟨item.id, t.nextId, .isolatedRetailerItem, none, now,
      isolatedActor⟩ := ⟨rfl, rfl⟩
  refine ⟨⟨h.items.mono (Nat.le_succ _), fun r hr => ?_, fun p hp => hproduct p
    (h.grouped_product p hp), fun i hi hkind => ?_, h.conflict_grouped, h.conflict_item, ?_,
    fun m hm => ?_, fun m hm => ?_, fun m hm => ?_, Table.insertNew_unique h.identifiers_unique,
    fun m hm hauto k hk => ?_, fun i hi hkind => ?_⟩, hproduct, rfl, rfl,
    fun m hm => List.mem_append_left _ hm, fun m hm => ?_⟩
  · rcases List.mem_append.mp hr with hold | hnew
    · exact (h.products_lt r hold).trans (Nat.lt_succ_self _)
    · rw [List.mem_singleton.mp hnew]
      exact Nat.lt_succ_self _
  · rw [hidentifiers] at hi
    rcases List.mem_append.mp hi with hold | hnew
    · exact h.gtin_grouped i hold hkind
    · rw [List.mem_singleton.mp hnew] at hkind
      cases hkind
  · show ((t.confirmedMatches ++ [_]).map ConfirmedMatch.itemId).Nodup
    rw [List.map_append, List.nodup_append]
    refine ⟨h.matches_unique, List.nodup_singleton _, ?_⟩
    rintro _ ha _ hb rfl
    obtain ⟨m, hm, hid⟩ := List.mem_map.mp ha
    exact hunmatched m hm (hid.trans (List.mem_singleton.mp hb))
  · rcases hmatches m hm with hold | rfl
    · exact h.matched_item m hold
    · exact ⟨item.key, hids⟩
  · rcases hmatches m hm with hold | rfl
    · exact hproduct _ (h.matched_product m hold)
    · exact hown
  · rcases hmatches m hm with hold | rfl
    · exact h.decided m hold
    · exact .inr (.inl ⟨hisolated, fun hg => hfresh (h.grouped_product _ hg)⟩)
  · rw [hidentifiers]
    rcases hmatches m hm with hold | rfl
    · obtain ⟨i, hi, hkey⟩ := h.identified m hold hauto k hk
      exact ⟨i, List.mem_append_left _ hi, hkey⟩
    · obtain rfl := h.items.idAt_injective hk hids
      exact ⟨_, List.mem_append_right _ List.mem_cons_self, rfl, rfl⟩
  · rw [hidentifiers] at hi
    rcases List.mem_append.mp hi with hold | hnew
    · obtain ⟨m, hm, hauto, hk⟩ := h.owned i hold hkind
      exact ⟨m, List.mem_append_left _ hm, hauto, hk⟩
    · rw [List.mem_singleton.mp hnew]
      exact ⟨_, List.mem_append_right _ List.mem_cons_self, isAutomatic_of_isIsolated hisolated,
        item.key, hids, rfl⟩
  · rcases hmatches m hm with hold | rfl
    · exact .inl hold
    · exact .inr ⟨hisolated, hfresh, hunmatched⟩

theorem matchOf_eq_none {t : Tables} {item : ItemId} :
    matchOf t item = none ↔ ∀ m ∈ t.confirmedMatches, m.itemId ≠ item :=
  Table.lookup_eq_none

/-- A represented item has all its rows already. -/
theorem bootstrapSubject_of_match {now : Time} {t : Tables} {item : RetailerItem}
    {m : ConfirmedMatch} (h : Represented t) (hitem : item ∈ t.items)
    (hmatch : matchOf t item.id = some m) (hmethod : m.method = .isolatedRetailerItem) :
    bootstrapSubject now t item = t := by
  have hmem := Table.mem_of_lookup hmatch
  have hid := Table.key_of_lookup hmatch
  have hauto : m.isAutomatic = false := by
    simp [ConfirmedMatch.isAutomatic, hmethod]
  have hk : itemIdOf t item.key = some m.itemId := by
    rw [hid]
    exact exists_itemIdOf h.items hitem
  obtain ⟨i, hi, hkey, -⟩ := h.identified m hmem hauto _ hk
  rw [bootstrapSubject, hmatch]
  show { t with identifiers := _ } = t
  rw [insertNew_of_mem hi hkey]

theorem isolates_bootstrapSubject (now : Time) {t : Tables} {item : RetailerItem}
    (h : Represented t) (hitem : item ∈ t.items)
    (honly : ∀ m ∈ t.confirmedMatches, m.itemId = item.id → m.method = .isolatedRetailerItem) :
    Isolates t (bootstrapSubject now t item) := by
  cases hmatch : matchOf t item.id with
  | none =>
    rw [bootstrapSubject, hmatch]
    exact isolates_bootstrapItem h hitem (matchOf_eq_none.mp hmatch)
  | some m =>
    rw [bootstrapSubject_of_match h hitem hmatch
      (honly m (Table.mem_of_lookup hmatch) (Table.key_of_lookup hmatch))]
    exact .refl h

/-- Every item of a page has an isolated match afterwards. -/
theorem isolates_foldl {now : Time} {batch : List RetailerItem} {t : Tables} (h : Represented t)
    (hitems : ∀ item ∈ batch, item ∈ t.items)
    (honly : ∀ item ∈ batch, ∀ m ∈ t.confirmedMatches, m.itemId = item.id →
      m.method = .isolatedRetailerItem) :
    Isolates t (batch.foldl (bootstrapSubject now) t) ∧
      ∀ item ∈ batch, ∃ m ∈ (batch.foldl (bootstrapSubject now) t).confirmedMatches,
        m.itemId = item.id := by
  induction batch generalizing t with
  | nil => exact ⟨.refl h, fun _ hi => by cases hi⟩
  | cons item rest ih =>
    have hstep := isolates_bootstrapSubject now h (hitems item List.mem_cons_self)
      (honly item List.mem_cons_self)
    obtain ⟨hrest, hmatched⟩ := ih hstep.represented
      (fun i hi => hstep.items ▸ hitems i (List.mem_cons_of_mem _ hi))
      (fun i hi => hstep.isolated_only (honly i (List.mem_cons_of_mem _ hi)))
    refine ⟨hstep.trans hrest, fun i hi => ?_⟩
    rcases List.mem_cons.mp hi with rfl | hi
    · cases hmatch : matchOf t i.id with
      | none =>
        refine ⟨⟨i.id, t.nextId, .isolatedRetailerItem, none, now, isolatedActor⟩,
          hrest.kept _ ?_, rfl⟩
        rw [bootstrapSubject, hmatch]
        exact List.mem_append_right _ List.mem_cons_self
      | some m =>
        exact ⟨m, hrest.kept m (hstep.kept m (Table.mem_of_lookup hmatch)),
          Table.key_of_lookup hmatch⟩
    · exact hmatched i hi

/-- On distinct unmatched items the ingestion's bootstrap does what a page does. -/
theorem foldl_bootstrapItem_eq {now : Time} {batch : List RetailerItem} {t : Tables}
    (hids : Table.UniqueOn RetailerItem.id batch)
    (hunmatched : ∀ item ∈ batch, matchOf t item.id = none) :
    batch.foldl (bootstrapItem now) t = batch.foldl (bootstrapSubject now) t := by
  induction batch generalizing t with
  | nil => rfl
  | cons item rest ih =>
    have hnodup := List.nodup_cons.mp (show (item.id :: rest.map RetailerItem.id).Nodup from hids)
    have hhead : bootstrapSubject now t item = bootstrapItem now t item := by
      rw [bootstrapSubject, hunmatched item List.mem_cons_self]
    rw [List.foldl_cons, List.foldl_cons, hhead]
    refine ih hnodup.2 fun i hi => matchOf_eq_none.mpr fun m hm hmi => ?_
    rcases List.mem_append.mp hm with hold | hnew
    · exact matchOf_eq_none.mp (hunmatched i (List.mem_cons_of_mem _ hi)) m hold hmi
    · rw [List.mem_singleton.mp hnew] at hmi
      have hid : item.id = i.id := hmi
      exact hnodup.1 (hid ▸ List.mem_map_of_mem hi)

/-! ## Selections -/

theorem mem_selectSubjects {cursor : Option ItemId} {itemLimit : Nat} {t : Tables}
    {item : RetailerItem} (h : item ∈ selectSubjects cursor itemLimit t) :
    item ∈ t.items ∧ ∀ m ∈ matchOf t item.id, m.method = .isolatedRetailerItem := by
  obtain ⟨hitem, hcond⟩ := List.mem_filter.mp
    ((List.mem_insertionSort _).mp (List.mem_of_mem_take h))
  rw [Bool.and_eq_true] at hcond
  refine ⟨hitem, fun m hm => ?_⟩
  have hall := hcond.1
  rw [Option.mem_def.mp hm] at hall
  exact of_decide_eq_true hall

theorem Represented.only_of_matchOf {t : Tables} (h : Represented t) {item : ItemId}
    (hmatch : ∀ m ∈ matchOf t item, m.method = .isolatedRetailerItem) :
    ∀ m ∈ t.confirmedMatches, m.itemId = item → m.method = .isolatedRetailerItem := by
  intro m hm hid
  exact hmatch m (hid ▸ h.matchOf_of_mem hm)

theorem mem_sourceSubjects {f : FileId} {cursor : Option ItemId} {t : Tables}
    {item : RetailerItem} (h : item ∈ sourceSubjects f cursor t) :
    item ∈ t.items ∧ matchOf t item.id = none := by
  obtain ⟨hitem, hcond⟩ := List.mem_filter.mp
    ((List.mem_insertionSort _).mp (List.mem_of_mem_take h))
  rw [Bool.and_eq_true, Bool.and_eq_true] at hcond
  exact ⟨hitem, Option.isNone_iff_eq_none.mp hcond.1.2⟩

/-- Selected rows have distinct ids. -/
theorem uniqueOn_take_sorted {items : List RetailerItem} {keep : RetailerItem → Bool} {n : Nat}
    (h : Table.UniqueOn RetailerItem.id items) :
    Table.UniqueOn RetailerItem.id
      (((items.filter keep).insertionSort fun a b => a.id ≤ b.id).take n) := by
  have hfilter : ((items.filter keep).map RetailerItem.id).Nodup :=
    (List.filter_sublist.map RetailerItem.id).nodup h
  have hsorted : (((items.filter keep).insertionSort fun a b => a.id ≤ b.id).map
      RetailerItem.id).Nodup :=
    (((List.perm_insertionSort _ _).map RetailerItem.id).nodup_iff).mpr hfilter
  exact ((List.take_sublist n _).map RetailerItem.id).nodup hsorted

/-- One transaction of `bootstrap_source_file`. -/
def bootstrapSource (now : Time) (f : FileId) (cursor : Option ItemId) (t : Tables) : Tables :=
  ((sourceSubjects f cursor t).take bootstrapBatchSize).foldl (bootstrapItem now) t

theorem isolates_bootstrapSource {now : Time} {f : FileId} {cursor : Option ItemId} {t : Tables}
    (h : Represented t) : Isolates t (bootstrapSource now f cursor t) := by
  have hmem : ∀ item ∈ (sourceSubjects f cursor t).take bootstrapBatchSize,
      item ∈ t.items ∧ matchOf t item.id = none := fun item hi =>
    mem_sourceSubjects (List.mem_of_mem_take hi)
  have hids : Table.UniqueOn RetailerItem.id
      ((sourceSubjects f cursor t).take bootstrapBatchSize) :=
    ((List.take_sublist _ _).map RetailerItem.id).nodup (uniqueOn_take_sorted h.items.ids)
  rw [bootstrapSource, foldl_bootstrapItem_eq hids fun item hi => (hmem item hi).2]
  refine (isolates_foldl h (fun item hi => (hmem item hi).1) fun item hi m hm hid => ?_).1
  exact absurd hid (matchOf_eq_none.mp (hmem item hi).2 m hm)

/-! ## Candidates -/

section Candidates

variable {scoring : Scoring} {s : ReviewState} {limit : Nat} {item : RetailerItem}
  {isolated : ProductId}

theorem mem_candidateBlock {product : ProductId}
    (h : product ∈ candidateBlock scoring s limit item isolated) :
    s.IsActive product ∧ product ≠ isolated := by
  have hblock := List.mem_of_mem_take h
  rcases List.mem_append.mp hblock with hexact | hnearest
  · have hin := (List.mem_insertionSort _).mp (List.mem_of_mem_take hexact)
    exact of_decide_eq_true (List.mem_filter.mp (List.mem_dedup.mp hin)).2
  · have hin := (List.mem_filter.mp (List.mem_dedup.mp ((List.mem_insertionSort _).mp hnearest))).1
    obtain ⟨r, hr, rfl⟩ := List.mem_map.mp hin
    have hr' := (List.mem_insertionSort _).mp (List.mem_of_mem_take hr)
    exact of_decide_eq_true (List.mem_filter.mp hr').2

theorem nodup_candidateBlock : (candidateBlock scoring s limit item isolated).Nodup := by
  refine (List.take_sublist _ _).nodup (List.nodup_append.mpr ⟨?_, ?_, ?_⟩)
  · exact (List.take_sublist _ _).nodup
      ((List.perm_insertionSort _ _).nodup_iff.mpr (List.nodup_dedup _))
  · exact (List.perm_insertionSort _ _).nodup_iff.mpr (List.nodup_dedup _)
  · rintro a ha _ hb rfl
    have hb' := List.mem_dedup.mp ((List.mem_insertionSort _).mp hb)
    exact of_decide_eq_true (List.mem_filter.mp hb').2 ha

/-- A proposal is for its item, on an active product that does not represent it. -/
theorem mem_proposalsOf {p : CandidateProposal} (h : p ∈ proposalsOf scoring s limit item) :
    p.itemId = item.id ∧ s.IsActive p.productId ∧
      ∃ m, matchOf s.tables item.id = some m ∧ p.productId ≠ m.productId := by
  unfold proposalsOf at h
  split at h
  · cases h
  · rename_i m hm
    obtain ⟨product, hproduct, hp⟩ := List.mem_filterMap.mp (List.mem_of_mem_take h)
    obtain ⟨scored, -, rfl⟩ := Option.map_eq_some_iff.mp hp
    obtain ⟨hactive, hne⟩ := mem_candidateBlock hproduct
    exact ⟨rfl, hactive, m, (Option.filter_eq_some_iff.mp hm).1, hne⟩

theorem nodup_proposalsOf :
    ((proposalsOf scoring s limit item).map CandidateProposal.productId).Nodup := by
  unfold proposalsOf
  split
  · exact List.nodup_nil
  · refine ((List.take_sublist _ _).map CandidateProposal.productId).nodup ?_
    rw [List.map_filterMap]
    refine List.Nodup.filterMap (fun a b c ha hb => ?_) nodup_candidateBlock
    obtain ⟨p, hp, rfl⟩ := Option.map_eq_some_iff.mp ha
    obtain ⟨scored, -, rfl⟩ := Option.map_eq_some_iff.mp hp
    obtain ⟨q, hq, hpq⟩ := Option.map_eq_some_iff.mp hb
    obtain ⟨scored', -, rfl⟩ := Option.map_eq_some_iff.mp hq
    exact hpq.symm

/-- The proposals of a page are unique under the key of the table. -/
theorem uniqueOn_proposals {batch : List RetailerItem}
    (hids : Table.UniqueOn RetailerItem.id batch) :
    Table.UniqueOn CandidateProposal.key (batch.flatMap (proposalsOf scoring s limit)) := by
  have hpairs : Table.UniqueOn (fun p : CandidateProposal => (p.itemId, p.productId))
      (batch.flatMap (proposalsOf scoring s limit)) := by
    induction batch with
    | nil => exact List.nodup_nil
    | cons item rest ih =>
      have hnodup := List.nodup_cons.mp (show (item.id :: rest.map RetailerItem.id).Nodup from hids)
      rw [Table.UniqueOn, List.flatMap_cons, List.map_append, List.nodup_append]
      refine ⟨?_, ih hnodup.2, ?_⟩
      · refine List.Nodup.of_map Prod.snd ?_
        rw [List.map_map]
        exact nodup_proposalsOf
      · rintro _ ha _ hb rfl
        obtain ⟨p, hp, hpk⟩ := List.mem_map.mp ha
        obtain ⟨q, hq, hqk⟩ := List.mem_map.mp hb
        obtain ⟨other, hother, hq⟩ := List.mem_flatMap.mp hq
        have hsame : item.id = other.id := by
          rw [← (mem_proposalsOf hp).1, ← (mem_proposalsOf hq).1]
          exact congrArg Prod.fst (hpk.trans hqk.symm)
        exact hnodup.1 (hsame ▸ List.mem_map_of_mem hother)
  refine hpairs.of_determines fun a b hab => ?_
  simp only [CandidateProposal.key, Prod.mk.injEq] at hab
  rw [hab.1, hab.2.1]

end Candidates

/-! ## What a page is -/

/-- The represented items of a page. -/
def pageOf (request : GenerationRequest) (t : Tables) : List RetailerItem :=
  (selectSubjects request.cursor request.itemLimit t).take request.itemLimit

theorem isolates_bootstrapSubjects (now : Time) (request : GenerationRequest) {s : ReviewState}
    (h : Represented s.tables) :
    Isolates s.tables (bootstrapSubjects now (pageOf request s.tables) s).tables := by
  have hmem : ∀ item ∈ pageOf request s.tables, item ∈ s.tables.items ∧
      ∀ m ∈ matchOf s.tables item.id, m.method = .isolatedRetailerItem := fun item hi =>
    mem_selectSubjects (List.mem_of_mem_take hi)
  exact (isolates_foldl h (fun item hi => (hmem item hi).1)
    fun item hi => h.only_of_matchOf (hmem item hi).2).1

/-- A page writes nothing, or its representations and then its candidates. -/
theorem generateCandidates_cases (scoring : Scoring) (request : GenerationRequest) (now : Time)
    (s : ReviewState) :
    (generateCandidates scoring request now s).1 = s ∨
      (generateCandidates scoring request now s).1 =
        writeCandidates now
          ((pageOf request s.tables).flatMap (proposalsOf scoring
            (bootstrapSubjects now (pageOf request s.tables) s) request.candidateLimit))
          (bootstrapSubjects now (pageOf request s.tables) s) := by
  unfold generateCandidates
  simp only
  split
  · exact .inl rfl
  · exact .inr rfl

end Makolet.Catalog
