import Makolet.Normalized.Clocks

/-!
# The instants that an apply introduces

An accepted apply writes one instant. Everything that begins in its tables began there before it or
begins at that instant, and a store or an item keeps the beginning that it was first seen with
(`apply_introduces`).
-/

set_option autoImplicit false

namespace Makolet.Normalized

open Makolet.Domain Makolet.Lib

/-! ## Rows that grow -/

section Rows

variable {α β κ : Type} [DecidableEq κ] {key : α → κ} {first : α → Time} {time time' : Time}
  {rows rows' rows'' : List α}

/-- Rows keep their keys and their beginnings, and a row under a new key begins at the instant. -/
structure Grows (key : α → κ) (first : α → Time) (time : Time) (rows rows' : List α) : Prop where
  kept : ∀ a ∈ rows, ∃ r ∈ rows', key r = key a
  origin : ∀ r ∈ rows', (∃ a ∈ rows, key a = key r ∧ first a = first r) ∨
    first r = time ∧ ∀ a ∈ rows, key a ≠ key r

/-- Each key has a row, and no row of these keys begins after the instant. -/
def SeenBy (key : α → κ) (first : α → Time) (time : Time) (keys : List κ) (rows : List α) : Prop :=
  ∀ k ∈ keys, (∃ r ∈ rows, key r = k) ∧ ∀ r ∈ rows, key r = k → first r ≤ time

omit [DecidableEq κ] in
theorem Grows.refl (rows : List α) : Grows key first time rows rows where
  kept a ha := ⟨a, ha, rfl⟩
  origin r hr := .inl ⟨r, hr, rfl, rfl⟩

omit [DecidableEq κ] in
theorem Grows.trans (h : Grows key first time rows rows')
    (h' : Grows key first time rows' rows'') : Grows key first time rows rows'' where
  kept a ha := by
    obtain ⟨r, hr, hk⟩ := h.kept a ha
    obtain ⟨r', hr', hk'⟩ := h'.kept r hr
    exact ⟨r', hr', hk'.trans hk⟩
  origin r hr := by
    rcases h'.origin r hr with ⟨b, hb, hk, hf⟩ | ⟨hf, hnew⟩
    · rcases h.origin b hb with ⟨a, ha, hk', hf'⟩ | ⟨hf', hnew'⟩
      · exact .inl ⟨a, ha, hk'.trans hk, hf'.trans hf⟩
      · exact .inr ⟨hf.symm.trans hf', fun a ha => hk ▸ hnew' a ha⟩
    · refine .inr ⟨hf, fun a ha hk => ?_⟩
      obtain ⟨b, hb, hbk⟩ := h.kept a ha
      exact hnew b hb (hbk.trans hk)

omit [DecidableEq κ] in
/-- A statement that changes neither keys nor beginnings. -/
theorem Grows.map {f : α → α} (hf : ∀ a, key (f a) = key a ∧ first (f a) = first a) :
    Grows key first time rows (rows.map f) where
  kept a ha := ⟨f a, List.mem_map_of_mem ha, (hf a).1⟩
  origin r hr := by
    obtain ⟨a, ha, rfl⟩ := List.mem_map.mp hr
    exact .inl ⟨a, ha, (hf a).1.symm, (hf a).2.symm⟩

theorem Grows.upsert {keyIn : β → κ} {insert : β → α} {update : α → β → α} {incoming : List β}
    (hinsert : ∀ b, key (insert b) = keyIn b ∧ first (insert b) = time)
    (hupdate : ∀ a b, first (update a b) = first a ∧ key (update a b) = key a) :
    Grows key first time rows (Table.upsert key keyIn insert update rows incoming) where
  kept a ha := by
    obtain ⟨r, hr, -, hk⟩ := Table.mem_upsert_old first hupdate ha
    exact ⟨r, hr, hk⟩
  origin r hr := by
    rcases Table.origin_of_upsert first (fun b => (hinsert b).1) hupdate hr with
      hold | ⟨hnew, b, -, rfl⟩
    · exact .inl hold
    · exact .inr ⟨(hinsert b).2, hnew⟩

omit [DecidableEq κ] in
/-- A key that has a row gets no other beginning. -/
theorem SeenBy.grows {keys : List κ} (h : SeenBy key first time keys rows)
    (hgrows : Grows key first time' rows rows') : SeenBy key first time keys rows' := by
  intro k hk
  obtain ⟨⟨a, ha, hak⟩, hle⟩ := h k hk
  constructor
  · obtain ⟨r, hr, hrk⟩ := hgrows.kept a ha
    exact ⟨r, hr, hrk.trans hak⟩
  · intro r hr hrk
    rcases hgrows.origin r hr with ⟨b, hb, hbk, hf⟩ | ⟨-, hnew⟩
    · exact hf ▸ hle b hb (hbk.trans hrk)
    · exact absurd (hak.trans hrk.symm) (hnew a ha)

/-- The keys of an upsert, whose rows then end at the instant. -/
theorem SeenBy.upsert (last : α → Time) {keyIn : β → κ} {insert : β → α} {update : α → β → α}
    {incoming : List β} {keys : List κ}
    (hinsert : ∀ b, key (insert b) = keyIn b ∧ last (insert b) = time)
    (hupdate : ∀ a b, key (update a b) = key a ∧ last (update a b) = time)
    (horder : ∀ r ∈ Table.upsert key keyIn insert update rows incoming, first r ≤ last r)
    (hkeys : ∀ k ∈ keys, ∃ b ∈ incoming, keyIn b = k) :
    SeenBy key first time keys (Table.upsert key keyIn insert update rows incoming) := by
  intro k hk
  obtain ⟨b, hb, rfl⟩ := hkeys k hk
  refine ⟨Table.exists_mem_upsert (fun b => (hinsert b).1) (fun a b => (hupdate a b).1) hb, ?_⟩
  intro r hr hrk
  have hlast : last r = time := by
    rcases Table.mem_upsert hr with ⟨-, hnone⟩ | ⟨a, -, c, -, -, rfl⟩ | ⟨c, -, rfl⟩
    · exact absurd hrk.symm (Table.lookup_eq_none.mp hnone b hb)
    · exact (hupdate a c).2
    · exact (hinsert c).2
  rw [← hlast]
  exact horder r hr

end Rows

/-! ## Derived rows -/

/-- Every instant at which a derived row begins is one of these. -/
structure Begun (P : Time → Prop) (t : Tables) : Prop where
  prices : ∀ c ∈ t.prices.current, P c.firstObservedAt
  priceHistory : ∀ h ∈ t.prices.history, P h.validFrom
  availability : ∀ c ∈ t.availability.current, P c.firstObservedAt
  availabilityHistory : ∀ h ∈ t.availability.history, P h.validFrom
  promotions : ∀ v ∈ t.promotions, P v.validFrom
  assertions : ∀ a ∈ t.assertions, P a.assertedAt

section Begun

variable {P : Time → Prop} {ν π : Type} {fileId : FileId} {time : Time}

theorem begun_insertOpen {keys : List Key} {rows : List (Incoming ν π)}
    {history closed written : List (History ν π)} (hclosed : closeOpen time keys history = .ok closed)
    (hinsert : insertOpen fileId time rows closed = .ok written) (htime : P time)
    (hbegun : ∀ h ∈ history, P h.validFrom) : ∀ h ∈ written, P h.validFrom := by
  intro h hh
  rw [insertOpen_eq_ok hinsert, List.mem_append] at hh
  rcases hh with hold | hnew
  · rw [(closeOpen_eq_ok hclosed).1] at hold
    obtain ⟨old, hmem, rfl⟩ := List.mem_map.mp hold
    have hb := hbegun old hmem
    split
    · exact hb
    · exact hb
  · obtain ⟨r, -, rfl⟩ := List.mem_map.mp hnew
    exact htime

theorem begun_applyIncoming [DecidableEq ν] {incoming : List (Incoming ν π)}
    {obs obs' : Observations ν π} (h : applyIncoming fileId time incoming obs = .ok obs')
    (htime : P time) (hcurrent : ∀ c ∈ obs.current, P c.firstObservedAt)
    (hhistory : ∀ v ∈ obs.history, P v.validFrom) :
    (∀ c ∈ obs'.current, P c.firstObservedAt) ∧ ∀ v ∈ obs'.history, P v.validFrom := by
  obtain ⟨closed, hclosed, hinsert, hwritten⟩ := applyIncoming_eq_ok h
  refine ⟨?_, begun_insertOpen hclosed hinsert htime hhistory⟩
  obtain ⟨-, hwritten⟩ := require_bind_eq_ok.mp hwritten
  rw [pure_eq_ok] at hwritten
  rw [← hwritten]
  intro c hc
  rcases Table.mem_upsert hc with ⟨hold, -⟩ | ⟨a, ha, b, -, -, rfl⟩ | ⟨b, -, rfl⟩
  · exact hcurrent c hold
  · exact hcurrent a ha
  · exact htime

theorem begun_reconcileAbsent {missing : List Key} {value : ν} {details : π}
    {obs obs' : Observations ν π}
    (h : reconcileAbsent fileId time missing value details obs = .ok obs') (htime : P time)
    (hcurrent : ∀ c ∈ obs.current, P c.firstObservedAt)
    (hhistory : ∀ v ∈ obs.history, P v.validFrom) :
    (∀ c ∈ obs'.current, P c.firstObservedAt) ∧ ∀ v ∈ obs'.history, P v.validFrom := by
  obtain ⟨closed, hclosed, h⟩ := bind_eq_ok.mp h
  obtain ⟨history, hinsert, h⟩ := bind_eq_ok.mp h
  obtain ⟨-, h⟩ := require_bind_eq_ok.mp h
  rw [pure_eq_ok] at h
  subst h
  refine ⟨?_, begun_insertOpen hclosed hinsert htime hhistory⟩
  intro c hc
  obtain ⟨old, hold, rfl⟩ := List.mem_map.mp hc
  have hb := hcurrent old hold
  split
  · exact hb
  · exact hb

theorem begun_matchExactGtins {p : ApplyParameters} {items : List RetailerItem} {t t' : Tables}
    (h : matchExactGtins p items t = .ok t') (htime : P p.appliedAt)
    (hbegun : ∀ a ∈ t.assertions, P a.assertedAt) : ∀ a ∈ t'.assertions, P a.assertedAt := by
  obtain ⟨t₁, h₁, rfl⟩ := matchExactGtins_eq_ok h
  obtain ⟨superseded, hsup, hins, -⟩ := assertGtins_eq_ok h₁
  obtain ⟨-, hsup⟩ := require_bind_eq_ok.mp hsup
  rw [pure_eq_ok] at hsup
  intro a ha
  change a ∈ t₁.assertions at ha
  rw [insertAssertions_eq_ok hins] at ha
  rcases Table.mem_insertNew ha with hold | ⟨hnew, -⟩
  · rw [← hsup] at hold
    obtain ⟨old, hmem, rfl⟩ := List.mem_map.mp hold
    have hb := hbegun old hmem
    split
    · exact hb
    · exact hb
  · obtain ⟨item, -, hitem⟩ := List.mem_filterMap.mp hnew
    obtain ⟨g, -, rfl⟩ := Option.map_eq_some_iff.mp hitem
    exact htime

theorem begun_promotions {p : ApplyParameters} {s : Staging} {t t' : Tables} {promotions : List Promotion}
    (hclosed : closeOrRefreshPromotions p (promotionIncoming s) t.promotions = .ok promotions)
    (hinsert : insertPromotions p (promotionIncoming s) { t with promotions := promotions } = .ok t')
    (htime : P p.appliedAt) (hbegun : ∀ v ∈ t.promotions, P v.validFrom) :
    ∀ v ∈ t'.promotions, P v.validFrom := by
  obtain ⟨-, hclosed⟩ := require_bind_eq_ok.mp hclosed
  obtain ⟨-, hinsert⟩ := require_bind_eq_ok.mp hinsert
  rw [pure_eq_ok] at hclosed hinsert
  subst hinsert
  intro v hv
  rcases List.mem_append.mp hv with hold | hnew
  · change v ∈ promotions at hold
    rw [← hclosed] at hold
    obtain ⟨old, hmem, rfl⟩ := List.mem_map.mp hold
    have hb := hbegun old hmem
    split
    · split
      · exact hb
      · split
        · exact hb
        · exact hb
    · exact hb
  · obtain ⟨b, -, rfl⟩ := List.mem_map.mp hnew
    exact htime

theorem begun_closeAbsentPromotions {p : ApplyParameters} {s : Staging} {t t' : Tables} {n : Nat}
    (h : closeAbsentPromotions p s t = .ok (t', n)) (hbegun : ∀ v ∈ t.promotions, P v.validFrom) :
    ∀ v ∈ t'.promotions, P v.validFrom := by
  obtain ⟨-, h⟩ := require_bind_eq_ok.mp h
  rw [pure_eq_ok] at h
  cases h
  intro v hv
  obtain ⟨old, hmem, rfl⟩ := List.mem_map.mp hv
  have hb := hbegun old hmem
  split
  · exact hb
  · exact hb

end Begun

/-! ## Stores and items -/

/-- The keys of the stores and items that a file names. -/
def namedStoreKeys (p : ApplyParameters) (s : Staging) (family : DocumentFamily) :
    List (RetailerId × PortalId × String × String) :=
  (storeKeysOf s family).map fun k => (p.retailerId, p.portalId, k.1, k.2)

def namedItemKeys (p : ApplyParameters) (s : Staging) (family : DocumentFamily) :
    List (RetailerId × PortalId × String) :=
  (itemCodesOf s family).map fun code => (p.retailerId, p.portalId, code)

/-- An apply at an instant introduced no other one. -/
structure Introduces (p : ApplyParameters) (s : Staging) (family : DocumentFamily) (t t' : Tables) :
    Prop where
  stores : Grows StoreRow.key StoreRow.firstSeenAt p.appliedAt t.stores t'.stores
  items : Grows RetailerItem.key RetailerItem.firstSeenAt p.appliedAt t.items t'.items
  storesSeen : SeenBy StoreRow.key StoreRow.firstSeenAt p.appliedAt (namedStoreKeys p s family)
    t'.stores
  itemsSeen : SeenBy RetailerItem.key RetailerItem.firstSeenAt p.appliedAt
    (namedItemKeys p s family) t'.items
  derived : ∀ P : Time → Prop, P p.appliedAt → Begun P t → Begun P t'

section Named

variable {p : ApplyParameters} {s : Staging} {t t' : Tables}

theorem upsertPriceStores_grows (h : upsertPriceStores p s t = .ok t') :
    Grows StoreRow.key StoreRow.firstSeenAt p.appliedAt t.stores t'.stores ∧
      SeenBy StoreRow.key StoreRow.firstSeenAt p.appliedAt (namedStoreKeys p s .prices)
        t'.stores := by
  obtain ⟨horder, h⟩ := require_bind_eq_ok.mp h
  rw [pure_eq_ok] at h
  subst h
  refine ⟨.upsert (fun _ => ⟨rfl, rfl⟩) fun _ _ => ⟨rfl, rfl⟩,
    .upsert StoreRow.lastSeenAt (fun _ => ⟨rfl, rfl⟩) (fun _ _ => ⟨rfl, rfl⟩) horder ?_⟩
  intro k hk
  obtain ⟨code, hcode, rfl⟩ := List.mem_map.mp hk
  obtain ⟨r, hr, rfl⟩ := List.mem_map.mp hcode
  obtain ⟨b, hb, hbk⟩ := exists_priceIncoming hr
  obtain ⟨c, hc, hck⟩ : ∃ c ∈ Table.distinctOn StagedPrice.storeKey (priceIncoming s),
      c.storeKey = b.storeKey := Table.exists_mem_distinctOn hb
  obtain ⟨d, hd, rfl⟩ := Table.exists_mem_zipIdx hc t.nextId
  refine ⟨d, hd, ?_⟩
  simp only [StagedPrice.key, StagedPrice.storeKey, Prod.mk.injEq] at hbk hck ⊢
  exact ⟨trivial, trivial, hck.1.trans hbk.1, hck.2.trans hbk.2.1⟩

theorem upsertRetailerItems_grows (h : upsertRetailerItems p s t = .ok t') :
    Grows RetailerItem.key RetailerItem.firstSeenAt p.appliedAt t.items t'.items ∧
      SeenBy RetailerItem.key RetailerItem.firstSeenAt p.appliedAt (namedItemKeys p s .prices)
        t'.items := by
  obtain ⟨horder, h⟩ := require_bind_eq_ok.mp h
  rw [pure_eq_ok] at h
  subst h
  refine ⟨.upsert (fun _ => ⟨rfl, rfl⟩) fun _ _ => ⟨rfl, rfl⟩,
    .upsert RetailerItem.lastSeenAt (fun _ => ⟨rfl, rfl⟩) (fun _ _ => ⟨rfl, rfl⟩) horder
      ?_⟩
  intro k hk
  obtain ⟨code, hcode, rfl⟩ := List.mem_map.mp hk
  obtain ⟨r, hr, rfl⟩ := List.mem_map.mp hcode
  obtain ⟨b, hb, hbk⟩ := exists_priceIncoming hr
  obtain ⟨c, hc, hck⟩ : ∃ c ∈ Table.distinctOn StagedPrice.sourceItemCode
      ((priceIncoming s).insertionSort fun a b => a.sourceStoreId ≤ b.sourceStoreId),
      c.sourceItemCode = b.sourceItemCode :=
    Table.exists_mem_distinctOn ((List.mem_insertionSort _).mpr hb)
  obtain ⟨d, hd, rfl⟩ := Table.exists_mem_zipIdx hc t.nextId
  refine ⟨d, hd, ?_⟩
  simp only [StagedPrice.key, Prod.mk.injEq] at hbk ⊢
  exact ⟨trivial, trivial, hck.trans hbk.2.2⟩

theorem upsertStores_grows (h : upsertStores p s t = .ok t') :
    Grows StoreRow.key StoreRow.firstSeenAt p.appliedAt t.stores t'.stores ∧
      SeenBy StoreRow.key StoreRow.firstSeenAt p.appliedAt (namedStoreKeys p s .stores)
        t'.stores := by
  obtain ⟨horder, h⟩ := require_bind_eq_ok.mp h
  rw [pure_eq_ok] at h
  subst h
  refine ⟨.upsert (fun _ => ⟨rfl, rfl⟩) fun _ _ => ⟨rfl, rfl⟩,
    .upsert StoreRow.lastSeenAt (fun _ => ⟨rfl, rfl⟩) (fun _ _ => ⟨rfl, rfl⟩) horder ?_⟩
  intro k hk
  obtain ⟨code, hcode, rfl⟩ := List.mem_map.mp hk
  obtain ⟨r, hr, rfl⟩ := List.mem_map.mp hcode
  obtain ⟨b, hb, hbk⟩ := exists_storeIncoming hr
  obtain ⟨d, hd, rfl⟩ := Table.exists_mem_zipIdx hb t.nextId
  refine ⟨d, hd, ?_⟩
  simp only [StagedStore.key, Prod.mk.injEq] at hbk ⊢
  exact ⟨trivial, trivial, hbk⟩

theorem ensurePromotionItems_grows (h : ensurePromotionItems p s t = .ok t') :
    Grows RetailerItem.key RetailerItem.firstSeenAt p.appliedAt t.items t'.items ∧
      SeenBy RetailerItem.key RetailerItem.firstSeenAt p.appliedAt (namedItemKeys p s .promotions)
        t'.items := by
  obtain ⟨horder, h⟩ := require_bind_eq_ok.mp h
  rw [pure_eq_ok] at h
  subst h
  refine ⟨.upsert (fun _ => ⟨rfl, rfl⟩) fun _ _ => ⟨rfl, rfl⟩,
    .upsert RetailerItem.lastSeenAt (fun _ => ⟨rfl, rfl⟩) (fun _ _ => ⟨rfl, rfl⟩) horder
      ?_⟩
  intro k hk
  obtain ⟨code, hcode, rfl⟩ := List.mem_map.mp hk
  obtain ⟨d, hd, rfl⟩ := Table.exists_mem_zipIdx (List.mem_dedup.mpr hcode) t.nextId
  exact ⟨d, hd, rfl⟩

theorem ensurePromotionStores_grows (h : ensurePromotionStores p s t = .ok t') :
    Grows StoreRow.key StoreRow.firstSeenAt p.appliedAt t.stores t'.stores ∧
      SeenBy StoreRow.key StoreRow.firstSeenAt p.appliedAt (namedStoreKeys p s .promotions)
        t'.stores := by
  obtain ⟨-, h⟩ := require_bind_eq_ok.mp h
  obtain ⟨horder, h⟩ := require_bind_eq_ok.mp h
  rw [pure_eq_ok] at h
  subst h
  refine ⟨.upsert (fun _ => ⟨rfl, rfl⟩) fun _ _ => ⟨rfl, rfl⟩,
    .upsert StoreRow.lastSeenAt (fun _ => ⟨rfl, rfl⟩) (fun _ _ => ⟨rfl, rfl⟩) horder ?_⟩
  intro k hk
  obtain ⟨code, hcode, rfl⟩ := List.mem_map.mp hk
  obtain ⟨r, hr, hcode⟩ := List.mem_flatMap.mp hcode
  obtain ⟨store, hstore, rfl⟩ := List.mem_map.mp hcode
  have hrow : (r.chainId, r.subchainId, store) ∈ (s.promotions.flatMap fun r =>
      r.stores.map fun store => (r.chainId, r.subchainId, store)).dedup :=
    List.mem_dedup.mpr (List.mem_flatMap.mpr ⟨r, hr, List.mem_map_of_mem hstore⟩)
  obtain ⟨d, hd, hdr⟩ := Table.exists_mem_zipIdx hrow t.nextId
  refine ⟨d, hd, ?_⟩
  rw [hdr]

end Named

/-! ## Applies -/

section Applies

variable {a : DocumentApply} {t t' : Tables} {summary : ApplySummary}

theorem introduces_of_prices (h : applyPrices a t = .ok (t', summary)) :
    Introduces a.parameters a.staging .prices t t' := by
  obtain ⟨t₁, t₂, t₃, maps, mapped, prices, availability, final, hstores, hitems, -, -, hgtins,
    hprices, havailability, rfl, hdelta, hfull⟩ := applyPrices_eq_ok h
  have hrows : t₃.stores = t₁.stores ∧ t₃.items = t₂.items ∧ t₁.items = t.items := by
    rw [matchExactGtins_frame hgtins, upsertRetailerItems_frame hitems,
      upsertPriceStores_frame hstores]
    exact ⟨rfl, rfl, rfl⟩
  have hobs : t₃.prices = t.prices ∧ t₃.availability = t.availability ∧
      t₃.promotions = t.promotions ∧ t₂.assertions = t.assertions := by
    rw [matchExactGtins_frame hgtins, upsertRetailerItems_frame hitems,
      upsertPriceStores_frame hstores]
    exact ⟨rfl, rfl, rfl, rfl⟩
  obtain ⟨hgrows, hseen⟩ := upsertPriceStores_grows hstores
  obtain ⟨hgrows', hseen'⟩ := upsertRetailerItems_grows hitems
  rw [hrows.2.2] at hgrows'
  rw [hobs.1] at hprices
  rw [hobs.2.1] at havailability
  refine ⟨?_, ?_, ?_, ?_, fun P htime hbegun => ?_⟩
  · show Grows _ _ _ t.stores t₃.stores
    rw [hrows.1]
    exact hgrows
  · show Grows _ _ _ t.items t₃.items
    rw [hrows.2.1]
    exact hgrows'
  · show SeenBy _ _ _ _ t₃.stores
    rw [hrows.1]
    exact hseen
  · show SeenBy _ _ _ _ t₃.items
    rw [hrows.2.1]
    exact hseen'
  · have hp := begun_applyIncoming hprices htime hbegun.prices hbegun.priceHistory
    have ha := begun_applyIncoming havailability htime hbegun.availability
      hbegun.availabilityHistory
    have hf : (∀ c ∈ final.current, P c.firstObservedAt) ∧ ∀ v ∈ final.history, P v.validFrom := by
      cases hisFull : a.isFull with
      | false =>
        rw [hdelta hisFull]
        exact ha
      | true => exact begun_reconcileAbsent (hfull hisFull) htime ha.1 ha.2
    refine ⟨hp.1, hp.2, hf.1, hf.2, ?_, ?_⟩
    · show ∀ v ∈ t₃.promotions, P v.validFrom
      rw [hobs.2.2.1]
      exact hbegun.promotions
    · show ∀ b ∈ t₃.assertions, P b.assertedAt
      refine begun_matchExactGtins hgtins htime ?_
      rw [hobs.2.2.2]
      exact hbegun.assertions

theorem introduces_of_stores (h : applyStores a t = .ok (t', summary)) :
    Introduces a.parameters a.staging .stores t t' := by
  have hframe := applyStores_frame h
  obtain ⟨t₁, h₁, rfl⟩ := applyStores_eq_ok h
  obtain ⟨hgrows, hseen⟩ := upsertStores_grows h₁
  -- Deactivated stores keep their keys and beginnings.
  have hdeactivated : Grows StoreRow.key StoreRow.firstSeenAt a.parameters.appliedAt t₁.stores
      (deactivateStores a.parameters a.staging
        (insertStoreAliases a.parameters a.staging t₁)).stores := by
    refine .map fun r => ?_
    split
    · exact ⟨rfl, rfl⟩
    · exact ⟨rfl, rfl⟩
  refine ⟨hgrows.trans hdeactivated, ?_, hseen.grows hdeactivated, (fun _ hk => by cases hk),
    fun P _ hbegun => ?_⟩
  · rw [hframe]
    exact .refl _
  · rw [hframe]
    exact ⟨hbegun.prices, hbegun.priceHistory, hbegun.availability, hbegun.availabilityHistory,
      hbegun.promotions, hbegun.assertions⟩

theorem introduces_of_promotions (h : applyPromotions a t = .ok (t', summary)) :
    Introduces a.parameters a.staging .promotions t t' := by
  have hframe := applyPromotions_frame h
  obtain ⟨t₁, t₂, t₃, promotions, h₁, h₂, hclosed, h₃, hend⟩ := applyPromotions_eq_ok h
  have hrows : t'.stores = t₂.stores ∧ t'.items = t₁.items := by
    have hmid : t₃.stores = t₂.stores ∧ t₃.items = t₁.items := by
      rw [(insertPromotions_eq_ok h₃).2, ensurePromotionStores_frame h₂]
      exact ⟨rfl, rfl⟩
    rcases hend with ⟨-, rfl⟩ | ⟨-, n, hn⟩
    · exact hmid
    · rw [(closeAbsentPromotions_eq_ok hn).2]
      exact hmid
  have hold : t₂.promotions = t.promotions ∧ t₁.stores = t.stores := by
    rw [ensurePromotionStores_frame h₂, ensurePromotionItems_frame h₁]
    exact ⟨rfl, rfl⟩
  obtain ⟨hgrows, hseen⟩ := ensurePromotionStores_grows h₂
  obtain ⟨hgrows', hseen'⟩ := ensurePromotionItems_grows h₁
  rw [hold.2] at hgrows
  refine ⟨hrows.1 ▸ hgrows, hrows.2 ▸ hgrows', hrows.1 ▸ hseen, hrows.2 ▸ hseen',
    fun P htime hbegun => ?_⟩
  have hversions : ∀ v ∈ t'.promotions, P v.validFrom := by
    have hmid := begun_promotions hclosed h₃ htime (hold.1 ▸ hbegun.promotions)
    rcases hend with ⟨-, rfl⟩ | ⟨-, n, hn⟩
    · exact hmid
    · exact begun_closeAbsentPromotions hn hmid
  rw [hframe]
  exact ⟨hbegun.prices, hbegun.priceHistory, hbegun.availability, hbegun.availabilityHistory,
    hversions, hbegun.assertions⟩

/-- An accepted apply introduces its own instant and no other. -/
theorem apply_introduces {r : ApplyRequest} (h : apply r t = .ok (t', summary)) :
    ∃ family, family? r.documentType = some family ∧
      Introduces (r.documentApply (r.appliedAt t)).parameters r.staging family t t' := by
  obtain ⟨family, hfamily, -, hwrite⟩ := apply_eq_ok h
  obtain ⟨written, hwritten, rfl⟩ := writeDocument_eq_ok hwrite
  refine ⟨family, hfamily, ?_⟩
  have hdone : Introduces (r.documentApply (r.appliedAt t)).parameters r.staging family
      (claimContent r t).1 written := by
    cases family with
    | stores => exact introduces_of_stores hwritten
    | prices => exact introduces_of_prices hwritten
    | promotions => exact introduces_of_promotions hwritten
  rw [claimContent_frame] at hdone
  obtain ⟨hstores, hitems, hstoresSeen, hitemsSeen, hderived⟩ := hdone
  refine ⟨hstores, hitems, hstoresSeen, hitemsSeen, fun P htime hbegun => ?_⟩
  obtain ⟨h₁, h₂, h₃, h₄, h₅, h₆⟩ := hderived P htime
    ⟨hbegun.prices, hbegun.priceHistory, hbegun.availability, hbegun.availabilityHistory,
      hbegun.promotions, hbegun.assertions⟩
  exact ⟨h₁, h₂, h₃, h₄, h₅, h₆⟩

end Applies

end Makolet.Normalized
