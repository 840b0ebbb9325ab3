import Makolet.Normalized.Apply

/-!
# Watermarks are monotone

Every accepted apply or replay outside a rebuild leaves each watermark alone or replaces it by a
later one, or by one of the same instant and content (`apply_watermark_step`). Over a run this
makes the effective timestamps monotone and two files of one scope and instant the same content
(`watermarks_monotone`). The scopes a file sets are computed from the same staged records that it
writes, so each row it writes for a record lies in one of them (`record_row_scope`).
-/

set_option autoImplicit false

namespace Makolet.Normalized

open Makolet.Domain Makolet.Lib

/-! ## One apply -/

theorem watermarkOf_advance (r : ApplyRequest) (family : DocumentFamily) (t : Tables)
    (k : WatermarkKey) :
    watermarkOf (advanceSourceWatermarks r family t) k =
      if k ∈ r.watermarkKeys family then
        some ⟨k, r.effectiveTimestamp, r.contentSha256, r.sourceFileId⟩
      else watermarkOf t k := by
  have hlookup := @Table.lookup_upsert _ _ _ _ Watermark.key id
    (fun k => (⟨k, r.effectiveTimestamp, r.contentSha256, r.sourceFileId⟩ : Watermark))
    (fun old _ => { old with
      effectiveSourceTimestamp := r.effectiveTimestamp
      sourceContentSha256 := r.contentSha256
      sourceFileId := r.sourceFileId })
    t.watermarks (r.watermarkKeys family) (fun _ => rfl) (fun _ _ => rfl) k
  have hkeys : Table.lookup id (r.watermarkKeys family) k =
      if k ∈ r.watermarkKeys family then some k else none := by
    split
    · rename_i hk
      cases hl : Table.lookup id (r.watermarkKeys family) k with
      | none => exact absurd rfl (Table.lookup_eq_none.mp hl k hk)
      | some j => rw [show j = k from Table.key_of_lookup hl]
    · rename_i hk
      rw [Table.lookup_eq_none]
      intro j hj hjk
      exact hk (hjk ▸ hj)
  rw [hkeys] at hlookup
  refine hlookup.trans ?_
  by_cases hk : k ∈ r.watermarkKeys family
  · rw [if_pos hk, if_pos hk]
    cases hold : Table.lookup Watermark.key t.watermarks k with
    | none => rfl
    | some w => rw [← Table.key_of_lookup hold]
  · rw [if_neg hk, if_neg hk]
    rfl

theorem applyFamily_watermarks {family : DocumentFamily} {a : DocumentApply} {t t' : Tables}
    {summary : ApplySummary} (h : applyFamily family a t = .ok (t', summary)) :
    t'.watermarks = t.watermarks := by
  cases family with
  | stores => rw [applyStores_frame h]
  | prices => rw [applyPrices_frame h]
  | promotions => rw [applyPromotions_frame h]

theorem claimContent_frame (r : ApplyRequest) (t : Tables) :
    (claimContent r t).1 = { t with appliedContents := (claimContent r t).1.appliedContents } := by
  unfold claimContent
  split <;> rfl

theorem applyFamily_appliedContents {family : DocumentFamily} {a : DocumentApply} {t t' : Tables}
    {summary : ApplySummary} (h : applyFamily family a t = .ok (t', summary)) :
    t'.appliedContents = t.appliedContents := by
  cases family with
  | stores => rw [applyStores_frame h]
  | prices => rw [applyPrices_frame h]
  | promotions => rw [applyPromotions_frame h]

/-- The claims after an accepted apply are those of its own claim. -/
theorem apply_appliedContents {r : ApplyRequest} {t t' : Tables} {summary : ApplySummary}
    (h : apply r t = .ok (t', summary)) :
    t'.appliedContents = (claimContent r t).1.appliedContents := by
  obtain ⟨family, -, -, hwrite⟩ := apply_eq_ok h
  obtain ⟨written, hwritten, rfl⟩ := writeDocument_eq_ok hwrite
  show written.appliedContents = _
  exact applyFamily_appliedContents hwritten

/-- The effect of an accepted apply on every watermark. -/
theorem apply_watermark_step {r : ApplyRequest} {t t' : Tables} {summary : ApplySummary}
    (h : apply r t = .ok (t', summary)) :
    ∃ family, family? r.documentType = some family ∧
      ∀ k, (k ∈ r.watermarkKeys family →
          watermarkOf t' k = some ⟨k, r.effectiveTimestamp, r.contentSha256, r.sourceFileId⟩ ∧
          ∀ w, watermarkOf t k = some w → w.effectiveSourceTimestamp ≤ r.effectiveTimestamp ∧
            (w.effectiveSourceTimestamp = r.effectiveTimestamp →
              w.sourceContentSha256 = r.contentSha256)) ∧
        (k ∉ r.watermarkKeys family → watermarkOf t' k = watermarkOf t k) := by
  obtain ⟨family, hfamily, hordering, hwrite⟩ := apply_eq_ok h
  obtain ⟨written, hwritten, rfl⟩ := writeDocument_eq_ok hwrite
  refine ⟨family, hfamily, fun k => ⟨fun hk => ⟨?_, fun w hw => ?_⟩, fun hk => ?_⟩⟩
  · rw [watermarkOf_advance, if_pos hk]
  · exact ordering_of_no_quarantine hordering hk hw
  · rw [watermarkOf_advance, if_neg hk, watermarkOf, applyFamily_watermarks hwritten,
      claimContent_frame]
    rfl

/-! ## Rows written for records -/

/-- The watermark of the key is the one the file set. -/
def SetBy (r : ApplyRequest) (t : Tables) (k : WatermarkKey) : Prop :=
  watermarkOf t k = some ⟨k, r.effectiveTimestamp, r.contentSha256, r.sourceFileId⟩

/-- The watermark key of a store in the price and in the roster family. -/
def StoreRow.priceWatermark (store : StoreRow) : WatermarkKey :=
  ⟨store.retailerId, store.portalId, .prices, ⟨store.subchainCode, store.sourceStoreCode⟩⟩

def StoreRow.rosterWatermark (store : StoreRow) : WatermarkKey :=
  ⟨store.retailerId, store.portalId, .stores, ⟨store.subchainCode, ""⟩⟩

def PromotionKey.watermark (k : PromotionKey) : WatermarkKey :=
  ⟨k.retailerId, k.portalId, .promotions, ⟨k.subchainCode, k.sourceScopeStoreCode⟩⟩

/-- Every staged record of the file, and every row of the normalized tables that the apply wrote
for one, lies in a scope whose watermark the file set. -/
structure RecordsInScope (r : ApplyRequest) (family : DocumentFamily) (t t' : Tables) : Prop where
  staged : ∀ scope ∈ stagedScopes r.staging family, SetBy r t' (r.watermarkKey family scope)
  price : ∀ c ∈ t'.prices.current, c ∉ t.prices.current →
    ∃ store ∈ t'.stores, store.id = c.key.storeId ∧ SetBy r t' store.priceWatermark
  priceVersion : ∀ h ∈ t'.prices.history, h.validTo = none → h ∉ t.prices.history →
    ∃ store ∈ t'.stores, store.id = h.key.storeId ∧ SetBy r t' store.priceWatermark
  promotion : ∀ v ∈ t'.promotions, v.isOpen = true → v ∉ t.promotions →
    SetBy r t' v.key.watermark
  roster : family = .stores → ∀ store ∈ t'.stores, store.isActive = true → store ∉ t.stores →
    SetBy r t' store.rosterWatermark

theorem mem_incomingScopes {family : DocumentFamily} {s : Staging} {scope : Scope}
    (h : scope ∈ stagedScopes s family) : scope ∈ incomingScopes family s := by
  have hmem := List.mem_dedup.mpr h
  unfold incomingScopes
  rw [if_pos (List.ne_nil_of_mem hmem)]
  exact hmem

theorem mem_of_mem_priceIncoming {s : Staging} {r : StagedPrice} (h : r ∈ priceIncoming s) :
    r ∈ s.prices :=
  (List.mem_insertionSort _).mp (Table.mem_of_mem_distinctOn h)

/-- Every record has an incoming row of its key. -/
theorem exists_priceIncoming {s : Staging} {r : StagedPrice} (h : r ∈ s.prices) :
    ∃ x ∈ priceIncoming s, x.key = r.key :=
  Table.exists_mem_distinctOn ((List.mem_insertionSort _).mpr h)

theorem mem_of_mem_storeIncoming {s : Staging} {r : StagedStore} (h : r ∈ storeIncoming s) :
    r ∈ s.stores :=
  (List.mem_insertionSort _).mp (Table.mem_of_mem_distinctOn h)

theorem exists_storeIncoming {s : Staging} {r : StagedStore} (h : r ∈ s.stores) :
    ∃ x ∈ storeIncoming s, x.key = r.key :=
  Table.exists_mem_distinctOn ((List.mem_insertionSort _).mpr h)

theorem mem_of_mem_promotionIncoming {s : Staging} {r : StagedPromotion}
    (h : r ∈ promotionIncoming s) : r ∈ s.promotions :=
  (List.mem_insertionSort _).mp (Table.mem_of_mem_distinctOn h)

section Rows

variable {ν π : Type} [DecidableEq ν] {fileId : FileId} {at' : Time}
  {incoming : List (Incoming ν π)} {obs obs' : Observations ν π}

/-- A new current row has the key of an incoming row. -/
theorem current_new (h : applyIncoming fileId at' incoming obs = .ok obs') {c : Current ν π}
    (hc : c ∈ obs'.current) (hnew : c ∉ obs.current) : ∃ r ∈ incoming, r.key = c.key := by
  obtain ⟨-, -, -, hcurrent⟩ := applyIncoming_eq_ok h
  obtain ⟨-, hp⟩ := require_bind_eq_ok.mp hcurrent
  rw [pure_eq_ok] at hp
  rw [← hp] at hc
  rcases Table.mem_upsert hc with ⟨hold, -⟩ | ⟨a, -, b, hb, hkey, rfl⟩ | ⟨b, hb, rfl⟩
  · exact absurd hold hnew
  · exact ⟨b, hb, hkey⟩
  · exact ⟨b, hb, rfl⟩

/-- A new open history row has the key of an incoming row. -/
theorem history_new (h : applyIncoming fileId at' incoming obs = .ok obs') {v : History ν π}
    (hv : v ∈ obs'.history) (hopen : v.validTo = none) (hnew : v ∉ obs.history) :
    ∃ r ∈ incoming, r.key = v.key := by
  obtain ⟨closed, hclosed, hinsert, -⟩ := applyIncoming_eq_ok h
  rw [insertOpen_eq_ok hinsert] at hv
  rcases List.mem_append.mp hv with hold | hins
  · rw [(closeOpen_eq_ok hclosed).1] at hold
    obtain ⟨b, hb, rfl⟩ := List.mem_map.mp hold
    split at hopen
    · cases hopen
    · rename_i hcond
      rw [if_neg hcond] at hnew
      exact absurd hb hnew
  · obtain ⟨r, hr, rfl⟩ := List.mem_map.mp hins
    exact ⟨r, (List.mem_filter.mp hr).1, rfl⟩

end Rows

section Written

variable {r : ApplyRequest} {t t' : Tables} {summary : ApplySummary} {appliedAt : Time}

/-- The store of a row written by a price apply is one the file names. -/
theorem applyPrices_row_store (h : applyPrices (r.documentApply appliedAt) t = .ok (t', summary)) :
    (∀ c ∈ t'.prices.current, c ∉ t.prices.current →
        ∃ store ∈ t'.stores, store.id = c.key.storeId ∧
          store.priceWatermark ∈ r.watermarkKeys .prices) ∧
      ∀ v ∈ t'.prices.history, v.validTo = none → v ∉ t.prices.history →
        ∃ store ∈ t'.stores, store.id = v.key.storeId ∧
          store.priceWatermark ∈ r.watermarkKeys .prices := by
  obtain ⟨t₁, t₂, t₃, maps, mapped, prices, _, final, hstores, hitems, hmaps, hmapped, hgtins,
    hprices, -, rfl, -, -⟩ := applyPrices_eq_ok h
  have hp : t₃.prices = t.prices := by
    rw [matchExactGtins_frame hgtins, upsertRetailerItems_frame hitems,
      upsertPriceStores_frame hstores]
  have hst : t₃.stores = t₂.stores := by
    rw [matchExactGtins_frame hgtins]
  rw [hp] at hprices
  have hstore : ∀ k : Key, (∃ x ∈ mapped.map MappedPrice.price, x.key = k) →
      ∃ store ∈ t₃.stores, store.id = k.storeId ∧
        store.priceWatermark ∈ r.watermarkKeys .prices := by
    rintro k ⟨x, hx, rfl⟩
    obtain ⟨m, hm, rfl⟩ := List.mem_map.mp hx
    obtain ⟨store, hs, hid⟩ := store_of_mem_mapped hmapped hm
    rw [(materializePriceMaps_eq_ok hmaps).1] at hs
    obtain ⟨hmem, hcond⟩ := List.mem_filter.mp hs
    rw [Bool.and_eq_true, decide_eq_true_eq, List.any_eq_true] at hcond
    obtain ⟨⟨hretailer, hportal⟩, row, hrow, hkey⟩ := hcond
    refine ⟨store, hst ▸ hmem, hid, List.mem_map.mpr ⟨⟨store.subchainCode, store.sourceStoreCode⟩,
      mem_incomingScopes (List.mem_map.mpr ⟨row, hrow, ?_⟩), ?_⟩⟩
    · have hkey' := of_decide_eq_true hkey
      rw [StagedPrice.storeKey, Prod.mk.injEq] at hkey'
      rw [hkey'.1, hkey'.2]
    · rw [StoreRow.priceWatermark, hretailer, hportal]
      rfl
  exact ⟨fun c hc hnew => hstore _ (current_new hprices hc hnew),
    fun v hv hopen hnew => hstore _ (history_new hprices hv hopen hnew)⟩

/-- A version that a promotion apply opened or refreshed has the key of a record. -/
theorem applyPromotions_row_scope
    (h : applyPromotions (r.documentApply appliedAt) t = .ok (t', summary)) :
    ∀ v ∈ t'.promotions, v.isOpen = true → v ∉ t.promotions →
      v.key.watermark ∈ r.watermarkKeys .promotions := by
  intro v hv hopen hnew
  obtain ⟨t₁, t₂, t₃, promotions, h₁, h₂, hclose, hinsert, hend⟩ := applyPromotions_eq_ok h
  have hp : t₂.promotions = t.promotions := by
    rw [ensurePromotionStores_frame h₂, ensurePromotionItems_frame h₁]
  have hv₃ : v ∈ t₃.promotions := by
    rcases hend with ⟨-, rfl⟩ | ⟨-, n, hn⟩
    · exact hv
    · exact (closeAbsentPromotions_eq_ok hn).1 v hv hopen
  have hrecord : ∃ b ∈ promotionIncoming r.staging,
      v.key = b.key (r.documentApply appliedAt).parameters := by
    rcases (insertPromotions_eq_ok hinsert).1 v hv₃ with hold | hins
    · obtain ⟨-, hc⟩ := require_bind_eq_ok.mp hclose
      rw [pure_eq_ok] at hc
      rw [show v ∈ _ ↔ v ∈ promotions from Iff.rfl, ← hc] at hold
      obtain ⟨q, hq, hqv⟩ := List.mem_map.mp hold
      rw [hp] at hq
      have hcase : q = v ∨ ∃ b, Table.lookup (StagedPromotion.key
          (r.documentApply appliedAt).parameters) (promotionIncoming r.staging) q.key = some b ∧
          v.key = q.key := by
        rw [← hqv]
        split
        · split
          · exact .inl rfl
          · rename_i b hb
            exact .inr ⟨b, hb, by split <;> rfl⟩
        · exact .inl rfl
      rcases hcase with rfl | ⟨b, hb, hkey⟩
      · exact absurd hq hnew
      · exact ⟨b, Table.mem_of_lookup hb, hkey.trans (Table.key_of_lookup hb).symm⟩
    · exact hins
  obtain ⟨b, hb, hkey⟩ := hrecord
  refine List.mem_map.mpr ⟨⟨b.subchainId, b.sourceScopeStoreCode⟩, mem_incomingScopes
    (List.mem_map.mpr ⟨b, mem_of_mem_promotionIncoming hb, rfl⟩), ?_⟩
  rw [hkey]
  rfl

/-- An active store that a roster apply wrote is one the roster lists. -/
theorem applyStores_row_scope
    (h : applyStores (r.documentApply appliedAt) t = .ok (t', summary)) :
    ∀ store ∈ t'.stores, store.isActive = true → store ∉ t.stores →
      store.rosterWatermark ∈ r.watermarkKeys .stores := by
  intro store hstore hactive hnew
  obtain ⟨t₁, h₁, rfl⟩ := applyStores_eq_ok h
  obtain ⟨q, hq, hqs⟩ := List.mem_map.mp hstore
  have hqs' : q = store := by
    split at hqs
    · rw [← hqs] at hactive
      cases hactive
    · exact hqs
  subst hqs'
  obtain ⟨-, h₁⟩ := require_bind_eq_ok.mp h₁
  rw [pure_eq_ok] at h₁
  have hq' : q ∈ t₁.stores := hq
  rw [← h₁] at hq'
  have hrecord : ∃ b ∈ storeIncoming r.staging, q.retailerId = r.source.retailerId ∧
      q.portalId = r.source.portalId ∧ q.subchainCode = b.subchainId := by
    rcases Table.mem_upsert hq' with ⟨hold, -⟩ | ⟨a, -, b, hb, hkey, rfl⟩ | ⟨b, hb, rfl⟩
    · exact absurd hold hnew
    · simp only [StoreRow.key, Prod.mk.injEq] at hkey
      exact ⟨b.1, List.fst_mem_of_mem_zipIdx hb, hkey.1.symm, hkey.2.1.symm, hkey.2.2.1.symm⟩
    · exact ⟨b.1, List.fst_mem_of_mem_zipIdx hb, rfl, rfl, rfl⟩
  obtain ⟨b, hb, hretailer, hportal, hsubchain⟩ := hrecord
  refine List.mem_map.mpr ⟨⟨b.subchainId, ""⟩, mem_incomingScopes
    (List.mem_map.mpr ⟨b, mem_of_mem_storeIncoming hb, rfl⟩), ?_⟩
  rw [StoreRow.rosterWatermark, hretailer, hportal, hsubchain]
  rfl

end Written

/-- An accepted apply writes records only into scopes whose watermark it sets. -/
theorem apply_recordsInScope {r : ApplyRequest} {t t' : Tables} {summary : ApplySummary}
    (h : apply r t = .ok (t', summary)) :
    ∃ family, family? r.documentType = some family ∧ RecordsInScope r family t t' := by
  obtain ⟨family, hfamily, -, hwrite⟩ := apply_eq_ok h
  obtain ⟨written, hwritten, rfl⟩ := writeDocument_eq_ok hwrite
  have hset : ∀ k ∈ r.watermarkKeys family,
      SetBy r (advanceSourceWatermarks r family written) k := by
    intro k hk
    rw [SetBy, watermarkOf_advance, if_pos hk]
  have hclaim := claimContent_frame r t
  have hstaged : ∀ scope ∈ stagedScopes r.staging family,
      SetBy r (advanceSourceWatermarks r family written) (r.watermarkKey family scope) :=
    fun scope hscope => hset _ (List.mem_map.mpr ⟨scope, mem_incomingScopes hscope, rfl⟩)
  refine ⟨family, hfamily, ?_⟩
  cases family with
  | stores =>
    have hframe := applyStores_frame hwritten
    have hrows := applyStores_row_scope hwritten
    rw [hclaim] at hrows
    refine ⟨hstaged, fun c hc hnew => absurd ?_ hnew, fun v hv _ hnew => absurd ?_ hnew,
      fun v hv _ hnew => absurd ?_ hnew, fun _ store hs hactive hnew => hset _ ?_⟩
    · rw [show (advanceSourceWatermarks r .stores written).prices = t.prices by
        rw [hframe, hclaim]; rfl] at hc
      exact hc
    · rw [show (advanceSourceWatermarks r .stores written).prices = t.prices by
        rw [hframe, hclaim]; rfl] at hv
      exact hv
    · rw [show (advanceSourceWatermarks r .stores written).promotions = t.promotions by
        rw [hframe, hclaim]; rfl] at hv
      exact hv
    · exact hrows store hs hactive hnew
  | prices =>
    have hframe := applyPrices_frame hwritten
    have hrows := applyPrices_row_store hwritten
    rw [hclaim] at hrows
    refine ⟨hstaged, fun c hc hnew => ?_, fun v hv hopen hnew => ?_,
      fun v hv _ hnew => absurd ?_ hnew, fun hne => by cases hne⟩
    · obtain ⟨store, hs, hid, hkey⟩ := hrows.1 c hc hnew
      exact ⟨store, hs, hid, hset _ hkey⟩
    · obtain ⟨store, hs, hid, hkey⟩ := hrows.2 v hv hopen hnew
      exact ⟨store, hs, hid, hset _ hkey⟩
    · rw [show (advanceSourceWatermarks r .prices written).promotions = t.promotions by
        rw [hframe, hclaim]; rfl] at hv
      exact hv
  | promotions =>
    have hframe := applyPromotions_frame hwritten
    have hrows := applyPromotions_row_scope hwritten
    rw [hclaim] at hrows
    refine ⟨hstaged, fun c hc hnew => absurd ?_ hnew, fun v hv _ hnew => absurd ?_ hnew,
      fun v hv hopen hnew => hset _ (hrows v hv hopen hnew), fun hne => by cases hne⟩
    · rw [show (advanceSourceWatermarks r .promotions written).prices = t.prices by
        rw [hframe, hclaim]; rfl] at hc
      exact hc
    · rw [show (advanceSourceWatermarks r .promotions written).prices = t.prices by
        rw [hframe, hclaim]; rfl] at hv
      exact hv

/-! ## Runs -/

/-- A run of applies and replays, each of which must be accepted. -/
def applyRun (t : Tables) (requests : List ApplyRequest) : Except Failure Tables :=
  runList (fun t r => (apply r t).map Prod.fst) t requests

/-- The watermark of a key is at least `bound`, and of content `sha` if it is `bound` itself. -/
def AtLeast (t : Tables) (k : WatermarkKey) (bound : Time) (sha : String) : Prop :=
  ∃ w, watermarkOf t k = some w ∧ bound ≤ w.effectiveSourceTimestamp ∧
    (w.effectiveSourceTimestamp = bound → w.sourceContentSha256 = sha)

theorem apply_atLeast {r : ApplyRequest} {t t' : Tables} {summary : ApplySummary}
    (h : apply r t = .ok (t', summary)) {k : WatermarkKey} {bound : Time} {sha : String}
    (hb : AtLeast t k bound sha) : AtLeast t' k bound sha := by
  obtain ⟨family, -, hstep⟩ := apply_watermark_step h
  obtain ⟨w, hw, hle, hsha⟩ := hb
  by_cases hk : k ∈ r.watermarkKeys family
  · obtain ⟨hset, horder⟩ := (hstep k).1 hk
    obtain ⟨hge, hsame⟩ := horder w hw
    refine ⟨_, hset, hle.trans hge, fun heq => ?_⟩
    -- The new watermark sits at the bound only if the old one already did.
    have hold : w.effectiveSourceTimestamp = bound := le_antisymm (hge.trans heq.le) hle
    rw [← hsha hold]
    exact (hsame (hold.trans heq.symm)).symm
  · exact ⟨w, ((hstep k).2 hk).trans hw, hle, hsha⟩

theorem applyRun_atLeast {requests : List ApplyRequest} {t t' : Tables}
    (hrun : applyRun t requests = .ok t') {k : WatermarkKey} {bound : Time} {sha : String}
    (hb : AtLeast t k bound sha) : AtLeast t' k bound sha := by
  induction requests generalizing t with
  | nil =>
    cases hrun
    exact hb
  | cons r rest ih =>
    obtain ⟨m, hm, hrest⟩ := bind_eq_ok.mp hrun
    obtain ⟨summary, hstep⟩ := exists_of_map_fst hm
    exact ih hrest (apply_atLeast hstep hb)

/-- For every run of accepted applies and replays outside a rebuild, from any tables: no watermark ever decreases,
two accepted files that set the watermark of one scope to the same instant have the same content,
and every record an accepted file writes lies in a scope whose watermark it sets. -/
theorem watermarks_monotone (t : Tables) :
    (∀ (after : List ApplyRequest) (t' : Tables), applyRun t after = .ok t' →
        ∀ k w, watermarkOf t k = some w → ∃ w', watermarkOf t' k = some w' ∧
          w.effectiveSourceTimestamp ≤ w'.effectiveSourceTimestamp) ∧
      (∀ (first last : ApplyRequest) (between : List ApplyRequest) (t₁ t₂ t₃ : Tables)
        (s₁ s₃ : ApplySummary) (family : DocumentFamily) (k : WatermarkKey),
        apply first t = .ok (t₁, s₁) → applyRun t₁ between = .ok t₂ →
        apply last t₂ = .ok (t₃, s₃) → family? first.documentType = some family →
        family? last.documentType = some family → k ∈ first.watermarkKeys family →
        k ∈ last.watermarkKeys family → first.effectiveTimestamp = last.effectiveTimestamp →
          first.contentSha256 = last.contentSha256) ∧
      ∀ (r : ApplyRequest) (t' : Tables) (summary : ApplySummary),
        apply r t = .ok (t', summary) →
          ∃ family, family? r.documentType = some family ∧ RecordsInScope r family t t' := by
  refine ⟨?_, ?_, fun r t' summary h => apply_recordsInScope h⟩
  · intro after t' hrun k w hw
    obtain ⟨w', hw', hle, -⟩ := applyRun_atLeast hrun
      (⟨w, hw, le_refl _, fun _ => rfl⟩ : AtLeast t k _ w.sourceContentSha256)
    exact ⟨w', hw', hle⟩
  · intro first last between t₁ t₂ t₃ s₁ s₃ family k hfirst hbetween hlast hf hl hkf hkl heq
    obtain ⟨f₁, hf₁, hstep₁⟩ := apply_watermark_step hfirst
    obtain ⟨f₃, hf₃, hstep₃⟩ := apply_watermark_step hlast
    cases hf.symm.trans hf₁
    cases hl.symm.trans hf₃
    have hset := ((hstep₁ k).1 hkf).1
    obtain ⟨w, hw, hle, hsha⟩ := applyRun_atLeast hbetween
      (⟨_, hset, le_refl _, fun _ => rfl⟩ : AtLeast t₁ k _ first.contentSha256)
    obtain ⟨hge, hsame⟩ := ((hstep₃ k).1 hkl).2 w hw
    have hboth : w.effectiveSourceTimestamp = first.effectiveTimestamp :=
      le_antisymm (hge.trans heq.symm.le) hle
    rw [← hsha hboth]
    exact hsame (hboth.trans heq)

/-- A price delta of store "17" with one record, declared at `time`. -/
def samplePriceRequest (fileId : FileId) (time clock : Time) (sha : String) : ApplyRequest where
  sourceFileId := fileId
  documentType := .priceDelta
  source := ⟨1, 1, .priceDelta, .applying, some time, some clock, clock, some sha⟩
  staging := { Staging.empty with prices := [sampleRecord "17" "4001" 500] }
  replayActive := false
  rebuildActive := false
  wallClock := clock
  policy := lenientPolicy
  limits := ⟨10, 10000, 10⟩
  usage := ⟨0, 0, 0, 0, 0⟩

theorem watermarks_monotone_sample :
    (∃ w', watermarkOf (tablesAfter (samplePriceRequest 2 300 400 "bb")
        (tablesAfter (samplePriceRequest 1 100 200 "aa") Tables.empty))
        ⟨1, 1, .prices, ⟨"1", "17"⟩⟩ = some w' ∧ 100 ≤ w'.effectiveSourceTimestamp) ∧
      RecordsInScope (samplePriceRequest 1 100 200 "aa") .prices Tables.empty
        (tablesAfter (samplePriceRequest 1 100 200 "aa") Tables.empty) := by
  obtain ⟨s₁, h₁⟩ := apply_tablesAfter (r := samplePriceRequest 1 100 200 "aa")
    (t := Tables.empty) (by decide +kernel)
  obtain ⟨s₂, h₂⟩ := apply_tablesAfter (r := samplePriceRequest 2 300 400 "bb")
    (t := tablesAfter (samplePriceRequest 1 100 200 "aa") Tables.empty) (by decide +kernel)
  have hw : watermarkOf (tablesAfter (samplePriceRequest 1 100 200 "aa") Tables.empty)
      ⟨1, 1, .prices, ⟨"1", "17"⟩⟩ = some ⟨⟨1, 1, .prices, ⟨"1", "17"⟩⟩, 100, "aa", 1⟩ := by
    decide +kernel
  constructor
  · refine (watermarks_monotone _).1 [samplePriceRequest 2 300 400 "bb"] _ ?_ _ _ hw
    show (apply _ _).map Prod.fst >>= _ = _
    rw [h₂]
    rfl
  · obtain ⟨family, hfamily, hscope⟩ := (watermarks_monotone Tables.empty).2.2 _ _ _ h₁
    cases hfamily
    exact hscope

end Makolet.Normalized
