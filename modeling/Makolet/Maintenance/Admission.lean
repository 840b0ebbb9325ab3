import Makolet.Maintenance.Sequence
import Makolet.Ingestion.Applied

/-!
# What a rebuild admits

`Original` is what ordinary ingests leave of each applied file: the stores and items it names were
not first seen after it, the watermarks of its scopes are not behind it, and of two files with a
common scope the one that was applied first is not the later one. `Replayed` is what the replays so
far leave in the reset tables: only instants and watermarks of the files they replayed. Together
they admit the next file that had been applied (`Replayed.admits`).
-/

set_option autoImplicit false

namespace Makolet.Maintenance

open Makolet.Domain Makolet.Lib Makolet.Normalized Makolet.Ingestion

/-! ## Requests of a library -/

/-- The request is about the archived bytes of the file. -/
structure RequestOf (L : Library) (f : FileId) (r : ApplyRequest) : Prop where
  file : r.sourceFileId = f
  type : r.documentType = (L.row f).remote.documentType
  retailer : r.source.retailerId = (L.row f).remote.retailerId
  portal : r.source.portalId = (L.row f).remote.portalId
  timestamp : r.source.sourceTimestamp = (L.row f).remote.sourceTimestamp
  observed : r.observedAt = L.observedAt f
  content : r.contentSha256 = L.contentSha256 f
  staging : r.staging = L.staging f

section Request

variable {L : Library} {f : FileId} {r : ApplyRequest}

theorem RequestOf.metadata (h : RequestOf L f r) : r.metadataTimes = L.metadataTimes f := by
  rw [ApplyRequest.metadataTimes, h.staging]
  rfl

theorem RequestOf.effective (h : RequestOf L f r) : r.effectiveTimestamp = L.effectiveTimestamp f := by
  rw [ApplyRequest.effectiveTimestamp, h.metadata, h.timestamp, h.observed]
  rfl

theorem RequestOf.keys (h : RequestOf L f r) {family : DocumentFamily}
    (hfamily : family? r.documentType = some family) : r.watermarkKeys family = L.scopes f := by
  rw [h.type] at hfamily
  rw [Library.scopes, hfamily]
  show (incomingScopes family r.staging).map (r.watermarkKey family) = _
  rw [h.staging]
  refine List.map_congr_left fun scope _ => ?_
  rw [ApplyRequest.watermarkKey, h.retailer, h.portal]

/-- The tables hold the row of the file, and the staging its records. -/
theorem requestOf_database {settings : ApplySettings} {db : Database} {row : SourceFile}
    (hrow : row = L.rowAt f row.status) (hstaging : db.staging f = L.staging f) :
    RequestOf L f (databaseRequest settings row db) := by
  have hid : sourceFileIdOf row = f := by
    rw [hrow]
    exact L.ids f
  have hremote : row.remote = (L.row f).remote := by rw [hrow]; rfl
  have harchive : row.archive = (L.row f).archive := by rw [hrow]; rfl
  have hfinished : row.downloadFinishedAt = (L.row f).downloadFinishedAt := by rw [hrow]; rfl
  constructor
  · exact hid
  · exact congrArg RemoteFile.documentType hremote
  · exact congrArg RemoteFile.retailerId hremote
  · exact congrArg RemoteFile.portalId hremote
  · exact congrArg RemoteFile.sourceTimestamp hremote
  · show row.downloadFinishedAt.getD row.remote.discoveredAt = _
    rw [hfinished, hremote]
    rfl
  · show (row.archive.map ArchiveObject.contentSha256).getD "" = _
    rw [harchive]
    rfl
  · show db.staging (sourceFileIdOf row) = _
    rw [hid, hstaging]

end Request

/-! ## Order of declared timestamps -/

/-- A file is not ahead of a watermark. -/
def Library.Within (L : Library) (f : FileId) (w : Watermark) : Prop :=
  L.effectiveTimestamp f < w.effectiveSourceTimestamp ∨
    L.effectiveTimestamp f = w.effectiveSourceTimestamp ∧ L.contentSha256 f = w.sourceContentSha256

/-- A watermark is not ahead of a file. -/
def Library.Reached (L : Library) (w : Watermark) (f : FileId) : Prop :=
  w.effectiveSourceTimestamp < L.effectiveTimestamp f ∨
    w.effectiveSourceTimestamp = L.effectiveTimestamp f ∧ w.sourceContentSha256 = L.contentSha256 f

/-- The order of instants with their contents is transitive. -/
theorem stamp_trans {t₁ t₂ t₃ : Time} {c₁ c₂ c₃ : String} (h : t₁ < t₂ ∨ t₁ = t₂ ∧ c₁ = c₂)
    (h' : t₂ < t₃ ∨ t₂ = t₃ ∧ c₂ = c₃) : t₁ < t₃ ∨ t₁ = t₃ ∧ c₁ = c₃ := by
  rcases h with h | ⟨rfl, rfl⟩
  · rcases h' with h' | ⟨rfl, rfl⟩
    · exact .inl (lt_trans h h')
    · exact .inl h
  · exact h'

/-- The static part of the ordering check. -/
def Library.Plausible (L : Library) (f : FileId) : Prop :=
  (L.metadataTimes f).dedup.length ≤ 1 ∧
    L.effectiveTimestamp f ≤ L.observedAt f + maximumFutureSourceSkew

section Ordering

variable {L : Library} {f : FileId} {r : ApplyRequest} {family : DocumentFamily} {t : Tables}

theorem plausible_of_no_quarantine (hr : RequestOf L f r)
    (h : orderingQuarantine r family t = none) : L.Plausible f := by
  unfold orderingQuarantine at h
  split at h
  · cases h
  · rename_i htimes
    split at h
    · cases h
    · rename_i hfuture
      rw [hr.metadata] at htimes
      rw [hr.effective, hr.observed] at hfuture
      exact ⟨Nat.not_lt.mp htimes, Int.not_lt.mp hfuture⟩

theorem reached_of_no_quarantine (hr : RequestOf L f r)
    (hfamily : family? r.documentType = some family) (h : orderingQuarantine r family t = none)
    {k : WatermarkKey} (hk : k ∈ L.scopes f) {w : Watermark} (hw : watermarkOf t k = some w) :
    L.Reached w f := by
  rw [← hr.keys hfamily] at hk
  obtain ⟨hle, hcontent⟩ := ordering_of_no_quarantine h hk hw
  rw [hr.effective] at hle hcontent
  rcases lt_or_eq_of_le hle with hlt | heq
  · exact .inl hlt
  · exact .inr ⟨heq, hr.content ▸ hcontent heq⟩

/-- A plausible file that has reached every watermark of its scopes passes the ordering check. -/
theorem no_quarantine_of_reached (hr : RequestOf L f r)
    (hfamily : family? r.documentType = some family) (hcredible : L.Plausible f)
    (hreached : ∀ w ∈ t.watermarks, w.key ∈ L.scopes f → L.Reached w f) :
    orderingQuarantine r family t = none := by
  unfold orderingQuarantine
  rw [if_neg, if_neg, List.findSome?_eq_none_iff]
  · intro w hw
    obtain ⟨hw, hkey⟩ := List.mem_filter.mp hw
    rw [hr.keys hfamily, decide_eq_true_eq] at hkey
    unfold orderingConflict
    rw [hr.effective, hr.content]
    rcases hreached w hw hkey with hlt | ⟨heq, hcontent⟩
    · rw [if_neg (not_lt_of_gt hlt), if_neg]
      rintro ⟨heq, -⟩
      exact absurd heq.symm (ne_of_lt hlt)
    · rw [if_neg (by rw [heq]; exact lt_irrefl _), if_neg]
      rintro ⟨-, hne⟩
      exact hne hcontent
  · rw [hr.effective, hr.observed]
    exact Int.not_lt.mpr hcredible.2
  · rw [hr.metadata]
    exact Nat.not_lt.mpr hcredible.1

end Ordering

/-! ## The tables of ordinary ingests -/

/-- The keys that the records of a file name. -/
def Library.parameters (L : Library) (f : FileId) (time : Time) : ApplyParameters :=
  ⟨f, (L.row f).remote.retailerId, (L.row f).remote.portalId, time⟩

/-- What the apply of a file has left. -/
structure Standing (L : Library) (t : Tables) (c : AppliedContent) : Prop where
  credible : L.Plausible c.sourceFileId
  stores : ∀ family, family? (L.row c.sourceFileId).remote.documentType = some family →
    SeenBy StoreRow.key StoreRow.firstSeenAt c.appliedAt
      (namedStoreKeys (L.parameters c.sourceFileId c.appliedAt) (L.staging c.sourceFileId) family)
      t.stores
  items : ∀ family, family? (L.row c.sourceFileId).remote.documentType = some family →
    SeenBy RetailerItem.key RetailerItem.firstSeenAt c.appliedAt
      (namedItemKeys (L.parameters c.sourceFileId c.appliedAt) (L.staging c.sourceFileId) family)
      t.items
  watermarks : ∀ k ∈ L.scopes c.sourceFileId, ∃ w, watermarkOf t k = some w ∧
    L.Within c.sourceFileId w

/-- The tables that ordinary ingests leave. -/
structure Original (L : Library) (t : Tables) : Prop where
  sorted : Sorted t
  standing : ∀ c ∈ t.appliedContents, Standing L t c
  unique : Table.UniqueOn AppliedContent.sourceFileId t.appliedContents
  ordered : t.appliedContents.Pairwise fun a b => L.Precedes a.sourceFileId b.sourceFileId

section Original

variable {L : Library} {f : FileId} {r : ApplyRequest} {t t' : Tables} {summary : ApplySummary}

/-- The claims after an apply: the old ones, and for a file without one its own. -/
theorem claims_of_apply (h : apply r t = .ok (t', summary)) :
    (t'.appliedContents = t.appliedContents ∧
        ∃ c ∈ t.appliedContents, c.sourceFileId = r.sourceFileId ∧ c.appliedAt = r.appliedAt t) ∨
      claimOf t r.sourceFileId = none ∧ ∃ c : AppliedContent, c.sourceFileId = r.sourceFileId ∧
        c.appliedAt = r.appliedAt t ∧ t'.appliedContents = t.appliedContents ++ [c] := by
  rw [apply_appliedContents h]
  unfold ApplyRequest.appliedAt claimContent
  cases hclaim : claimOf t r.sourceFileId with
  | some c =>
    exact .inl ⟨rfl, c, Table.mem_of_lookup hclaim, Table.key_of_lookup hclaim, rfl⟩
  | none => exact .inr ⟨rfl, _, rfl, rfl, rfl⟩

/-- An accepted apply leaves the standing of the files applied before. -/
theorem Standing.apply (h : apply r t = .ok (t', summary)) {c : AppliedContent}
    (hc : Standing L t c) : Standing L t' c := by
  obtain ⟨family, hfamily, hstep⟩ := apply_watermark_step h
  obtain ⟨family', hfamily', hintroduces⟩ := apply_introduces h
  refine ⟨hc.credible, fun fam hfam => (hc.stores fam hfam).grows hintroduces.stores,
    fun fam hfam => (hc.items fam hfam).grows hintroduces.items, fun k hk => ?_⟩
  obtain ⟨w, hw, hwithin⟩ := hc.watermarks k hk
  by_cases hkey : k ∈ r.watermarkKeys family
  · obtain ⟨hnew, hold⟩ := (hstep k).1 hkey
    refine ⟨_, hnew, ?_⟩
    obtain ⟨hle, hcontent⟩ := hold w hw
    refine stamp_trans hwithin ?_
    rcases lt_or_eq_of_le hle with hlt | heq
    · exact .inl hlt
    · exact .inr ⟨heq, hcontent heq⟩
  · exact ⟨w, ((hstep k).2 hkey).trans hw, hwithin⟩

/-- The standing of the applied file itself. -/
theorem standing_of_apply (hr : RequestOf L f r) (h : apply r t = .ok (t', summary))
    {c : AppliedContent} (hfile : c.sourceFileId = f) (htime : c.appliedAt = r.appliedAt t) :
    Standing L t' c := by
  obtain ⟨family, hfamily, hquarantine, -⟩ := apply_eq_ok h
  obtain ⟨family₁, hfamily₁, hstep⟩ := apply_watermark_step h
  obtain ⟨family₂, hfamily₂, hintroduces⟩ := apply_introduces h
  have hparameters : (r.documentApply (r.appliedAt t)).parameters = L.parameters f c.appliedAt := by
    rw [htime, ← hr.file]
    show (⟨r.sourceFileId, r.source.retailerId, r.source.portalId, _⟩ : ApplyParameters) = _
    rw [hr.retailer, hr.portal, hr.file]
    rfl
  rw [hparameters, hr.staging] at hintroduces
  subst hfile
  constructor
  · exact plausible_of_no_quarantine hr hquarantine
  · intro fam hfam
    rw [hr.type, hfam] at hfamily₂
    cases hfamily₂
    exact hintroduces.storesSeen
  · intro fam hfam
    rw [hr.type, hfam] at hfamily₂
    cases hfamily₂
    exact hintroduces.itemsSeen
  · intro k hk
    rw [← hr.keys hfamily₁] at hk
    exact ⟨_, ((hstep k).1 hk).1, .inr ⟨hr.effective.symm, hr.content.symm⟩⟩

theorem Original.apply (ht : Original L t) (hr : RequestOf L f r)
    (h : apply r t = .ok (t', summary)) : Original L t' := by
  have hstanding : ∀ c ∈ t.appliedContents, Standing L t' c :=
    fun c hc => (ht.standing c hc).apply h
  rcases claims_of_apply h with ⟨hclaims, -⟩ | ⟨hnone, c, hfile, htime, hclaims⟩
  · refine ⟨ht.sorted.apply h, ?_, ?_, ?_⟩
    · rw [hclaims]
      exact hstanding
    · rw [hclaims]
      exact ht.unique
    · rw [hclaims]
      exact ht.ordered
  · have hnew := standing_of_apply hr h (hfile.trans hr.file) htime
    rw [hr.file] at hfile
    refine ⟨ht.sorted.apply h, ?_, ?_, ?_⟩
    · intro d hd
      rw [hclaims, List.mem_append, List.mem_singleton] at hd
      rcases hd with hold | rfl
      · exact hstanding d hold
      · exact hnew
    · rw [claimOf, Table.lookup_eq_none, hr.file] at hnone
      rw [hclaims, Table.UniqueOn, List.map_append, List.nodup_append]
      refine ⟨ht.unique, List.nodup_singleton _, ?_⟩
      rintro _ ha _ hb rfl
      obtain ⟨d, hd, hdf⟩ := List.mem_map.mp ha
      rw [List.map_singleton, List.mem_singleton, hfile] at hb
      exact hnone d hd (hdf.trans hb)
    · rw [hclaims, List.pairwise_append]
      refine ⟨ht.ordered, List.pairwise_singleton _ _, fun d hd e he => ?_⟩
      rw [List.mem_singleton] at he
      subst he
      -- Between the two stands the watermark that the new file found.
      intro k hk hk'
      rw [hfile] at hk' ⊢
      obtain ⟨family, hfamily, hquarantine, -⟩ := apply_eq_ok h
      obtain ⟨w, hw, hwithin⟩ := (ht.standing d hd).watermarks k hk
      exact stamp_trans hwithin (reached_of_no_quarantine hr hfamily hquarantine hk' hw)

/-- A change of the catalog tables alone. -/
theorem Original.catalog (ht : Original L t) (hsorted : Sorted t') (hstores : t'.stores = t.stores)
    (hitems : t'.items = t.items) (hwatermarks : t'.watermarks = t.watermarks)
    (hclaims : t'.appliedContents = t.appliedContents) : Original L t' where
  sorted := hsorted
  standing c hc := by
    rw [hclaims] at hc
    obtain ⟨hcredible, hs, hi, hw⟩ := ht.standing c hc
    refine ⟨hcredible, ?_, ?_, ?_⟩
    · rw [hstores]
      exact hs
    · rw [hitems]
      exact hi
    · rw [show watermarkOf t' = watermarkOf t by funext k; rw [watermarkOf, hwatermarks, watermarkOf]]
      exact hw
  unique := hclaims ▸ ht.unique
  ordered := hclaims ▸ ht.ordered

theorem Original.empty : Original L .empty where
  sorted := .empty
  standing c hc := by cases hc
  unique := List.nodup_nil
  ordered := List.Pairwise.nil

end Original

/-! ## The tables of a rebuild -/

/-- A row began with a replayed file, or it was there before the rebuild. -/
def BeganWith {α κ : Type} (key : α → κ) (first : α → Time) (before : List α)
    (done : List RebuildFile) (r : α) : Prop :=
  (∃ d ∈ done, first r = d.orderTime) ∨ ∃ old ∈ before, key old = key r ∧ first old = first r

/-- The tables that the replays of the files `done` leave, from the stores and items of `t₀`. -/
structure Replayed (L : Library) (t₀ : Tables) (done : List RebuildFile) (t : Tables) : Prop where
  sorted : Sorted t
  derived : Begun (fun time => ∃ d ∈ done, time = d.orderTime) t
  stores : ∀ r ∈ t.stores, BeganWith StoreRow.key StoreRow.firstSeenAt t₀.stores done r
  items : ∀ r ∈ t.items, BeganWith RetailerItem.key RetailerItem.firstSeenAt t₀.items done r
  watermarks : ∀ w ∈ t.watermarks, ∃ d ∈ done, w.key ∈ L.scopes d.sourceFileId ∧
    w.effectiveSourceTimestamp = L.effectiveTimestamp d.sourceFileId ∧
    w.sourceContentSha256 = L.contentSha256 d.sourceFileId

section Replayed

variable {L : Library} {t₀ t t' : Tables} {done : List RebuildFile} {e : RebuildFile}
  {r : ApplyRequest} {summary : ApplySummary}

theorem BeganWith.mono {α κ : Type} {key : α → κ} {first : α → Time} {before : List α} {a : α}
    (h : BeganWith key first before done a) : BeganWith key first before (done ++ [e]) a := by
  rcases h with ⟨d, hd, hfirst⟩ | hold
  · exact .inl ⟨d, List.mem_append_left _ hd, hfirst⟩
  · exact .inr hold

theorem BeganWith.grows {α κ : Type} {key : α → κ} {first : α → Time} {before rows rows' : List α}
    (h : ∀ a ∈ rows, BeganWith key first before done a)
    (hgrows : Grows key first e.orderTime rows rows') :
    ∀ a ∈ rows', BeganWith key first before (done ++ [e]) a := by
  intro a ha
  rcases hgrows.origin a ha with ⟨b, hb, hkey, hfirst⟩ | ⟨hfirst, -⟩
  · rcases (h b hb).mono (e := e) with ⟨d, hd, hd'⟩ | ⟨old, hold, hkey', hfirst'⟩
    · exact .inl ⟨d, hd, hfirst ▸ hd'⟩
    · exact .inr ⟨old, hold, hkey'.trans hkey, hfirst'.trans hfirst⟩
  · exact .inl ⟨e, List.mem_append_right _ (List.mem_singleton_self e), hfirst⟩

/-- Statements that write neither an instant nor a watermark. -/
theorem Replayed.frame (ht : Replayed L t₀ done t) (hsorted : Sorted t')
    (hframe : t' = { t with
      products := t'.products
      identifiers := t'.identifiers
      confirmedMatches := t'.confirmedMatches
      appliedContents := t'.appliedContents
      nextId := t'.nextId }) : Replayed L t₀ done t' := by
  refine ⟨hsorted, ?_, ?_, ?_, ?_⟩
  all_goals rw [hframe]
  · exact ⟨ht.derived.prices, ht.derived.priceHistory, ht.derived.availability,
      ht.derived.availabilityHistory, ht.derived.promotions, ht.derived.assertions⟩
  · exact ht.stores
  · exact ht.items
  · exact ht.watermarks

/-- One more replay, at the instant of its entry. -/
theorem Replayed.apply (ht : Replayed L t₀ done t) (hr : RequestOf L e.sourceFileId r)
    (htime : r.appliedAt t = e.orderTime) (h : Normalized.apply r t = .ok (t', summary)) :
    Replayed L t₀ (done ++ [e]) t' := by
  obtain ⟨family, hfamily, hintroduces⟩ := apply_introduces h
  have hlast : e ∈ done ++ [e] := List.mem_append_right _ (List.mem_singleton_self e)
  have hinstant : (r.documentApply (r.appliedAt t)).parameters.appliedAt = e.orderTime := htime
  have hstores := hintroduces.stores
  have hitems := hintroduces.items
  rw [hinstant] at hstores hitems
  refine ⟨ht.sorted.apply h, hintroduces.derived _ ⟨e, hlast, hinstant⟩ ?_,
    BeganWith.grows ht.stores hstores, BeganWith.grows ht.items hitems, ?_⟩
  · have hwiden : ∀ time, (∃ d ∈ done, time = d.orderTime) →
        ∃ d ∈ done ++ [e], time = d.orderTime :=
      fun time ⟨d, hd, heq⟩ => ⟨d, List.mem_append_left _ hd, heq⟩
    exact ⟨fun c hc => hwiden _ (ht.derived.prices c hc),
      fun v hv => hwiden _ (ht.derived.priceHistory v hv),
      fun c hc => hwiden _ (ht.derived.availability c hc),
      fun v hv => hwiden _ (ht.derived.availabilityHistory v hv),
      fun v hv => hwiden _ (ht.derived.promotions v hv),
      fun b hb => hwiden _ (ht.derived.assertions b hb)⟩
  · intro w hw
    obtain ⟨family', hfamily', -, hwrite⟩ := apply_eq_ok h
    obtain ⟨written, hwritten, rfl⟩ := writeDocument_eq_ok hwrite
    have hkept : written.watermarks = t.watermarks := by
      rw [applyFamily_watermarks hwritten, claimContent_frame]
    have hkeys := hr.keys hfamily'
    rcases Table.mem_upsert hw with ⟨hold, -⟩ | ⟨old, -, k, hk, hkey, rfl⟩ | ⟨k, hk, rfl⟩
    · rw [hkept] at hold
      obtain ⟨d, hd, hw⟩ := ht.watermarks w hold
      exact ⟨d, List.mem_append_left _ hd, hw⟩
    · rw [hkeys] at hk
      exact ⟨e, hlast, hkey ▸ hk, hr.effective, hr.content⟩
    · rw [hkeys] at hk
      exact ⟨e, hlast, hk, hr.effective, hr.content⟩

/-- A file that was applied fits the tables of earlier replays. -/
theorem Replayed.timesFit (ht : Replayed L t₀ done t) (ho : Original L t₀) {c : AppliedContent}
    (hc : c ∈ t₀.appliedContents) (hr : RequestOf L c.sourceFileId r)
    (htime : r.appliedAt t = c.appliedAt) (hbefore : ∀ d ∈ done, d.orderTime < c.appliedAt) :
    TimesFit r t := by
  have hparameters : (r.documentApply (r.appliedAt t)).parameters =
      L.parameters c.sourceFileId c.appliedAt := by
    rw [htime]
    show (⟨r.sourceFileId, r.source.retailerId, r.source.portalId, _⟩ : ApplyParameters) = _
    rw [hr.retailer, hr.portal, hr.file]
    rfl
  have hstaging : (r.documentApply (r.appliedAt t)).staging = L.staging c.sourceFileId := hr.staging
  have hlt : ∀ time, (∃ d ∈ done, time = d.orderTime) → time < c.appliedAt := by
    rintro time ⟨d, hd, rfl⟩
    exact hbefore d hd
  have hstanding := ho.standing c hc
  intro family hfamily _
  rw [hr.type] at hfamily
  constructor
  · rw [hparameters, hstaging]
    constructor
    · rintro store hs ⟨k, hk, hkey⟩
      rcases ht.stores store hs with hdone | ⟨old, hold, hokey, hfirst⟩
      · exact le_of_lt (hlt _ hdone)
      · rw [← hfirst]
        refine (hstanding.stores family hfamily _ ?_).2 old hold (hokey.trans hkey)
        exact List.mem_map_of_mem hk
    · rintro item hi ⟨code, hcode, hkey⟩
      rcases ht.items item hi with hdone | ⟨old, hold, hokey, hfirst⟩
      · exact le_of_lt (hlt _ hdone)
      · rw [← hfirst]
        refine (hstanding.items family hfamily _ ?_).2 old hold (hokey.trans hkey)
        exact List.mem_map_of_mem hcode
  · intro _
    rw [hparameters]
    have hfit : ∀ k value, ObservationFit c.appliedAt t.availability k value :=
      fun k value b hb _ => ⟨le_of_lt (hlt _ (ht.derived.availability b hb)),
        fun _ v hv _ _ => hlt _ (ht.derived.availabilityHistory v hv)⟩
    constructor
    · intro k row _ b hb _
      exact ⟨le_of_lt (hlt _ (ht.derived.prices b hb)),
        fun _ v hv _ _ => hlt _ (ht.derived.priceHistory v hv)⟩
    · intro k row _
      exact hfit k _
    · intro _ b _ _ _ _
      exact hfit b.key _
    · intro b hb _ _ _ _
      exact le_of_lt (hlt _ (ht.derived.assertions b hb))
  · intro _
    rw [hparameters]
    exact ⟨fun v hv _ _ => hlt _ (ht.derived.promotions v hv),
      fun _ v hv _ => hlt _ (ht.derived.promotions v hv)⟩

/-- A file that was applied passes the ordering check after earlier replays. -/
theorem Replayed.ordering (ht : Replayed L t₀ done t) (ho : Original L t₀) {c : AppliedContent}
    (hc : c ∈ t₀.appliedContents) (hr : RequestOf L c.sourceFileId r) {family : DocumentFamily}
    (hfamily : family? r.documentType = some family)
    (hbefore : ∀ d ∈ done, L.Precedes d.sourceFileId c.sourceFileId) :
    orderingQuarantine r family t = none := by
  refine no_quarantine_of_reached hr hfamily (ho.standing c hc).credible fun w hw hkey => ?_
  obtain ⟨d, hd, hscope, htime, hcontent⟩ := ht.watermarks w hw
  rw [Library.Reached, htime, hcontent]
  exact hbefore d hd w.key hscope hkey

end Replayed

/-! ## The failures of an apply -/

section Failures

variable {a : DocumentApply} {r : ApplyRequest} {t : Tables}

/-- The statements of a family raise no quarantine. -/
abbrev Writes {α : Type} (x : Except Failure α) : Prop :=
  RaisesOnly (fun e => e.kind ≠ .quarantinedFile) x

theorem validateDrop_writes {policy : SnapshotPolicy} {incoming prior : Nat} {scope : String} :
    Writes (validateDrop policy incoming prior scope) :=
  .require (.inr nofun)

theorem applyIncoming_writes {ν π : Type} [DecidableEq ν] {fileId : FileId} {time : Time}
    {incoming : List (Incoming ν π)} {obs : Observations ν π} :
    Writes (applyIncoming fileId time incoming obs) :=
  .bind (.guard (.inr nofun) fun _ => .pure _) fun _ _ =>
    .bind (.guard (.inr nofun) fun _ => .pure _) fun _ _ =>
      .bind (.guard (.inr nofun) fun _ => .pure _) fun _ _ => .pure _

theorem reconcileAbsentPrices_writes {p : ApplyParameters} {s : Staging} {incoming : List Key} :
    Writes (reconcileAbsentPrices p s t incoming) :=
  .bind (.bind (.guard (.inr nofun) fun _ => .pure _) fun _ _ =>
    .bind (.guard (.inr nofun) fun _ => .pure _) fun _ _ => .guard (.inr nofun) fun _ => .pure _)
    fun _ _ => .pure _

theorem applyPrices_writes : Writes (applyPrices a t) := by
  refine .bind ?_ fun _ _ => .bind (.guard (.inr nofun) fun _ => .pure _) fun _ _ =>
    .bind (.guard (.inr nofun) fun _ => .pure _) fun _ _ =>
    .bind (.guard (.inr nofun) fun _ => .guard (.inr nofun) fun _ => .guard (.inr nofun) fun _ =>
      .pure _) fun _ _ => .bind (.guard (.inr nofun) fun _ => .pure _) fun _ _ =>
    .bind (.bind (.bind (.guard (.inr nofun) fun _ => .pure _) fun _ _ =>
      .bind (.guard (.inr nofun) fun _ => .pure _) fun _ _ => .pure _) fun _ _ => .pure _)
    fun _ _ => .bind applyIncoming_writes fun _ _ =>
    .bind (.bind applyIncoming_writes fun _ _ => .pure _) fun _ _ => .bind ?_ fun _ _ => .pure _
  · split
    · exact .guard (.inr nofun) fun _ => .forM fun _ _ => .guard (.inr nofun) fun _ =>
        validateDrop_writes
    · exact .pure _
  · split
    · exact reconcileAbsentPrices_writes
    · exact .pure _

theorem applyStores_writes : Writes (applyStores a t) :=
  .bind (.guard (.inr nofun) fun _ => validateDrop_writes) fun _ _ =>
    .bind (.guard (.inr nofun) fun _ => .pure _) fun _ _ => .pure _

theorem applyPromotions_writes : Writes (applyPromotions a t) := by
  refine .bind ?_ fun _ _ => .bind (.guard (.inr nofun) fun _ => .pure _) fun _ _ =>
    .bind (.guard (.inr nofun) fun _ => .guard (.inr nofun) fun _ => .pure _) fun _ _ =>
    .bind (.guard (.inr nofun) fun _ => .pure _) fun _ _ =>
    .bind (.guard (.inr nofun) fun _ => .pure _) fun _ _ => .bind ?_ fun _ _ => .pure _
  · split
    · exact .guard (.inr nofun) fun _ => .forM fun _ _ => validateDrop_writes
    · exact .pure _
  · split
    · exact .guard (.inr nofun) fun _ => .pure _
    · exact .pure _

theorem applyFamily_writes {family : DocumentFamily} : Writes (applyFamily family a t) := by
  cases family with
  | stores => exact applyStores_writes
  | prices => exact applyPrices_writes
  | promotions => exact applyPromotions_writes

theorem not_ordering_of_kind {e : Failure} (h : e.kind ≠ .quarantinedFile) :
    ¬IsOrderingQuarantine e :=
  fun hordering => h hordering.1

theorem Writes.unquarantined {α : Type} {x : Except Failure α} (h : Writes x) :
    RaisesOnly (fun e => ¬IsOrderingQuarantine e) x :=
  fun e he => not_ordering_of_kind (h e he)

theorem recordGeneratedIssue_unquarantined {limits : IssueLimits} {severity : IssueSeverity}
    {code message : String} {usage : IssueUsage} :
    RaisesOnly (fun e => ¬IsOrderingQuarantine e)
      (recordGeneratedIssue limits severity code message usage) := by
  refine .guard (.inr ?_) fun _ => .pure _
  rintro ⟨-, hmessage⟩
  revert hmessage
  decide

theorem lockSourceForApply_writes : Writes (lockSourceForApply r) :=
  .guard (.inr nofun) fun _ => .guard (.inr nofun) fun _ => .require (.inr nofun)

/-- Only the ordering check raises its own quarantine. -/
theorem apply_unquarantined (hordering : ∀ family, family? r.documentType = some family →
      orderingQuarantine r family t = none) :
    RaisesOnly (fun e => ¬IsOrderingQuarantine e) (apply r t) := by
  refine .bind lockSourceForApply_writes.unquarantined fun _ _ =>
    .guard (.inr (not_ordering_of_kind nofun)) fun _ => ?_
  split
  · exact .error (not_ordering_of_kind nofun)
  · rename_i family hfamily
    refine .bind ?_ fun checked hchecked => ?_
    · refine .bind ?_ fun _ _ => .bind ?_ fun _ _ => .bind ?_ fun _ _ => .pure _
      all_goals
        split
        · exact recordGeneratedIssue_unquarantined
        · exact .pure _
    · rw [validateSourceOrdering_quarantine hchecked, hordering family hfamily]
      exact .bind applyFamily_writes.unquarantined fun _ _ => .pure _

/-- An apply that passes the ordering check and fits the stored instants meets no obstacle. -/
theorem apply_unobstructed (ht : Sorted t) (hfit : TimesFit r t)
    (hordering : ∀ family, family? r.documentType = some family →
      orderingQuarantine r family t = none) :
    RaisesOnly (fun e => ¬Obstructs e) (apply r t) := by
  rintro e he (hquarantine | htemporal)
  · exact apply_unquarantined hordering e he hquarantine
  · exact apply_timely ht hfit e he htemporal

end Failures

end Makolet.Maintenance
