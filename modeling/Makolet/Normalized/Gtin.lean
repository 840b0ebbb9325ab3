import Makolet.Normalized.Observations

/-!
# Exact GTIN matching

`_match_exact_gtins` runs inside a price apply, over the retailer items the file names. It replaces
their live GTIN assertions, makes sure each GTIN has a match group, keeps one issuer-scoped
identifier for each retailer that asserts a GTIN, keeps the global corroborated identifier of a
GTIN exactly while two independent retailers assert it, and rebuilds the automatic matches of the
named items. Each SQL statement is one definition here, in the order of the source.
-/

set_option autoImplicit false

namespace Makolet.Normalized

open Makolet.Domain Makolet.Lib

/-- The bound parameters of the statements of one apply. -/
structure ApplyParameters where
  sourceFileId : FileId
  retailerId : RetailerId
  portalId : PortalId
  appliedAt : Time
  deriving DecidableEq, Repr

def systemExactGtin : String := "system:exact-gtin"

def systemExactGtinEvidence : String := "system:exact-gtin-evidence"

/-! ## Assertions -/

/-- A live GTIN assertion of one of the named items. -/
def Assertion.isLiveGtinOf (items : List RetailerItem) (a : Assertion) : Bool :=
  decide (a.kind = .gtin) && a.isLive && items.any fun i => decide (i.id = a.itemId)

/-- `makolet_affected_gtins`: the GTINs of the named items and those they asserted so far. -/
def affectedGtins (items : List RetailerItem) (assertions : List Assertion) : List String :=
  (items.filterMap RetailerItem.gtin ++
    (assertions.filter (Assertion.isLiveGtinOf items)).map Assertion.value).dedup

/-- Check constraint `superseded_after_assertion`. -/
def Assertion.TimeOrder (a : Assertion) : Prop :=
  ∀ e ∈ a.supersededAt, a.assertedAt ≤ e

instance (a : Assertion) : Decidable a.TimeOrder :=
  inferInstanceAs (Decidable (∀ e ∈ a.supersededAt, a.assertedAt ≤ e))

/-- A new file supersedes the live assertions that other files made for its items. -/
def supersedeAssertions (p : ApplyParameters) (items : List RetailerItem)
    (assertions : List Assertion) : Except Failure (List Assertion) := do
  let updated := assertions.map fun a =>
    if a.isLiveGtinOf items ∧ a.sourceFileId ≠ p.sourceFileId then
      { a with supersededAt := some p.appliedAt }
    else a
  require (∀ a ∈ updated, a.TimeOrder) (constraintViolation "superseded_after_assertion")
  pure updated

/-- The assertion a file makes for an item with a GTIN. -/
def newAssertion (p : ApplyParameters) (i : RetailerItem) : Option Assertion :=
  i.gtin.map fun g => ⟨i.id, .gtin, g, p.sourceFileId, p.appliedAt, none⟩

/-- `INSERT INTO retailer_identifier_assertions ... ON CONFLICT (retailer_item_id, kind,
source_file_id) DO NOTHING`, under the partial unique index on live assertions. -/
def insertAssertions (p : ApplyParameters) (items : List RetailerItem)
    (assertions : List Assertion) : Except Failure (List Assertion) := do
  let extended := Table.insertNew Assertion.key assertions (items.filterMap (newAssertion p))
  require (Table.UniqueOn (fun a => (a.itemId, a.kind)) (extended.filter Assertion.isLive))
    (constraintViolation "uq_retailer_identifier_assertions_current")
  pure extended

/-! ## Matches and groups -/

/-- Automatic decisions, which the matcher may replace. -/
def ConfirmedMatch.isAutomatic (m : ConfirmedMatch) : Bool :=
  decide (m.method ∈ [.exactGtin, .exactProvisionalGtin, .exactValidatedGtin]) &&
    decide (m.confirmedBy ∈ [systemExactGtin, systemExactGtinEvidence])

/-- A decision of an operator. -/
def ConfirmedMatch.isOperator (m : ConfirmedMatch) : Bool :=
  decide (m.method = .manualReview)

/-- Delete the automatic matches of the named items. -/
def deleteAutomaticMatches (items : List RetailerItem) (confirmed : List ConfirmedMatch) :
    List ConfirmedMatch :=
  confirmed.filter fun m => !(m.isAutomatic && items.any fun i => decide (i.id = m.itemId))

def groupOf (groups : List MatchGroup) (g : String) : Option MatchGroup :=
  Table.lookup MatchGroup.key groups (.gtin, g)

/-- The validated global identifier of a GTIN. -/
def validatedGlobal (identifiers : List ProductIdentifier) (g : String) :
    Option ProductIdentifier :=
  identifiers.find? fun i =>
    decide (i.kind = .gtin ∧ i.value = g ∧ i.issuer = none ∧ i.isValidated = true)

/-- A row of `makolet_exact_gtin_group_candidates`. -/
structure GroupCandidate where
  productId : ProductId
  createsProduct : Bool
  gtin : String
  item : RetailerItem
  deriving DecidableEq, Repr

/-- One candidate for each GTIN of a named item that has no group; without a validated product the
candidate reserves a fresh product id. -/
def groupCandidates (t : Tables) (items : List RetailerItem) : List GroupCandidate :=
  let ordered := items.insertionSort fun a b => a.sourceItemCode ≤ b.sourceItemCode
  let withoutGroup := ordered.filter fun i =>
    i.gtin.any fun g => (groupOf t.matchGroups g).isNone
  (Table.distinctOn RetailerItem.gtin withoutGroup).zipIdx.filterMap fun (i, n) =>
    i.gtin.map fun g =>
      match validatedGlobal t.identifiers g with
      | some v => ⟨v.productId, false, g, i⟩
      | none => ⟨t.nextId + n, true, g, i⟩

def GroupCandidate.product (p : ApplyParameters) (c : GroupCandidate) : CanonicalProduct :=
  ⟨c.productId, c.item.description.itemName, c.item.description.manufacturerName,
    c.item.description.quantity, c.item.description.unitOfMeasure, p.appliedAt⟩

/-- Insert the reserved products and the groups, then drop a reserved product whose group lost. -/
def insertGroups (p : ApplyParameters) (items : List RetailerItem) (t : Tables) : Tables :=
  let candidates := groupCandidates t items
  let products := t.products ++
    (candidates.filter GroupCandidate.createsProduct).map (GroupCandidate.product p)
  let groups := Table.insertNew MatchGroup.key t.matchGroups
    (candidates.map fun c => ⟨.gtin, c.gtin, c.productId⟩)
  { t with
    matchGroups := groups
    products := products.filter fun r =>
      !(candidates.any fun c => c.createsProduct && decide (c.productId = r.id)) ||
        groups.any fun g => decide (g.productId = r.id)
    nextId := t.nextId + candidates.length }

/-! ## Identifiers -/

/-- Keep one unvalidated identifier for each retailer and portal that names a GTIN. -/
def upsertScopedIdentifiers (p : ApplyParameters) (items : List RetailerItem)
    (groups : List MatchGroup) (identifiers : List ProductIdentifier) : List ProductIdentifier :=
  let source : List ProductIdentifier := items.filterMap fun i =>
    i.gtin.bind fun g => (groupOf groups g).map fun group =>
      { productId := group.productId
        kind := .gtin
        value := g
        issuer := some (i.retailerId, i.portalId)
        isValidated := false
        validationMethod := .retailerAssertion
        evidenceFileId := some p.sourceFileId
        evidenceRetailerCount := none
        createdAt := p.appliedAt }
  Table.upsert ProductIdentifier.key ProductIdentifier.key id
    (fun old new =>
      if old.productId = new.productId ∧ old.validationMethod = .retailerAssertion then
        { old with evidenceFileId := new.evidenceFileId
                   evidenceRetailerCount := new.evidenceRetailerCount }
      else old)
    identifiers (Table.distinctOn ProductIdentifier.key source)

/-- A row of `makolet_live_gtin_retailers`. -/
structure LiveRetailer where
  gtin : String
  retailerId : RetailerId
  portalId : PortalId
  deriving DecidableEq, Repr

/-- The retailers and portals with a live assertion of an affected GTIN. -/
def liveGtinRetailers (affected : List String) (assertions : List Assertion)
    (items : List RetailerItem) : List LiveRetailer :=
  ((assertions.filter fun a =>
      decide (a.kind = .gtin) && a.isLive && decide (a.value ∈ affected)).flatMap fun a =>
    (items.filter fun i => decide (i.id = a.itemId)).map fun i =>
      ⟨a.value, i.retailerId, i.portalId⟩).dedup

/-- Delete the scoped identifiers of affected GTINs that no live assertion supports. -/
def deleteStaleScoped (affected : List String) (live : List LiveRetailer)
    (identifiers : List ProductIdentifier) : List ProductIdentifier :=
  identifiers.filter fun i =>
    !(decide (i.kind = .gtin) && decide (i.value ∈ affected) &&
      decide (i.validationMethod = .retailerAssertion) &&
      i.issuer.any fun issuer => !(live.any fun l =>
        decide (l.gtin = i.value ∧ (l.retailerId, l.portalId) = issuer)))

/-- A row of `makolet_gtin_corroboration`. -/
structure Corroboration where
  gtin : String
  productId : ProductId
  retailerCount : Nat
  deriving DecidableEq, Repr

/-- How many distinct retailers assert each affected GTIN that has a group. -/
def gtinCorroboration (affected : List String) (groups : List MatchGroup)
    (live : List LiveRetailer) : List Corroboration :=
  affected.filterMap fun g => (groupOf groups g).map fun group =>
    ⟨g, group.productId,
      ((live.filter fun l => decide (l.gtin = g)).map LiveRetailer.retailerId).dedup.length⟩

/-- The global identifier of a GTIN that this matcher owns. -/
def ProductIdentifier.isCorroborationOf (g : String) (i : ProductIdentifier) : Bool :=
  decide (i.kind = .gtin ∧ i.value = g ∧ i.issuer = none ∧
    i.validationMethod = .independentRetailerCorroboration)

/-- Delete the corroborated identifiers that fewer than two retailers support. -/
def deleteUncorroborated (rows : List Corroboration) (identifiers : List ProductIdentifier) :
    List ProductIdentifier :=
  identifiers.filter fun i =>
    !(rows.any fun c => i.isCorroborationOf c.gtin && decide (c.retailerCount < 2))

/-- Insert or refresh the corroborated identifiers that two retailers support. -/
def upsertCorroborated (p : ApplyParameters) (rows : List Corroboration)
    (identifiers : List ProductIdentifier) : List ProductIdentifier :=
  let source : List ProductIdentifier := (rows.filter fun c => decide (2 ≤ c.retailerCount)).map
    fun c =>
      { productId := c.productId
        kind := .gtin
        value := c.gtin
        issuer := none
        isValidated := true
        validationMethod := .independentRetailerCorroboration
        evidenceFileId := some p.sourceFileId
        evidenceRetailerCount := some c.retailerCount
        createdAt := p.appliedAt }
  Table.upsert ProductIdentifier.key ProductIdentifier.key id
    (fun old new =>
      if old.productId = new.productId ∧
          old.validationMethod = .independentRetailerCorroboration then
        { old with isValidated := true
                   evidenceFileId := new.evidenceFileId
                   evidenceRetailerCount := new.evidenceRetailerCount }
      else old)
    identifiers source

/-! ## Reviews and rebuilt matches -/

/-- The disagreements of one named item with a GTIN and a group, in the order of the `UNION`. -/
def conflictsOf (t : Tables) (i : RetailerItem) (g : String) (group : MatchGroup) :
    List (ProductId × ConflictReason) :=
  ((t.confirmedMatches.filter fun m =>
      decide (m.itemId = i.id ∧ m.productId ≠ group.productId)).map
    fun _ => (group.productId, ConflictReason.manualMatchDisagrees)) ++
  ((t.identifiers.filter fun s =>
      decide (s.kind = .gtin ∧ s.value = g ∧ s.issuer = some (i.retailerId, i.portalId) ∧
        s.productId ≠ group.productId)).map
    fun _ => (group.productId, ConflictReason.retailerScopeDisagrees)) ++
  ((t.identifiers.filter fun s =>
      decide (s.kind = .gtin ∧ s.value = g ∧ s.issuer = none ∧ s.isValidated = true ∧
        s.productId ≠ group.productId)).map
    fun s => (s.productId, ConflictReason.validatedGlobalDisagrees))

/-- Surface each disagreement once for review. -/
def insertConflictCandidates (p : ApplyParameters) (items : List RetailerItem) (t : Tables) :
    List MatchCandidate :=
  Table.insertNew MatchCandidate.key t.candidates
    (items.flatMap fun i => i.gtin.toList.flatMap fun g =>
      (groupOf t.matchGroups g).toList.flatMap fun group =>
        (conflictsOf t i g group).map fun (product, reason) =>
          ⟨i.id, product, g, reason, p.sourceFileId, p.appliedAt⟩)

/-- The validated global identifier of a GTIN that agrees with its group. -/
def agreeingGlobal (identifiers : List ProductIdentifier) (g : String) (group : MatchGroup) :
    Option ProductIdentifier :=
  (validatedGlobal identifiers g).filter fun v => decide (v.productId = group.productId)

def exactMethod (validated : Option ProductIdentifier) : MatchMethod :=
  if validated.isNone then .exactProvisionalGtin else .exactValidatedGtin

def exactEvidence (a : Assertion) (retailerId : RetailerId)
    (validated : Option ProductIdentifier) : MatchEvidence :=
  ⟨a.value, retailerId, a.sourceFileId, validated.map ProductIdentifier.validationMethod⟩

/-- The match that the evidence gives a named item, if nothing stands against it. -/
def exactMatchOf (p : ApplyParameters) (t : Tables) (i : RetailerItem) : Option ConfirmedMatch := do
  let g ← i.gtin
  let a ← t.assertions.find? fun a =>
    decide (a.itemId = i.id ∧ a.kind = .gtin ∧ a.value = g ∧ a.isLive = true)
  let group ← groupOf t.matchGroups g
  let _ ← t.identifiers.find? fun s =>
    decide (s.kind = .gtin ∧ s.value = g ∧ s.issuer = some (i.retailerId, i.portalId) ∧
      s.productId = group.productId)
  guard (t.confirmedMatches.all fun m => decide (m.itemId ≠ i.id))
  guard (t.identifiers.all fun s =>
    !decide (s.kind = .gtin ∧ s.value = g ∧ s.issuer = none ∧ s.isValidated = true ∧
      s.productId ≠ group.productId))
  let validated := agreeingGlobal t.identifiers g group
  pure ⟨i.id, group.productId, exactMethod validated,
    some (exactEvidence a i.retailerId validated), p.appliedAt, systemExactGtinEvidence⟩

def insertExactMatches (p : ApplyParameters) (items : List RetailerItem) (t : Tables) :
    List ConfirmedMatch :=
  Table.insertNew ConfirmedMatch.itemId t.confirmedMatches (items.filterMap (exactMatchOf p t))

/-- Refresh every automatic match whose live assertion is of an affected GTIN. -/
def refreshExactMatches (p : ApplyParameters) (affected : List String) (t : Tables) :
    List ConfirmedMatch :=
  t.confirmedMatches.map fun m =>
    if m.isAutomatic then
      match t.assertions.find? fun a =>
          decide (a.itemId = m.itemId ∧ a.kind = .gtin ∧ a.isLive = true ∧ a.value ∈ affected) with
      | none => m
      | some a =>
        match groupOf t.matchGroups a.value, t.items.find? fun i => decide (i.id = a.itemId) with
        | some group, some i =>
          if m.productId = group.productId then
            let validated := agreeingGlobal t.identifiers a.value group
            { m with
              method := exactMethod validated
              evidence := some (exactEvidence a i.retailerId validated)
              confirmedAt := p.appliedAt
              confirmedBy := systemExactGtinEvidence }
          else m
        | _, _ => m
    else m

/-- The assertions of the file, and the end of the automatic matches it replaces. -/
def assertGtins (p : ApplyParameters) (items : List RetailerItem) (t : Tables) :
    Except Failure Tables := do
  let superseded ← supersedeAssertions p items t.assertions
  let assertions ← insertAssertions p items superseded
  pure { t with
    assertions := assertions
    confirmedMatches := deleteAutomaticMatches items t.confirmedMatches }

/-- The scoped and the corroborated identifiers of the affected GTINs. -/
def corroborateIdentifiers (p : ApplyParameters) (items : List RetailerItem)
    (affected : List String) (t : Tables) : List ProductIdentifier :=
  let live := liveGtinRetailers affected t.assertions t.items
  let corroboration := gtinCorroboration affected t.matchGroups live
  let provisional := upsertScopedIdentifiers p items t.matchGroups t.identifiers
  upsertCorroborated p corroboration
    (deleteUncorroborated corroboration (deleteStaleScoped affected live provisional))

/-- The reviews and the rebuilt automatic matches. -/
def rematch (p : ApplyParameters) (items : List RetailerItem) (affected : List String)
    (t : Tables) : Tables :=
  let t := { t with candidates := insertConflictCandidates p items t }
  let t := { t with confirmedMatches := insertExactMatches p items t }
  { t with confirmedMatches := refreshExactMatches p affected t }

/-- `_match_exact_gtins`. -/
def matchExactGtins (p : ApplyParameters) (items : List RetailerItem) (t : Tables) :
    Except Failure Tables := do
  let affected := affectedGtins items t.assertions
  let t ← assertGtins p items t
  let t := insertGroups p items t
  let t := { t with identifiers := corroborateIdentifiers p items affected t }
  pure (rematch p items affected t)

end Makolet.Normalized
