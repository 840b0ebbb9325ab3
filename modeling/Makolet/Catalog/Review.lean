import Makolet.Maintenance.Rebuild
import Makolet.Normalized.Corroboration

/-!
# Operator review of catalog candidates

`PostgresCatalogMatchingRepository` of `adapters/persistence/catalog_matching.py`: the staged
candidates, one page of their generation, and the two decisions of an operator. Every operation is
one transaction on the `ReviewState`; a raised failure leaves it as it was. The statements of a
transaction are the definitions here, in the order of the source.

The distance of the trigram index and the score of a candidate are parameters: the protocol between
ingestion, generation and review is the same for every one of them.
-/

set_option autoImplicit false

namespace Makolet.Catalog

open Makolet.Domain Makolet.Lib Makolet.Normalized
open Makolet.Maintenance (bootstrapItem)

abbrev CandidateId := Nat

/-! ## Rows -/

inductive CandidateStatus
  | pending
  | accepted
  | rejected
  | superseded
  deriving DecidableEq, Repr

/-- Rules of `score_catalog_candidate`. -/
inductive MatchRule
  | exactGtin
  | exactNormalizedIdentifier
  | structuredCandidate
  deriving DecidableEq, Repr

inductive CandidateMethod
  | exactIdentifierConflict
  | stagedExactGtin
  | normalizedIdentifier
  | structuredCatalog
  deriving DecidableEq, Repr

/-- The table of methods in `_proposal`. -/
def MatchRule.candidateMethod : MatchRule → CandidateMethod
  | .exactGtin => .stagedExactGtin
  | .exactNormalizedIdentifier => .normalizedIdentifier
  | .structuredCandidate => .structuredCatalog

/-- `product_match_candidates`. The score is in units of the last digit of `numeric(8, 7)`. -/
structure Candidate where
  id : CandidateId
  itemId : ItemId
  productId : ProductId
  method : CandidateMethod
  score : Nat
  status : CandidateStatus
  createdAt : Time
  reviewedAt : Option Time
  reviewedBy : Option String
  deriving DecidableEq, Repr

/-- The unique key `(retailer_item_id, canonical_product_id, method)`. -/
def Candidate.key (c : Candidate) : ItemId × ProductId × CandidateMethod :=
  (c.itemId, c.productId, c.method)

/-- The normalized tables with the columns and rows that only the review uses: which products are
`retired`, and the candidates with their status. -/
structure ReviewState where
  tables : Tables
  retired : List ProductId
  candidates : List Candidate
  nextCandidate : CandidateId
  deriving DecidableEq, Repr

def ReviewState.empty : ReviewState := ⟨Tables.empty, [], [], 0⟩

/-- `canonical_products.status = 'active'`. -/
def ReviewState.IsActive (s : ReviewState) (product : ProductId) : Prop :=
  (∃ r ∈ s.tables.products, r.id = product) ∧ product ∉ s.retired

instance (s : ReviewState) (product : ProductId) : Decidable (s.IsActive product) :=
  inferInstanceAs (Decidable (_ ∧ _))

/-- The match of an item, which is unique. -/
def matchOf (t : Tables) (item : ItemId) : Option ConfirmedMatch :=
  Table.lookup ConfirmedMatch.itemId t.confirmedMatches item

/-- A match that only represents its item. -/
def IsIsolated (m : ConfirmedMatch) : Prop :=
  m.method = .isolatedRetailerItem ∧ m.confirmedBy = isolatedActor

instance (m : ConfirmedMatch) : Decidable (IsIsolated m) :=
  inferInstanceAs (Decidable (_ ∧ _))

/-- The key of the identifier that the retailer gives an item. -/
def retailerIdentifierKey (k : RetailerId × PortalId × String) :
    IdentifierKind × String × Option (RetailerId × PortalId) :=
  (.retailerItem, k.2.2, some (k.1, k.2.1))

/-- The identifier of an item that one of the two workflows writes. -/
def retailerIdentifier (item : RetailerItem) (product : ProductId) (method : ValidationMethod)
    (now : Time) : ProductIdentifier :=
  ⟨product, .retailerItem, item.sourceItemCode, some (item.retailerId, item.portalId), true, method,
    none, none, now⟩

/-! ## Candidates of an apply -/

/-- The reviews that `_match_exact_gtins` asks for. -/
def conflictCandidate (c : MatchCandidate × CandidateId) : Candidate :=
  ⟨c.2, c.1.itemId, c.1.productId, .exactIdentifierConflict, 10000000, .pending, c.1.createdAt, none,
    none⟩

/-- The state after the tables have been written by an apply. `Tables.candidates` accumulates the
conflicts under the same key, so those of earlier applies are ignored by the conflict clause. -/
def recordApply (s : ReviewState) (t : Tables) : ReviewState :=
  { s with
    tables := t
    candidates := Table.insertNew Candidate.key s.candidates
      ((t.candidates.zipIdx s.nextCandidate).map conflictCandidate)
    nextCandidate := s.nextCandidate + t.candidates.length }

/-! ## Generation -/

/-- What a page of `generate_candidates` is asked for. -/
structure GenerationRequest where
  cursor : Option ItemId
  itemLimit : Nat
  candidateLimit : Nat
  deriving DecidableEq, Repr

/-- The trigram distance of two names, and the score of a candidate against an item. -/
structure Scoring where
  distance : String → String → Nat
  score : Tables → RetailerItem → ProductId → Option (MatchRule × Nat)

/-- `_select_subjects`: the items without a match or with an isolated one, behind the cursor. -/
def selectSubjects (cursor : Option ItemId) (itemLimit : Nat) (t : Tables) : List RetailerItem :=
  ((t.items.filter fun item =>
      (matchOf t item.id).all (fun m => decide (m.method = .isolatedRetailerItem)) &&
      cursor.all fun c => decide (c < item.id)).insertionSort fun a b => a.id ≤ b.id).take
    (itemLimit + 1)

/-- `_bootstrap_isolated_products` for one subject of a page: a missing representation is created,
and a present one gets its identifier if that is missing. -/
def bootstrapSubject (now : Time) (t : Tables) (item : RetailerItem) : Tables :=
  match matchOf t item.id with
  | none => bootstrapItem now t item
  | some m => { t with
      identifiers := Table.insertNew ProductIdentifier.key t.identifiers
        [retailerIdentifier item m.productId .isolatedRetailerItem now] }

/-- The identifiers that name a subject exactly: the code of a retailer's item, or the GTIN. -/
def namesExactly (item : RetailerItem) (i : ProductIdentifier) : Prop :=
  i.kind = .retailerItem ∧ i.value = item.sourceItemCode ∨
    i.kind = .gtin ∧ item.gtin = some i.value

instance (item : RetailerItem) (i : ProductIdentifier) : Decidable (namesExactly item i) :=
  inferInstanceAs (Decidable (_ ∨ _))

/-- `exact_candidates`. -/
def exactProducts (s : ReviewState) (limit : Nat) (item : RetailerItem) (isolated : ProductId) :
    List ProductId :=
  ((((s.tables.identifiers.filter fun i => decide (namesExactly item i)).map
      ProductIdentifier.productId).filter fun p =>
    decide (s.IsActive p ∧ p ≠ isolated)).dedup.insertionSort (· ≤ ·)).take limit

/-- `nearest_candidates`, by the distance of the names and then by the id. -/
def nearestProducts (scoring : Scoring) (s : ReviewState) (limit : Nat) (item : RetailerItem)
    (isolated : ProductId) : List ProductId :=
  let active := s.tables.products.filter fun r => decide (s.IsActive r.id ∧ r.id ≠ isolated)
  let distance := fun r : CanonicalProduct => scoring.distance r.name item.description.itemName
  ((active.insertionSort fun a b =>
    distance a < distance b ∨ distance a = distance b ∧ a.id ≤ b.id).take limit).map
      CanonicalProduct.id

/-- `bounded`: the exact products first, then the others of the two blocks, each in the order of the
ids. -/
def candidateBlock (scoring : Scoring) (s : ReviewState) (limit : Nat) (item : RetailerItem)
    (isolated : ProductId) : List ProductId :=
  let exact := exactProducts s limit item isolated
  let others := ((nearestProducts scoring s limit item isolated).filter (· ∉ exact)).dedup
  (exact ++ others.insertionSort (· ≤ ·)).take limit

/-- A row that `_score_rows` returns. -/
structure CandidateProposal where
  itemId : ItemId
  productId : ProductId
  method : CandidateMethod
  score : Nat
  deriving DecidableEq, Repr

def CandidateProposal.key (p : CandidateProposal) : ItemId × ProductId × CandidateMethod :=
  (p.itemId, p.productId, p.method)

/-- `_candidate_block_rows` and `_score_rows` for one subject, which has an isolated match. -/
def proposalsOf (scoring : Scoring) (s : ReviewState) (limit : Nat) (item : RetailerItem) :
    List CandidateProposal :=
  match (matchOf s.tables item.id).filter fun m => decide (m.method = .isolatedRetailerItem) with
  | none => []
  | some m =>
    ((candidateBlock scoring s limit item m.productId).filterMap fun product =>
      (scoring.score s.tables item product).map fun scored =>
        ⟨item.id, product, scored.1.candidateMethod, scored.2⟩).take limit

/-- `ORDER BY retailer_item_id, canonical_product_id`; a product has one proposal for an item. -/
def CandidateProposal.before (a b : CandidateProposal) : Prop :=
  a.itemId < b.itemId ∨ a.itemId = b.itemId ∧ a.productId ≤ b.productId

instance (a b : CandidateProposal) : Decidable (a.before b) :=
  inferInstanceAs (Decidable (_ ∨ _))

/-- `_write_candidates`: new candidates are pending, and only a pending one is scored again. -/
def writeCandidates (now : Time) (proposals : List CandidateProposal) (s : ReviewState) :
    ReviewState :=
  { s with
    candidates := Table.upsert Candidate.key (fun p : CandidateProposal × Nat => p.1.key)
      (fun p => ⟨p.2, p.1.itemId, p.1.productId, p.1.method, p.1.score, .pending, now, none, none⟩)
      (fun old p => if old.status = .pending then { old with score := p.1.score } else old)
      s.candidates ((proposals.insertionSort CandidateProposal.before).zipIdx s.nextCandidate)
    nextCandidate := s.nextCandidate + (proposals.insertionSort CandidateProposal.before).length }

/-- `len(result.all())`: the proposals that were inserted or that found a pending candidate. -/
def writtenCount (proposals : List CandidateProposal) (s : ReviewState) : Nat :=
  (proposals.filter fun p => (Table.lookup Candidate.key s.candidates p.key).all fun c =>
    decide (c.status = .pending)).length

/-- `CatalogCandidateGenerationResult`. -/
structure GenerationResult where
  processedItems : Nat
  bootstrappedItems : Nat
  candidatesWritten : Nat
  nextCursor : Option ItemId
  deriving DecidableEq, Repr

/-- The isolated representations of a page. -/
def bootstrapSubjects (now : Time) (batch : List RetailerItem) (s : ReviewState) : ReviewState :=
  { s with tables := batch.foldl (bootstrapSubject now) s.tables }

/-- `generate_candidates`. -/
def generateCandidates (scoring : Scoring) (request : GenerationRequest) (now : Time)
    (s : ReviewState) : ReviewState × GenerationResult :=
  let subjects := selectSubjects request.cursor request.itemLimit s.tables
  let batch := subjects.take request.itemLimit
  if batch = [] then (s, ⟨0, 0, 0, none⟩)
  else
    let represented := bootstrapSubjects now batch s
    let proposals := batch.flatMap (proposalsOf scoring represented request.candidateLimit)
    (writeCandidates now proposals represented,
      { processedItems := batch.length
        bootstrappedItems := (batch.filter fun item => (matchOf s.tables item.id).isNone).length
        candidatesWritten := writtenCount proposals represented
        nextCursor := if request.itemLimit < subjects.length then
          batch.getLast?.map RetailerItem.id else none })

/-! ## Decisions -/

def conflict (message : String) : Failure := ⟨.catalogMatchConflict, message, 0⟩

/-- `_locked_candidate`, with the item that it is joined to. -/
def lockedCandidate (id : CandidateId) (s : ReviewState) :
    Except Failure (Candidate × RetailerItem) :=
  let row := do
    let candidate ← Table.lookup Candidate.id s.candidates id
    let item ← Table.lookup RetailerItem.id s.tables.items candidate.itemId
    some (candidate, item)
  match row with
  | none => .error ⟨.notFound, "Catalog match candidate was not found", 0⟩
  | some row => .ok row

/-- `_require_pending`. -/
def requirePending (candidate : Candidate) : Except Failure Unit :=
  require (candidate.status = .pending) (conflict "Catalog match candidate is no longer pending")

/-- The match that an accepted candidate replaces. -/
def requireIsolated (existing : Option ConfirmedMatch) : Except Failure ConfirmedMatch :=
  match existing.filter fun m => decide (IsIsolated m) with
  | none => .error (conflict "Candidate cannot replace a manual or non-isolated catalog match")
  | some existing => .ok existing

/-- `_validate_identifier_move`. -/
def validateIdentifierMove (item : RetailerItem) (isolated target : ProductId) (t : Tables) :
    Except Failure Unit :=
  require (∀ row ∈ Table.lookup ProductIdentifier.key t.identifiers (retailerIdentifierKey item.key),
      row.productId ∈ [isolated, target])
    (conflict "Retailer-scoped identifier already belongs to another canonical product")

/-- The update of the confirmed match. -/
def confirmReviewed (item : RetailerItem) (isolated target : ProductId) (reviewedBy : String)
    (now : Time) (confirmed : List ConfirmedMatch) : List ConfirmedMatch :=
  confirmed.map fun m =>
    if m.itemId = item.id ∧ m.productId = isolated ∧ IsIsolated m then
      { m with
        productId := target
        method := .manualReview
        evidence := none
        confirmedAt := now
        confirmedBy := reviewedBy }
    else m

/-- `_move_retailer_identifier`. -/
def moveRetailerIdentifier (item : RetailerItem) (isolated target : ProductId) (now : Time)
    (identifiers : List ProductIdentifier) : List ProductIdentifier :=
  let moves : ProductIdentifier → Prop := fun i =>
    i.productId = isolated ∧ i.key = retailerIdentifierKey item.key
  if ∃ i ∈ identifiers, moves i then
    identifiers.map fun i =>
      if moves i then
        { i with
          productId := target
          isValidated := true
          validationMethod := .operatorReview
          evidenceFileId := none
          evidenceRetailerCount := none }
      else i
  else
    Table.insertNew ProductIdentifier.key identifiers
      [retailerIdentifier item target .operatorReview now]

/-- A pending candidate is closed under the given status. -/
def Candidate.close (status : CandidateStatus) (reviewedBy : String) (now : Time) (c : Candidate) :
    Candidate :=
  { c with status := status, reviewedAt := some now, reviewedBy := some reviewedBy }

/-- The decision on all pending candidates of the item. -/
def settleCandidates (id : CandidateId) (item : ItemId) (reviewedBy : String) (now : Time)
    (candidates : List Candidate) : List Candidate :=
  candidates.map fun c =>
    if c.itemId = item ∧ c.status = .pending then
      c.close (if c.id = id then .accepted else .superseded) reviewedBy now
    else c

/-- The isolated product is retired when no match is left on it, and its candidates with it. -/
def retireIsolated (isolated : ProductId) (reviewedBy : String) (now : Time) (s : ReviewState) :
    ReviewState :=
  if s.IsActive isolated ∧ ∀ m ∈ s.tables.confirmedMatches, m.productId ≠ isolated then
    { s with
      retired := s.retired ++ [isolated]
      candidates := s.candidates.map fun c =>
        if c.productId = isolated ∧ c.status = .pending then
          c.close .superseded reviewedBy now
        else c }
  else s

/-- The writes of `accept_candidate`, once its checks have passed. -/
def writeAcceptance (candidate : Candidate) (item : RetailerItem) (isolated : ProductId)
    (reviewedBy : String) (now : Time) (s : ReviewState) : ReviewState :=
  retireIsolated isolated reviewedBy now
    { s with
      tables := { s.tables with
        confirmedMatches := confirmReviewed item isolated candidate.productId reviewedBy now
          s.tables.confirmedMatches
        identifiers := moveRetailerIdentifier item isolated candidate.productId now
          s.tables.identifiers }
      candidates := settleCandidates candidate.id item.id reviewedBy now s.candidates }

/-- `accept_candidate`. -/
def acceptCandidate (id : CandidateId) (reviewedBy : String) (now : Time) (s : ReviewState) :
    Except Failure ReviewState := do
  let (candidate, item) ← lockedCandidate id s
  requirePending candidate
  let existing ← requireIsolated (matchOf s.tables item.id)
  require (existing.productId ≠ candidate.productId)
    (conflict "Candidate target is the item's existing isolated product")
  require (s.IsActive candidate.productId) (conflict "Candidate target product is not active")
  validateIdentifierMove item existing.productId candidate.productId s.tables
  pure (writeAcceptance candidate item existing.productId reviewedBy now s)

/-- `reject_candidate`. -/
def rejectCandidate (id : CandidateId) (reviewedBy : String) (now : Time) (s : ReviewState) :
    Except Failure ReviewState := do
  let (candidate, _) ← lockedCandidate id s
  requirePending candidate
  pure { s with
    candidates := s.candidates.map fun c =>
      if c.id = id ∧ c.status = .pending then c.close .rejected reviewedBy now else c }

/-! ## What a decision that was made has checked -/

section Inversion

variable {s s' : ReviewState} {id : CandidateId} {reviewedBy : String} {now : Time}

theorem lockedCandidate_eq_ok {candidate : Candidate} {item : RetailerItem} :
    lockedCandidate id s = .ok (candidate, item) ↔
      Table.lookup Candidate.id s.candidates id = some candidate ∧
        Table.lookup RetailerItem.id s.tables.items candidate.itemId = some item := by
  unfold lockedCandidate
  cases hcandidate : Table.lookup Candidate.id s.candidates id with
  | none => simp
  | some c =>
    cases hitem : Table.lookup RetailerItem.id s.tables.items c.itemId with
    | none =>
      simp only [Option.bind_eq_bind, Option.bind_some, hitem, Option.bind_none, Option.some.injEq,
        reduceCtorEq, false_iff]
      rintro ⟨rfl, h⟩
      rw [hitem] at h
      cases h
    | some i =>
      simp only [Option.bind_eq_bind, Option.bind_some, hitem, Except.ok.injEq, Prod.mk.injEq,
        Option.some.injEq]
      constructor
      · rintro ⟨rfl, rfl⟩
        exact ⟨rfl, hitem⟩
      · rintro ⟨rfl, h⟩
        exact ⟨rfl, Option.some.inj (hitem.symm.trans h)⟩

theorem requireIsolated_eq_ok {existing : Option ConfirmedMatch} {m : ConfirmedMatch} :
    requireIsolated existing = .ok m ↔ existing = some m ∧ IsIsolated m := by
  unfold requireIsolated
  cases existing with
  | none => simp
  | some e =>
    by_cases he : IsIsolated e
    · simp only [Option.filter_some, decide_eq_true he, if_pos, Except.ok.injEq, Option.some.injEq]
      constructor
      · rintro rfl
        exact ⟨rfl, he⟩
      · rintro ⟨rfl, -⟩
        rfl
    · simp only [Option.filter_some, decide_eq_false he, Bool.false_eq_true, if_false, reduceCtorEq,
        Option.some.injEq, false_iff]
      rintro ⟨rfl, h⟩
      exact he h

/-- An accepted candidate was pending, its item had an isolated match elsewhere, its product was
active, and the identifier of the item was free to move. -/
theorem acceptCandidate_eq_ok :
    acceptCandidate id reviewedBy now s = .ok s' ↔
      ∃ candidate item existing,
        Table.lookup Candidate.id s.candidates id = some candidate ∧
        Table.lookup RetailerItem.id s.tables.items candidate.itemId = some item ∧
        candidate.status = .pending ∧
        matchOf s.tables item.id = some existing ∧ IsIsolated existing ∧
        existing.productId ≠ candidate.productId ∧ s.IsActive candidate.productId ∧
        (∀ row ∈ Table.lookup ProductIdentifier.key s.tables.identifiers
            (retailerIdentifierKey item.key),
          row.productId ∈ [existing.productId, candidate.productId]) ∧
        s' = writeAcceptance candidate item existing.productId reviewedBy now s := by
  constructor
  · intro h
    obtain ⟨⟨candidate, item⟩, hlocked, h⟩ := bind_eq_ok.mp h
    obtain ⟨hcandidate, hitem⟩ := lockedCandidate_eq_ok.mp hlocked
    obtain ⟨_, hpending, h⟩ := bind_eq_ok.mp h
    obtain ⟨existing, hexisting, h⟩ := bind_eq_ok.mp h
    obtain ⟨hmatch, hisolated⟩ := requireIsolated_eq_ok.mp hexisting
    obtain ⟨hne, h⟩ := require_bind_eq_ok.mp h
    obtain ⟨hactive, h⟩ := require_bind_eq_ok.mp h
    obtain ⟨_, hmove, h⟩ := bind_eq_ok.mp h
    rw [pure_eq_ok] at h
    exact ⟨candidate, item, existing, hcandidate, hitem, require_eq_ok.mp hpending, hmatch,
      hisolated, hne, hactive, require_eq_ok.mp hmove, h.symm⟩
  · rintro ⟨candidate, item, existing, hcandidate, hitem, hpending, hmatch, hisolated, hne, hactive,
      hmove, rfl⟩
    refine bind_eq_ok.mpr ⟨_, lockedCandidate_eq_ok.mpr ⟨hcandidate, hitem⟩, ?_⟩
    refine bind_eq_ok.mpr ⟨⟨⟩, require_eq_ok.mpr hpending, ?_⟩
    refine bind_eq_ok.mpr ⟨existing, requireIsolated_eq_ok.mpr ⟨hmatch, hisolated⟩, ?_⟩
    refine require_bind_eq_ok.mpr ⟨hne, require_bind_eq_ok.mpr ⟨hactive, ?_⟩⟩
    exact bind_eq_ok.mpr ⟨⟨⟩, require_eq_ok.mpr hmove, rfl⟩

theorem rejectCandidate_eq_ok :
    rejectCandidate id reviewedBy now s = .ok s' ↔
      ∃ candidate item,
        Table.lookup Candidate.id s.candidates id = some candidate ∧
        Table.lookup RetailerItem.id s.tables.items candidate.itemId = some item ∧
        candidate.status = .pending ∧
        s' = { s with
          candidates := s.candidates.map fun c =>
            if c.id = id ∧ c.status = .pending then c.close .rejected reviewedBy now else c } := by
  constructor
  · intro h
    obtain ⟨⟨candidate, item⟩, hlocked, h⟩ := bind_eq_ok.mp h
    obtain ⟨hcandidate, hitem⟩ := lockedCandidate_eq_ok.mp hlocked
    obtain ⟨_, hpending, h⟩ := bind_eq_ok.mp h
    rw [pure_eq_ok] at h
    exact ⟨candidate, item, hcandidate, hitem, require_eq_ok.mp hpending, h.symm⟩
  · rintro ⟨candidate, item, hcandidate, hitem, hpending, rfl⟩
    refine bind_eq_ok.mpr ⟨_, lockedCandidate_eq_ok.mpr ⟨hcandidate, hitem⟩, ?_⟩
    exact bind_eq_ok.mpr ⟨⟨⟩, require_eq_ok.mpr hpending, rfl⟩

end Inversion

end Makolet.Catalog
