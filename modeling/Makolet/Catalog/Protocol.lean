import Makolet.Catalog.Generation

/-!
# The catalog over any order of its transactions

Applies, bootstraps, generated pages and operator decisions, one transaction at a time and in any
order. `ReviewInvariant` is what they keep: no match is on a retired product, a pending candidate is
on an active product that does not represent its item, and an accepted candidate is the match of its
item, decided by its reviewer. From it follow the three main results:

* an operator can accept a pending candidate exactly while its item has an isolated match, so the
  other refusals of `accept_candidate` never happen;
* the products of the catalog stay consistent over whole runs;
* a decision is final: a candidate that is no longer pending, and a reviewed match, never change.
-/

set_option autoImplicit false

namespace Makolet.Catalog

open Makolet.Domain Makolet.Lib Makolet.Normalized

/-- A transaction of the catalog. -/
inductive ReviewEvent
  | apply (r : ApplyRequest)
  | bootstrap (f : FileId) (cursor : Option ItemId) (now : Time)
  | generate (request : GenerationRequest) (now : Time)
  | accept (id : CandidateId) (reviewedBy : String) (now : Time)
  | reject (id : CandidateId) (reviewedBy : String) (now : Time)

def ReviewState.next (scoring : Scoring) (s : ReviewState) : ReviewEvent → Option ReviewState
  | .apply r => (apply r s.tables).toOption.map fun applied => recordApply s applied.1
  | .bootstrap f cursor now => some { s with tables := bootstrapSource now f cursor s.tables }
  | .generate request now => some (generateCandidates scoring request now s).1
  | .accept id reviewedBy now => (acceptCandidate id reviewedBy now s).toOption
  | .reject id reviewedBy now => (rejectCandidate id reviewedBy now s).toOption

def reviewSystem (scoring : Scoring) : System ReviewState ReviewEvent where
  init s := s = ReviewState.empty
  next := ReviewState.next scoring

/-- What holds of the catalog between two transactions. -/
structure ReviewInvariant (s : ReviewState) : Prop where
  represented : Represented s.tables
  retired : ∀ p ∈ s.retired, IsProduct s.tables p ∧ ¬ IsGrouped s.tables p ∧
    ∀ m ∈ s.tables.confirmedMatches, m.productId ≠ p
  ids : Table.UniqueOn Candidate.id s.candidates
  ids_lt : ∀ c ∈ s.candidates, c.id < s.nextCandidate
  keys : Table.UniqueOn Candidate.key s.candidates
  candidate_item : ∀ c ∈ s.candidates, ∃ k, itemIdOf s.tables k = some c.itemId
  candidate_product : ∀ c ∈ s.candidates, IsProduct s.tables c.productId
  pending_active : ∀ c ∈ s.candidates, c.status = .pending → c.productId ∉ s.retired
  pending_elsewhere : ∀ c ∈ s.candidates, c.status = .pending →
    ∀ m ∈ s.tables.confirmedMatches, m.itemId = c.itemId → IsIsolated m → m.productId ≠ c.productId
  accepted_confirmed : ∀ c ∈ s.candidates, c.status = .accepted →
    ∃ m ∈ s.tables.confirmedMatches, m.itemId = c.itemId ∧ m.productId = c.productId ∧
      m.method = .manualReview ∧ c.reviewedBy = some m.confirmedBy
  accepted_one : ∀ c ∈ s.candidates, ∀ c' ∈ s.candidates, c.status = .accepted →
    c'.status = .accepted → c.itemId = c'.itemId → c = c'

theorem ReviewInvariant.empty : ReviewInvariant ReviewState.empty where
  represented := .empty
  retired _ h := by cases h
  ids := List.nodup_nil
  ids_lt _ h := by cases h
  keys := List.nodup_nil
  candidate_item _ h := by cases h
  candidate_product _ h := by cases h
  pending_active _ h := by cases h
  pending_elsewhere _ h := by cases h
  accepted_confirmed _ h := by cases h
  accepted_one _ h := by cases h

/-! ## The tables change under the candidates -/

/-- What a transaction that decides nothing does to the tables. -/
structure TablesGrow (s : ReviewState) (t : Tables) : Prop where
  represented : Represented t
  products : ∀ p, IsProduct s.tables p → IsProduct t p
  items : ∀ k i, itemIdOf s.tables k = some i → itemIdOf t k = some i
  kept : ∀ m ∈ s.tables.confirmedMatches, m.isAutomatic = false → m ∈ t.confirmedMatches
  /-- An isolated match was there, or is on a product that was not. -/
  isolated : ∀ m ∈ t.confirmedMatches, IsIsolated m →
    m ∈ s.tables.confirmedMatches ∨ ¬ IsProduct s.tables m.productId
  /-- Retired products get neither a group nor a match. -/
  retired : ∀ p ∈ s.retired, ¬ IsGrouped t p ∧ ∀ m ∈ t.confirmedMatches, m.productId ≠ p

theorem ReviewInvariant.grow {s : ReviewState} {t : Tables} (h : ReviewInvariant s)
    (hgrow : TablesGrow s t) : ReviewInvariant { s with tables := t } where
  represented := hgrow.represented
  retired p hp := ⟨hgrow.products p (h.retired p hp).1, hgrow.retired p hp⟩
  ids := h.ids
  ids_lt := h.ids_lt
  keys := h.keys
  candidate_item c hc := by
    obtain ⟨k, hk⟩ := h.candidate_item c hc
    exact ⟨k, hgrow.items k _ hk⟩
  candidate_product c hc := hgrow.products _ (h.candidate_product c hc)
  pending_active := h.pending_active
  pending_elsewhere c hc hpending m hm hitem hisolated := by
    rcases hgrow.isolated m hm hisolated with hold | hfresh
    · exact h.pending_elsewhere c hc hpending m hold hitem hisolated
    · exact fun heq => hfresh (heq ▸ h.candidate_product c hc)
  accepted_confirmed c hc haccepted := by
    obtain ⟨m, hm, hitem, hproduct, hmethod, hactor⟩ := h.accepted_confirmed c hc haccepted
    exact ⟨m, hgrow.kept m hm (isAutomatic_of_manual hmethod), hitem, hproduct, hmethod, hactor⟩
  accepted_one := h.accepted_one

theorem tablesGrow_of_keepsCatalog {s : ReviewState} {t : Tables} (h : ReviewInvariant s)
    (hkeeps : KeepsCatalog s.tables t) : TablesGrow s t := by
  have hungrouped : ∀ p ∈ s.retired, ¬ IsGrouped t p := fun p hp hg =>
    (h.retired p hp).2.1 (hkeeps.ungrouped p (h.retired p hp).1 hg)
  refine ⟨hkeeps.represented, hkeeps.products, hkeeps.items,
    fun m hm hauto => (hkeeps.matches_iff m hauto).mpr hm, fun m hm hisolated => .inl
      ((hkeeps.matches_iff m (isAutomatic_of_isIsolated hisolated)).mp hm),
    fun p hp => ⟨hungrouped p hp, fun m hm hmp => ?_⟩⟩
  cases hauto : m.isAutomatic with
  | false => exact (h.retired p hp).2.2 m ((hkeeps.matches_iff m hauto).mp hm) hmp
  | true =>
    rcases hkeeps.represented.decided m hm with ⟨-, hgrouped⟩ | ⟨hisolated, -⟩ | hmanual
    · exact hungrouped p hp (hmp ▸ hgrouped)
    · rw [isAutomatic_of_isIsolated hisolated] at hauto
      cases hauto
    · rw [isAutomatic_of_manual hmanual] at hauto
      cases hauto

theorem tablesGrow_of_isolates {s : ReviewState} {t : Tables} (h : ReviewInvariant s)
    (hisolates : Isolates s.tables t) : TablesGrow s t := by
  refine ⟨hisolates.represented, hisolates.products, fun k i hk => ?_,
    fun m hm _ => hisolates.kept m hm, fun m hm _ => ?_, fun p hp => ⟨?_, fun m hm hmp => ?_⟩⟩
  · rw [itemIdOf, hisolates.items]
    exact hk
  · rcases hisolates.added m hm with hold | ⟨-, hfresh, -⟩
    · exact .inl hold
    · exact .inr hfresh
  · rw [IsGrouped, hisolates.groups]
    exact (h.retired p hp).2.1
  · rcases hisolates.added m hm with hold | ⟨-, hfresh, -⟩
    · exact (h.retired p hp).2.2 m hold hmp
    · exact hfresh (hmp ▸ (h.retired p hp).1)

/-! ## New candidates -/

/-- A candidate that a transaction may add. -/
structure Admissible (s : ReviewState) (c : Candidate) : Prop where
  pending : c.status = .pending
  item : ∃ k, itemIdOf s.tables k = some c.itemId
  product : IsProduct s.tables c.productId
  active : c.productId ∉ s.retired
  elsewhere : ∀ m ∈ s.tables.confirmedMatches, m.itemId = c.itemId → IsIsolated m →
    m.productId ≠ c.productId

/-- Candidates that continue old ones under their keys, ids and statuses, and new admissible ones,
keep the invariant. -/
theorem ReviewInvariant.withCandidates {s : ReviewState} {candidates : List Candidate} {next : Nat}
    (h : ReviewInvariant s) (hids : Table.UniqueOn Candidate.id candidates)
    (hlt : ∀ c ∈ candidates, c.id < next) (hkeys : Table.UniqueOn Candidate.key candidates)
    (hmem : ∀ c ∈ candidates, (∃ old ∈ s.candidates, old.key = c.key ∧ old.status = c.status ∧
        (c.status ≠ .pending → old = c)) ∨ Admissible s c) :
    ReviewInvariant { s with candidates := candidates, nextCandidate := next } := by
  have hdecided : ∀ c ∈ candidates, c.status = .accepted → c ∈ s.candidates := by
    intro c hc haccepted
    rcases hmem c hc with ⟨old, hold, -, -, heq⟩ | hnew
    · exact heq (by rw [haccepted]; decide) ▸ hold
    · cases haccepted.symm.trans hnew.pending
  have hold : ∀ {P : ItemId → ProductId → Prop} {c old : Candidate}, old.key = c.key →
      P old.itemId old.productId → P c.itemId c.productId := by
    intro P c old hkey hP
    simp only [Candidate.key, Prod.mk.injEq] at hkey
    rw [← hkey.1, ← hkey.2.1]
    exact hP
  refine ⟨h.represented, h.retired, hids, hlt, hkeys, fun c hc => ?_, fun c hc => ?_,
    fun c hc hpending => ?_, fun c hc hpending => ?_, fun c hc haccepted =>
      h.accepted_confirmed c (hdecided c hc haccepted) haccepted,
    fun c hc c' hc' ha ha' => h.accepted_one c (hdecided c hc ha) c' (hdecided c' hc' ha') ha ha'⟩
  · rcases hmem c hc with ⟨old, hin, hkey, -, -⟩ | hnew
    · exact hold (P := fun item _ => ∃ k, itemIdOf s.tables k = some item) hkey
        (h.candidate_item old hin)
    · exact hnew.item
  · rcases hmem c hc with ⟨old, hin, hkey, -, -⟩ | hnew
    · exact hold (P := fun _ product => IsProduct s.tables product) hkey
        (h.candidate_product old hin)
    · exact hnew.product
  · rcases hmem c hc with ⟨old, hin, hkey, hstatus, -⟩ | hnew
    · exact hold (P := fun _ product => product ∉ s.retired) hkey
        (h.pending_active old hin (hstatus.trans hpending))
    · exact hnew.active
  · rcases hmem c hc with ⟨old, hin, hkey, hstatus, -⟩ | hnew
    · exact hold (P := fun item product => ∀ m ∈ s.tables.confirmedMatches, m.itemId = item →
        IsIsolated m → m.productId ≠ product) hkey
        (h.pending_elsewhere old hin (hstatus.trans hpending))
    · exact hnew.elsewhere

theorem insertNew_ids {candidates incoming : List Candidate} {next count : Nat}
    (hids : Table.UniqueOn Candidate.id candidates) (hlt : ∀ c ∈ candidates, c.id < next)
    (hin : incoming.map Candidate.id = List.range' next count) :
    Table.UniqueOn Candidate.id (Table.insertNew Candidate.key candidates incoming) ∧
      ∀ c ∈ Table.insertNew Candidate.key candidates incoming, c.id < next + count := by
  have hrange : ∀ c ∈ incoming, next ≤ c.id ∧ c.id < next + count := by
    intro c hc
    have hid : c.id ∈ List.range' next count := hin ▸ List.mem_map_of_mem hc
    simpa using hid
  constructor
  · rw [Table.UniqueOn, Table.insertNew, List.map_append, List.nodup_append]
    refine ⟨hids, ?_, ?_⟩
    · refine ((Table.distinctOn_sublist _).trans List.filter_sublist |>.map Candidate.id).nodup ?_
      rw [hin]
      exact List.nodup_range'
    · rintro _ ha _ hb rfl
      obtain ⟨c, hc, hid⟩ := List.mem_map.mp ha
      obtain ⟨c', hc', hid'⟩ := List.mem_map.mp hb
      have hlow := (hrange c' (List.mem_filter.mp (Table.mem_of_mem_distinctOn hc')).1).1
      rw [hid'.trans hid.symm] at hlow
      exact absurd (hlt c hc) (Nat.not_lt.mpr hlow)
  · intro c hc
    rcases Table.mem_insertNew hc with hold | ⟨hnew, -⟩
    · exact Nat.lt_add_right _ (hlt c hold)
    · exact (hrange c hnew).2

/-- An apply keeps the invariant; the conflicts it records are on products of groups. -/
theorem ReviewInvariant.recordApply {s : ReviewState} {t : Tables} (h : ReviewInvariant s)
    (hkeeps : KeepsCatalog s.tables t) : ReviewInvariant (recordApply s t) := by
  have hgrown := h.grow (tablesGrow_of_keepsCatalog h hkeeps)
  set incoming := (t.candidates.zipIdx s.nextCandidate).map conflictCandidate with hincoming
  have hrange : incoming.map Candidate.id = List.range' s.nextCandidate t.candidates.length := by
    rw [hincoming, List.map_map,
      show Candidate.id ∘ conflictCandidate = (Prod.snd : MatchCandidate × Nat → Nat) from rfl,
      List.zipIdx_map_snd]
  obtain ⟨hids, hlt⟩ := insertNew_ids h.ids h.ids_lt hrange
  refine hgrown.withCandidates hids hlt (Table.insertNew_unique h.keys) fun c hc => ?_
  rcases Table.mem_insertNew hc with hold | ⟨hnew, -⟩
  · exact .inl ⟨c, hold, rfl, rfl, fun _ => rfl⟩
  · obtain ⟨b, hb, rfl⟩ := List.mem_map.mp hnew
    have hmem : b.1 ∈ t.candidates := List.fst_mem_of_mem_zipIdx hb
    have hgrouped := hkeeps.represented.conflict_grouped b.1 hmem
    refine .inr ⟨rfl, hkeeps.represented.conflict_item b.1 hmem,
      hkeeps.represented.grouped_product _ hgrouped, fun hretired => ?_,
      fun m hm _ hisolated heq => ?_⟩
    · exact (hgrown.retired _ hretired).2.1 hgrouped
    · rcases hkeeps.represented.decided m hm with ⟨hauto, -⟩ | ⟨-, hnot⟩ | hmanual
      · rw [isAutomatic_of_isIsolated hisolated] at hauto
        cases hauto
      · exact hnot (heq ▸ hgrouped)
      · cases hmanual.symm.trans hisolated.1

/-- Written proposals keep the invariant when they are admissible. -/
theorem ReviewInvariant.writeCandidates {s : ReviewState} {now : Time}
    {proposals : List CandidateProposal} (h : ReviewInvariant s)
    (hunique : Table.UniqueOn CandidateProposal.key proposals)
    (hadmissible : ∀ p ∈ proposals, ∀ c : Candidate, c.status = .pending →
      c.itemId = p.itemId → c.productId = p.productId → Admissible s c) :
    ReviewInvariant (writeCandidates now proposals s) := by
  set ordered := proposals.insertionSort CandidateProposal.before with hordered
  have hin : Table.UniqueOn (fun p : CandidateProposal × Nat => p.1.key)
      (ordered.zipIdx s.nextCandidate) := by
    refine Table.UniqueOn.zipIdx ?_ s.nextCandidate
    exact ((List.perm_insertionSort _ proposals).map CandidateProposal.key).nodup_iff.mpr hunique
  have hupdate : ∀ (c : Candidate) (p : CandidateProposal × Nat),
      (if c.status = .pending then { c with score := p.1.score } else c).id = c.id ∧
        (if c.status = .pending then { c with score := p.1.score } else c).key = c.key := by
    intro c p
    split <;> exact ⟨rfl, rfl⟩
  obtain ⟨hids, hlt⟩ := @Table.upsert_fresh _ _ _ Candidate.key s.candidates CandidateProposal
    Candidate.id (fun p => p.1.key)
    (fun p => ⟨p.2, p.1.itemId, p.1.productId, p.1.method, p.1.score, .pending, now, none, none⟩)
    (fun old p => if old.status = .pending then { old with score := p.1.score } else old)
    ordered s.nextCandidate (fun _ => rfl) (fun a b => (hupdate a b).1) h.ids h.ids_lt
  refine h.withCandidates hids hlt (Table.upsert_unique (fun _ => rfl)
    (fun a b => (hupdate a b).2) h.keys hin) fun c hc => ?_
  rcases Table.mem_upsert hc with ⟨hold, -⟩ | ⟨old, hold, p, -, -, rfl⟩ | ⟨p, hp, rfl⟩
  · exact .inl ⟨c, hold, rfl, rfl, fun _ => rfl⟩
  · refine .inl ⟨old, hold, ((hupdate old p).2).symm, ?_⟩
    split
    · rename_i hpending
      exact ⟨rfl, fun hne => absurd hpending hne⟩
    · exact ⟨rfl, fun _ => rfl⟩
  · have hmem : p.1 ∈ proposals :=
      (List.mem_insertionSort _).mp (List.fst_mem_of_mem_zipIdx hp)
    exact .inr (hadmissible p.1 hmem _ rfl rfl rfl)

/-- A page keeps the invariant. -/
theorem ReviewInvariant.generate {s : ReviewState} (h : ReviewInvariant s) (scoring : Scoring)
    (request : GenerationRequest) (now : Time) :
    ReviewInvariant (generateCandidates scoring request now s).1 := by
  rcases generateCandidates_cases scoring request now s with heq | heq
  · rw [heq]
    exact h
  · rw [heq]
    have hisolates := isolates_bootstrapSubjects now request h.represented
    have hgrown := h.grow (tablesGrow_of_isolates h hisolates)
    have hids : Table.UniqueOn RetailerItem.id (pageOf request s.tables) :=
      ((List.take_sublist _ _).map RetailerItem.id).nodup
        (uniqueOn_take_sorted h.represented.items.ids)
    refine hgrown.writeCandidates (uniqueOn_proposals hids) fun p hp c hpending hitem hproduct => ?_
    obtain ⟨item, hi, hp⟩ := List.mem_flatMap.mp hp
    obtain ⟨hpitem, hactive, m, hm, hne⟩ := mem_proposalsOf hp
    have hin := (mem_selectSubjects (List.mem_of_mem_take hi)).1
    have hitems : item ∈ (bootstrapSubjects now (pageOf request s.tables) s).tables.items := by
      rw [hisolates.items]
      exact hin
    refine ⟨hpending, ⟨item.key, ?_⟩, hproduct ▸ hactive.1, hproduct ▸ hactive.2,
      fun m' hm' hm'item _ heq => ?_⟩
    · rw [hitem, hpitem]
      exact exists_itemIdOf hisolates.represented.items hitems
    · -- The item has one match, and the proposal avoids its product.
      have hfound := hisolates.represented.matchOf_of_mem hm'
      rw [hm'item, hitem, hpitem] at hfound
      cases hm.symm.trans hfound
      exact hne (hproduct ▸ heq.symm)

/-! ## Decisions -/

theorem moveRetailerIdentifier_key {item : RetailerItem} {isolated target : ProductId} {now : Time}
    {identifiers : List ProductIdentifier} {i : ProductIdentifier} (hi : i ∈ identifiers)
    (hmoves : i.productId = isolated ∧ i.key = retailerIdentifierKey item.key) :
    moveRetailerIdentifier item isolated target now identifiers = identifiers.map fun i =>
      if i.productId = isolated ∧ i.key = retailerIdentifierKey item.key then
        { i with
          productId := target
          isValidated := true
          validationMethod := .operatorReview
          evidenceFileId := none
          evidenceRetailerCount := none }
      else i := by
  rw [moveRetailerIdentifier]
  exact if_pos ⟨i, hi, hmoves⟩

section Acceptance

variable {t : Tables} {item : RetailerItem} {existing : ConfirmedMatch} {target : ProductId}
  {reviewedBy : String} {now : Time}

/-- The reviewed match in place of the isolated one. -/
theorem mem_confirmReviewed (h : Represented t) (hmatch : matchOf t item.id = some existing)
    (hisolated : IsIsolated existing) {m : ConfirmedMatch} :
    m ∈ confirmReviewed item existing.productId target reviewedBy now t.confirmedMatches ↔
      (m ∈ t.confirmedMatches ∧ m.itemId ≠ item.id) ∨
        m = ⟨item.id, target, .manualReview, none, now, reviewedBy⟩ := by
  have hexisting := Table.mem_of_lookup hmatch
  have hid : existing.itemId = item.id := Table.key_of_lookup hmatch
  constructor
  · intro hm
    obtain ⟨old, hold, rfl⟩ := List.mem_map.mp hm
    split
    · rename_i hcond
      rw [hcond.1]
      exact .inr rfl
    · rename_i hcond
      refine .inl ⟨hold, fun hold' => hcond ⟨hold', ?_⟩⟩
      have hsame : old = existing :=
        Option.some.inj ((h.matchOf_of_mem hold).symm.trans (hold' ▸ hmatch))
      rw [hsame]
      exact ⟨rfl, hisolated⟩
  · rintro (⟨hm, hne⟩ | rfl)
    · exact List.mem_map.mpr ⟨m, hm, if_neg fun hcond => hne hcond.1⟩
    · refine List.mem_map.mpr ⟨existing, hexisting, ?_⟩
      rw [if_pos ⟨hid, rfl, hisolated⟩, hid]

/-- The tables of an acceptance are represented. -/
theorem Represented.accepted (h : Represented t) (hitem : item ∈ t.items)
    (hmatch : matchOf t item.id = some existing) (hisolated : IsIsolated existing)
    (htarget : IsProduct t target) :
    Represented { t with
      confirmedMatches := confirmReviewed item existing.productId target reviewedBy now
        t.confirmedMatches
      identifiers := moveRetailerIdentifier item existing.productId target now t.identifiers } := by
  have hexisting := Table.mem_of_lookup hmatch
  have hid : existing.itemId = item.id := Table.key_of_lookup hmatch
  have hk : itemIdOf t item.key = some item.id := exists_itemIdOf h.items hitem
  obtain ⟨own, hown, hownKey, hownProduct⟩ := h.identified existing hexisting
    (isAutomatic_of_isIsolated hisolated) item.key (hid ▸ hk)
  rw [moveRetailerIdentifier_key hown ⟨hownProduct, hownKey⟩]
  have hkey : ∀ i : ProductIdentifier, (if i.productId = existing.productId ∧
      i.key = retailerIdentifierKey item.key then
        { i with
          productId := target
          isValidated := true
          validationMethod := .operatorReview
          evidenceFileId := none
          evidenceRetailerCount := none }
      else i).key = i.key := by
    intro i
    split <;> rfl
  refine ⟨h.items, h.products_lt, h.grouped_product, fun i hi hkind => ?_, h.conflict_grouped,
    h.conflict_item, ?_, fun m hm => ?_, fun m hm => ?_, fun m hm => ?_, ?_,
    fun m hm hauto k hmk => ?_, fun i hi hkind => ?_⟩
  · obtain ⟨old, hold, rfl⟩ := List.mem_map.mp hi
    split at hkind
    · rename_i hcond
      have hretailer : old.kind = .retailerItem := congrArg Prod.fst hcond.2
      exact absurd (hretailer.symm.trans hkind) (by decide)
    · rename_i hcond
      rw [if_neg hcond]
      exact h.gtin_grouped old hold hkind
  · show ((List.map _ t.confirmedMatches).map ConfirmedMatch.itemId).Nodup
    rw [List.map_map]
    refine (List.map_congr_left fun m _ => ?_) ▸ h.matches_unique
    show m.itemId = ConfirmedMatch.itemId (if _ then _ else m)
    split <;> rfl
  · rcases (mem_confirmReviewed h hmatch hisolated).mp hm with ⟨hold, -⟩ | rfl
    · exact h.matched_item m hold
    · exact ⟨item.key, hk⟩
  · rcases (mem_confirmReviewed h hmatch hisolated).mp hm with ⟨hold, -⟩ | rfl
    · exact h.matched_product m hold
    · exact htarget
  · rcases (mem_confirmReviewed h hmatch hisolated).mp hm with ⟨hold, -⟩ | rfl
    · exact h.decided m hold
    · exact .inr (.inr rfl)
  · show ((List.map _ t.identifiers).map ProductIdentifier.key).Nodup
    rw [List.map_map]
    exact (List.map_congr_left fun i _ => (hkey i).symm) ▸ h.identifiers_unique
  · rcases (mem_confirmReviewed h hmatch hisolated).mp hm with ⟨hold, hne⟩ | rfl
    · obtain ⟨i, hi, hik, hip⟩ := h.identified m hold hauto k hmk
      refine ⟨i, List.mem_map.mpr ⟨i, hi, if_neg fun hcond => hne ?_⟩, hik, hip⟩
      obtain rfl := retailerIdentifierKey_injective (hik.symm.trans hcond.2)
      exact Option.some.inj (hmk.symm.trans hk)
    · obtain rfl : k = item.key := h.items.idAt_injective hmk hk
      refine ⟨_, List.mem_map.mpr ⟨own, hown, rfl⟩, (hkey own).trans hownKey, ?_⟩
      rw [if_pos ⟨hownProduct, hownKey⟩]
  · obtain ⟨old, hold, rfl⟩ := List.mem_map.mp hi
    have hkind' : old.kind = .retailerItem := (congrArg Prod.fst (hkey old)).symm.trans hkind
    obtain ⟨m, hm, hauto, k, hmk, hik⟩ := h.owned old hold hkind'
    by_cases hmi : m.itemId = item.id
    · exact ⟨_, (mem_confirmReviewed h hmatch hisolated).mpr (.inr rfl),
        isAutomatic_of_manual rfl, k, hmi ▸ hmk, (hkey old).trans hik⟩
    · exact ⟨m, (mem_confirmReviewed h hmatch hisolated).mpr (.inl ⟨hm, hmi⟩), hauto, k, hmk,
        (hkey old).trans hik⟩

end Acceptance

/-- Closing pending candidates under statuses other than `accepted` keeps the invariant. -/
theorem ReviewInvariant.closed {s : ReviewState} (h : ReviewInvariant s)
    (closes : Candidate → Prop) [DecidablePred closes] (status : CandidateStatus)
    (reviewedBy : String) (now : Time) (hpending : status ≠ .pending) (haccepted : status ≠ .accepted) :
    ReviewInvariant { s with
      candidates := s.candidates.map fun c =>
        if closes c then c.close status reviewedBy now else c } := by
  have hmap : ∀ {κ : Type} (f : Candidate → κ),
      (∀ c, f (if closes c then c.close status reviewedBy now else c) = f c) →
      (s.candidates.map fun c => if closes c then c.close status reviewedBy now else c).map f =
        s.candidates.map f := by
    intro κ f hf
    rw [List.map_map]
    exact List.map_congr_left fun c _ => hf c
  have hid : ∀ c : Candidate, (if closes c then c.close status reviewedBy now else c).id = c.id := by
    intro c
    split <;> rfl
  have hkey : ∀ c : Candidate,
      (if closes c then c.close status reviewedBy now else c).key = c.key := by
    intro c
    split <;> rfl
  have hold : ∀ c ∈ s.candidates.map fun c => if closes c then c.close status reviewedBy now else c,
      c ∈ s.candidates ∨ c.status = status ∧ ∃ old ∈ s.candidates, old.key = c.key := by
    intro c hc
    obtain ⟨old, hin, rfl⟩ := List.mem_map.mp hc
    split
    · exact .inr ⟨rfl, old, hin, rfl⟩
    · exact .inl hin
  have hkept : ∀ c ∈ s.candidates.map fun c => if closes c then c.close status reviewedBy now else c,
      c.status = .accepted → c ∈ s.candidates := by
    intro c hc ha
    rcases hold c hc with hin | ⟨hs, -⟩
    · exact hin
    · exact absurd (hs.symm.trans ha) haccepted
  have hopen : ∀ c ∈ s.candidates.map fun c => if closes c then c.close status reviewedBy now else c,
      c.status = .pending → c ∈ s.candidates := by
    intro c hc hp
    rcases hold c hc with hin | ⟨hs, -⟩
    · exact hin
    · exact absurd (hs.symm.trans hp) hpending
  refine ⟨h.represented, h.retired, ?_, fun c hc => ?_, ?_, fun c hc => ?_, fun c hc => ?_,
    fun c hc hp => h.pending_active c (hopen c hc hp) hp,
    fun c hc hp => h.pending_elsewhere c (hopen c hc hp) hp,
    fun c hc ha => h.accepted_confirmed c (hkept c hc ha) ha,
    fun c hc c' hc' ha ha' => h.accepted_one c (hkept c hc ha) c' (hkept c' hc' ha') ha ha'⟩
  · rw [Table.UniqueOn, hmap Candidate.id hid]
    exact h.ids
  · obtain ⟨old, hin, rfl⟩ := List.mem_map.mp hc
    rw [hid]
    exact h.ids_lt old hin
  · rw [Table.UniqueOn, hmap Candidate.key hkey]
    exact h.keys
  · obtain ⟨old, hin, rfl⟩ := List.mem_map.mp hc
    rw [show ∀ c : Candidate, (if closes c then c.close status reviewedBy now else c).itemId =
      c.itemId from fun c => congrArg Prod.fst (hkey c)]
    exact h.candidate_item old hin
  · obtain ⟨old, hin, rfl⟩ := List.mem_map.mp hc
    rw [show ∀ c : Candidate, (if closes c then c.close status reviewedBy now else c).productId =
      c.productId from fun c => congrArg (fun k => k.2.1) (hkey c)]
    exact h.candidate_product old hin

end Makolet.Catalog
