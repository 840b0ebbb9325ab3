import Makolet.Catalog.Protocol

/-!
# Decisions of operators over whole runs

`accept_candidate` and `reject_candidate` keep the invariant of the catalog, and so does every
transaction. The main results are `catalog_stays_consistent`, `accept_refusals` and
`decisions_are_final`.
-/

set_option autoImplicit false

namespace Makolet.Catalog

open Makolet.Domain Makolet.Lib Makolet.Normalized

/-! ## Acceptance -/

section Settle

variable {id : CandidateId} {item : ItemId} {reviewedBy : String} {now : Time}
  {candidates : List Candidate} {c : Candidate}

/-- A settled candidate stands as it was, or was pending for the item and is closed now. -/
theorem mem_settleCandidates (h : c ∈ settleCandidates id item reviewedBy now candidates) :
    (c ∈ candidates ∧ ¬(c.itemId = item ∧ c.status = .pending)) ∨
      ∃ old ∈ candidates, old.itemId = item ∧ old.status = .pending ∧
        c = old.close (if old.id = id then .accepted else .superseded) reviewedBy now := by
  obtain ⟨old, hold, rfl⟩ := List.mem_map.mp h
  split
  · rename_i hcond
    exact .inr ⟨old, hold, hcond.1, hcond.2, rfl⟩
  · rename_i hcond
    exact .inl ⟨hold, hcond⟩

theorem settleCandidates_map {κ : Type} (f : Candidate → κ)
    (hf : ∀ (status : CandidateStatus) (c : Candidate), f (c.close status reviewedBy now) = f c) :
    (settleCandidates id item reviewedBy now candidates).map f = candidates.map f := by
  rw [settleCandidates, List.map_map]
  refine List.map_congr_left fun c _ => ?_
  show f (if c.itemId = item ∧ c.status = .pending then _ else c) = f c
  split
  · exact hf _ c
  · rfl

end Settle

/-- Retiring a product without a match and without a pending candidate. -/
theorem ReviewInvariant.retire {s : ReviewState} {product : ProductId} (h : ReviewInvariant s)
    (hproduct : IsProduct s.tables product) (hungrouped : ¬ IsGrouped s.tables product)
    (hunmatched : ∀ m ∈ s.tables.confirmedMatches, m.productId ≠ product)
    (hclosed : ∀ c ∈ s.candidates, c.status = .pending → c.productId ≠ product) :
    ReviewInvariant { s with retired := s.retired ++ [product] } := by
  refine ⟨h.represented, fun p hp => ?_, h.ids, h.ids_lt, h.keys, h.candidate_item,
    h.candidate_product, fun c hc hpending hretired => ?_, h.pending_elsewhere,
    h.accepted_confirmed, h.accepted_one⟩
  · rcases List.mem_append.mp hp with hold | hnew
    · exact h.retired p hold
    · rw [List.mem_singleton.mp hnew]
      exact ⟨hproduct, hungrouped, hunmatched⟩
  · rcases List.mem_append.mp hretired with hold | hnew
    · exact h.pending_active c hc hpending hold
    · exact hclosed c hc hpending (List.mem_singleton.mp hnew)

/-- The last statements of an acceptance: the isolated product is retired once nothing is left on
it. -/
theorem ReviewInvariant.retireIsolated {s : ReviewState} {isolated : ProductId}
    {reviewedBy : String} {now : Time} (h : ReviewInvariant s)
    (hungrouped : ¬ IsGrouped s.tables isolated) :
    ReviewInvariant (retireIsolated isolated reviewedBy now s) := by
  unfold Catalog.retireIsolated
  split
  · rename_i hcond
    have hclosed := h.closed (fun c => c.productId = isolated ∧ c.status = .pending) .superseded
      reviewedBy now (by decide) (by decide)
    refine hclosed.retire hcond.1.1 hungrouped hcond.2 fun c hc hpending => ?_
    obtain ⟨old, -, rfl⟩ := List.mem_map.mp hc
    split at hpending
    · cases hpending
    · rename_i hnot
      rw [if_neg hnot]
      exact fun heq => hnot ⟨heq, hpending⟩
  · exact h

section Accept

variable {s s' : ReviewState} {id : CandidateId} {reviewedBy : String} {now : Time}

/-- The statements of an acceptance before the retirement. -/
theorem ReviewInvariant.settled {candidate : Candidate} {item : RetailerItem}
    {existing : ConfirmedMatch} (h : ReviewInvariant s) (reviewedBy : String) (now : Time)
    (hcandidate : candidate ∈ s.candidates)
    (hitem : item ∈ s.tables.items) (hid : item.id = candidate.itemId)
    (hmatch : matchOf s.tables item.id = some existing) (hisolated : IsIsolated existing)
    (hactive : s.IsActive candidate.productId) :
    ReviewInvariant { s with
      tables := { s.tables with
        confirmedMatches := confirmReviewed item existing.productId candidate.productId reviewedBy
          now s.tables.confirmedMatches
        identifiers := moveRetailerIdentifier item existing.productId candidate.productId now
          s.tables.identifiers }
      candidates := settleCandidates candidate.id item.id reviewedBy now s.candidates } := by
  have hmem : ∀ m : ConfirmedMatch, m ∈ confirmReviewed item existing.productId
      candidate.productId reviewedBy now s.tables.confirmedMatches ↔
      (m ∈ s.tables.confirmedMatches ∧ m.itemId ≠ item.id) ∨
        m = ⟨item.id, candidate.productId, .manualReview, none, now, reviewedBy⟩ := fun m =>
    mem_confirmReviewed h.represented hmatch hisolated
  -- No candidate of the item has been accepted: its match would be a reviewed one.
  have hnone : ∀ c ∈ s.candidates, c.status = .accepted → c.itemId ≠ item.id := by
    intro c hc haccepted hci
    obtain ⟨m, hm, hmi, -, hmethod, -⟩ := h.accepted_confirmed c hc haccepted
    have hfound := h.represented.matchOf_of_mem hm
    rw [hmi, hci, hmatch, Option.some.injEq] at hfound
    rw [← hfound, hisolated.1] at hmethod
    cases hmethod
  have hopen : ∀ c ∈ settleCandidates candidate.id item.id reviewedBy now s.candidates,
      c.status = .pending → c ∈ s.candidates := by
    intro c hc hpending
    rcases mem_settleCandidates hc with ⟨hold, -⟩ | ⟨old, -, -, -, rfl⟩
    · exact hold
    · rw [show (Candidate.close _ reviewedBy now old).status = _ from rfl] at hpending
      split at hpending <;> cases hpending
  have haccepted : ∀ c ∈ settleCandidates candidate.id item.id reviewedBy now s.candidates,
      c.status = .accepted → (c ∈ s.candidates ∧ c.itemId ≠ item.id) ∨
        c = candidate.close .accepted reviewedBy now := by
    intro c hc ha
    rcases mem_settleCandidates hc with ⟨hold, -⟩ | ⟨old, hold, -, -, rfl⟩
    · exact .inl ⟨hold, hnone c hold ha⟩
    · rw [show (Candidate.close _ reviewedBy now old).status = _ from rfl] at ha
      split at ha
      · rename_i holdid
        have hsame : old = candidate := List.inj_on_of_nodup_map h.ids hold hcandidate holdid
        rw [if_pos holdid, hsame]
        exact .inr rfl
      · cases ha
  have hkeys : ∀ {κ : Type} (f : Candidate → κ),
      (∀ (status : CandidateStatus) (c : Candidate), f (c.close status reviewedBy now) = f c) →
      (settleCandidates candidate.id item.id reviewedBy now s.candidates).map f =
        s.candidates.map f := fun f hf => settleCandidates_map f hf
  have hsame : ∀ {κ : Type} (f : Candidate → κ),
      (∀ (status : CandidateStatus) (c : Candidate), f (c.close status reviewedBy now) = f c) →
      ∀ c ∈ settleCandidates candidate.id item.id reviewedBy now s.candidates,
        ∃ old ∈ s.candidates, f old = f c := by
    intro κ f hf c hc
    have hfc := List.mem_map_of_mem (f := f) hc
    rw [hkeys f hf] at hfc
    exact List.mem_map.mp hfc
  refine ⟨h.represented.accepted hitem hmatch hisolated hactive.1, fun p hp => ?_, ?_,
    fun c hc => ?_, ?_, fun c hc => ?_, fun c hc => ?_,
    fun c hc hpending => h.pending_active c (hopen c hc hpending) hpending,
    fun c hc hpending m hm hmi hmisolated => ?_, fun c hc ha => ?_, fun c hc c' hc' ha ha' hcc => ?_⟩
  · obtain ⟨hproduct, hungrouped, hunmatched⟩ := h.retired p hp
    refine ⟨hproduct, hungrouped, fun m hm hmp => ?_⟩
    rcases (hmem m).mp hm with ⟨hold, -⟩ | rfl
    · exact hunmatched m hold hmp
    · have hcp : candidate.productId = p := hmp
      exact hactive.2 (hcp ▸ hp)
  · rw [Table.UniqueOn, hkeys Candidate.id fun _ _ => rfl]
    exact h.ids
  · obtain ⟨old, hold, heq⟩ := hsame Candidate.id (fun _ _ => rfl) c hc
    exact heq ▸ h.ids_lt old hold
  · rw [Table.UniqueOn, hkeys Candidate.key fun _ _ => rfl]
    exact h.keys
  · obtain ⟨old, hold, heq⟩ := hsame Candidate.itemId (fun _ _ => rfl) c hc
    exact heq ▸ h.candidate_item old hold
  · obtain ⟨old, hold, heq⟩ := hsame Candidate.productId (fun _ _ => rfl) c hc
    exact heq ▸ h.candidate_product old hold
  · rcases (hmem m).mp hm with ⟨hold, -⟩ | rfl
    · exact h.pending_elsewhere c (hopen c hc hpending) hpending m hold hmi hmisolated
    · cases hmisolated.1
  · rcases haccepted c hc ha with ⟨hold, hne⟩ | rfl
    · obtain ⟨m, hm, hmi, hrest⟩ := h.accepted_confirmed c hold ha
      exact ⟨m, (hmem m).mpr (.inl ⟨hm, hmi ▸ hne⟩), hmi, hrest⟩
    · exact ⟨_, (hmem _).mpr (.inr rfl), hid, rfl, rfl, rfl⟩
  · rcases haccepted c hc ha with ⟨hold, hne⟩ | rfl
    · rcases haccepted c' hc' ha' with ⟨hold', -⟩ | rfl
      · exact h.accepted_one c hold c' hold' ha ha' hcc
      · exact absurd (hcc.trans hid.symm) hne
    · rcases haccepted c' hc' ha' with ⟨-, hne⟩ | rfl
      · exact absurd (hcc.symm.trans hid.symm) hne
      · rfl

theorem ReviewInvariant.accept (h : ReviewInvariant s)
    (hstep : acceptCandidate id reviewedBy now s = .ok s') : ReviewInvariant s' := by
  obtain ⟨candidate, item, existing, hcandidate, hitem, -, hmatch, hisolated, -, hactive, -, rfl⟩ :=
    acceptCandidate_eq_ok.mp hstep
  have hsettled := h.settled reviewedBy now (Table.mem_of_lookup hcandidate)
    (Table.mem_of_lookup hitem) (Table.key_of_lookup hitem) hmatch hisolated hactive
  refine hsettled.retireIsolated ?_
  rcases h.represented.decided existing (Table.mem_of_lookup hmatch) with
    ⟨hauto, -⟩ | ⟨-, hungrouped⟩ | hmanual
  · rw [isAutomatic_of_isIsolated hisolated] at hauto
    cases hauto
  · exact hungrouped
  · cases hmanual.symm.trans hisolated.1

theorem ReviewInvariant.reject (h : ReviewInvariant s)
    (hstep : rejectCandidate id reviewedBy now s = .ok s') : ReviewInvariant s' := by
  obtain ⟨-, -, -, -, -, rfl⟩ := rejectCandidate_eq_ok.mp hstep
  exact h.closed (fun c => c.id = id ∧ c.status = .pending) .rejected reviewedBy now (by decide)
    (by decide)

end Accept

/-! ## Every transaction -/

section Runs

variable {scoring : Scoring} {s s' : ReviewState}

/-- What a transaction of the catalog is. -/
theorem review_cases {e : ReviewEvent} (h : (reviewSystem scoring).next s e = some s') :
    (∃ r t summary, e = .apply r ∧ apply r s.tables = .ok (t, summary) ∧ s' = recordApply s t) ∨
    (∃ f cursor now, e = .bootstrap f cursor now ∧
      s' = { s with tables := bootstrapSource now f cursor s.tables }) ∨
    (∃ request now, e = .generate request now ∧
      s' = (generateCandidates scoring request now s).1) ∨
    (∃ id reviewedBy now, e = .accept id reviewedBy now ∧
      acceptCandidate id reviewedBy now s = .ok s') ∨
    (∃ id reviewedBy now, e = .reject id reviewedBy now ∧
      rejectCandidate id reviewedBy now s = .ok s') := by
  cases e with
  | apply r =>
    obtain ⟨⟨t, summary⟩, happly, rfl⟩ := Option.map_eq_some_iff.mp h
    exact .inl ⟨r, t, summary, rfl, toOption_eq_some.mp happly, rfl⟩
  | bootstrap f cursor now =>
    exact .inr (.inl ⟨f, cursor, now, rfl, (Option.some.inj h).symm⟩)
  | generate request now =>
    exact .inr (.inr (.inl ⟨request, now, rfl, (Option.some.inj h).symm⟩))
  | accept id reviewedBy now =>
    exact .inr (.inr (.inr (.inl ⟨id, reviewedBy, now, rfl, toOption_eq_some.mp h⟩)))
  | reject id reviewedBy now =>
    exact .inr (.inr (.inr (.inr ⟨id, reviewedBy, now, rfl, toOption_eq_some.mp h⟩)))

theorem review_invariant (hs : Reach (reviewSystem scoring) Any s) : ReviewInvariant s := by
  refine hs.invariant (P := ReviewInvariant) ?_ ?_
  · intro s hinit
    rw [show s = ReviewState.empty from hinit]
    exact .empty
  · intro s e s' h _ hnext
    obtain ⟨r, t, summary, -, happly, rfl⟩ | ⟨f, cursor, now, -, rfl⟩ | ⟨request, now, -, rfl⟩ |
      ⟨id, reviewedBy, now, -, haccept⟩ | ⟨id, reviewedBy, now, -, hreject⟩ := review_cases hnext
    · exact h.recordApply (keepsCatalog_apply h.represented happly)
    · exact h.grow (tablesGrow_of_isolates h (isolates_bootstrapSource h.represented))
    · exact h.generate scoring request now
    · exact h.accept haccept
    · exact h.reject hreject

/-- In every state that the transactions reach: matches and pending candidates are on active
products, a pending candidate is not on the product that represents its item, an accepted candidate
is the match of its item, and the identifier of an isolated or reviewed item is on the product of
its match. -/
theorem catalog_stays_consistent (hs : Reach (reviewSystem scoring) Any s) :
    (∀ m ∈ s.tables.confirmedMatches, s.IsActive m.productId) ∧
      (∀ c ∈ s.candidates, c.status = .pending → s.IsActive c.productId ∧
        ∀ m, matchOf s.tables c.itemId = some m → IsIsolated m → m.productId ≠ c.productId) ∧
      (∀ c ∈ s.candidates, c.status = .accepted → ∃ m, matchOf s.tables c.itemId = some m ∧
        m.productId = c.productId ∧ m.method = .manualReview ∧ c.reviewedBy = some m.confirmedBy) ∧
      ∀ item ∈ s.tables.items, ∀ m, matchOf s.tables item.id = some m → m.isAutomatic = false →
        ∃ i, Table.lookup ProductIdentifier.key s.tables.identifiers
          (retailerIdentifierKey item.key) = some i ∧ i.productId = m.productId := by
  have h := review_invariant hs
  refine ⟨fun m hm => ⟨h.represented.matched_product m hm, fun hretired =>
      (h.retired _ hretired).2.2 m hm rfl⟩,
    fun c hc hpending => ⟨⟨h.candidate_product c hc, h.pending_active c hc hpending⟩,
      fun m hm hisolated => h.pending_elsewhere c hc hpending m (Table.mem_of_lookup hm)
        (Table.key_of_lookup hm) hisolated⟩, fun c hc haccepted => ?_,
    fun item hitem m hm hauto => ?_⟩
  · obtain ⟨m, hm, hmi, hproduct, hmethod, hactor⟩ := h.accepted_confirmed c hc haccepted
    exact ⟨m, hmi ▸ h.represented.matchOf_of_mem hm, hproduct, hmethod, hactor⟩
  · have hk : itemIdOf s.tables item.key = some m.itemId := by
      rw [show m.itemId = item.id from Table.key_of_lookup hm]
      exact exists_itemIdOf h.represented.items hitem
    obtain ⟨i, hi, hkey, hproduct⟩ := h.represented.identified m (Table.mem_of_lookup hm) hauto _ hk
    exact ⟨i, hkey ▸ Table.lookup_of_mem h.represented.identifiers_unique hi, hproduct⟩

/-- Every two names are as near as any others, and every candidate scores nine tenths. -/
def sampleScoring : Scoring := ⟨fun _ _ => 0, fun _ _ _ => some (.structuredCandidate, 9000000)⟩

/-- A price file with two items, and one page of candidates between them. -/
def sampleReviewEvents : List ReviewEvent :=
  [.apply { samplePriceRequest 1 100 200 "aa" with
      staging := { Staging.empty with
        prices := [sampleRecord "17" "4001" 500, sampleRecord "17" "4002" 600] } },
    .generate ⟨none, 50, 50⟩ 300]

def sampleReview : ReviewState :=
  (reviewSystem sampleScoring).after ReviewState.empty sampleReviewEvents

theorem sampleReview_reached : Reach (reviewSystem sampleScoring) Any sampleReview :=
  reach_after sampleReviewEvents rfl (by decide +kernel)

theorem catalog_stays_consistent_sample :
    (sampleReview.tables.confirmedMatches.all fun m =>
      decide (sampleReview.IsActive m.productId)) = true :=
  List.all_eq_true.mpr fun m hm =>
    decide_eq_true ((catalog_stays_consistent sampleReview_reached).1 m hm)

/-- An operator can accept exactly the pending candidates of items that have an isolated match; of
the refusals of `accept_candidate` only the first three can happen. -/
theorem accept_refusals (hs : Reach (reviewSystem scoring) Any s) (id : CandidateId)
    (reviewedBy : String) (now : Time) :
    ((∃ s', acceptCandidate id reviewedBy now s = .ok s') ↔
      ∃ c m, Table.lookup Candidate.id s.candidates id = some c ∧ c.status = .pending ∧
        matchOf s.tables c.itemId = some m ∧ IsIsolated m) ∧
    ∀ failure, acceptCandidate id reviewedBy now s = .error failure →
      failure ∈ [⟨.notFound, "Catalog match candidate was not found", 0⟩,
        conflict "Catalog match candidate is no longer pending",
        conflict "Candidate cannot replace a manual or non-isolated catalog match"] := by
  have h := review_invariant hs
  -- With the three checks passed, the invariant passes the others.
  have hrest : ∀ {c : Candidate} {item : RetailerItem} {m : ConfirmedMatch},
      Table.lookup Candidate.id s.candidates id = some c →
      Table.lookup RetailerItem.id s.tables.items c.itemId = some item → c.status = .pending →
      matchOf s.tables item.id = some m → IsIsolated m →
      m.productId ≠ c.productId ∧ s.IsActive c.productId ∧
        ∀ row ∈ Table.lookup ProductIdentifier.key s.tables.identifiers
            (retailerIdentifierKey item.key), row.productId ∈ [m.productId, c.productId] := by
    intro c item m hc hitem hpending hm hisolated
    obtain ⟨-, hcandidates, -, hidentifiers⟩ := catalog_stays_consistent hs
    have hid : item.id = c.itemId := Table.key_of_lookup hitem
    obtain ⟨hactive, helsewhere⟩ := hcandidates c (Table.mem_of_lookup hc) hpending
    refine ⟨helsewhere m (hid ▸ hm) hisolated, hactive, fun row hrow => ?_⟩
    obtain ⟨i, hi, hproduct⟩ := hidentifiers item (Table.mem_of_lookup hitem) m hm
      (isAutomatic_of_isIsolated hisolated)
    cases hi.symm.trans hrow
    rw [hproduct]
    exact List.mem_cons_self
  have hjoined : ∀ {c : Candidate}, Table.lookup Candidate.id s.candidates id = some c →
      ∃ item, Table.lookup RetailerItem.id s.tables.items c.itemId = some item := by
    intro c hc
    obtain ⟨k, hk⟩ := h.candidate_item c (Table.mem_of_lookup hc)
    obtain ⟨item, hitem, hid⟩ := Option.map_eq_some_iff.mp hk
    exact ⟨item, hid ▸ Table.lookup_of_mem h.represented.items.ids (Table.mem_of_lookup hitem)⟩
  constructor
  · constructor
    · rintro ⟨s', hs'⟩
      obtain ⟨c, item, m, hc, hitem, hpending, hm, hisolated, -⟩ := acceptCandidate_eq_ok.mp hs'
      have hid : item.id = c.itemId := Table.key_of_lookup hitem
      exact ⟨c, m, hc, hpending, hid ▸ hm, hisolated⟩
    · rintro ⟨c, m, hc, hpending, hm, hisolated⟩
      obtain ⟨item, hitem⟩ := hjoined hc
      have hid : item.id = c.itemId := Table.key_of_lookup hitem
      rw [← hid] at hm
      obtain ⟨hne, hactive, hmove⟩ := hrest hc hitem hpending hm hisolated
      exact ⟨writeAcceptance c item m.productId reviewedBy now s, acceptCandidate_eq_ok.mpr
        ⟨c, item, m, hc, hitem, hpending, hm, hisolated, hne, hactive, hmove, rfl⟩⟩
  · intro failure hfailed
    rcases bind_eq_error.mp hfailed with hlocked | ⟨⟨c, item⟩, hlocked, herror⟩
    · unfold lockedCandidate at hlocked
      dsimp only at hlocked
      split at hlocked
      · cases hlocked
        exact List.mem_cons_self
      · cases hlocked
    · obtain ⟨hc, hitem⟩ := lockedCandidate_eq_ok.mp hlocked
      rcases bind_eq_error.mp herror with hpending | ⟨_, hpending, herror⟩
      · unfold requirePending require at hpending
        split at hpending
        · cases hpending
        · cases hpending
          exact List.mem_cons_of_mem _ List.mem_cons_self
      · rcases bind_eq_error.mp herror with hisolated | ⟨m, hisolated, -⟩
        · unfold requireIsolated at hisolated
          split at hisolated
          · cases hisolated
            exact List.mem_cons_of_mem _ (List.mem_cons_of_mem _ List.mem_cons_self)
          · cases hisolated
        · obtain ⟨hm, hisolated⟩ := requireIsolated_eq_ok.mp hisolated
          obtain ⟨hne, hactive, hmove⟩ := hrest hc hitem (require_eq_ok.mp hpending) hm hisolated
          have hok : acceptCandidate id reviewedBy now s =
              .ok (writeAcceptance c item m.productId reviewedBy now s) :=
            acceptCandidate_eq_ok.mpr ⟨c, item, m, hc, hitem, require_eq_ok.mp hpending, hm,
              hisolated, hne, hactive, hmove, rfl⟩
          cases hok.symm.trans hfailed

theorem accept_refusals_sample :
    ∃ s', acceptCandidate 0 "operator" 400 sampleReview = .ok s' := by
  refine (accept_refusals sampleReview_reached 0 "operator" 400).1.mpr ?_
  have hpending : ((Table.lookup Candidate.id sampleReview.candidates 0).any fun c =>
      decide (c.status = .pending) && (matchOf sampleReview.tables c.itemId).any fun m =>
        decide (IsIsolated m)) = true := by
    decide +kernel
  obtain ⟨c, hc, hcond⟩ := (Option.any_eq_true _ _).mp hpending
  rw [Bool.and_eq_true, decide_eq_true_eq] at hcond
  obtain ⟨m, hm, hisolated⟩ := (Option.any_eq_true _ _).mp hcond.2
  exact ⟨c, m, hc, hcond.1, hm, of_decide_eq_true hisolated⟩

/-! ## Finality -/

/-- What stands once it is decided. -/
structure Upholds (s s' : ReviewState) : Prop where
  candidates : ∀ c ∈ s.candidates, ∃ c' ∈ s'.candidates, c'.id = c.id ∧ c'.key = c.key ∧
    (c.status ≠ .pending → c' = c)
  reviewed : ∀ m ∈ s.tables.confirmedMatches, m.method = .manualReview →
    m ∈ s'.tables.confirmedMatches
  retired : ∀ p ∈ s.retired, p ∈ s'.retired

theorem Upholds.refl (s : ReviewState) : Upholds s s :=
  ⟨fun c hc => ⟨c, hc, rfl, rfl, fun _ => rfl⟩, fun _ hm _ => hm, fun _ hp => hp⟩

theorem Upholds.trans {s'' : ReviewState} (h : Upholds s s') (h' : Upholds s' s'') :
    Upholds s s'' := by
  refine ⟨fun c hc => ?_, fun m hm hmethod => h'.reviewed m (h.reviewed m hm hmethod) hmethod,
    fun p hp => h'.retired p (h.retired p hp)⟩
  obtain ⟨c₁, hc₁, hid₁, hkey₁, hsame₁⟩ := h.candidates c hc
  obtain ⟨c₂, hc₂, hid₂, hkey₂, hsame₂⟩ := h'.candidates c₁ hc₁
  refine ⟨c₂, hc₂, hid₂.trans hid₁, hkey₂.trans hkey₁, fun hdecided => ?_⟩
  obtain rfl := hsame₁ hdecided
  exact hsame₂ hdecided

/-- A candidate that a statement rewrites only while it is pending. -/
theorem exists_map_of_pending {candidates : List Candidate} {f : Candidate → Candidate}
    (hf : ∀ c, (f c).id = c.id ∧ (f c).key = c.key ∧ (c.status ≠ .pending → f c = c))
    {c : Candidate} (hc : c ∈ candidates) :
    ∃ c' ∈ candidates.map f, c'.id = c.id ∧ c'.key = c.key ∧ (c.status ≠ .pending → c' = c) :=
  ⟨f c, List.mem_map_of_mem hc, hf c⟩

theorem upholds_writeCandidates {now : Time} {proposals : List CandidateProposal} :
    Upholds s (writeCandidates now proposals s) := by
  refine ⟨fun c hc => ?_, fun _ hm _ => hm, fun _ hp => hp⟩
  refine ⟨_, List.mem_append_left _ (List.mem_map_of_mem hc), ?_⟩
  cases Table.lookup (fun p : CandidateProposal × Nat => p.1.key)
    ((proposals.insertionSort CandidateProposal.before).zipIdx s.nextCandidate) c.key with
  | none => exact ⟨rfl, rfl, fun _ => rfl⟩
  | some p =>
    show (if c.status = .pending then _ else c).id = c.id ∧
      (if c.status = .pending then _ else c).key = c.key ∧
        (_ → (if c.status = .pending then _ else c) = c)
    split
    · rename_i hpending
      exact ⟨rfl, rfl, fun hne => absurd hpending hne⟩
    · exact ⟨rfl, rfl, fun _ => rfl⟩

theorem upholds_retireIsolated {isolated : ProductId} {reviewedBy : String} {now : Time} :
    Upholds s (retireIsolated isolated reviewedBy now s) := by
  unfold retireIsolated
  split
  · refine ⟨fun c hc => exists_map_of_pending (fun c => ?_) hc, fun _ hm _ => hm,
      fun p hp => List.mem_append_left _ hp⟩
    split
    · rename_i hcond
      exact ⟨rfl, rfl, fun hne => absurd hcond.2 hne⟩
    · exact ⟨rfl, rfl, fun _ => rfl⟩
  · exact .refl s

theorem upholds_accept {id : CandidateId} {reviewedBy : String} {now : Time}
    (h : acceptCandidate id reviewedBy now s = .ok s') : Upholds s s' := by
  obtain ⟨candidate, item, existing, -, -, -, -, -, -, -, -, rfl⟩ := acceptCandidate_eq_ok.mp h
  have hsettled : Upholds s { s with
      tables := { s.tables with
        confirmedMatches := confirmReviewed item existing.productId candidate.productId reviewedBy
          now s.tables.confirmedMatches
        identifiers := moveRetailerIdentifier item existing.productId candidate.productId now
          s.tables.identifiers }
      candidates := settleCandidates candidate.id item.id reviewedBy now s.candidates } := by
    refine ⟨fun c hc => exists_map_of_pending (fun c => ?_) hc, fun m hm hmethod => ?_,
      fun _ hp => hp⟩
    · split
      · rename_i hcond
        exact ⟨rfl, rfl, fun hne => absurd hcond.2 hne⟩
      · exact ⟨rfl, rfl, fun _ => rfl⟩
    · refine List.mem_map.mpr ⟨m, hm, if_neg fun hcond => ?_⟩
      cases hmethod.symm.trans hcond.2.2.1
  exact hsettled.trans upholds_retireIsolated

theorem upholds_next {e : ReviewEvent} (h : ReviewInvariant s)
    (hnext : (reviewSystem scoring).next s e = some s') : Upholds s s' := by
  obtain ⟨r, t, summary, -, happly, rfl⟩ | ⟨f, cursor, now, -, rfl⟩ | ⟨request, now, -, rfl⟩ |
    ⟨id, reviewedBy, now, -, haccept⟩ | ⟨id, reviewedBy, now, -, hreject⟩ := review_cases hnext
  · have hkeeps := keepsCatalog_apply h.represented happly
    exact ⟨fun c hc => ⟨c, Table.subset_insertNew hc, rfl, rfl, fun _ => rfl⟩, fun m hm hmethod =>
      (hkeeps.matches_iff m (isAutomatic_of_manual hmethod)).mpr hm, fun _ hp => hp⟩
  · exact ⟨fun c hc => ⟨c, hc, rfl, rfl, fun _ => rfl⟩,
      fun m hm _ => (isolates_bootstrapSource h.represented).kept m hm, fun _ hp => hp⟩
  · rcases generateCandidates_cases scoring request now s with heq | heq
    · rw [heq]
      exact .refl s
    · rw [heq]
      have hrepresented : Upholds s (bootstrapSubjects now (pageOf request s.tables) s) :=
        ⟨fun c hc => ⟨c, hc, rfl, rfl, fun _ => rfl⟩,
          fun m hm _ => (isolates_bootstrapSubjects now request h.represented).kept m hm,
          fun _ hp => hp⟩
      exact hrepresented.trans upholds_writeCandidates
  · exact upholds_accept haccept
  · obtain ⟨-, -, -, -, -, rfl⟩ := rejectCandidate_eq_ok.mp hreject
    refine ⟨fun c hc => exists_map_of_pending (fun c => ?_) hc, fun _ hm _ => hm, fun _ hp => hp⟩
    split
    · rename_i hcond
      exact ⟨rfl, rfl, fun hne => absurd hcond.2 hne⟩
    · exact ⟨rfl, rfl, fun _ => rfl⟩

/-- Whatever happens afterwards, no candidate is lost, a decided one stays exactly as it is, a
reviewed match stays, and a retired product stays retired; and at most one candidate of an item is
ever accepted. -/
theorem decisions_are_final {events : List ReviewEvent} (hs : Reach (reviewSystem scoring) Any s)
    (hrun : (reviewSystem scoring).run s events = some s') :
    Upholds s s' ∧ ∀ c ∈ s.candidates, ∀ c' ∈ s'.candidates, c.status = .accepted →
      c'.status = .accepted → c.itemId = c'.itemId → c = c' := by
  have hupholds : ∀ (events : List ReviewEvent) (s : ReviewState),
      Reach (reviewSystem scoring) Any s → (reviewSystem scoring).run s events = some s' →
      Upholds s s' := by
    intro events
    induction events with
    | nil =>
      intro s _ hrun
      rw [System.run_nil, Option.some.injEq] at hrun
      exact hrun ▸ .refl s
    | cons e rest ih =>
      intro s hs hrun
      rw [System.run_cons, Option.bind_eq_some_iff] at hrun
      obtain ⟨m, hm, hrest⟩ := hrun
      exact (upholds_next (review_invariant hs) hm).trans (ih m (.step e hs trivial hm) hrest)
  have hfinal := hupholds events s hs hrun
  refine ⟨hfinal, fun c hc c' hc' ha ha' hitem => ?_⟩
  obtain ⟨c₁, hc₁, -, -, hsame⟩ := hfinal.candidates c hc
  obtain rfl := hsame (by rw [ha]; decide)
  exact (review_invariant (Reach.of_run hs hrun)).accepted_one c₁ hc₁ c' hc' ha ha' hitem

end Runs

theorem decisions_are_final_sample :
    Upholds sampleReview ((reviewSystem sampleScoring).after sampleReview
      [.accept 0 "operator" 400]) :=
  (decisions_are_final sampleReview_reached (System.run_after (by decide +kernel))).1

end Makolet.Catalog
