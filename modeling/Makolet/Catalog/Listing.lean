import Makolet.Catalog.Decisions
import Makolet.Lib.Ranges
import Makolet.Queries.CurrentPrices

/-!
# Pages of candidates and of items

`list_candidates` lists by score and id behind the place at which it reads its cursor again;
`generate_candidates` walks the items by id. Decisions and applies between two pages change neither
the score nor the id of a candidate, so an operator who decides while paging misses none; a page of
the generation scores pending candidates again, and may move them.
-/

set_option autoImplicit false

namespace Makolet.Catalog

open Makolet.Domain Makolet.Lib Makolet.Normalized
open Makolet.Queries (Page page)

/-! ## The list of candidates -/

/-- The filters of `list_candidates`. -/
structure ReviewFilter where
  status : CandidateStatus
  retailerId : Option RetailerId
  deriving DecidableEq, Repr

/-- The joins and the `WHERE` clause without the cursor. -/
def ReviewFilter.admits (f : ReviewFilter) (t : Tables) (c : Candidate) : Bool :=
  decide (c.status = f.status) &&
    ((Table.lookup RetailerItem.id t.items c.itemId).any fun item =>
      f.retailerId.all fun r => decide (item.retailerId = r)) &&
    t.products.any fun r => decide (r.id = c.productId)

/-- `ORDER BY candidate.score DESC, candidate.id`. -/
def Candidate.place (c : Candidate) : Natᵒᵈ ×ₗ CandidateId :=
  toLex (OrderDual.toDual c.score, c.id)

/-- The comparison with `cursor_row`. -/
def Candidate.ComesBehind (anchor c : Candidate) : Prop :=
  c.score < anchor.score ∨ c.score = anchor.score ∧ anchor.id < c.id

instance (anchor c : Candidate) : Decidable (anchor.ComesBehind c) :=
  inferInstanceAs (Decidable (_ ∨ _))

theorem comesBehind_iff (anchor c : Candidate) :
    anchor.ComesBehind c ↔ anchor.place < c.place := by
  rw [Candidate.ComesBehind, Candidate.place, Candidate.place, Prod.Lex.toLex_lt_toLex]
  simp only [OrderDual.toDual_lt_toDual, OrderDual.toDual_inj, eq_comm]

/-- The selected rows before the limit. -/
def candidatesBehind (f : ReviewFilter) (s : ReviewState) : Option CandidateId → List Candidate
  | none => orderedBy Candidate.place (s.candidates.filter (f.admits s.tables))
  | some cursor =>
    match Table.lookup Candidate.id s.candidates cursor with
    | none => []
    | some anchor => orderedBy Candidate.place
        (s.candidates.filter fun c => f.admits s.tables c && decide (anchor.ComesBehind c))

def maximumReviewPage : Nat := 200

/-- `list_candidates`. -/
def listCandidates (f : ReviewFilter) (limit : Nat) (cursor : Option CandidateId)
    (s : ReviewState) : Except Failure (Page Candidate) := do
  require (1 ≤ limit ∧ limit ≤ maximumReviewPage)
    ⟨.queryLimit, "limit must be between 1 and 200", 0⟩
  pure (page Candidate.id ((candidatesBehind f s cursor).take (limit + 1)) limit)

/-- What `_page` makes of the rows it is given one too many of. -/
theorem page_take {ρ : Type} (key : ρ → Nat) (rows : List ρ) (limit : Nat) :
    (page key (rows.take (limit + 1)) limit).items = rows.take limit ∧
      (page key (rows.take (limit + 1)) limit).nextCursor =
        if limit < rows.length then (rows.take limit).getLast?.map key else none := by
  have htake : (rows.take (limit + 1)).take limit = rows.take limit := by
    rw [List.take_take, Nat.min_eq_left (Nat.le_succ limit)]
  have hlength : limit < (rows.take (limit + 1)).length ↔ limit < rows.length := by
    rw [List.length_take]
    omega
  refine ⟨htake, ?_⟩
  simp only [page, htake, hlength]

/-- The place a cursor is read at, as a bound for the rows. -/
def readsAbove (s : ReviewState) (cursor : Option CandidateId) (k : Natᵒᵈ ×ₗ CandidateId) : Bool :=
  cursor.all fun id => (Table.lookup Candidate.id s.candidates id).any fun anchor =>
    decide (anchor.place < k)

section Listing

variable {f : ReviewFilter} {s : ReviewState} {limit : Nat} {cursor : Option CandidateId}
  {p : Page Candidate}

theorem nodup_places (h : Table.UniqueOn Candidate.id s.candidates) (keep : Candidate → Bool) :
    ((s.candidates.filter keep).map Candidate.place).Nodup := by
  have hids : ((s.candidates.filter keep).map Candidate.id).Nodup :=
    (List.filter_sublist.map Candidate.id).nodup h
  refine List.Nodup.of_map (fun place : Natᵒᵈ ×ₗ CandidateId => (ofLex place).2) ?_
  rwa [List.map_map]

theorem candidatesBehind_eq :
    candidatesBehind f s cursor = rangeOf Candidate.place
      (s.candidates.filter (f.admits s.tables)) (readsAbove s cursor) none := by
  rw [rangeOf]
  cases cursor with
  | none =>
    simp only [candidatesBehind, readsAbove, Option.all_none, Bool.and_true, List.filter_true]
  | some id =>
    rw [candidatesBehind]
    cases hanchor : Table.lookup Candidate.id s.candidates id with
    | none =>
      simp only [readsAbove, Option.all_some, hanchor, Option.any_none, Bool.false_and,
        List.filter_false]
      rfl
    | some anchor =>
      simp only [readsAbove, Option.all_some, hanchor, Option.any_some, Option.all_none,
        Bool.and_true, List.filter_filter]
      congr 1
      refine List.filter_congr fun c _ => ?_
      rw [Bool.and_comm, decide_eq_decide.mpr (comesBehind_iff anchor c)]

/-- A page is a range, whose cursor is its last row. -/
theorem listCandidates_ok (h : listCandidates f limit cursor s = .ok p)
    (hids : Table.UniqueOn Candidate.id s.candidates) :
    ∃ upper, p.items = rangeOf Candidate.place (s.candidates.filter (f.admits s.tables))
        (readsAbove s cursor) upper ∧
      (p.nextCursor = none → upper = none) ∧
      ∀ id, p.nextCursor = some id → ∃ last ∈ s.candidates, last.id = id ∧
        upper = some last.place ∧ readsAbove s cursor last.place = true := by
  obtain ⟨hlimit, h⟩ := require_bind_eq_ok.mp h
  cases pure_eq_ok.mp h
  obtain ⟨hitems, hnext⟩ := page_take Candidate.id (candidatesBehind f s cursor) limit
  obtain ⟨upper, htake, -, hupper, habove⟩ :=
    take_eq_rangeOf (nodup_places hids (f.admits s.tables)) (readsAbove s cursor) hlimit.1
  rw [← candidatesBehind_eq] at htake hupper
  refine ⟨upper, hitems.trans htake, fun hnone => ?_, fun id hid => ?_⟩
  · rw [hnext] at hnone
    rw [hupper]
    split
    · rename_i hmore
      rw [if_pos hmore, Option.map_eq_none_iff] at hnone
      rw [hnone, Option.map_none]
    · rfl
  · rw [hnext] at hid
    split at hid
    · rename_i hmore
      obtain ⟨last, hlast, rfl⟩ := Option.map_eq_some_iff.mp hid
      rw [if_pos hmore, hlast, Option.map_some] at hupper
      have hmem := List.mem_of_mem_take (List.mem_of_getLast? hlast)
      rw [candidatesBehind_eq] at hmem
      exact ⟨last, List.mem_of_mem_filter (mem_rangeOf.mp hmem).1, rfl, hupper,
        habove _ hupper⟩
    · cases hid

end Listing

/-! ## Paging while others decide -/

/-- Every candidate is still there, under its id and with its score. -/
def KeepsScores (s s' : ReviewState) : Prop :=
  ∀ c ∈ s.candidates, ∃ c' ∈ s'.candidates, c'.id = c.id ∧ c'.score = c.score

/-- A transaction that scores nothing again. -/
def ReviewEvent.KeepsScores : ReviewEvent → Prop
  | .generate _ _ => False
  | _ => True

section Between

variable {scoring : Scoring} {s s' : ReviewState}

theorem keepsScores_map {candidates : List Candidate} {f : Candidate → Candidate}
    (hf : ∀ c, (f c).id = c.id ∧ (f c).score = c.score) {c : Candidate} (hc : c ∈ candidates) :
    ∃ c' ∈ candidates.map f, c'.id = c.id ∧ c'.score = c.score :=
  ⟨f c, List.mem_map_of_mem hc, hf c⟩

theorem keepsScores_next {e : ReviewEvent} (he : e.KeepsScores)
    (hnext : (reviewSystem scoring).next s e = some s') : KeepsScores s s' := by
  obtain ⟨r, t, summary, rfl, -, rfl⟩ | ⟨f, cursor, now, rfl, rfl⟩ | ⟨request, now, rfl, -⟩ |
    ⟨id, reviewedBy, now, rfl, haccept⟩ | ⟨id, reviewedBy, now, rfl, hreject⟩ := review_cases hnext
  · exact fun c hc => ⟨c, Table.subset_insertNew hc, rfl, rfl⟩
  · exact fun c hc => ⟨c, hc, rfl, rfl⟩
  · exact he.elim
  · obtain ⟨candidate, item, existing, -, -, -, -, -, -, -, -, rfl⟩ :=
      acceptCandidate_eq_ok.mp haccept
    intro c hc
    have hsettled : ∃ c' ∈ settleCandidates candidate.id item.id reviewedBy now s.candidates,
        c'.id = c.id ∧ c'.score = c.score := by
      refine keepsScores_map (fun c => ?_) hc
      split <;> exact ⟨rfl, rfl⟩
    obtain ⟨c₁, hc₁, hid, hscore⟩ := hsettled
    unfold writeAcceptance retireIsolated
    split
    · obtain ⟨c₂, hc₂, hid₂, hscore₂⟩ := @keepsScores_map
        (settleCandidates candidate.id item.id reviewedBy now s.candidates)
        (fun c => if c.productId = existing.productId ∧ c.status = .pending then
          c.close .superseded reviewedBy now else c)
        (fun c => by split <;> exact ⟨rfl, rfl⟩) c₁ hc₁
      exact ⟨c₂, hc₂, hid₂.trans hid, hscore₂.trans hscore⟩
    · exact ⟨c₁, hc₁, hid, hscore⟩
  · obtain ⟨-, -, -, -, -, rfl⟩ := rejectCandidate_eq_ok.mp hreject
    intro c hc
    refine keepsScores_map (fun c => ?_) hc
    split <;> exact ⟨rfl, rfl⟩

theorem keepsScores_run {events : List ReviewEvent} (hevents : ∀ e ∈ events, e.KeepsScores)
    (hrun : (reviewSystem scoring).run s events = some s') : KeepsScores s s' := by
  induction events generalizing s with
  | nil =>
    rw [System.run_nil, Option.some.injEq] at hrun
    exact fun c hc => ⟨c, hrun ▸ hc, rfl, rfl⟩
  | cons e rest ih =>
    rw [System.run_cons, Option.bind_eq_some_iff] at hrun
    obtain ⟨m, hm, hrest⟩ := hrun
    intro c hc
    obtain ⟨c₁, hc₁, hid, hscore⟩ := keepsScores_next (hevents e List.mem_cons_self) hm c hc
    obtain ⟨c₂, hc₂, hid₂, hscore₂⟩ :=
      ih (fun e he => hevents e (List.mem_cons_of_mem _ he)) hrest c₁ hc₁
    exact ⟨c₂, hc₂, hid₂.trans hid, hscore₂.trans hscore⟩

end Between

/-- The `n`-th page is read in a state of its own. -/
def fetchCandidates (f : ReviewFilter) (states : Nat → ReviewState) (limits : Nat → Nat) (n : Nat)
    (cursor : Option CandidateId) : Except Failure (Page Candidate) :=
  listCandidates f (limits n) cursor (states n)

/-- While candidates are listed, any transactions but a generated page may come between two pages:
a candidate that passes the filter at every page is listed exactly once. -/
theorem listed_once_while_deciding {scoring : Scoring} {f : ReviewFilter}
    {states : Nat → ReviewState} {events : Nat → List ReviewEvent} {limits : Nat → Nat}
    {pages : List (Page Candidate)} {id : CandidateId}
    (hs : Reach (reviewSystem scoring) Any (states 0))
    (hrun : ∀ n, (reviewSystem scoring).run (states n) (events n) = some (states (n + 1)))
    (hevents : ∀ n, ∀ e ∈ events n, e.KeepsScores)
    (htraverses : Traverses Page.nextCursor (fetchCandidates f states limits) 0 none pages)
    (hkept : ∀ n < pages.length, ∃ c ∈ (states n).candidates, c.id = id ∧
      f.admits (states n).tables c = true) :
    (pages.flatMap fun p => p.items.map Candidate.id).count id = 1 := by
  have hreach : ∀ n, Reach (reviewSystem scoring) Any (states n) := by
    intro n
    induction n with
    | zero => exact hs
    | succ n ih => exact Reach.of_run ih (hrun n)
  have hids : ∀ n, Table.UniqueOn Candidate.id (states n).candidates := fun n =>
    (review_invariant (hreach n)).ids
  have hscores : ∀ n, KeepsScores (states n) (states (n + 1)) := fun n =>
    keepsScores_run (hevents n) (hrun n)
  have hpos : 0 < pages.length := by
    cases htraverses <;> exact Nat.succ_pos _
  obtain ⟨first, hfirst, hfirstId, -⟩ := hkept 0 hpos
  -- The candidate has the place of the first page at every page.
  have hplace : ∀ n, ∃ c ∈ (states n).candidates, c.id = id ∧ c.score = first.score := by
    intro n
    induction n with
    | zero => exact ⟨first, hfirst, hfirstId, rfl⟩
    | succ n ih =>
      obtain ⟨c, hc, hid, hscore⟩ := ih
      obtain ⟨c', hc', hid', hscore'⟩ := hscores n c hc
      exact ⟨c', hc', hid'.trans hid, hscore'.trans hscore⟩
  have hrows : ∀ n < pages.length, ∃ c ∈ (states n).candidates.filter (f.admits (states n).tables),
      c.id = id ∧ c.place = first.place := by
    intro n hn
    obtain ⟨c, hc, hid, hadmits⟩ := hkept n hn
    obtain ⟨c', hc', hid', hscore⟩ := hplace n
    obtain rfl := List.inj_on_of_nodup_map (hids n) hc hc' (hid.trans hid'.symm)
    refine ⟨c, List.mem_filter.mpr ⟨hc, hadmits⟩, hid, ?_⟩
    rw [Candidate.place, Candidate.place, hscore, hid, hfirstId]
  have hranged : Ranged Page.nextCursor (fetchCandidates f states limits) Page.items
      Candidate.place (fun n => (states n).candidates.filter (f.admits (states n).tables))
      (fun n => readsAbove (states n)) pages.length first.place := by
    intro n cursor p hn hfetch
    obtain ⟨upper, hitems, hlast, hmore⟩ := listCandidates_ok hfetch (hids n)
    refine ⟨upper, hitems, hlast, fun c hc => ?_⟩
    obtain ⟨last, hmem, hid, hupper, habove⟩ := hmore c hc
    refine ⟨last.place, hupper, fun hlt => ?_, fun _ => ?_⟩
    · show readsAbove (states n) cursor first.place = true
      rw [readsAbove, Option.all_eq_true] at habove ⊢
      intro anchorId hanchor
      obtain ⟨anchor, hfound, hlow⟩ := (Option.any_eq_true _ _).mp (habove anchorId hanchor)
      exact (Option.any_eq_true _ _).mpr
        ⟨anchor, hfound, decide_eq_true ((of_decide_eq_true hlow).trans hlt)⟩
    · -- The row of the cursor is read again at its place.
      obtain ⟨again, hagain, hagainId, hagainScore⟩ := hscores n last hmem
      have hfound := Table.lookup_of_mem (hids (n + 1)) hagain
      rw [hagainId, hid] at hfound
      have hsame : again.place = last.place := by
        rw [Candidate.place, Candidate.place, hagainScore, hagainId]
      show readsAbove (states (n + 1)) (some c) first.place = true ↔ _
      rw [readsAbove, Option.all_some, hfound, Option.any_some, decide_eq_true_eq, hsame]
  have hcount := count_of_ranged htraverses (Nat.zero_add _) hranged
    (fun n _ => (List.filter_sublist.map Candidate.id).nodup (hids n)) hrows
  rw [hcount]
  rfl

/-- Two pages of one candidate, and no decision between them. -/
theorem listed_once_while_deciding_sample :
    ∃ pages : List (Page Candidate), pages.length = 2 ∧
      (pages.flatMap fun p => p.items.map Candidate.id).count 1 = 1 := by
  have hreads : (fetchCandidates ⟨.pending, none⟩ (fun _ => sampleReview) (fun _ => 1) 0
        none).toOption.any (fun p => decide (p.nextCursor = some 0)) = true ∧
      (fetchCandidates ⟨.pending, none⟩ (fun _ => sampleReview) (fun _ => 1) 1
        (some 0)).toOption.any (fun p => decide (p.nextCursor = none)) = true ∧
      ((Table.lookup Candidate.id sampleReview.candidates 1).any fun c =>
        (⟨.pending, none⟩ : ReviewFilter).admits sampleReview.tables c) = true := by
    decide +kernel
  obtain ⟨hfirst, hsecond, hkept⟩ := hreads
  obtain ⟨first, hfirst, hmore⟩ := (Option.any_eq_true _ _).mp hfirst
  obtain ⟨second, hsecond, hlast⟩ := (Option.any_eq_true _ _).mp hsecond
  obtain ⟨c, hc, hadmits⟩ := (Option.any_eq_true _ _).mp hkept
  have htraverses : Traverses Page.nextCursor
      (fetchCandidates ⟨.pending, none⟩ (fun _ => sampleReview) fun _ => 1) 0 none
      [first, second] :=
    .more (toOption_eq_some.mp hfirst) (of_decide_eq_true hmore)
      (.last (toOption_eq_some.mp hsecond) (of_decide_eq_true hlast))
  have hquiet : ∀ _ : Nat, ∀ e ∈ ([] : List ReviewEvent), e.KeepsScores :=
    fun _ e he => absurd he List.not_mem_nil
  exact ⟨[first, second], rfl, listed_once_while_deciding sampleReview_reached (fun _ => rfl)
    hquiet htraverses
    fun n _ => ⟨c, Table.mem_of_lookup hc, Table.key_of_lookup hc, hadmits⟩⟩

end Makolet.Catalog
