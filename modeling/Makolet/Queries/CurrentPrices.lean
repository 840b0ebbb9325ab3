import Makolet.Lib.Keyset
import Makolet.Lib.Outcome
import Makolet.Lib.Paging
import Makolet.Normalized.Schema
import Mathlib.Data.Prod.Lex

/-!
# Pages of current prices

`PostgresQueryRepository.current_prices` with the statements of `_current_prices_query` and `_page`.
A page has the rows of its scope that come behind the anchor of its cursor, by price and then by id.
The cursor is the id of the anchor only: the price of the anchor is read again with every page, and
so is whether the anchor is in the scope.

Every page reads a snapshot of its own. A row that stays in the scope at one price is returned once
if no anchor is moved past it; an anchor whose price has changed, or which has left the scope, is
read at another place or not at all.
-/

set_option autoImplicit false

namespace Makolet.Queries

open Makolet.Domain Makolet.Lib Makolet.Normalized

abbrev PriceId := Nat

/-- A row of `current_prices`, with the columns projected for the queries. -/
structure PriceRow where
  id : PriceId
  state : Current PriceValue PriceDetails
  canonicalProductId : Option ProductId
  queryRetailerId : Option RetailerId
  deriving DecidableEq, Repr

namespace PriceRow

def itemPrice (r : PriceRow) : Nat := r.state.value.itemPrice

/-- `ORDER BY price.item_price, price.id`. -/
def place (r : PriceRow) : Nat ×ₗ PriceId := toLex (r.itemPrice, r.id)

end PriceRow

/-- The filters of a query, of which the product is always given. -/
structure PriceScope where
  productId : ProductId
  retailerId : Option RetailerId
  storeId : Option StoreId
  deriving DecidableEq, Repr

/-- The scope filters; a column that is null equals nothing. -/
def PriceScope.admits (scope : PriceScope) (r : PriceRow) : Prop :=
  r.canonicalProductId = some scope.productId ∧
    (∀ retailer ∈ scope.retailerId, r.queryRetailerId = some retailer) ∧
      ∀ store ∈ scope.storeId, r.state.key.storeId = store

instance (scope : PriceScope) (r : PriceRow) : Decidable (scope.admits r) :=
  inferInstanceAs (Decidable (_ ∧ _ ∧ _))

/-- What one statement reads. The columns of the other tables are those that the row refers to. -/
structure Snapshot (δ : Type) where
  prices : List PriceRow
  unique : (prices.map PriceRow.id).Nodup
  joined : PriceRow → δ

structure Page (ι : Type) where
  items : List ι
  nextCursor : Option PriceId

/-- `_page`. -/
def page {ι : Type} (cursorKey : ι → PriceId) (rows : List ι) (limit : Nat) : Page ι where
  items := rows.take limit
  nextCursor := if limit < rows.length then (rows.take limit).getLast?.map cursorKey else none

section Query

variable {δ : Type} (scope : PriceScope)

/-- The rows of `cursor_price`, to which every candidate is joined. -/
def cursorPrice (s : Snapshot δ) (cursorId : PriceId) : Option PriceRow :=
  s.prices.find? fun r => decide (r.id = cursorId ∧ scope.admits r)

/-- `candidate_prices`, before its limit. -/
def candidates (s : Snapshot δ) : Option PriceId → List PriceRow
  | none => orderedBy PriceRow.place (s.prices.filter fun r => decide (scope.admits r))
  | some cursorId =>
    match cursorPrice scope s cursorId with
    | none => []
    | some anchor => orderedBy PriceRow.place
        (s.prices.filter fun r => decide (scope.admits r ∧ anchor.place < r.place))

def maximumQueryResults : Nat := 200

/-- `current_prices`. The cursor is the parsed `UUID`. -/
def currentPrices (s : Snapshot δ) (limit : Nat) (cursor : Option PriceId) :
    Except Failure (Page (PriceRow × δ)) := do
  require (1 ≤ limit ∧ limit ≤ maximumQueryResults)
    ⟨.queryLimit, "limit must be between 1 and 200", 0⟩
  let rows := ((candidates scope s cursor).take (limit + 1)).map fun r => (r, s.joined r)
  pure (page (fun row => row.1.id) rows limit)

end Query

/-! ## One page -/

section OnePage

variable {δ : Type} {scope : PriceScope} {s : Snapshot δ} {limit : Nat} {cursor : Option PriceId}
  {p : Page (PriceRow × δ)}

theorem place_nodup (s : Snapshot δ) (keep : PriceRow → Bool) :
    ((s.prices.filter keep).map PriceRow.place).Nodup := by
  have hids : ((s.prices.filter keep).map PriceRow.id).Nodup :=
    s.unique.sublist (List.filter_sublist.map _)
  refine List.Nodup.of_map (fun place : Nat ×ₗ PriceId => (ofLex place).2) ?_
  rwa [List.map_map]

theorem candidates_sorted (scope : PriceScope) (s : Snapshot δ) (cursor : Option PriceId) :
    (candidates scope s cursor).Pairwise fun a b => a.place < b.place := by
  cases cursor with
  | none => exact sorted_orderedBy (place_nodup s _)
  | some cursorId =>
    rw [candidates]
    split
    · exact List.Pairwise.nil
    · exact sorted_orderedBy (place_nodup s _)

/-- A row of the snapshot is known by its id. -/
theorem Snapshot.eq_of_id (s : Snapshot δ) {r r' : PriceRow} (hr : r ∈ s.prices)
    (hr' : r' ∈ s.prices) (hid : r.id = r'.id) : r = r' :=
  List.inj_on_of_nodup_map s.unique hr hr' hid

theorem cursorPrice_eq_some {cursorId : PriceId} {anchor : PriceRow} :
    cursorPrice scope s cursorId = some anchor ↔
      anchor ∈ s.prices ∧ anchor.id = cursorId ∧ scope.admits anchor := by
  constructor
  · intro h
    unfold cursorPrice at h
    have hfound := List.find?_some h
    rw [decide_eq_true_iff] at hfound
    exact ⟨List.mem_of_find?_eq_some h, hfound⟩
  · rintro ⟨hmem, hid, hadmits⟩
    unfold cursorPrice
    cases hfind : s.prices.find? fun r => decide (r.id = cursorId ∧ scope.admits r) with
    | none =>
      have hnone := List.find?_eq_none.mp hfind anchor hmem
      simp [hid, hadmits] at hnone
    | some other =>
      have hother := List.find?_some hfind
      rw [decide_eq_true_iff] at hother
      rw [s.eq_of_id (List.mem_of_find?_eq_some hfind) hmem (hother.1.trans hid.symm)]

theorem mem_candidates_none {r : PriceRow} :
    r ∈ candidates scope s none ↔ r ∈ s.prices ∧ scope.admits r := by
  rw [candidates, mem_orderedBy, List.mem_filter, decide_eq_true_iff]

/-- The candidates behind an anchor that is read. -/
theorem mem_candidates_some {cursorId : PriceId} {anchor r : PriceRow}
    (h : cursorPrice scope s cursorId = some anchor) :
    r ∈ candidates scope s (some cursorId) ↔
      r ∈ s.prices ∧ scope.admits r ∧ anchor.place < r.place := by
  rw [candidates, h]
  dsimp only
  rw [mem_orderedBy, List.mem_filter, decide_eq_true_iff]

theorem mem_prices_of_candidate {r : PriceRow} (h : r ∈ candidates scope s cursor) :
    r ∈ s.prices := by
  cases cursor with
  | none => exact (mem_candidates_none.mp h).1
  | some cursorId =>
    cases hanchor : cursorPrice scope s cursorId with
    | none =>
      rw [candidates, hanchor] at h
      cases h
    | some anchor => exact ((mem_candidates_some hanchor).mp h).1

theorem currentPrices_ok (h : currentPrices scope s limit cursor = .ok p) :
    0 < limit ∧
      p.items = ((candidates scope s cursor).take limit).map (fun r => (r, s.joined r)) ∧
      p.nextCursor = if limit < (candidates scope s cursor).length then
        ((candidates scope s cursor).take limit).getLast?.map PriceRow.id else none := by
  obtain ⟨hlimit, h⟩ := require_bind_eq_ok.mp h
  cases pure_eq_ok.mp h
  have htake : ∀ f : PriceRow → PriceRow × δ,
      (((candidates scope s cursor).take (limit + 1)).map f).take limit =
        ((candidates scope s cursor).take limit).map f := by
    intro f
    rw [← List.map_take, List.take_take, Nat.min_eq_left (Nat.le_succ limit)]
  have hlength : limit < ((candidates scope s cursor).take (limit + 1)).length ↔
      limit < (candidates scope s cursor).length := by
    rw [List.length_take]
    omega
  refine ⟨hlimit.1, htake _, ?_⟩
  show (if limit < (((candidates scope s cursor).take (limit + 1)).map _).length then _ else none) =
    _
  rw [List.length_map, htake]
  by_cases hmore : limit < (candidates scope s cursor).length
  · rw [if_pos (hlength.mpr hmore), if_pos hmore, List.getLast?_map, Option.map_map]
    rfl
  · rw [if_neg (mt hlength.mp hmore), if_neg hmore]

/-- The rows that a page returns. -/
def Page.rows (p : Page (PriceRow × δ)) : List PriceRow := p.items.map Prod.fst

/-- Where a page goes on, and behind which row. -/
theorem next_spec (h : currentPrices scope s limit cursor = .ok p) :
    (p.nextCursor = none ∧ p.rows = candidates scope s cursor) ∨
      ∃ last, p.rows.getLast? = some last ∧ p.nextCursor = some last.id ∧
        ∀ r ∈ candidates scope s cursor, r ∈ p.rows ↔ r.place ≤ last.place := by
  obtain ⟨hpos, hitems, hnext⟩ := currentPrices_ok h
  have hrows : p.rows = (candidates scope s cursor).take limit := by
    rw [Page.rows, hitems, List.map_map]
    exact List.map_id _
  by_cases hmore : limit < (candidates scope s cursor).length
  · have hne : (candidates scope s cursor).take limit ≠ [] := by
      intro hnil
      have hlength := congrArg List.length hnil
      rw [List.length_take, List.length_nil] at hlength
      omega
    obtain ⟨last, hlast⟩ := Option.isSome_iff_exists.mp (List.getLast?_isSome.mpr hne)
    have hsorted := candidates_sorted scope s cursor
    refine .inr ⟨last, hrows ▸ hlast, by rw [hnext, if_pos hmore, hlast]; rfl, fun r hr => ?_⟩
    rw [hrows]
    constructor
    · exact fun hmem => key_le_last hsorted hmem hlast
    · intro hle
      rcases mem_take_or hsorted hr (n := limit) with hmem | ⟨-, hbehind⟩
      · exact hmem
      · exact absurd (hbehind last (List.mem_of_getLast? hlast)) (not_lt.mpr hle)
  · refine .inl ⟨by rw [hnext, if_neg hmore], ?_⟩
    rw [hrows, List.take_of_length_le (Nat.le_of_not_lt hmore)]

theorem rows_sublist (h : currentPrices scope s limit cursor = .ok p) :
    p.rows.Sublist (candidates scope s cursor) := by
  obtain ⟨-, hitems, -⟩ := currentPrices_ok h
  rw [Page.rows, hitems, List.map_map]
  exact (List.map_id _).symm ▸ List.take_sublist _ _

end OnePage

/-! ## Traversals -/

section Traversal

variable {δ : Type} {scope : PriceScope} {snapshots : Nat → Snapshot δ} {limits : Nat → Nat}

/-- The `n`-th fetch reads its own snapshot, with a limit of its own. -/
def fetch (scope : PriceScope) (snapshots : Nat → Snapshot δ) (limits : Nat → Nat) (n : Nat)
    (cursor : Option PriceId) : Except Failure (Page (PriceRow × δ)) :=
  currentPrices scope (snapshots n) (limits n) cursor

/-- A traversal that ends, from the first page on. -/
def Traversal (scope : PriceScope) (snapshots : Nat → Snapshot δ) (limits : Nat → Nat) :
    List (Page (PriceRow × δ)) → Prop :=
  Traverses Page.nextCursor (fetch scope snapshots limits) 0 none

/-- The row with this id is in the scope, at this price, in each of the first snapshots. -/
def Kept (scope : PriceScope) (snapshots : Nat → Snapshot δ) (fetches : Nat) (id : PriceId)
    (price : Nat) : Prop :=
  ∀ n < fetches, ∃ r ∈ (snapshots n).prices, r.id = id ∧ r.itemPrice = price ∧ scope.admits r

/-- How often a row is returned. -/
def returned (id : PriceId) (pages : List (Page (PriceRow × δ))) : Nat :=
  (pages.flatMap fun p => p.rows.map PriceRow.id).count id

/-- The anchor of a page is read again with the next one: it is still in the scope, and no kept row
lies between the place it was returned at and the place it has by then. -/
def AnchorStands (scope : PriceScope) (snapshots : Nat → Snapshot δ) (fetches : Nat) (n : Nat)
    (anchor : PriceRow) : Prop :=
  ∃ anchor' ∈ (snapshots n).prices, anchor'.id = anchor.id ∧ scope.admits anchor' ∧
    ∀ id price, Kept scope snapshots fetches id price →
      (anchor'.place < toLex (price, id) ↔ anchor.place < toLex (price, id))

/-- Every page but the last has an anchor that stands. -/
def AnchorsStand (scope : PriceScope) (snapshots : Nat → Snapshot δ) (fetches : Nat) :
    Nat → List (Page (PriceRow × δ)) → Prop
  | _, [] => True
  | n, p :: rest =>
      (p.nextCursor ≠ none → ∀ anchor, p.rows.getLast? = some anchor →
        AnchorStands scope snapshots fetches (n + 1) anchor) ∧
      AnchorsStand scope snapshots fetches (n + 1) rest

/-- A kept row is still to come at a cursor. -/
def ToCome (scope : PriceScope) (s : Snapshot δ) (id : PriceId) (price : Nat) :
    Option PriceId → Prop
  | none => True
  | some cursorId => ∃ anchor, cursorPrice scope s cursorId = some anchor ∧
      anchor.place < toLex (price, id)

/-- The cursor has an anchor to read. -/
def Anchored (scope : PriceScope) (s : Snapshot δ) : Option PriceId → Prop
  | none => True
  | some cursorId => ∃ anchor, cursorPrice scope s cursorId = some anchor

section Step

variable {s : Snapshot δ} {limit : Nat} {cursor : Option PriceId} {p : Page (PriceRow × δ)}
  {r : PriceRow}

/-- A row of the scope is a candidate exactly where it is still to come. -/
theorem mem_candidates_iff (hanchored : Anchored scope s cursor) (hr : r ∈ s.prices)
    (hadmits : scope.admits r) :
    r ∈ candidates scope s cursor ↔ ToCome scope s r.id r.itemPrice cursor := by
  cases cursor with
  | none => exact iff_of_true (mem_candidates_none.mpr ⟨hr, hadmits⟩) trivial
  | some cursorId =>
    obtain ⟨anchor, hanchor⟩ := hanchored
    rw [mem_candidates_some hanchor]
    constructor
    · rintro ⟨-, -, hbehind⟩
      exact ⟨anchor, hanchor, hbehind⟩
    · rintro ⟨anchor', hanchor', hbehind⟩
      cases hanchor.symm.trans hanchor'
      exact ⟨hr, hadmits, hbehind⟩

/-- The ids of a page are different. -/
theorem rows_ids_nodup (h : currentPrices scope s limit cursor = .ok p) :
    (p.rows.map PriceRow.id).Nodup := by
  have hsorted := (candidates_sorted scope s cursor).sublist (rows_sublist h)
  refine List.pairwise_map.mpr (hsorted.imp_of_mem fun {a b} ha hb hlt hid => ?_)
  have hsub := (rows_sublist h).subset
  rw [s.eq_of_id (mem_prices_of_candidate (hsub ha)) (mem_prices_of_candidate (hsub hb)) hid] at hlt
  exact lt_irrefl _ hlt

/-- A row is returned by a page that has it, and by no page that has it not. -/
theorem count_rows (h : currentPrices scope s limit cursor = .ok p) (hr : r ∈ s.prices) :
    (p.rows.map PriceRow.id).count r.id = if r ∈ p.rows then 1 else 0 := by
  have hmem : r.id ∈ p.rows.map PriceRow.id ↔ r ∈ p.rows := by
    constructor
    · intro hid
      obtain ⟨r', hr', heq⟩ := List.mem_map.mp hid
      rwa [← s.eq_of_id (mem_prices_of_candidate ((rows_sublist h).subset hr')) hr heq]
    · exact List.mem_map_of_mem
  split
  · exact List.count_eq_one_of_mem (rows_ids_nodup h) (hmem.mpr ‹_›)
  · exact List.count_eq_zero_of_not_mem (mt hmem.mp ‹_›)

/-- What a page with a cursor does to a row of the scope: it is returned if it comes up to the
anchor, and comes later if it is behind. -/
theorem step_spec (h : currentPrices scope s limit cursor = .ok p) (hr : r ∈ s.prices)
    (hadmits : scope.admits r) (hanchored : Anchored scope s cursor) {last : PriceRow}
    (hlast : p.rows.getLast? = some last)
    (hrows : ∀ x ∈ candidates scope s cursor, x ∈ p.rows ↔ x.place ≤ last.place) :
    (r ∈ p.rows ↔ ToCome scope s r.id r.itemPrice cursor ∧ r.place ≤ last.place) ∧
      (last.place < r.place → ToCome scope s r.id r.itemPrice cursor) := by
  have hcandidate := mem_candidates_iff hanchored hr hadmits
  refine ⟨⟨fun hmem => ?_, fun ⟨hcome, hle⟩ => (hrows r (hcandidate.mpr hcome)).mpr hle⟩,
    fun hbehind => ?_⟩
  · have hlisted := (rows_sublist h).subset hmem
    exact ⟨hcandidate.mp hlisted, (hrows r hlisted).mp hmem⟩
  · have hlastRow := (rows_sublist h).subset (List.mem_of_getLast? hlast)
    cases cursor with
    | none => trivial
    | some cursorId =>
      obtain ⟨anchor, hanchor⟩ := hanchored
      exact ⟨anchor, hanchor, ((mem_candidates_some hanchor).mp hlastRow).2.2.trans hbehind⟩

end Step

/-- **What is left of a traversal returns a kept row once if it is still to come, and else not.** -/
theorem returned_of_traverses {n fetches : Nat} {cursor : Option PriceId}
    {pages : List (Page (PriceRow × δ))} {id : PriceId} {price : Nat}
    (h : Traverses Page.nextCursor (fetch scope snapshots limits) n cursor pages)
    (hfetches : n + pages.length ≤ fetches)
    (hanchored : Anchored scope (snapshots n) cursor)
    (hstand : AnchorsStand scope snapshots fetches n pages)
    (hkept : Kept scope snapshots fetches id price) :
    (ToCome scope (snapshots n) id price cursor → returned id pages = 1) ∧
      (¬ToCome scope (snapshots n) id price cursor → returned id pages = 0) := by
  induction h with
  | @last n cursor p hfetch hnext =>
    obtain ⟨r, hr, rfl, rfl, hadmits⟩ := hkept n (by rw [List.length_singleton] at hfetches; omega)
    have hcount := count_rows hfetch hr
    have hcandidate := mem_candidates_iff hanchored hr hadmits
    rcases next_spec hfetch with ⟨-, hrows⟩ | ⟨last, -, hsome, -⟩
    · rw [← hrows] at hcandidate
      rw [returned, List.flatMap_cons, List.flatMap_nil, List.append_nil, hcount]
      exact ⟨fun hcome => if_pos (hcandidate.mpr hcome), fun hnot => if_neg (mt hcandidate.mp hnot)⟩
    · rw [hnext] at hsome
      cases hsome
  | @more n cursor p c rest hfetch hnext hrest ih =>
    rw [List.length_cons] at hfetches
    obtain ⟨r, hr, rfl, rfl, hadmits⟩ := hkept n (by omega)
    rcases next_spec hfetch with ⟨hnone, -⟩ | ⟨last, hlast, hsome, hrows⟩
    · rw [hnext] at hnone
      cases hnone
    · rw [hnext] at hsome
      cases hsome
      obtain ⟨hpage, hlater⟩ := step_spec hfetch hr hadmits hanchored hlast hrows
      -- The anchor is read again at a place that parts the kept rows as before.
      obtain ⟨anchor, hmem, hid, hscope, hparts⟩ :=
        hstand.1 (by rw [hnext]; exact Option.some_ne_none _) last hlast
      have hread : cursorPrice scope (snapshots (n + 1)) last.id = some anchor :=
        cursorPrice_eq_some.mpr ⟨hmem, hid, hscope⟩
      have hcome : ToCome scope (snapshots (n + 1)) r.id r.itemPrice (some last.id) ↔
          last.place < r.place := by
        rw [show r.place = toLex (r.itemPrice, r.id) from rfl, ← hparts _ _ hkept]
        constructor
        · rintro ⟨anchor', hread', hbehind⟩
          cases hread.symm.trans hread'
          exact hbehind
        · exact fun hbehind => ⟨anchor, hread, hbehind⟩
      obtain ⟨hone, hzero⟩ := ih (by omega) ⟨anchor, hread⟩ hstand.2
      have hcount : returned r.id (p :: rest) =
          (if r ∈ p.rows then 1 else 0) + returned r.id rest := by
        rw [returned, List.flatMap_cons, List.count_append, count_rows hfetch hr, returned]
      rw [hcount]
      by_cases hle : last.place < r.place
      · rw [if_neg fun hin => absurd (hpage.mp hin).2 (not_le.mpr hle), hone (hcome.mpr hle)]
        exact ⟨fun _ => rfl, fun hnot => absurd (hlater hle) hnot⟩
      · rw [hzero (mt hcome.mp hle)]
        constructor
        · exact fun hyes => by rw [if_pos (hpage.mpr ⟨hyes, not_lt.mp hle⟩)]
        · exact fun hnot => by rw [if_neg fun hin => hnot (hpage.mp hin).1]

/-- **A kept row is returned exactly once where every anchor stands.** -/
theorem kept_returned_once {pages : List (Page (PriceRow × δ))}
    (h : Traversal scope snapshots limits pages)
    (hstand : AnchorsStand scope snapshots pages.length 0 pages) {id : PriceId} {price : Nat}
    (hkept : Kept scope snapshots pages.length id price) : returned id pages = 1 :=
  (returned_of_traverses h (by omega) trivial hstand hkept).1 trivial

end Traversal

/-! ## Three prices of one product -/

def sampleRow (id price : Nat) : PriceRow where
  id := id
  state := ⟨⟨id, 1⟩, ⟨price, none, none⟩, ⟨none, none, none⟩, 1, 0, 0⟩
  canonicalProductId := some 1
  queryRetailerId := some 1

def sampleSnapshot (first : Nat) : Snapshot Unit where
  prices := [sampleRow 1 first, sampleRow 2 20000, sampleRow 3 30000]
  unique := (by decide : [1, 2, 3].Nodup)
  joined := fun _ => ()

def sampleScope : PriceScope := ⟨1, none, none⟩

/-- The first price goes up between the first page and the second one. -/
def rising (price n : Nat) : Snapshot Unit := sampleSnapshot (if n = 0 then 10000 else price)

theorem kept_rising {price : Nat} (hprice : price ≠ 10000) {id : PriceId} {p : Nat}
    (h : Kept sampleScope (rising price) 3 id p) :
    id = 2 ∧ p = 20000 ∨ id = 3 ∧ p = 30000 := by
  obtain ⟨r, hr, rfl, rfl, -⟩ := h 0 (by decide)
  obtain ⟨r', hr', hid, hsame, -⟩ := h 1 (by decide)
  have hr : r ∈ [sampleRow 1 10000, sampleRow 2 20000, sampleRow 3 30000] := hr
  have hr' : r' ∈ [sampleRow 1 price, sampleRow 2 20000, sampleRow 3 30000] := hr'
  simp only [List.mem_cons, List.not_mem_nil, or_false] at hr hr'
  rcases hr with rfl | rfl | rfl
  · rcases hr' with rfl | rfl | rfl
    · exact absurd hsame hprice
    · cases hid
    · cases hid
  · exact .inl ⟨rfl, rfl⟩
  · exact .inr ⟨rfl, rfl⟩

/-- The anchor of the first page moves, and still stands before the second and the third price. -/
theorem kept_returned_once_sample : ∃ pages : List (Page (PriceRow × Unit)),
    Traversal sampleScope (rising 15000) (fun _ => 1) pages ∧ pages.length = 3 ∧
      (Kept sampleScope (rising 15000) pages.length 2 20000 ∧ returned 2 pages = 1) ∧
      Kept sampleScope (rising 15000) pages.length 3 30000 ∧ returned 3 pages = 1 := by
  have htraversal : Traversal sampleScope (rising 15000) (fun _ => 1)
      [⟨[(sampleRow 1 10000, ())], some 1⟩, ⟨[(sampleRow 2 20000, ())], some 2⟩,
        ⟨[(sampleRow 3 30000, ())], none⟩] := .more rfl rfl (.more rfl rfl (.last rfl rfl))
  have hsecond : ∀ n, sampleRow 2 20000 ∈ (rising 15000 n).prices := fun _ =>
    List.mem_cons_of_mem _ List.mem_cons_self
  have hthird : ∀ n, sampleRow 3 30000 ∈ (rising 15000 n).prices := fun _ =>
    List.mem_cons_of_mem _ (List.mem_cons_of_mem _ List.mem_cons_self)
  have hstand : AnchorsStand sampleScope (rising 15000) 3 0
      [⟨[(sampleRow 1 10000, ())], some 1⟩, ⟨[(sampleRow 2 20000, ())], some 2⟩,
        ⟨[(sampleRow 3 30000, ())], none⟩] := by
    refine ⟨fun _ anchor hanchor => ?_, fun _ anchor hanchor => ?_,
      fun hnext => absurd rfl hnext, trivial⟩
    · cases hanchor
      refine ⟨sampleRow 1 15000, List.mem_cons_self, rfl, by decide, fun id price hkept => ?_⟩
      rcases kept_rising (by decide) hkept with ⟨rfl, rfl⟩ | ⟨rfl, rfl⟩
      · decide
      · decide
    · cases hanchor
      exact ⟨sampleRow 2 20000, hsecond 2, rfl, by decide, fun _ _ _ => Iff.rfl⟩
  have hkept : Kept sampleScope (rising 15000) 3 2 20000 :=
    fun n _ => ⟨sampleRow 2 20000, hsecond n, rfl, rfl, by decide⟩
  have hkept' : Kept sampleScope (rising 15000) 3 3 30000 :=
    fun n _ => ⟨sampleRow 3 30000, hthird n, rfl, rfl, by decide⟩
  exact ⟨_, htraversal, rfl, ⟨hkept, kept_returned_once htraversal hstand hkept⟩, hkept',
    kept_returned_once htraversal hstand hkept'⟩

/-- The anchor goes up past a kept row, which no page returns. -/
theorem raised_anchor_skips : ∃ pages : List (Page (PriceRow × Unit)),
    Traversal sampleScope (rising 25000) (fun _ => 1) pages ∧
      Kept sampleScope (rising 25000) pages.length 2 20000 ∧ returned 2 pages = 0 := by
  refine ⟨[⟨[(sampleRow 1 10000, ())], some 1⟩, ⟨[(sampleRow 3 30000, ())], none⟩],
    .more rfl rfl (.last rfl rfl), fun n _ => ⟨sampleRow 2 20000, ?_, rfl, rfl, by decide⟩,
    by decide⟩
  exact List.mem_cons_of_mem _ List.mem_cons_self

end Makolet.Queries
