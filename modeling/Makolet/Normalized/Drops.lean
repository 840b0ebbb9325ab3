import Mathlib.Algebra.Order.Field.Rat
import Mathlib.Tactic.Linarith
import Makolet.Normalized.Snapshots

/-!
# What the drop guard bounds

A full price or promotion file is refused when a scope that it reconciles would shrink too much.
The guard compares the rows that the file has for the scope with the items that are available, or
the promotions that are open, before it. After the apply the open promotions of the scope are the
rows of the file; of its price rows some say themselves that their item is not available.
-/

set_option autoImplicit false

namespace Makolet.Normalized

open Makolet.Domain Makolet.Lib

/-! ## The bound -/

/-- `kept` falls short of `before` by no more than the fraction `m`, where the division is
rounded. -/
structure DropBounded (round : ℚ → ℚ) (m : ℚ) (before kept : Nat) : Prop where
  rounded : before ≤ kept ∨ round (((before : ℚ) - kept) / before) ≤ m
  exact : round (((before : ℚ) - kept) / before) = ((before : ℚ) - kept) / before →
    (1 - m) * before ≤ kept

/-- The policy compares the rounded drop fraction with its maximum. -/
def SnapshotPolicy.Compares (policy : SnapshotPolicy) (round : ℚ → ℚ) (m : ℚ) : Prop :=
  ∀ incoming prior, policy.exceedsDrop incoming prior =
    decide (m < round (((prior : ℚ) - incoming) / prior))

/-- The available items of the store with a key. -/
def availableItems (t : Tables) (key : RetailerId × PortalId × String × String) : Nat :=
  (t.availability.current.filter fun c => c.value.isAvailable && t.stores.any fun store =>
    decide (store.key = key ∧ store.id = c.key.storeId)).length

/-- The items of the store that the file reports with item status 0. -/
def reportedUnavailable (s : Staging) (store : StoreRow) : Nat :=
  ((priceIncoming s).filter fun row =>
    decide (row.storeKey = (store.subchainCode, store.sourceStoreCode)) &&
      decide (row.itemStatus = some 0)).length

/-- The open promotions of a scope of the file's retailer and portal. -/
def openPromotions (r : ApplyRequest) (t : Tables) (scope : String × String) : Nat :=
  (t.promotions.filter fun v => v.isOpen && decide (v.key.retailerId = r.source.retailerId ∧
    v.key.portalId = r.source.portalId ∧ v.key.scope = scope)).length

/-! ## The guard -/

section Guard

variable {policy : SnapshotPolicy} {round : ℚ → ℚ} {m : ℚ}

/-- What an accepted comparison of counts says. -/
theorem dropBounded_of_validateDrop (hpolicy : policy.Compares round m) (hm : 0 ≤ m)
    {incoming prior : Nat} {scope : String}
    (h : validateDrop policy incoming prior scope = .ok ()) :
    DropBounded round m prior incoming := by
  have hrounded : prior ≤ incoming ∨ round (((prior : ℚ) - incoming) / prior) ≤ m := by
    rcases require_eq_ok.mp h with hzero | hle | hexceeds
    · exact .inl (hzero ▸ Nat.zero_le incoming)
    · exact .inl hle
    · rw [hpolicy, decide_eq_false_iff_not, not_lt] at hexceeds
      exact .inr hexceeds
  refine ⟨hrounded, fun hexact => ?_⟩
  have hprior : (0 : ℚ) ≤ prior := Nat.cast_nonneg prior
  rcases hrounded with hle | hround
  · have hcast : (prior : ℚ) ≤ incoming := Nat.cast_le.mpr hle
    nlinarith
  · rw [hexact] at hround
    rcases hprior.eq_or_lt with hzero | hpos
    · rw [← hzero, mul_zero]
      exact Nat.cast_nonneg incoming
    · rw [div_le_iff₀ hpos] at hround
      linarith

theorem dropBounded_of_validatePrices (hpolicy : policy.Compares round m) (hm : 0 ≤ m)
    {p : ApplyParameters} {s : Staging} {t : Tables}
    (h : validateFullPriceSnapshot p policy s t = .ok ()) {scope : String × String}
    (hscope : (∃ row ∈ priceIncoming s, row.storeKey = scope) ∨
      ∃ d ∈ s.documents, d.storeId = some scope.2 ∧ d.subchainId.getD "" = scope.1) :
    DropBounded round m (availableItems t (p.retailerId, p.portalId, scope.1, scope.2))
      ((priceIncoming s).filter fun row => decide (row.storeKey = scope)).length := by
  obtain ⟨-, h⟩ := require_bind_eq_ok.mp h
  have hmem : scope ∈ (((priceIncoming s).map StagedPrice.storeKey).dedup ++
      s.documents.filterMap fun d =>
        d.storeId.map fun store => (d.subchainId.getD "", store)).dedup := by
    rw [List.mem_dedup, List.mem_append, List.mem_dedup, List.mem_map, List.mem_filterMap]
    rcases hscope with ⟨row, hrow, hkey⟩ | ⟨d, hd, hcode, hsub⟩
    · exact .inl ⟨row, hrow, hkey⟩
    · refine .inr ⟨d, hd, ?_⟩
      rw [hcode, Option.map_some, hsub]
  obtain ⟨-, hdrop⟩ := require_bind_eq_ok.mp (forM_eq_ok h scope hmem)
  exact dropBounded_of_validateDrop hpolicy hm hdrop

theorem dropBounded_of_validatePromotions (hpolicy : policy.Compares round m) (hm : 0 ≤ m)
    {p : ApplyParameters} {s : Staging} {t : Tables}
    (h : validateFullPromotionSnapshot p policy s t = .ok ()) {scope : String × String}
    (hscope : scope ∈ promotionScopes s) :
    DropBounded round m (t.promotions.filter fun v => v.isOpen &&
        decide (v.key.retailerId = p.retailerId ∧ v.key.portalId = p.portalId ∧
          v.key.scope = scope)).length
      ((promotionIncoming s).filter fun b => decide (b.scope = scope)).length := by
  obtain ⟨-, h⟩ := require_bind_eq_ok.mp h
  exact dropBounded_of_validateDrop hpolicy hm (forM_eq_ok h scope hscope)

end Guard

/-! ## Counting -/

/-- A relation that is injective to the left does not relate a longer list to a shorter one. -/
theorem length_le_of_relates {α β : Type} [DecidableEq β] {R : α → β → Prop} {xs : List α}
    {ys : List β} (hnodup : xs.Nodup) (hrel : ∀ x ∈ xs, ∃ y ∈ ys, R x y)
    (hinj : ∀ x x' y, R x y → R x' y → x = x') : xs.length ≤ ys.length := by
  induction xs generalizing ys with
  | nil => exact Nat.zero_le _
  | cons x rest ih =>
    obtain ⟨hx, hrest⟩ := List.nodup_cons.mp hnodup
    obtain ⟨y, hy, hxy⟩ := hrel x List.mem_cons_self
    -- The others are related to elements other than `y`.
    have hothers : ∀ x' ∈ rest, ∃ y' ∈ ys.erase y, R x' y' := by
      intro x' hx'
      obtain ⟨y', hy', hxy'⟩ := hrel x' (List.mem_cons_of_mem x hx')
      refine ⟨y', (List.mem_erase_of_ne fun heq => ?_).mpr hy', hxy'⟩
      exact hx (hinj x x' y hxy (heq ▸ hxy') ▸ hx')
    have hle := ih hrest hothers
    rw [List.length_erase_of_mem hy] at hle
    have hpos := List.length_pos_of_mem hy
    rw [List.length_cons]
    omega

theorem length_eq_of_relates {α β : Type} [DecidableEq α] [DecidableEq β] {R : α → β → Prop}
    {xs : List α} {ys : List β} (hxs : xs.Nodup) (hys : ys.Nodup)
    (hright : ∀ x ∈ xs, ∃ y ∈ ys, R x y) (hleft : ∀ y ∈ ys, ∃ x ∈ xs, R x y)
    (hinj : ∀ x x' y, R x y → R x' y → x = x') (hfun : ∀ x y y', R x y → R x y' → y = y') :
    xs.length = ys.length :=
  le_antisymm (length_le_of_relates hxs hright hinj)
    (length_le_of_relates (R := fun y x => R x y) hys hleft fun y y' x h h' => hfun x y y' h h')

/-! ## The items of a store -/

section Prices

variable {r : ApplyRequest} {appliedAt : Time} {t t' : Tables} {summary : ApplySummary}
  {mapped : List MappedPrice} {availability : Observations AvailabilityValue Unit}

/-- Each available item of a store in scope is one record of the store that does not say 0. -/
theorem availableItems_eq (hw : Written r t t' mapped availability) (hkeyed : Keyed t')
    (hindex : (r.staging.prices.map StagedPrice.recordIndex).Nodup) (hsnapshot : FullSnapshot r t t')
    {store : StoreRow} (hstore : store ∈ t'.stores) (hin : InScope r t' store.id) :
    availableItems t' store.key = ((priceIncoming r.staging).filter fun row =>
      decide (row.storeKey = (store.subchainCode, store.sourceStoreCode)) &&
        decide (row.itemStatus ≠ some 0)).length := by
  have hsole : ∀ other ∈ t'.stores, other.id = store.id → other = store := fun other hother hid =>
    List.inj_on_of_nodup_map hkeyed.storeIds hother hstore hid
  have hkeyed_store : store.retailerId = r.source.retailerId ∧
      store.portalId = r.source.portalId := by
    obtain ⟨other, hother, hid, hret, hpor, -⟩ := hin
    rw [hsole other hother hid] at hret hpor
    exact ⟨hret, hpor⟩
  -- A name of a key of the store is a record of the store.
  have hnamed : ∀ {k row}, Names r t' k row → k.storeId = store.id →
      row.storeKey = (store.subchainCode, store.sourceStoreCode) := by
    rintro k row ⟨item, hitem, other, hother, -, hid, -, hkey⟩ hk
    rw [hsole other hother (hid.trans hk)] at hkey
    simp only [StoreRow.key, Prod.mk.injEq] at hkey
    rw [StagedPrice.storeKey, hkey.2.2.1, hkey.2.2.2]
  have hincoming : Table.UniqueOn StagedPrice.key (priceIncoming r.staging) :=
    Table.distinctOn_unique _
  rw [availableItems, ← List.length_map Current.key]
  apply length_eq_of_relates (R := fun k row => Names r t' k row ∧ k.storeId = store.id ∧
    row ∈ priceIncoming r.staging)
  · exact (List.filter_sublist.map Current.key).nodup hkeyed.availability
  · exact hincoming.of_map.filter _
  · intro k hk
    obtain ⟨c, hc, rfl⟩ := List.mem_map.mp hk
    obtain ⟨hc, hcond⟩ := List.mem_filter.mp hc
    rw [Bool.and_eq_true, List.any_eq_true] at hcond
    obtain ⟨havailable, other, hother, hkey⟩ := hcond
    rw [decide_eq_true_eq] at hkey
    have hsame : other = store :=
      List.inj_on_of_nodup_map hkeyed.storeKeys hother hstore hkey.1
    rw [hsame] at hkey
    have hcurrent : isAvailableIn t' c.key = true := by
      rw [isAvailableIn, currentValue, Table.lookup_of_mem hkeyed.availability hc]
      exact havailable
    obtain ⟨row, hlast, hnames, hstatus⟩ :=
      (hsnapshot.available c.key (hkey.2 ▸ hin)).mp hcurrent
    have hincoming := (mem_priceIncoming_iff hindex).mpr hlast
    refine ⟨row, List.mem_filter.mpr ⟨hincoming, ?_⟩, hnames, hkey.2.symm, hincoming⟩
    rw [Bool.and_eq_true, decide_eq_true_eq, decide_eq_true_eq]
    exact ⟨hnamed hnames hkey.2.symm, hstatus⟩
  · intro row hrow
    obtain ⟨hrow, hcond⟩ := List.mem_filter.mp hrow
    rw [Bool.and_eq_true, decide_eq_true_eq, decide_eq_true_eq] at hcond
    rw [StagedPrice.storeKey, Prod.mk.injEq] at hcond
    obtain ⟨k, hnames, hk⟩ := hw.exists_names (mem_of_mem_priceIncoming hrow) hstore (by
      rw [StoreRow.key, hkeyed_store.1, hkeyed_store.2, hcond.1.1, hcond.1.2])
    have hcurrent := (hsnapshot.available k (hk ▸ hin)).mpr
      ⟨row, (mem_priceIncoming_iff hindex).mp hrow, hnames, hcond.2⟩
    obtain ⟨v, hv, havailable⟩ := (Option.any_eq_true _ _).mp hcurrent
    obtain ⟨c, hc, rfl⟩ := Option.map_eq_some_iff.mp hv
    have hck : c.key = k := Table.key_of_lookup hc
    refine ⟨k, List.mem_map.mpr ⟨c, List.mem_filter.mpr ⟨Table.mem_of_lookup hc, ?_⟩, hck⟩,
      hnames, hk, hrow⟩
    rw [Bool.and_eq_true, List.any_eq_true]
    exact ⟨havailable, store, hstore, decide_eq_true ⟨rfl, by rw [hck, hk]⟩⟩
  · -- A record names one item.
    rintro k k' row ⟨⟨item, hitem, _, _, hid, _, hkey, _⟩, hk, hrow⟩
      ⟨⟨item', hitem', _, _, hid', _, hkey', _⟩, hk', -⟩
    have hitems := hw.itemUnique row (mem_of_mem_priceIncoming hrow) item hitem item' hitem' hkey
      (hkey'.trans hkey.symm)
    cases k
    cases k'
    simp only at hid hid' hk hk'
    rw [Key.mk.injEq, ← hid, ← hid', hitems, hk, hk']
    exact ⟨rfl, rfl⟩
  · rintro k row row' ⟨hnames, -, hrow⟩ ⟨hnames', -, hrow'⟩
    have hsame : (⟨k, row⟩ : MappedPrice) = ⟨k, row'⟩ := List.inj_on_of_nodup_map hw.unique
      ((hw.mem_iff ⟨k, row⟩).mpr ⟨hrow, hnames⟩) ((hw.mem_iff ⟨k, row'⟩).mpr ⟨hrow', hnames'⟩) rfl
    exact congrArg MappedPrice.row hsame

/-- The records of a store are its available items and those reported with item status 0. -/
theorem availableItems_add_reported (hw : Written r t t' mapped availability) (hkeyed : Keyed t')
    (hindex : (r.staging.prices.map StagedPrice.recordIndex).Nodup) (hsnapshot : FullSnapshot r t t')
    {store : StoreRow} (hstore : store ∈ t'.stores) (hin : InScope r t' store.id) :
    availableItems t' store.key + reportedUnavailable r.staging store =
      ((priceIncoming r.staging).filter fun row =>
        decide (row.storeKey = (store.subchainCode, store.sourceStoreCode))).length := by
  rw [availableItems_eq hw hkeyed hindex hsnapshot hstore hin, reportedUnavailable]
  have hsplit := List.length_eq_length_filter_add
    (l := (priceIncoming r.staging).filter fun row =>
      decide (row.storeKey = (store.subchainCode, store.sourceStoreCode)))
    (fun row => decide (row.itemStatus ≠ some 0))
  rw [hsplit, List.filter_filter, List.filter_filter]
  congr 2
  · exact List.filter_congr fun row _ => Bool.and_comm _ _
  · refine List.filter_congr fun row _ => ?_
    rw [Bool.and_comm]
    simp

end Prices

/-! ## The promotions of a scope -/

section Promotions

variable {r : ApplyRequest} {appliedAt : Time} {t t' : Tables} {summary : ApplySummary}

theorem promotionGuard_of_ok {a : DocumentApply} (h : applyPromotions a t = .ok (t', summary))
    (hfull : a.isFull = true) :
    validateFullPromotionSnapshot a.parameters a.policy a.staging t = .ok () := by
  obtain ⟨_, hguard, -⟩ := bind_eq_ok.mp h
  rw [hfull] at hguard
  exact hguard

theorem priceGuard_of_ok {a : DocumentApply} (h : applyPrices a t = .ok (t', summary))
    (hfull : a.isFull = true) :
    validateFullPriceSnapshot a.parameters a.policy a.staging t = .ok () := by
  obtain ⟨_, hguard, -⟩ := bind_eq_ok.mp h
  rw [hfull] at hguard
  exact hguard

/-- The open promotions after the statements for the records: one for each key, and one for each
record. -/
theorem open_after_insert {p : ApplyParameters} {incoming : List StagedPromotion} {u u' : Tables}
    (h : insertPromotions p incoming u = .ok u') :
    Table.UniqueOn Promotion.key (u'.promotions.filter Promotion.isOpen) ∧
      ∀ b ∈ incoming, ∃ v ∈ u'.promotions, v.key = b.key p ∧ v.isOpen = true := by
  obtain ⟨hunique, h⟩ := require_bind_eq_ok.mp h
  rw [pure_eq_ok] at h
  subst h
  refine ⟨hunique, fun b hb => ?_⟩
  cases hopen : openPromotion u (b.key p) with
  | some v =>
    obtain ⟨w, hw, hkey, hwopen⟩ := openPromotion_isSome.mp (by rw [hopen]; rfl)
    exact ⟨w, List.mem_append_left _ hw, hkey, hwopen⟩
  | none =>
    have hmem : b ∈ incoming.filter fun b => (openPromotion u (b.key p)).isNone :=
      List.mem_filter.mpr ⟨hb, by rw [hopen]; rfl⟩
    obtain ⟨c, hc, rfl⟩ := Table.exists_mem_zipIdx hmem u.nextId
    exact ⟨_, List.mem_append_right _ (List.mem_map_of_mem hc), rfl, rfl⟩

/-- Closed elements are no longer open. -/
theorem filter_map_closed {α : Type} {isOpen absent : α → Bool} {close : α → α}
    (hclose : ∀ a, isOpen (close a) = false) (xs : List α) :
    (xs.map fun a => if absent a then close a else a).filter isOpen =
      (xs.filter isOpen).filter fun a => !absent a := by
  induction xs with
  | nil => rfl
  | cons a rest ih =>
    rw [List.map_cons, List.filter_cons, ih, List.filter_cons]
    cases habsent : absent a <;> cases hopen : isOpen a <;> simp [hclose, habsent, hopen]

/-- Closing by absence keeps the open versions that are not absent. -/
theorem open_after_absence {p : ApplyParameters} {s : Staging} {u u' : Tables} {n : Nat}
    (h : closeAbsentPromotions p s u = .ok (u', n)) :
    u'.promotions.filter Promotion.isOpen =
      (u.promotions.filter Promotion.isOpen).filter fun v => !v.isAbsent p s := by
  obtain ⟨-, h⟩ := require_bind_eq_ok.mp h
  rw [pure_eq_ok] at h
  cases h
  exact filter_map_closed (fun _ => rfl) u.promotions

/-- The open promotions of a reconciled scope are the records of the scope. -/
theorem openPromotions_eq (h : applyPromotions (r.documentApply appliedAt) t = .ok (t', summary))
    (hfull : r.documentType.isFullSnapshot = true) {scope : String × String}
    (hscope : scope ∈ promotionScopes r.staging) :
    openPromotions r t' scope =
      ((promotionIncoming r.staging).filter fun b => decide (b.scope = scope)).length := by
  obtain ⟨t₁, t₂, t₃, promotions, -, -, -, hinsert, hend⟩ := applyPromotions_eq_ok h
  obtain ⟨n, hn⟩ : ∃ n, closeAbsentPromotions (r.documentApply appliedAt).parameters r.staging
      (attachPromotionRelations (r.documentApply appliedAt).parameters
        (promotionIncoming r.staging) t₃) = .ok (t', n) := by
    rcases hend with ⟨hdelta, -⟩ | ⟨-, hn⟩
    · exact Bool.noConfusion (hfull.symm.trans hdelta)
    · exact hn
  obtain ⟨hunique, hlisted⟩ := open_after_insert hinsert
  have hopen := open_after_absence hn
  have hmem : ∀ v, v ∈ t'.promotions ∧ v.isOpen = true ↔
      v ∈ t₃.promotions ∧ v.isOpen = true ∧
        v.isAbsent (r.documentApply appliedAt).parameters r.staging = false := by
    intro v
    rw [← List.mem_filter, hopen, List.mem_filter, List.mem_filter, and_assoc, Bool.not_eq_true']
    rfl
  have hkeys : Table.UniqueOn Promotion.key (t'.promotions.filter Promotion.isOpen) := by
    rw [hopen]
    exact (List.filter_sublist.map Promotion.key).nodup hunique
  have hincoming : Table.UniqueOn (StagedPromotion.key (r.documentApply appliedAt).parameters)
      (promotionIncoming r.staging) := by
    have hunique : Table.UniqueOn (fun b : StagedPromotion =>
        (b.subchainId, b.sourcePromotionId, b.sourceScopeStoreCode))
        (promotionIncoming r.staging) := Table.distinctOn_unique _
    apply hunique.of_determines
    intro a b heq
    rw [StagedPromotion.key, StagedPromotion.key, PromotionKey.mk.injEq] at heq
    rw [heq.2.2.1, heq.2.2.2.1, heq.2.2.2.2]
  rw [openPromotions]
  apply length_eq_of_relates (R := fun v b => v ∈ t'.promotions.filter Promotion.isOpen ∧
    v.key = b.key (r.documentApply appliedAt).parameters ∧ b ∈ promotionIncoming r.staging)
  · refine (List.monotone_filter_right t'.promotions fun v hv => ?_).nodup hkeys.of_map
    exact ((Bool.and_eq_true _ _).mp hv).1
  · exact hincoming.of_map.filter _
  · intro v hv
    obtain ⟨hv, hcond⟩ := List.mem_filter.mp hv
    rw [Bool.and_eq_true, decide_eq_true_eq] at hcond
    obtain ⟨hisOpen, hret, hpor, hscopeEq⟩ := hcond
    -- An open promotion of the scope that stays open is listed.
    obtain ⟨-, -, habsent⟩ := (hmem v).mp ⟨hv, hisOpen⟩
    have hlistedKey : ∃ b ∈ promotionIncoming r.staging,
        b.key (r.documentApply appliedAt).parameters = v.key := by
      by_contra hno
      push Not at hno
      rw [Promotion.isAbsent, hisOpen, hscopeEq, decide_eq_true hscope, decide_eq_true ⟨hret, hpor⟩,
        Bool.true_and, Bool.true_and, Bool.true_and] at habsent
      exact Bool.noConfusion (habsent.symm.trans
        (List.all_eq_true.mpr fun b hb => decide_eq_true (hno b hb)))
    obtain ⟨b, hb, hbk⟩ := hlistedKey
    refine ⟨b, List.mem_filter.mpr ⟨hb, decide_eq_true ?_⟩,
      List.mem_filter.mpr ⟨hv, hisOpen⟩, hbk.symm, hb⟩
    rw [← hscopeEq, ← hbk]
    rfl
  · intro b hb
    obtain ⟨hb, hbscope⟩ := List.mem_filter.mp hb
    rw [decide_eq_true_eq] at hbscope
    obtain ⟨v, hv, hkey, hisOpen⟩ := hlisted b hb
    have hpresent : v.isAbsent (r.documentApply appliedAt).parameters r.staging = false := by
      rw [Promotion.isAbsent, Bool.and_eq_false_iff, List.all_eq_false]
      exact .inr ⟨b, hb, by simp [hkey]⟩
    obtain ⟨hv', -⟩ := (hmem v).mpr ⟨hv, hisOpen, hpresent⟩
    refine ⟨v, List.mem_filter.mpr ⟨hv', ?_⟩, List.mem_filter.mpr ⟨hv', hisOpen⟩, hkey, hb⟩
    rw [Bool.and_eq_true, decide_eq_true_eq, hkey]
    exact ⟨hisOpen, rfl, rfl, hbscope⟩
  · rintro v v' b ⟨hv, hkey, -⟩ ⟨hv', hkey', -⟩
    exact List.inj_on_of_nodup_map hkeys hv hv' (hkey.trans hkey'.symm)
  · rintro v b b' ⟨-, hkey, hb⟩ ⟨-, hkey', hb'⟩
    exact List.inj_on_of_nodup_map hincoming hb hb' (hkey.symm.trans hkey')

end Promotions

/-! ## The result -/

/-- A store in scope is one that the guard looks at. -/
theorem guarded_of_inScope {r : ApplyRequest} {t' : Tables} (hkeyed : Keyed t') {store : StoreRow}
    (hstore : store ∈ t'.stores) (hin : InScope r t' store.id) :
    store.key = (r.source.retailerId, r.source.portalId, store.subchainCode,
        store.sourceStoreCode) ∧
      ((∃ row ∈ priceIncoming r.staging,
          row.storeKey = (store.subchainCode, store.sourceStoreCode)) ∨
        ∃ d ∈ r.staging.documents, d.storeId = some store.sourceStoreCode ∧
          d.subchainId.getD "" = store.subchainCode) := by
  obtain ⟨other, hother, hid, hret, hpor, hscope⟩ := hin
  rw [List.inj_on_of_nodup_map hkeyed.storeIds hother hstore hid] at hret hpor hscope
  constructor
  · rw [StoreRow.key, hret, hpor]
  · refine hscope.imp_left ?_
    rintro ⟨row, hrow, hkey⟩
    obtain ⟨x, hx, hxk⟩ := exists_priceIncoming hrow
    simp only [StagedPrice.key, Prod.mk.injEq] at hxk
    refine ⟨x, hx, ?_⟩
    rw [← hkey, StagedPrice.storeKey, StagedPrice.storeKey, hxk.1, hxk.2.1]

/-- A full file that is accepted in a state reached by accepted applies: in every store that it
reconciles the available items, with those that the file reports with item status 0, and in every
promotion scope the open promotions, fall short of their number before it by no more than the
maximum drop fraction, up to the rounding of the division. -/
theorem listed_drop_bounded (before : List ApplyRequest) (t : Tables)
    (hrun : applyRun Tables.empty before = .ok t) (r : ApplyRequest) (t' : Tables)
    (summary : ApplySummary) (happly : apply r t = .ok (t', summary))
    (hindex : (r.staging.prices.map StagedPrice.recordIndex).Nodup) (round : ℚ → ℚ) (m : ℚ)
    (hpolicy : r.policy.Compares round m) (hm : 0 ≤ m) :
    (r.documentType = .priceFull → ∀ store ∈ t'.stores, InScope r t' store.id →
      DropBounded round m (availableItems t store.key)
        (availableItems t' store.key + reportedUnavailable r.staging store)) ∧
      (r.documentType = .promotionFull → ∀ scope ∈ promotionScopes r.staging,
        DropBounded round m (openPromotions r t scope) (openPromotions r t' scope)) := by
  have hkeyed := keyed_of_applyRun hrun
  obtain ⟨family, hfamily, -, hwrite⟩ := apply_eq_ok happly
  obtain ⟨written, hwritten, rfl⟩ := writeDocument_eq_ok hwrite
  rw [claimContent_frame] at hwritten
  constructor
  · intro htype store hstore hin
    have hfull : r.documentType.isFullSnapshot = true := by rw [htype]; rfl
    rw [htype] at hfamily
    cases hfamily
    have hclaimed : Keyed { t with appliedContents := (claimContent r t).1.appliedContents } :=
      hkeyed.frame rfl hkeyed.availability (le_refl _)
    have hkeyed' : Keyed written := hclaimed.applyPrices hwritten
    have hsnapshot := fullSnapshot_of_applyPrices hwritten hfull hkeyed.availability hindex
    obtain ⟨mapped, availability, hw, -, -⟩ := exists_written hwritten
    have hin' : InScope r written store.id := hin
    obtain ⟨hkey, hscope⟩ := guarded_of_inScope hkeyed' hstore hin'
    have hbounded := dropBounded_of_validatePrices hpolicy hm (priceGuard_of_ok hwritten hfull)
      hscope
    show DropBounded round m (availableItems t store.key)
      (availableItems written store.key + reportedUnavailable r.staging store)
    rw [availableItems_add_reported hw hkeyed' hindex hsnapshot hstore hin', hkey]
    exact hbounded
  · intro htype scope hscope
    have hfull : r.documentType.isFullSnapshot = true := by rw [htype]; rfl
    rw [htype] at hfamily
    cases hfamily
    have hbounded := dropBounded_of_validatePromotions hpolicy hm
      (promotionGuard_of_ok hwritten hfull) hscope
    show DropBounded round m (openPromotions r t scope) (openPromotions r written scope)
    rw [openPromotions_eq hwritten hfull hscope]
    exact hbounded

/-- A policy that refuses drops of more than one half, without rounding. -/
def halfPolicy : SnapshotPolicy where
  minimumFullRecords := 1
  exceedsDrop := fun incoming prior => decide ((1 / 2 : ℚ) < id (((prior : ℚ) - incoming) / prior))
  dropText := fun _ _ => ""

/-- A full file of store 17 under that policy. -/
def halfRequest (fileId : FileId) (time clock : Time) (sha : String) (status : Option Int) :
    ApplyRequest :=
  { sampleFullRequest fileId "17" "17" time clock sha with
    policy := halfPolicy
    staging := { Staging.empty with
      documents := [⟨some "1", some "17", none⟩]
      prices := [{ sampleRecord "17" "4001" 500 with itemStatus := status }] } }

/-- A file with one available item. -/
def availableFile : ApplyRequest := halfRequest 1 100 400 "aa" none

/-- A later file that lists the item with item status 0. -/
def unavailableFile : ApplyRequest := halfRequest 2 200 500 "bb" (some 0)

theorem listed_drop_unavailableFile :
    let t := tablesAfter availableFile Tables.empty
    let t' := tablesAfter unavailableFile t
    ∀ store ∈ t'.stores, InScope unavailableFile t' store.id →
      DropBounded id (1 / 2) (availableItems t store.key)
        (availableItems t' store.key + reportedUnavailable unavailableFile.staging store) := by
  obtain ⟨s₁, h₁⟩ := apply_tablesAfter (r := availableFile) (t := Tables.empty) (by decide +kernel)
  obtain ⟨s₂, h₂⟩ := apply_tablesAfter (r := unavailableFile)
    (t := tablesAfter availableFile Tables.empty) (by decide +kernel)
  exact (listed_drop_bounded _ _ (applyRun_singleton h₁) _ _ _ h₂ (by decide) id (1 / 2)
    (fun _ _ => rfl) (by norm_num)).1 rfl

/-- The later file passes the guard and leaves nothing available. -/
theorem not_available_drop_bounded :
    ¬∀ (before : List ApplyRequest) (t : Tables), applyRun Tables.empty before = .ok t →
      ∀ (r : ApplyRequest) (t' : Tables) (summary : ApplySummary), apply r t = .ok (t', summary) →
        ∀ m : ℚ, r.policy.Compares id m → r.documentType = .priceFull →
          ∀ store ∈ t'.stores, InScope r t' store.id →
            (1 - m) * availableItems t store.key ≤ availableItems t' store.key := by
  intro h
  obtain ⟨s₁, h₁⟩ := apply_tablesAfter (r := availableFile) (t := Tables.empty) (by decide +kernel)
  obtain ⟨s₂, h₂⟩ := apply_tablesAfter (r := unavailableFile)
    (t := tablesAfter availableFile Tables.empty) (by decide +kernel)
  have hbound := h _ _ (applyRun_singleton h₁) _ _ _ h₂ (1 / 2) (fun _ _ => rfl) rfl
  have hstore : ∃ store ∈ (tablesAfter unavailableFile
      (tablesAfter availableFile Tables.empty)).stores,
      store.key = (1, 1, "1", "17") := by decide +kernel
  obtain ⟨store, hstore, hkey⟩ := hstore
  have hin : InScope unavailableFile (tablesAfter unavailableFile
      (tablesAfter availableFile Tables.empty)) store.id := by
    simp only [StoreRow.key, Prod.mk.injEq] at hkey
    refine ⟨store, hstore, rfl, hkey.1, hkey.2.1, .inl ⟨_, List.mem_singleton_self _, ?_⟩⟩
    rw [hkey.2.2.1, hkey.2.2.2]
    rfl
  have hle := hbound store hstore hin
  have hbefore : availableItems (tablesAfter availableFile Tables.empty) (1, 1, "1", "17") = 1 := by
    decide +kernel
  have hafter : availableItems (tablesAfter unavailableFile
      (tablesAfter availableFile Tables.empty)) (1, 1, "1", "17") = 0 := by
    decide +kernel
  rw [hkey, hbefore, hafter] at hle
  norm_num at hle

end Makolet.Normalized
