import Makolet.Normalized.Keys

/-!
# Store rosters and their order

A Stores file is a roster of its portal: an accepted one deactivates every active store of the
portal that it does not list. Its ordering check looks only at the watermarks of the subchains that
it names. `roster_kept_iff` says for every accepted roster, after every run of accepted applies,
when the active stores are those of the newest roster.
-/

set_option autoImplicit false

namespace Makolet.Normalized

open Makolet.Domain Makolet.Lib

/-- The roster lists the store, given by subchain and store code. -/
def ApplyRequest.listsStore (r : ApplyRequest) (k : String × String) : Prop :=
  ∃ row ∈ r.staging.stores, row.key = k

/-- The store of the portal of `r` is active. -/
def ActiveStore (r : ApplyRequest) (t : Tables) (k : String × String) : Prop :=
  ∃ store ∈ t.stores, store.key = (r.source.retailerId, r.source.portalId, k.1, k.2) ∧
    store.isActive = true

/-- The rosters of the portal of `r` among the requests, in order. -/
def rostersBefore (r : ApplyRequest) (before : List ApplyRequest) : List ApplyRequest :=
  before.filter fun g => decide (g.documentType = .stores ∧
    g.source.retailerId = r.source.retailerId ∧ g.source.portalId = r.source.portalId)

/-- The request with the greatest effective timestamp, the last one among equals. -/
def newest (requests : List ApplyRequest) : Option ApplyRequest :=
  requests.foldl (fun best g => match best with
    | none => some g
    | some b => if g.effectiveTimestamp < b.effectiveTimestamp then some b else some g) none

/-- The active stores after the roster `r` are those of the newest roster, and `r` deactivated no
store that a newer roster lists. -/
structure RosterKept (r : ApplyRequest) (before : List ApplyRequest) (t t' : Tables) : Prop where
  reflects : ∀ g ∈ newest (rostersBefore r before ++ [r]), ∀ k,
    ActiveStore r t' k ↔ g.listsStore k
  keeps : ∀ g ∈ rostersBefore r before, r.effectiveTimestamp < g.effectiveTimestamp →
    ∀ k, g.listsStore k → ActiveStore r t k → ActiveStore r t' k

/-- No roster applied before is newer, or `r` says the same as the newest one and lists every
active store of the newer ones. -/
def NotOlder (r : ApplyRequest) (before : List ApplyRequest) (t : Tables) : Prop :=
  (∀ g ∈ rostersBefore r before, g.effectiveTimestamp ≤ r.effectiveTimestamp) ∨
    ((∀ g ∈ newest (rostersBefore r before), ∀ k, r.listsStore k ↔ g.listsStore k) ∧
      ∀ g ∈ rostersBefore r before, r.effectiveTimestamp < g.effectiveTimestamp →
        ∀ k, g.listsStore k → ActiveStore r t k → r.listsStore k)

/-! ## The newest roster -/

theorem newest_append (requests : List ApplyRequest) (r : ApplyRequest) :
    newest (requests ++ [r]) = match newest requests with
      | none => some r
      | some b => if r.effectiveTimestamp < b.effectiveTimestamp then some b else some r := by
  rw [newest, List.foldl_append]
  rfl

theorem newest_isSome {requests : List ApplyRequest} (h : requests ≠ []) :
    (newest requests).isSome := by
  induction requests using List.reverseRecOn with
  | nil => exact absurd rfl h
  | append_singleton rest r _ =>
    rw [newest_append]
    split
    · rfl
    · split <;> rfl

/-- Nothing is newer than the newest one, which is one of them. -/
theorem newest_spec {requests : List ApplyRequest} {b : ApplyRequest}
    (h : newest requests = some b) :
    b ∈ requests ∧ ∀ g ∈ requests, g.effectiveTimestamp ≤ b.effectiveTimestamp := by
  induction requests using List.reverseRecOn generalizing b with
  | nil => cases h
  | append_singleton rest r ih =>
    rw [newest_append] at h
    cases hrest : newest rest with
    | none =>
      have hnil : rest = [] := by
        by_contra hne
        have := newest_isSome hne
        rw [hrest] at this
        cases this
      subst hnil
      cases h
      exact ⟨List.mem_singleton_self _, fun g hg => by rw [List.mem_singleton.mp hg]⟩
    | some c =>
      rw [hrest] at h
      obtain ⟨hc, hle⟩ := ih hrest
      simp only at h
      split at h
      · rename_i hlt
        cases h
        refine ⟨List.mem_append_left _ hc, fun g hg => ?_⟩
        rcases List.mem_append.mp hg with hg | hg
        · exact hle g hg
        · rw [List.mem_singleton.mp hg]
          exact le_of_lt hlt
      · rename_i hge
        cases h
        refine ⟨List.mem_append_right _ (List.mem_singleton_self _), fun g hg => ?_⟩
        rcases List.mem_append.mp hg with hg | hg
        · exact (hle g hg).trans (not_lt.mp hge)
        · rw [List.mem_singleton.mp hg]

/-! ## One roster -/

/-- After a roster exactly the stores it lists are active. -/
theorem applyStores_active {r : ApplyRequest} {appliedAt : Time} {t t' : Tables}
    {summary : ApplySummary} (h : applyStores (r.documentApply appliedAt) t = .ok (t', summary))
    (k : String × String) : ActiveStore r t' k ↔ r.listsStore k := by
  obtain ⟨t₁, h₁, rfl⟩ := applyStores_eq_ok h
  obtain ⟨-, h₁⟩ := require_bind_eq_ok.mp h₁
  rw [pure_eq_ok] at h₁
  constructor
  · rintro ⟨store, hstore, hkey, hactive⟩
    obtain ⟨q, -, hq⟩ := List.mem_map.mp hstore
    split at hq
    · rw [← hq] at hactive
      cases hactive
    · rename_i hdropped
      subst hq
      simp only [StoreRow.key, Prod.mk.injEq] at hkey
      simp only [StoreRow.isDropped, StoreRow.ofPortal, hactive, Bool.and_true, Bool.and_eq_true,
        decide_eq_true_eq, List.all_eq_true, not_and] at hdropped
      have hlisted := hdropped ⟨hkey.1, hkey.2.1⟩
      push Not at hlisted
      obtain ⟨b, hb, hbk⟩ := hlisted
      refine ⟨b, mem_of_mem_storeIncoming hb, ?_⟩
      rw [hbk, hkey.2.2.1, hkey.2.2.2]
  · rintro ⟨row, hrow, rfl⟩
    obtain ⟨x, hx, hbk⟩ := exists_storeIncoming hrow
    obtain ⟨⟨b, n⟩, hbmem, rfl⟩ := Table.exists_mem_zipIdx hx t.nextId
    have hstores : ∃ store ∈ t₁.stores, store.key = (r.source.retailerId, r.source.portalId,
        row.subchainId, row.sourceStoreId) ∧ store.isActive = true := by
      rw [StagedStore.key, StagedStore.key, Prod.mk.injEq] at hbk
      obtain ⟨store, hstore, hkey⟩ : ∃ store ∈ t₁.stores, store.key =
          (r.source.retailerId, r.source.portalId, b.subchainId, b.sourceStoreId) := by
        rw [← h₁]
        refine @Table.exists_mem_upsert _ _ _ _ StoreRow.key _ _ _ _ _ ?_ ?_ _ hbmem
        · exact fun _ => rfl
        · exact fun _ _ => rfl
      refine ⟨store, hstore, ?_, ?_⟩
      · rw [hkey, hbk.1, hbk.2]
      · rw [← h₁] at hstore
        rcases Table.mem_upsert hstore with ⟨-, hnone⟩ | ⟨_, _, _, _, _, rfl⟩ | ⟨_, _, rfl⟩
        · -- The key is addressed by the record, so the row is not an untouched one.
          exact absurd hkey.symm (Table.lookup_eq_none.mp hnone _ hbmem)
        · rfl
        · rfl
    obtain ⟨store, hstore, hkey, hactive⟩ := hstores
    refine ⟨store, List.mem_map.mpr ⟨store, hstore, if_neg ?_⟩, hkey, hactive⟩
    simp only [StoreRow.key, Prod.mk.injEq] at hkey
    simp only [StoreRow.isDropped, Bool.and_eq_true, List.all_eq_true, decide_eq_true_eq, not_and]
    intro _ hall
    refine hall b hx ?_
    rw [hbk, hkey.2.2.1, hkey.2.2.2]
    rfl

theorem apply_active {r : ApplyRequest} {t t' : Tables} {summary : ApplySummary}
    (happly : apply r t = .ok (t', summary)) (htype : r.documentType = .stores)
    (k : String × String) : ActiveStore r t' k ↔ r.listsStore k := by
  obtain ⟨family, hfamily, -, hwrite⟩ := apply_eq_ok happly
  rw [htype] at hfamily
  cases hfamily
  obtain ⟨written, hwritten, rfl⟩ := writeDocument_eq_ok hwrite
  exact applyStores_active hwritten k

/-! ## The result -/

/-- For every run of accepted applies and every roster that is accepted next: the active stores of
the portal are those of the newest roster applied so far, and no store of a newer roster was
deactivated, if and only if no roster of the portal applied before is newer, or the file says the
same as the newest one. -/
theorem roster_kept_iff (before : List ApplyRequest) (t : Tables)
    (_hrun : applyRun Tables.empty before = .ok t) (r : ApplyRequest) (t' : Tables)
    (summary : ApplySummary) (happly : apply r t = .ok (t', summary))
    (htype : r.documentType = .stores) :
    RosterKept r before t t' ↔ NotOlder r before t := by
  have hactive := apply_active happly htype
  constructor
  · intro hkept
    by_cases hall : ∀ g ∈ rostersBefore r before, g.effectiveTimestamp ≤ r.effectiveTimestamp
    · exact .inl hall
    refine .inr ⟨fun b hb k => ?_, fun g hg hlt k hk ht => ?_⟩
    · -- The newest one before is newer than `r`, so it is the newest one after it.
      push Not at hall
      obtain ⟨g, hg, hlt⟩ := hall
      have hle := (newest_spec hb).2 g hg
      have hnewest : b ∈ newest (rostersBefore r before ++ [r]) := by
        rw [newest_append, Option.mem_def.mp hb]
        simp only
        rw [if_pos (hlt.trans_le hle)]
        rfl
      exact (hactive k).symm.trans (hkept.reflects b hnewest k)
    · exact (hactive k).mp (hkept.keeps g hg hlt k hk ht)
  · intro hnot
    refine ⟨fun b hb k => ?_, fun g hg hlt k hk ht => ?_⟩
    · rw [hactive k]
      rw [newest_append] at hb
      cases hrest : newest (rostersBefore r before) with
      | none =>
        rw [hrest] at hb
        cases hb
        exact Iff.rfl
      | some c =>
        rw [hrest] at hb
        simp only at hb
        split at hb
        · rename_i hlt
          cases hb
          rcases hnot with hall | ⟨hsame, -⟩
          · exact absurd hlt (not_lt.mpr (hall b (newest_spec hrest).1))
          · exact hsame b hrest k
        · cases hb
          exact Iff.rfl
    · rw [hactive k]
      rcases hnot with hall | ⟨-, hlists⟩
      · exact absurd hlt (not_lt.mpr (hall g hg))
      · exact hlists g hg hlt k hk ht

/-! ## Two rosters of different subchains -/

/-- The default policy: one record at least, a drop of half at most. -/
def defaultPolicy : SnapshotPolicy :=
  ⟨1, fun incoming prior => decide (prior < 2 * (prior - incoming)), fun _ _ => ""⟩

/-- A roster with one store, declared at `time`. -/
def sampleRoster (fileId : FileId) (subchain store : String) (time clock : Time) (sha : String) :
    ApplyRequest where
  sourceFileId := fileId
  documentType := .stores
  source := ⟨1, 1, .stores, .applying, some time, some clock, clock, some sha⟩
  staging := { Staging.empty with
    stores := [⟨1, "7290000000001", subchain, store,
      ⟨none, none, none, none, "Store", none, none, none⟩⟩] }
  replayActive := false
  rebuildActive := false
  wallClock := clock
  policy := defaultPolicy
  limits := ⟨10, 10000, 10⟩
  usage := ⟨0, 0, 0, 0, 0⟩

def newerRoster : ApplyRequest := sampleRoster 1 "1" "17" 200 300 "aa"

/-- An older roster of another subchain. -/
def olderRoster : ApplyRequest := sampleRoster 2 "2" "18" 100 400 "bb"

/-- A later roster of another subchain. -/
def latestRoster : ApplyRequest := sampleRoster 2 "2" "18" 250 400 "bb"

theorem roster_kept_latest :
    let t := tablesAfter newerRoster Tables.empty
    RosterKept latestRoster [newerRoster] t (tablesAfter latestRoster t) := by
  obtain ⟨s₁, h₁⟩ := apply_tablesAfter (r := newerRoster) (t := Tables.empty) (by decide +kernel)
  obtain ⟨s₂, h₂⟩ := apply_tablesAfter (r := latestRoster)
    (t := tablesAfter newerRoster Tables.empty) (by decide +kernel)
  refine (roster_kept_iff _ _ (applyRun_singleton h₁) _ _ _ h₂ rfl).mpr (.inl ?_)
  decide +kernel

/-- The older roster of the other subchain is accepted and deactivates the store of the newer
one. -/
theorem not_roster_kept :
    ¬∀ (before : List ApplyRequest) (t : Tables), applyRun Tables.empty before = .ok t →
      ∀ (r : ApplyRequest) (t' : Tables) (summary : ApplySummary), apply r t = .ok (t', summary) →
        r.documentType = .stores → RosterKept r before t t' := by
  intro h
  obtain ⟨s₁, h₁⟩ := apply_tablesAfter (r := newerRoster) (t := Tables.empty) (by decide +kernel)
  obtain ⟨s₂, h₂⟩ := apply_tablesAfter (r := olderRoster)
    (t := tablesAfter newerRoster Tables.empty) (by decide +kernel)
  have hkept := h _ _ (applyRun_singleton h₁) _ _ _ h₂ rfl
  obtain ⟨store, hstore, hkey, hactive⟩ := hkept.keeps newerRoster
    (List.mem_filter.mpr ⟨List.mem_singleton_self _, rfl⟩) (by decide +kernel) ("1", "17") (by unfold ApplyRequest.listsStore; decide +kernel)
    (by unfold ActiveStore; decide +kernel)
  have hnot : ∀ store ∈ (tablesAfter olderRoster (tablesAfter newerRoster Tables.empty)).stores,
      store.key = (1, 1, "1", "17") → store.isActive = false := by
    decide +kernel
  exact Bool.noConfusion (hactive.symm.trans (hnot store hstore hkey))

end Makolet.Normalized
