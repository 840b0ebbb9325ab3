import Makolet.Normalized.HistoryAgreement
import Makolet.Normalized.Identities
import Makolet.Normalized.Watermarks

/-!
# Keys of the normalized tables

Primary and unique keys that every accepted apply keeps: surrogate ids of stores are drawn from one
counter, a store is unique under its natural key, and the current availability table has one row a
key. `keyed_of_applyRun` gives them for every state reached by accepted applies.
-/

set_option autoImplicit false

namespace Makolet.Normalized

open Makolet.Domain Makolet.Lib

structure Keyed (t : Tables) : Prop where
  storeIds : Table.UniqueOn StoreRow.id t.stores
  storeIds_lt : ∀ store ∈ t.stores, store.id < t.nextId
  storeKeys : Table.UniqueOn StoreRow.key t.stores
  availability : Table.UniqueOn Current.key t.availability.current

theorem Keyed.empty : Keyed Tables.empty where
  storeIds := List.nodup_nil
  storeIds_lt _ h := by cases h
  storeKeys := List.nodup_nil
  availability := List.nodup_nil

theorem Keyed.frame {t t' : Tables} (h : Keyed t) (hstores : t'.stores = t.stores)
    (havailability : Table.UniqueOn Current.key t'.availability.current)
    (hnext : t.nextId ≤ t'.nextId) : Keyed t' where
  storeIds := by rw [hstores]; exact h.storeIds
  storeIds_lt store hs := (h.storeIds_lt store (hstores ▸ hs)).trans_le hnext
  storeKeys := by rw [hstores]; exact h.storeKeys
  availability := havailability

theorem Keyed.identified {t : Tables} (h : Keyed t) :
    Identified StoreRow.id StoreRow.key t.stores t.nextId :=
  ⟨h.storeIds, h.storeIds_lt, h.storeKeys⟩

/-- A statement that keeps the identities keeps the keys of the stores. -/
theorem Keyed.keeps {t t' : Tables} (h : Keyed t) (hkeeps : KeepsIdentities t t')
    (havailability : Table.UniqueOn Current.key t'.availability.current) : Keyed t' := by
  obtain ⟨hids, hlt, hkeys⟩ := hkeeps.keyedStores h.identified
  exact ⟨hids, hlt, hkeys, havailability⟩

section Applies

variable {a : DocumentApply} {t t' : Tables} {summary : ApplySummary}

theorem reconcileAbsent_unique {ν π : Type} {fileId : FileId} {at' : Time} {missing : List Key}
    {value : ν} {details : π} {obs obs' : Observations ν π}
    (h : reconcileAbsent fileId at' missing value details obs = .ok obs')
    (hu : Table.UniqueOn Current.key obs.current) : Table.UniqueOn Current.key obs'.current := by
  rw [Table.UniqueOn, (reconcileAbsent_eq_ok h).2, List.map_map]
  have hsame : (Current.key ∘ fun c : Current ν π => if c.key ∈ missing then
      { c with value := value, sourceFileId := fileId, lastObservedAt := at' } else c) =
      Current.key := by
    funext c
    show (if c.key ∈ missing then _ else c : Current ν π).key = c.key
    split <;> rfl
  rw [hsame]
  exact hu

theorem Keyed.applyStores (h : Keyed t) (hstep : applyStores a t = .ok (t', summary)) :
    Keyed t' := by
  refine h.keeps (keepsIdentities_applyStores hstep) ?_
  rw [applyStores_frame hstep]
  exact h.availability

theorem Keyed.applyPrices (h : Keyed t) (hstep : applyPrices a t = .ok (t', summary)) :
    Keyed t' := by
  refine h.keeps (keepsIdentities_applyPrices hstep) ?_
  obtain ⟨t₁, t₂, t₃, maps, mapped, prices, availability, final, hstores, hitems, -, hmapped,
    hgtins, -, havailability, rfl, hdelta, hfull⟩ := applyPrices_eq_ok hstep
  have hold : t₃.availability = t.availability := by
    rw [matchExactGtins_frame hgtins, upsertRetailerItems_frame hitems,
      upsertPriceStores_frame hstores]
  obtain ⟨-, -, -, hcurrent⟩ := applyIncoming_eq_ok havailability
  have hmid := upsertCurrent_unique hcurrent (hold ▸ h.availability)
    (uniqueOn_map_availability (materializeMappedPriceIncoming_unique hmapped))
  cases hf : a.isFull with
  | false =>
    rw [hdelta hf]
    exact hmid
  | true => exact reconcileAbsent_unique (hfull hf) hmid

theorem Keyed.applyPromotions (h : Keyed t) (hstep : applyPromotions a t = .ok (t', summary)) :
    Keyed t' := by
  refine h.keeps (keepsIdentities_applyPromotions hstep) ?_
  rw [applyPromotions_frame hstep]
  exact h.availability

end Applies

/-- Every accepted apply keeps the keys. -/
theorem Keyed.apply {r : ApplyRequest} {t t' : Tables} {summary : ApplySummary} (h : Keyed t)
    (hstep : Makolet.Normalized.apply r t = .ok (t', summary)) : Keyed t' := by
  obtain ⟨family, -, -, hwrite⟩ := apply_eq_ok hstep
  obtain ⟨written, hwritten, rfl⟩ := writeDocument_eq_ok hwrite
  have hclaimed : Keyed (claimContent r t).1 := by
    rw [claimContent_frame]
    exact h.frame rfl h.availability (le_refl _)
  have hdone : Keyed written := by
    cases family with
    | stores => exact hclaimed.applyStores hwritten
    | prices => exact hclaimed.applyPrices hwritten
    | promotions => exact hclaimed.applyPromotions hwritten
  exact hdone.frame rfl hdone.availability (le_refl _)

/-- A property that every accepted apply keeps holds after every accepted run. -/
theorem applyRun_invariant {P : Tables → Prop}
    (hstep : ∀ r t t' summary, P t → apply r t = .ok (t', summary) → P t')
    {requests : List ApplyRequest} {t t' : Tables} (h : P t)
    (hrun : applyRun t requests = .ok t') : P t' := by
  induction requests generalizing t with
  | nil =>
    cases hrun
    exact h
  | cons r rest ih =>
    obtain ⟨m, hm, hrest⟩ := bind_eq_ok.mp hrun
    obtain ⟨summary, happly⟩ := exists_of_map_fst hm
    exact ih (hstep r t m summary h happly) hrest

theorem applyRun_singleton {r : ApplyRequest} {t t' : Tables} {summary : ApplySummary}
    (h : apply r t = .ok (t', summary)) : applyRun t [r] = .ok t' := by
  show (apply r t).map Prod.fst >>= _ = _
  rw [h]
  rfl

theorem keyed_of_applyRun {requests : List ApplyRequest} {t : Tables}
    (hrun : applyRun Tables.empty requests = .ok t) : Keyed t :=
  applyRun_invariant (fun _ _ _ _ h hstep => h.apply hstep) Keyed.empty hrun

end Makolet.Normalized
