import Makolet.Normalized.PromotionVersions
import Makolet.Normalized.Watermarks

/-!
# Promotions that are observed again

The invariant of a run: versions form chains, and an open version says what the last record of its
key said, whose fingerprint it has. It decides what a record that is observed again does to the
chain, and the run lemma carries it over every accepted run.
-/

set_option autoImplicit false

namespace Makolet.Normalized

open Makolet.Domain Makolet.Lib

variable {digest : FingerprintPayload → String} {pool : List PromotionRecord}
  {o : PromotionKey → Option PromotionRecord}

/-! ## The invariant -/

/-- The version was opened or confirmed by the record. -/
structure StatedBy (digest : FingerprintPayload → String) (t : Tables) (v : Promotion)
    (e : PromotionRecord) : Prop where
  fingerprint : v.fingerprint = digest e.payload
  scope : v.key.sourceScopeStoreCode = e.scopeStore
  holds : Holds t v (e.staged digest)

/-- Versions form chains, and every open version says what the last record of its key said. -/
structure Versioned (digest : FingerprintPayload → String) (pool : List PromotionRecord)
    (o : PromotionKey → Option PromotionRecord) (t : Tables) : Prop where
  keyed : IdentityKeyed t
  ids : Table.UniqueOn Promotion.id t.promotions
  ids_lt : ∀ v ∈ t.promotions, v.id < t.nextId
  items_lt : ∀ row ∈ t.promotionItems, row.promotionId < t.nextId
  stores_lt : ∀ row ∈ t.promotionStores, row.1 < t.nextId
  clubs_lt : ∀ row ∈ t.promotionClubs, row.1 < t.nextId
  chain : t.promotions.Pairwise Promotion.Before
  current : ∀ v ∈ t.promotions, v.isOpen = true →
    ∃ e ∈ pool, o v.key = some e ∧ StatedBy digest t v e

/-- Every version that is closed was closed at the instant or before. -/
def ClosedBy (instant : Time) (promotions : List Promotion) : Prop :=
  ∀ v ∈ promotions, ∀ e, v.validTo = some e → e ≤ instant

theorem Versioned.empty : Versioned digest pool (fun _ => none) Tables.empty where
  keyed := IdentityKeyed.empty
  ids := List.nodup_nil
  ids_lt _ h := by cases h
  items_lt _ h := by cases h
  stores_lt _ h := by cases h
  clubs_lt _ h := by cases h
  chain := List.Pairwise.nil
  current _ h := by cases h

/-- A document of another family. -/
theorem Versioned.frame {t t' : Tables} (h : Versioned digest pool o t)
    (hkeeps : KeepsIdentities t t') (hpromotions : t'.promotions = t.promotions)
    (hitems : t'.promotionItems = t.promotionItems)
    (hstores : t'.promotionStores = t.promotionStores)
    (hclubs : t'.promotionClubs = t.promotionClubs) : Versioned digest pool o t' where
  keyed := hkeeps.keyed h.keyed
  ids := hpromotions ▸ h.ids
  ids_lt v hv := (h.ids_lt v (hpromotions ▸ hv)).trans_le hkeeps.nextId
  items_lt row hr := (h.items_lt row (hitems ▸ hr)).trans_le hkeeps.nextId
  stores_lt row hr := (h.stores_lt row (hstores ▸ hr)).trans_le hkeeps.nextId
  clubs_lt row hr := (h.clubs_lt row (hclubs ▸ hr)).trans_le hkeeps.nextId
  chain := hpromotions ▸ h.chain
  current v hv hopen := by
    obtain ⟨e, he, ho, hstated⟩ := h.current v (hpromotions ▸ hv) hopen
    exact ⟨e, he, ho, hstated.fingerprint, hstated.scope,
      hstated.holds.mono hkeeps hitems hstores hclubs⟩

/-! ## Chains -/

section Chains

variable {instant : Time} {u : Promotion → Promotion} {promotions : List Promotion}

theorem Advances.pairwise (hu : Advances instant u) (h : promotions.Pairwise Promotion.Before) :
    (promotions.map u).Pairwise Promotion.Before := by
  refine List.pairwise_map.mpr (h.imp fun {a b} hbefore hkey => ?_)
  rw [(hu.same a).2.1, (hu.same b).2.1] at hkey
  obtain ⟨e, he, hle⟩ := hbefore hkey
  refine ⟨e, hu.closed a e he, ?_⟩
  rw [(hu.same b).2.2]
  exact hle

theorem Advances.closedBy (hu : Advances instant u) (h : ClosedBy instant promotions) :
    ClosedBy instant (promotions.map u) := by
  intro v hv e he
  obtain ⟨r, hr, rfl⟩ := List.mem_map.mp hv
  rcases hu.closes r e he with hold | rfl
  · exact h r hr e hold
  · exact le_refl e

theorem Advances.map_id (hu : Advances instant u) :
    (promotions.map u).map Promotion.id = promotions.map Promotion.id := by
  rw [List.map_map]
  exact List.map_congr_left fun r _ => (hu.same r).1

theorem Advances.map_key (hu : Advances instant u) :
    (promotions.map u).map Promotion.key = promotions.map Promotion.key := by
  rw [List.map_map]
  exact List.map_congr_left fun r _ => (hu.same r).2.1

variable {p : ApplyParameters} {incoming : List StagedPromotion} {n : Nat}

/-- Versions inserted for keys without an open one extend the chains. -/
theorem pairwise_insert (hunique : Table.UniqueOn (StagedPromotion.key p) incoming)
    (h : promotions.Pairwise Promotion.Before) (hclosed : ClosedBy p.appliedAt promotions) :
    (promotions ++ ((freshPromotions p incoming promotions).zipIdx n).map (newVersion p)).Pairwise
      Promotion.Before := by
  refine List.pairwise_append.mpr ⟨h, List.pairwise_map.mpr ?_, ?_⟩
  · -- Two inserted versions have different keys.
    have hfresh : Table.UniqueOn (StagedPromotion.key p) (freshPromotions p incoming promotions) :=
      (List.filter_sublist.map (StagedPromotion.key p)).nodup hunique
    exact (List.pairwise_map.mp (hfresh.zipIdx n)).imp fun hne hkey => absurd hkey hne
  · -- An inserted version starts now, and every earlier one of its key is closed by now.
    intro a ha _ hb hkey
    obtain ⟨b, hfresh, rfl⟩ := List.mem_map.mp hb
    have hnone := (mem_freshPromotions.mp (List.fst_mem_of_mem_zipIdx hfresh)).2 a ha hkey
    cases hstop : a.validTo with
    | none =>
      rw [Promotion.isOpen, hstop] at hnone
      cases hnone
    | some e => exact ⟨e, rfl, hclosed a ha e hstop⟩

theorem closedBy_insert (hclosed : ClosedBy p.appliedAt promotions) :
    ClosedBy p.appliedAt
      (promotions ++ ((freshPromotions p incoming promotions).zipIdx n).map (newVersion p)) := by
  intro v hv e he
  rcases List.mem_append.mp hv with hold | hnew
  · exact hclosed v hold e he
  · obtain ⟨b, -, rfl⟩ := List.mem_map.mp hnew
    cases he

end Chains

/-! ## The records of a file -/

section Records

variable {f : PromotionFile digest}

/-- Every incoming row is staged from the record that counts for its key. -/
theorem PromotionFile.recordOf_of_incoming {b : StagedPromotion}
    (hb : b ∈ promotionIncoming f.document.staging) :
    ∃ e ∈ f.records, f.recordOf (b.key f.document.parameters) = some e ∧ e.staged digest = b := by
  have hlookup := Table.lookup_of_mem (promotionIncoming_unique f.document.parameters _) hb
  have hstaged := mem_of_mem_promotionIncoming hb
  rw [f.staged] at hstaged
  obtain ⟨e, he, heb⟩ := List.mem_map.mp hstaged
  have hsome : (f.records.find? fun e => decide (e.staged digest = b)).isSome :=
    List.find?_isSome.mpr ⟨e, he, decide_eq_true heb⟩
  obtain ⟨c, hc⟩ := Option.isSome_iff_exists.mp hsome
  have hcb := List.find?_some hc
  refine ⟨c, List.mem_of_find?_eq_some hc, ?_, of_decide_eq_true hcb⟩
  rw [PromotionFile.recordOf, hlookup]
  exact hc

theorem PromotionFile.recordOf_eq_none {k : PromotionKey}
    (h : ∀ b ∈ promotionIncoming f.document.staging, b.key f.document.parameters ≠ k) :
    f.recordOf k = none := by
  rw [PromotionFile.recordOf, Table.lookup_eq_none.mpr h]
  rfl

/-- An incoming row names each item once. -/
theorem distinctItems_of_incoming {b : StagedPromotion}
    (hb : b ∈ promotionIncoming f.document.staging) :
    (b.items.map StagedPromotionItem.sourceItemCode).Nodup := by
  obtain ⟨e, -, -, rfl⟩ := PromotionFile.recordOf_of_incoming hb
  exact e.distinctItems

/-- A version of the record's key and fingerprint says what the record says. -/
theorem StatedBy.holds_of_fingerprint {t : Tables} {v : Promotion} {e e' : PromotionRecord}
    (hstated : StatedBy digest t v e)
    (hcollision : digest e.payload = digest e'.payload → e.payload = e'.payload)
    (hscope : v.key.sourceScopeStoreCode = e'.scopeStore)
    (hprint : v.fingerprint = digest e'.payload) : Holds t v (e'.staged digest) :=
  hstated.holds.of_sameContent (sameContent_of_payload
    (hcollision (hstated.fingerprint.symm.trans hprint)) (hstated.scope.symm.trans hscope))

end Records

/-! ## One promotion file -/

section File

variable {f : PromotionFile digest} {t t' t₂ t₃ : Tables} {summary : ApplySummary}

/-- Every version before the file, and every one that the file inserts. -/
theorem WritesVersions.mem_cases {a : DocumentApply} (hwrites : WritesVersions a t t₂ t₃)
    {v : Promotion} (hv : v ∈ t₃.promotions) :
    (∃ r ∈ t.promotions,
        v = refreshPromotion a.parameters (promotionIncoming a.staging) r) ∨
      ∃ b ∈ promotionIncoming a.staging, ∃ n, t₂.nextId ≤ n ∧
        n < t₃.nextId ∧ v = newVersion a.parameters (b, n) := by
  rw [hwrites.written] at hv ⊢
  rcases List.mem_append.mp hv with hold | hnew
  · obtain ⟨r, hr, rfl⟩ := List.mem_map.mp hold
    exact .inl ⟨r, hr, rfl⟩
  · obtain ⟨⟨b, n⟩, hb, rfl⟩ := List.mem_map.mp hnew
    exact .inr ⟨b, (mem_freshPromotions.mp (List.fst_mem_of_mem_zipIdx hb)).1, n,
      List.le_snd_of_mem_zipIdx hb, List.snd_lt_add_of_mem_zipIdx hb, rfl⟩

theorem WritesVersions.ids {a : DocumentApply} (hwrites : WritesVersions a t t₂ t₃)
    (hids : Table.UniqueOn Promotion.id t.promotions)
    (hlt : ∀ v ∈ t.promotions, v.id < t.nextId) :
    Table.UniqueOn Promotion.id t₃.promotions ∧ ∀ v ∈ t₃.promotions, v.id < t₃.nextId := by
  have hnext : t₂.nextId ≤ t₃.nextId := by
    rw [hwrites.written]
    exact Nat.le_add_right _ _
  constructor
  · have hnew : ∀ bs : List (StagedPromotion × Nat),
        (bs.map (newVersion a.parameters)).map Promotion.id = bs.map Prod.snd := by
      intro bs
      rw [List.map_map]
      exact List.map_congr_left fun b _ => rfl
    rw [hwrites.written, Table.UniqueOn, List.map_append, refreshPromotion_advances _ _ |>.map_id,
      hnew, List.nodup_append]
    refine ⟨hids, ?_, ?_⟩
    · rw [List.zipIdx_map_snd]
      exact List.nodup_range'
    · rintro _ ha _ hb rfl
      obtain ⟨r, hr, hra⟩ := List.mem_map.mp ha
      obtain ⟨b, hb, hba⟩ := List.mem_map.mp hb
      have hle := List.le_snd_of_mem_zipIdx hb
      have hold := hlt r hr
      rw [show r.id = b.2 from hra.trans hba.symm] at hold
      exact Nat.lt_irrefl _ (hold.trans_le (hwrites.keeps.nextId.trans hle))
  · intro v hv
    rcases hwrites.mem_cases hv with ⟨r, hr, rfl⟩ | ⟨b, -, n, -, hn, rfl⟩
    · rw [((refreshPromotion_advances _ _).same r).1]
      exact (hlt r hr).trans_le (hwrites.keeps.nextId.trans hnext)
    · exact hn

theorem WritesVersions.keepsIdentities {a : DocumentApply} (hwrites : WritesVersions a t t₂ t₃) :
    KeepsIdentities t₂ t₃ := by
  rw [hwrites.written]
  exact .of_eq rfl rfl (Nat.le_add_right _ _)

theorem WritesVersions.relations {a : DocumentApply} (hwrites : WritesVersions a t t₂ t₃) :
    t₃.promotionItems = t.promotionItems ∧ t₃.promotionStores = t.promotionStores ∧
      t₃.promotionClubs = t.promotionClubs := by
  rw [hwrites.written]
  exact ⟨hwrites.promotionItems, hwrites.promotionStores, hwrites.promotionClubs⟩

/-- After the relations are attached, an open version says what the last record of its key said. -/
theorem Versioned.stated_attached (h : Versioned digest pool o t)
    (hpool : ∀ e ∈ f.records, e ∈ pool)
    (hcollision : ∀ a ∈ pool, ∀ b ∈ pool, digest a.payload = digest b.payload →
      a.payload = b.payload)
    (hwrites : WritesVersions f.document t t₂ t₃) {v : Promotion} (hv : v ∈ t₃.promotions)
    (hopen : v.isOpen = true) :
    ∃ e ∈ pool, observeRecords o (.promotions f) v.key = some e ∧
      StatedBy digest (attachPromotionRelations f.document.parameters
        (promotionIncoming f.document.staging) t₃) v e := by
  have hkeeps := hwrites.keeps.trans hwrites.keepsIdentities
  have hkeyed := hkeeps.keyed h.keyed
  obtain ⟨hids, -⟩ := hwrites.ids h.ids h.ids_lt
  have hunique := promotionIncoming_unique f.document.parameters f.document.staging
  obtain ⟨hitems, hstores, hclubs⟩ := hwrites.relations
  have hknown : ∀ b ∈ promotionIncoming f.document.staging,
      Known t₃ (b.key f.document.parameters) b := fun b hb =>
    (hwrites.known b (mem_of_mem_promotionIncoming hb)).mono hwrites.keepsIdentities
  rcases hwrites.mem_cases hv with ⟨r, hr, rfl⟩ | ⟨b, hb, n, hn, -, rfl⟩
  · rcases refreshPromotion_cases f.document.parameters
      (promotionIncoming f.document.staging) r with
      ⟨hsame, hnone⟩ | ⟨b, hlookup, hrOpen, ⟨hprint, hsame⟩ | ⟨-, hsame⟩⟩
    · -- No incoming row addresses the version.
      rw [hsame] at hopen hv ⊢
      have hnone := hnone.resolve_left (by rw [hopen]; exact Bool.noConfusion)
      have hnone := Table.lookup_eq_none.mp hnone
      obtain ⟨e, he, ho, hstated⟩ := h.current r hr hopen
      refine ⟨e, he, ?_, hstated.fingerprint, hstated.scope, ?_⟩
      · show (f.recordOf r.key).or (o r.key) = some e
        rw [PromotionFile.recordOf_eq_none hnone, ho]
        rfl
      · exact holds_attach_other hkeyed hids hv hnone
          (hstated.holds.mono hkeeps hitems hstores hclubs)
    · -- The version is confirmed: its relations are already those of the record.
      have hb := Table.mem_of_lookup hlookup
      have hkey := Table.key_of_lookup hlookup
      obtain ⟨e, he, ho, hstated⟩ := h.current r hr hrOpen
      obtain ⟨e', he', hrecord, rfl⟩ := PromotionFile.recordOf_of_incoming hb
      have hscope : r.key.sourceScopeStoreCode = e'.scopeStore := by
        rw [← hkey]
        rfl
      have hholds := (hstated.holds_of_fingerprint (hcollision e he e' (hpool e' he')) hscope
        hprint).mono hkeeps hitems hstores hclubs
      rw [hsame] at hv hopen ⊢
      refine ⟨e', hpool e' he', ?_, hprint, hscope, ?_⟩
      · show (f.recordOf r.key).or (o r.key) = some e'
        rw [← hkey, hrecord]
        rfl
      · exact holds_attach hkeyed hids hunique hb hv hopen hkey.symm (distinctItems_of_incoming hb)
          hholds.terms hholds.known (fun row hrow hid => (hholds.items row hid).mp hrow)
          (fun id => (hholds.stores id).mp) (fun club => (hholds.clubs club).mp)
    · -- The version was closed for another fingerprint.
      rw [hsame] at hopen
      cases hopen
  · -- A new version has no relations yet: its id is above every id in use.
    obtain ⟨e', he', hrecord, rfl⟩ := PromotionFile.recordOf_of_incoming hb
    have hfresh : ∀ {i}, i < t.nextId → i ≠ n := fun hi hin =>
      Nat.lt_irrefl _ ((hin ▸ hi).trans_le (hwrites.keeps.nextId.trans hn))
    refine ⟨e', hpool e' he', ?_, rfl, rfl, ?_⟩
    · show (f.recordOf ((e'.staged digest).key f.document.parameters)).or _ = some e'
      rw [hrecord]
      rfl
    · refine holds_attach hkeyed hids hunique hb hv rfl rfl e'.distinctItems rfl (hknown _ hb) ?_ ?_
        ?_
      · intro row hrow hid
        exact absurd hid (hfresh (h.items_lt row (hitems ▸ hrow)))
      · intro id hrow
        exact absurd rfl (hfresh (h.stores_lt _ (hstores ▸ hrow)))
      · intro club hrow
        exact absurd rfl (hfresh (h.clubs_lt _ (hclubs ▸ hrow)))

/-- The step lemma: an accepted promotion file keeps the invariant. -/
theorem Versioned.applyPromotions (h : Versioned digest pool o t)
    (hpool : ∀ e ∈ f.records, e ∈ pool)
    (hcollision : ∀ a ∈ pool, ∀ b ∈ pool, digest a.payload = digest b.payload →
      a.payload = b.payload)
    (hclosed : ClosedBy f.document.parameters.appliedAt t.promotions)
    (hstep : Makolet.Normalized.applyPromotions f.document t = .ok (t', summary)) :
    Versioned digest pool (observeRecords o (.promotions f)) t' ∧
      ClosedBy f.document.parameters.appliedAt t'.promotions := by
  obtain ⟨t₂, t₃, c, hwrites, hc, hcOpen, rfl⟩ := applyPromotions_writes hstep
  have hkeeps := hwrites.keeps.trans hwrites.keepsIdentities
  have hkeyed := hkeeps.keyed h.keyed
  have hu := refreshPromotion_advances f.document.parameters
    (promotionIncoming f.document.staging)
  obtain ⟨hids, hlt⟩ := hwrites.ids h.ids h.ids_lt
  have hchain : t₃.promotions.Pairwise Promotion.Before := by
    rw [hwrites.written]
    exact pairwise_insert (promotionIncoming_unique _ _) (hu.pairwise h.chain)
      (hu.closedBy hclosed)
  have hclosed₃ : ClosedBy f.document.parameters.appliedAt t₃.promotions := by
    rw [hwrites.written]
    exact closedBy_insert (hu.closedBy hclosed)
  obtain ⟨hitems, hstores, hclubs⟩ := hwrites.relations
  have hrows := @attachPromotionRelations_lt f.document.parameters
    (promotionIncoming f.document.staging) t₃ t₃.nextId hlt hkeyed
    (fun row hr => (h.items_lt row (hitems ▸ hr)).trans_le hkeeps.nextId)
    (fun row hr => (h.stores_lt row (hstores ▸ hr)).trans_le hkeeps.nextId)
    (fun row hr => (h.clubs_lt row (hclubs ▸ hr)).trans_le hkeeps.nextId)
  refine ⟨⟨⟨hkeyed.items, hkeyed.stores⟩, ?_, ?_, hrows.1, hrows.2.1, hrows.2.2,
    hc.pairwise hchain, ?_⟩, hc.closedBy hclosed₃⟩
  · rw [Table.UniqueOn, hc.map_id]
    exact hids
  · intro v hv
    obtain ⟨r, hr, rfl⟩ := List.mem_map.mp hv
    rw [(hc.same r).1]
    exact hlt r hr
  · -- What the absence update leaves open it leaves as it was.
    intro v hv hopen
    obtain ⟨r, hr, rfl⟩ := List.mem_map.mp hv
    have hsame := hcOpen r hopen
    rw [hsame] at hopen ⊢
    obtain ⟨e, he, ho, hstated⟩ := h.stated_attached hpool hcollision hwrites hr hopen
    exact ⟨e, he, ho, hstated.fingerprint, hstated.scope,
      hstated.holds.mono (.of_eq rfl rfl (le_refl _)) rfl rfl rfl⟩

/-- The keys of the versions after a file: those before it, and those that it inserts. -/
theorem applyPromotions_keys {a : DocumentApply} (hstep : applyPromotions a t = .ok (t', summary)) :
    t'.promotions.map Promotion.key = t.promotions.map Promotion.key ++
      (freshPromotions a.parameters (promotionIncoming a.staging)
        (t.promotions.map (refreshPromotion a.parameters (promotionIncoming a.staging)))).map
          (StagedPromotion.key a.parameters) := by
  obtain ⟨t₂, t₃, c, hwrites, hc, -, rfl⟩ := applyPromotions_writes hstep
  have hnew : ∀ bs : List (StagedPromotion × Nat),
      (bs.map (newVersion a.parameters)).map Promotion.key =
        (bs.map Prod.fst).map (StagedPromotion.key a.parameters) := by
    intro bs
    rw [List.map_map, List.map_map]
    exact List.map_congr_left fun b _ => rfl
  show (t₃.promotions.map c).map Promotion.key = _
  rw [hc.map_key, hwrites.written, List.map_append,
    (refreshPromotion_advances a.parameters (promotionIncoming a.staging)).map_key, hnew,
    List.zipIdx_map_fst]

/-- A record that is observed again opens no version exactly when its fingerprint is that of the
current version. -/
theorem Versioned.versionCount_iff (h : Versioned digest pool o t)
    (hstep : Makolet.Normalized.applyPromotions f.document t = .ok (t', summary))
    {b : StagedPromotion} {v : Promotion} (hobserved : Reobserves f t b v) :
    versionCount t' v.key = versionCount t v.key ↔ v.fingerprint = b.fingerprint := by
  have hunique := promotionIncoming_unique f.document.parameters f.document.staging
  have hlookup : Table.lookup (StagedPromotion.key f.document.parameters)
      (promotionIncoming f.document.staging) v.key = some b := by
    rw [hobserved.key]
    exact Table.lookup_of_mem hunique hobserved.incoming
  rw [versionCount, versionCount, applyPromotions_keys hstep, List.count_append,
    Nat.add_eq_left, List.count_eq_zero]
  constructor
  · intro hnot
    by_contra hne
    refine hnot (List.mem_map.mpr ⟨b, mem_freshPromotions.mpr ⟨hobserved.incoming, ?_⟩,
      hobserved.key.symm⟩)
    -- The file closes the current version, and the chain has no other open one.
    intro r hr hkey
    obtain ⟨w, hw, rfl⟩ := List.mem_map.mp hr
    rw [((refreshPromotion_advances _ _).same w).2.1] at hkey
    rcases refreshPromotion_cases f.document.parameters
      (promotionIncoming f.document.staging) w with
      ⟨hsame, hclosed | hnone⟩ | ⟨c, hc, hopen, ⟨hprint, hsame⟩ | ⟨-, hsame⟩⟩
    · rw [hsame]
      exact hclosed
    · rw [hkey, ← hobserved.key, hlookup] at hnone
      cases hnone
    · have hwv : w = v := open_unique h.chain hw hobserved.version hopen hobserved.current
        (hkey.trans hobserved.key.symm)
      subst hwv
      rw [hlookup] at hc
      cases hc
      exact absurd hprint hne
    · rw [hsame]
      rfl
  · intro hprint hmem
    obtain ⟨c, hc, hkey⟩ := List.mem_map.mp hmem
    obtain ⟨-, hnone⟩ := mem_freshPromotions.mp hc
    have hclosed := hnone _ (List.mem_map_of_mem hobserved.version) (by
      rw [((refreshPromotion_advances _ _).same v).2.1]
      exact hkey.symm)
    rcases refreshPromotion_cases f.document.parameters
      (promotionIncoming f.document.staging) v with
      ⟨hsame, -⟩ | ⟨d, hd, hopen, ⟨-, hsame⟩ | ⟨hne, -⟩⟩
    · rw [hsame, hobserved.current] at hclosed
      cases hclosed
    · have hopen' := hobserved.current
      rw [hsame] at hclosed
      exact Bool.noConfusion (hopen'.symm.trans hclosed)
    · rw [hlookup] at hd
      cases hd
      exact hne hprint

/-- Over the invariant, a file opens no version for a record that says the same exactly when the
record is written like the last one of its key. -/
theorem Versioned.opensNoVersion_iff {before : List (DocumentStep digest)}
    (h : Versioned digest pool (lastRecord before) t) (hpool : ∀ e ∈ f.records, e ∈ pool)
    (hcollision : ∀ a ∈ pool, ∀ b ∈ pool, digest a.payload = digest b.payload →
      a.payload = b.payload)
    (hstep : Makolet.Normalized.applyPromotions f.document t = .ok (t', summary)) :
    OpensNoVersion f t t' ↔ WritesAsBefore before f t := by
  refine forall_congr' fun b => forall_congr' fun v => forall_congr' fun hobserved =>
    forall_congr' fun hholds => ?_
  obtain ⟨e, he, hlast, hstated⟩ := h.current v hobserved.version hobserved.current
  obtain ⟨e', he', hrecord, rfl⟩ := PromotionFile.recordOf_of_incoming hobserved.incoming
  have hsame := hstated.holds.sameContent h.keyed hholds
  rw [← hobserved.key] at hrecord
  calc versionCount t' v.key = versionCount t v.key
      ↔ v.fingerprint = digest e'.payload := h.versionCount_iff hstep hobserved
    _ ↔ e.payload = e'.payload := by
        rw [hstated.fingerprint]
        exact ⟨hcollision e he e' (hpool e' he'), congrArg digest⟩
    _ ↔ WrittenAlike e e' := payload_eq_iff hsame
    _ ↔ _ := by
        rw [hlast, hrecord]
        simp

theorem Versioned.fingerprintsAgree (h : Versioned digest pool o t)
    (hpool : ∀ e ∈ f.records, e ∈ pool)
    (hcollision : ∀ a ∈ pool, ∀ b ∈ pool, digest a.payload = digest b.payload →
      a.payload = b.payload) : FingerprintsAgree f t := by
  intro b v hobserved hprint
  obtain ⟨e, he, -, hstated⟩ := h.current v hobserved.version hobserved.current
  obtain ⟨e', he', -, rfl⟩ := PromotionFile.recordOf_of_incoming hobserved.incoming
  refine hstated.holds_of_fingerprint (hcollision e he e' (hpool e' he')) ?_ hprint
  rw [hobserved.key]
  rfl

end File

/-! ## Runs -/

/-- The run lemma: every accepted run keeps the invariant. -/
theorem Versioned.runDocuments {steps : List (DocumentStep digest)} {t t' : Tables}
    (h : Versioned digest pool o t) (hpool : ∀ s ∈ steps, ∀ e ∈ s.records, e ∈ pool)
    (hcollision : ∀ a ∈ pool, ∀ b ∈ pool, digest a.payload = digest b.payload →
      a.payload = b.payload)
    (hincrease : PromotionInstantsIncrease steps)
    (hclosed : ∀ s ∈ steps, ∀ instant, s.promotionInstant = some instant →
      ClosedBy instant t.promotions)
    (hrun : Makolet.Normalized.runDocuments t steps = .ok t') :
    Versioned digest pool (steps.foldl observeRecords o) t' := by
  induction steps generalizing t o with
  | nil =>
    cases hrun
    exact h
  | cons s rest ih =>
    obtain ⟨m, hm, hrest⟩ := bind_eq_ok.mp hrun
    have hpool' : ∀ s ∈ rest, ∀ e ∈ s.records, e ∈ pool := fun s hs =>
      hpool s (List.mem_cons_of_mem _ hs)
    cases s with
    | stores a =>
      obtain ⟨summary, hstep⟩ := exists_of_map_fst hm
      have hframe := applyStores_frame hstep
      have hsame : observeRecords o (.stores a : DocumentStep digest) = o := rfl
      rw [List.foldl_cons, hsame]
      refine ih (h.frame (keepsIdentities_applyStores hstep) ?_ ?_ ?_ ?_) hpool' hincrease
        (fun s hs instant hi => ?_) hrest <;> rw [hframe]
      exact hclosed s (List.mem_cons_of_mem _ hs) instant hi
    | prices a =>
      obtain ⟨summary, hstep⟩ := exists_of_map_fst hm
      have hframe := applyPrices_frame hstep
      have hsame : observeRecords o (.prices a : DocumentStep digest) = o := rfl
      rw [List.foldl_cons, hsame]
      refine ih (h.frame (keepsIdentities_applyPrices hstep) ?_ ?_ ?_ ?_) hpool' hincrease
        (fun s hs instant hi => ?_) hrest <;> rw [hframe]
      exact hclosed s (List.mem_cons_of_mem _ hs) instant hi
    | promotions f =>
      -- A version that this file closes is closed by the instant of every later one.
      obtain ⟨summary, hstep⟩ := exists_of_map_fst hm
      obtain ⟨hfirst, hincrease'⟩ := List.pairwise_cons.mp hincrease
      obtain ⟨hnext, hclosed'⟩ := h.applyPromotions (hpool _ List.mem_cons_self) hcollision
        (hclosed _ List.mem_cons_self _ rfl) hstep
      refine ih hnext hpool' hincrease' (fun s hs instant hi v hv e he => ?_) hrest
      exact (hclosed' v hv e he).trans
        (hfirst instant (List.mem_filterMap.mpr ⟨s, hs, hi⟩)).le

/-- Every state of a run satisfies the invariant. -/
theorem versioned_of_run {before after : List (DocumentStep digest)} {t : Tables}
    (hincrease : PromotionInstantsIncrease (before ++ after))
    (hcollision : CollisionFree (before ++ after))
    (hrun : runDocuments Tables.empty before = .ok t) :
    Versioned digest ((before ++ after).flatMap DocumentStep.records) (lastRecord before) t := by
  refine Versioned.empty.runDocuments (fun s hs e he => ?_) hcollision ?_ ?_ hrun
  · exact List.mem_flatMap.mpr ⟨s, List.mem_append_left _ hs, he⟩
  · rw [PromotionInstantsIncrease, List.filterMap_append] at hincrease
    exact (List.pairwise_append.mp hincrease).1
  · intro _ _ _ _ v hv
    cases hv

theorem runDocuments_split {before after : List (DocumentStep digest)} {t t' : Tables}
    (h : runDocuments t (before ++ after) = .ok t') :
    ∃ m, runDocuments t before = .ok m ∧ runDocuments m after = .ok t' := by
  induction before generalizing t with
  | nil => exact ⟨t, rfl, h⟩
  | cons s rest ih =>
    obtain ⟨m, hm, hrest⟩ := bind_eq_ok.mp h
    obtain ⟨n, hbefore, hafter⟩ := ih hrest
    exact ⟨n, bind_eq_ok.mpr ⟨m, hm, hbefore⟩, hafter⟩

/-! ## The version chain -/

/-- Every state of the run has version chains, and every version with the fingerprint of a record
says what the record says. -/
structure VersionsSound (steps : List (DocumentStep digest)) : Prop where
  chain : ∀ before after t, steps = before ++ after → runDocuments Tables.empty before = .ok t →
    VersionChain t
  fingerprints : ∀ before f after t, steps = before ++ .promotions f :: after →
    runDocuments Tables.empty before = .ok t → FingerprintsAgree f t

/-- Versions also follow the content: an unchanged promotion opens none. -/
structure VersionsFollowContent (steps : List (DocumentStep digest)) : Prop
    extends VersionsSound steps where
  unchanged : ∀ before f after t t' summary, steps = before ++ .promotions f :: after →
    runDocuments Tables.empty before = .ok t →
    applyPromotions f.document t = .ok (t', summary) → OpensNoVersion f t t'

/-- Each file writes the promotions that it leaves as they are like the last file that had them. -/
def RewritesAlike (steps : List (DocumentStep digest)) : Prop :=
  ∀ before f after t, steps = before ++ .promotions f :: after →
    runDocuments Tables.empty before = .ok t → WritesAsBefore before f t

/-- In every accepted run at increasing instants the versions form chains and equal fingerprints
are equal content; an unchanged promotion opens no version exactly when each file writes it like
the one before. -/
theorem versions_follow_content_iff (digest : FingerprintPayload → String)
    (steps : List (DocumentStep digest)) (final : Tables)
    (hincrease : PromotionInstantsIncrease steps) (hcollision : CollisionFree steps)
    (hrun : runDocuments Tables.empty steps = .ok final) :
    VersionsSound steps ∧ (VersionsFollowContent steps ↔ RewritesAlike steps) := by
  have hstate : ∀ before after t, steps = before ++ after →
      runDocuments Tables.empty before = .ok t →
      Versioned digest (steps.flatMap DocumentStep.records) (lastRecord before) t := by
    rintro before after t rfl hbefore
    exact versioned_of_run hincrease hcollision hbefore
  have hrecords : ∀ before f after, steps = before ++ .promotions f :: after →
      ∀ e ∈ f.records, e ∈ steps.flatMap DocumentStep.records := by
    rintro before f after rfl e he
    exact List.mem_flatMap.mpr ⟨.promotions f, by simp, he⟩
  have hsound : VersionsSound steps := by
    refine ⟨fun before after t hsplit hbefore => ?_, fun before f after t hsplit hbefore => ?_⟩
    · exact .of_pairwise (hstate before after t hsplit hbefore).chain
    · exact (hstate _ _ t hsplit hbefore).fingerprintsAgree (hrecords _ f _ hsplit) hcollision
  refine ⟨hsound, fun hfollow before f after t hsplit hbefore => ?_, fun halike => ⟨hsound, ?_⟩⟩
  · -- The whole run is accepted, so the file is accepted after the documents before it.
    have hversioned := hstate _ _ t hsplit hbefore
    rw [hsplit] at hrun
    obtain ⟨m, hm, hrest⟩ := runDocuments_split hrun
    cases hbefore.symm.trans hm
    obtain ⟨t', hstep, -⟩ := bind_eq_ok.mp hrest
    obtain ⟨summary, hstep⟩ := exists_of_map_fst hstep
    exact (hversioned.opensNoVersion_iff (hrecords _ f _ hsplit) hcollision hstep).mp
      (hfollow.unchanged before f after t t' summary hsplit hbefore hstep)
  · intro before f after t t' summary hsplit hbefore hstep
    exact ((hstate _ _ t hsplit hbefore).opensNoVersion_iff (hrecords _ f _ hsplit) hcollision
      hstep).mpr (halike before f after t hsplit hbefore)

/-! ## Two files of one promotion -/

/-- A promotion of a minimum quantity of one item. -/
def quantityPromotion (minimumQuantity : Decimal) : PromotionRecord where
  recordIndex := 0
  chainId := "7290027600007"
  subchainId := "1"
  sourceStoreId := none
  promotionId := "88"
  description := none
  discountKind := .quantity
  startsAt := none
  endsAt := none
  items := [⟨"4001", some 1, false⟩]
  storeIds := []
  clubIds := []
  rewardType := none
  allowsMultipleDiscounts := none
  minimumQuantity := some minimumQuantity
  maximumQuantity := none
  discountRate := none
  minimumPurchase := none
  discountedPrice := none
  discountedUnitPrice := none
  minimumItemsOffered := none
  additionalRestrictions := none
  remarks := none
  isActive := none
  distinctItems := List.nodup_singleton _
  distinctStores := List.nodup_nil
  distinctClubs := List.nodup_nil

/-- One, written `1.0`. -/
def inTenths : Decimal := ⟨false, 10, -1⟩

/-- One, written `1.00`. -/
def inHundredths : Decimal := ⟨false, 100, -2⟩

/-- SHA-256 of the two promotions. -/
def quantityDigest (payload : FingerprintPayload) : String :=
  if payload.minimumQuantity = some inTenths then
    "cda814658cb8fca76e873abeb1969c384555fd4a1540dd5775bbd4abfc032737"
  else "8922a028ff528776e7981eb5552e0c36e8fd4df1ff84c5eac18353e41243ca4e"

/-- A file of retailer 1 with the promotion. -/
def quantityFile (fileId : FileId) (appliedAt : Time) (minimumQuantity : Decimal) :
    PromotionFile quantityDigest where
  document :=
    { parameters := ⟨fileId, 1, 1, appliedAt⟩
      isFull := false
      policy := lenientPolicy
      staging := { Staging.empty with
        promotions := [(quantityPromotion minimumQuantity).staged quantityDigest] } }
  records := [quantityPromotion minimumQuantity]
  staged := rfl

/-- Two files of the promotion, the first of which writes `1.0`. -/
def quantitySteps (minimumQuantity : Decimal) : List (DocumentStep quantityDigest) :=
  [.promotions (quantityFile 1 10 inTenths), .promotions (quantityFile 2 20 minimumQuantity)]

theorem quantitySteps_increase (minimumQuantity : Decimal) :
    PromotionInstantsIncrease (quantitySteps minimumQuantity) := by
  show List.Pairwise (· < ·) [(10 : Time), 20]
  decide

/-- Observed again as it was written, the promotion is in one chain. -/
theorem versions_follow_content_sample : ∃ final,
    runDocuments Tables.empty (quantitySteps inTenths) = .ok final ∧
      VersionsSound (quantitySteps inTenths) := by
  have hok : (runDocuments Tables.empty (quantitySteps inTenths)).isOk = true := by
    decide +kernel
  have hcollision : CollisionFree (quantitySteps inTenths) := by
    intro a ha b hb _
    simp only [quantitySteps, List.flatMap_cons, List.flatMap_nil, DocumentStep.records,
      quantityFile, List.append_nil, List.cons_append, List.nil_append, List.mem_cons,
      List.not_mem_nil, or_false, or_self] at ha hb
    rw [ha, hb]
  cases hrun : runDocuments Tables.empty (quantitySteps inTenths) with
  | error e =>
    rw [hrun] at hok
    cases hok
  | ok final =>
    exact ⟨final, rfl, (versions_follow_content_iff quantityDigest _ final
      (quantitySteps_increase inTenths) hcollision hrun).1⟩

/-- The tables after the first file. -/
def quantityTables : Tables :=
  { Tables.empty with
    items := [⟨0, 1, 1, "4001", none, ⟨none, "4001", none, none, none, none, none, none, none, none⟩,
      10, 10, 1⟩]
    promotions := [newVersion ⟨1, 1, 1, 10⟩ ((quantityPromotion inTenths).staged quantityDigest, 1)]
    promotionItems := [⟨1, 0, some 1, false⟩]
    nextId := 2 }

/-- The version of the first file says what the promotion of the second file says. -/
theorem quantityTables_holds :
    Holds quantityTables
      (newVersion ⟨1, 1, 1, 10⟩ ((quantityPromotion inTenths).staged quantityDigest, 1))
      ((quantityPromotion inHundredths).staged quantityDigest) where
  terms := by decide
  known := by
    refine ⟨fun child hchild => ?_, fun code hcode => by cases hcode⟩
    cases List.mem_singleton.mp hchild
    decide +kernel
  items := by
    rintro ⟨promotionId, itemId, itemType, isGift⟩ hid
    cases show promotionId = 1 from hid
    constructor
    · intro hrow
      cases List.mem_singleton.mp hrow
      exact ⟨_, List.mem_singleton_self _, by decide +kernel, rfl, rfl⟩
    · rintro ⟨child, hchild, hitem, htype, hgift⟩
      cases List.mem_singleton.mp hchild
      cases show itemType = some 1 from htype
      cases show isGift = false from hgift
      cases show some 0 = some itemId from hitem
      exact List.mem_singleton_self _
  stores := fun _ => ⟨fun hrow => (by cases hrow), fun hc => by obtain ⟨_, hc, _⟩ := hc; cases hc⟩
  clubs := fun _ => ⟨fun hrow => (by cases hrow), fun hc => (by cases hc)⟩

/-- Written as `1.0` and then as `1.00`, an unchanged promotion has two versions. -/
theorem unchanged_promotion_two_versions :
    ¬∀ (digest : FingerprintPayload → String) (steps : List (DocumentStep digest))
      (final : Tables), PromotionInstantsIncrease steps → CollisionFree steps →
      runDocuments Tables.empty steps = .ok final → VersionsFollowContent steps := by
  intro h
  have hcollision : CollisionFree (quantitySteps inHundredths) := by
    intro a ha b hb hdigest
    simp only [quantitySteps, List.flatMap_cons, List.flatMap_nil, DocumentStep.records,
      quantityFile, List.append_nil, List.cons_append, List.nil_append, List.mem_cons,
      List.not_mem_nil, or_false] at ha hb
    rcases ha with rfl | rfl <;> rcases hb with rfl | rfl
    · rfl
    · exact absurd hdigest (by decide +kernel)
    · exact absurd hdigest (by decide +kernel)
    · rfl
  have hfirst : runDocuments Tables.empty [.promotions (quantityFile 1 10 inTenths)] =
      .ok quantityTables := rfl
  have hcount : (applyPromotions (quantityFile 2 20 inHundredths).document quantityTables).map
      (fun r => versionCount r.1 ⟨1, 1, "1", "88", ""⟩) = .ok 2 := by
    decide +kernel
  cases hsecond : applyPromotions (quantityFile 2 20 inHundredths).document quantityTables with
  | error e =>
    rw [hsecond] at hcount
    cases hcount
  | ok r =>
    have hrun : runDocuments Tables.empty (quantitySteps inHundredths) = .ok r.1 := by
      obtain ⟨m, hm, hrest⟩ := bind_eq_ok.mp hfirst
      cases hrest
      refine bind_eq_ok.mpr ⟨quantityTables, hm, bind_eq_ok.mpr ⟨r.1, ?_, rfl⟩⟩
      exact congrArg (Except.map Prod.fst) hsecond
    have hfollow := h quantityDigest _ _ (quantitySteps_increase inHundredths) hcollision hrun
    have hkept := hfollow.unchanged [.promotions (quantityFile 1 10 inTenths)]
      (quantityFile 2 20 inHundredths) [] _ _ _ rfl hfirst hsecond
      ((quantityPromotion inHundredths).staged quantityDigest) _
      ⟨List.mem_singleton_self _, List.mem_singleton_self _, rfl, rfl⟩ quantityTables_holds
    rw [hsecond] at hcount
    exact absurd (hkept.symm.trans (Except.ok.inj hcount)) (by decide)

end Makolet.Normalized
