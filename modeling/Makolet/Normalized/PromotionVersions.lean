import Makolet.Normalized.PromotionRelations

/-!
# Version chains of promotions

A run applies documents of one database. Whatever it applies, the versions of a promotion follow
each other without overlap, the last is the only open one, and an open version says what the last
record of its key said. Whether a record that says the same opens another version depends on how
it was written: the fingerprint is taken from the record before its decimals are rounded and its
stores completed.
-/

set_option autoImplicit false

namespace Makolet.Normalized

open Makolet.Domain Makolet.Lib

variable {digest : FingerprintPayload → String}

/-! ## Runs -/

/-- A promotion file: its records, and the apply that they are staged for. -/
structure PromotionFile (digest : FingerprintPayload → String) where
  document : DocumentApply
  records : List PromotionRecord
  staged : document.staging.promotions = records.map fun e => e.staged digest

/-- A document of any family. -/
inductive DocumentStep (digest : FingerprintPayload → String)
  | stores (a : DocumentApply)
  | prices (a : DocumentApply)
  | promotions (f : PromotionFile digest)

/-- The record that counts for a key: the one with the highest index. -/
def PromotionFile.recordOf (f : PromotionFile digest) (k : PromotionKey) :
    Option PromotionRecord :=
  (Table.lookup (StagedPromotion.key f.document.parameters)
    (promotionIncoming f.document.staging) k).bind fun b =>
      f.records.find? fun e => decide (e.staged digest = b)

namespace DocumentStep

/-- The write of the document. -/
def run (t : Tables) : DocumentStep digest → Except Failure Tables
  | stores a => (applyStores a t).map Prod.fst
  | prices a => (applyPrices a t).map Prod.fst
  | promotions f => (applyPromotions f.document t).map Prod.fst

/-- The applied instant of a promotion file. -/
def promotionInstant : DocumentStep digest → Option Time
  | promotions f => some f.document.parameters.appliedAt
  | _ => none

def records : DocumentStep digest → List PromotionRecord
  | promotions f => f.records
  | _ => []

def recordOf : DocumentStep digest → PromotionKey → Option PromotionRecord
  | promotions f, k => f.recordOf k
  | _, _ => none

end DocumentStep

/-- A run of documents, each of which must be accepted. -/
def runDocuments (t : Tables) (steps : List (DocumentStep digest)) : Except Failure Tables :=
  runList DocumentStep.run t steps

/-- The applied instants of the promotion files increase strictly. -/
def PromotionInstantsIncrease (steps : List (DocumentStep digest)) : Prop :=
  (steps.filterMap DocumentStep.promotionInstant).Pairwise (· < ·)

/-- No two records of the run have one fingerprint for two payloads. -/
def CollisionFree (steps : List (DocumentStep digest)) : Prop :=
  ∀ a ∈ steps.flatMap DocumentStep.records, ∀ b ∈ steps.flatMap DocumentStep.records,
    digest a.payload = digest b.payload → a.payload = b.payload

/-- The last record of each key, after one more document. -/
def observeRecords (o : PromotionKey → Option PromotionRecord) (s : DocumentStep digest) :
    PromotionKey → Option PromotionRecord :=
  fun k => (s.recordOf k).or (o k)

/-- The last record of a key in a run. -/
def lastRecord (steps : List (DocumentStep digest)) : PromotionKey → Option PromotionRecord :=
  steps.foldl observeRecords fun _ => none

/-! ## The property -/

/-- The version is valid at the instant. -/
def Promotion.ValidAt (v : Promotion) (instant : Time) : Prop :=
  v.validFrom ≤ instant ∧ ∀ e ∈ v.validTo, instant < e

/-- Each promotion has at most one open version, and no two of its versions overlap. -/
structure VersionChain (t : Tables) : Prop where
  openOnce : ∀ k, (t.promotions.filter fun v => decide (v.key = k) && v.isOpen).length ≤ 1
  disjoint : t.promotions.Pairwise fun a b =>
    a.key = b.key → ∀ instant, ¬(a.ValidAt instant ∧ b.ValidAt instant)

/-- The row counts in the file, and the version is the current one of its key. -/
structure Reobserves (f : PromotionFile digest) (t : Tables) (b : StagedPromotion)
    (v : Promotion) : Prop where
  incoming : b ∈ promotionIncoming f.document.staging
  version : v ∈ t.promotions
  current : v.isOpen = true
  key : v.key = b.key f.document.parameters

/-- The number of versions of a promotion. -/
def versionCount (t : Tables) (k : PromotionKey) : Nat :=
  (t.promotions.map Promotion.key).count k

/-- A version with the fingerprint of a record says what the record says. -/
def FingerprintsAgree (f : PromotionFile digest) (t : Tables) : Prop :=
  ∀ b v, Reobserves f t b v → v.fingerprint = b.fingerprint → Holds t v b

/-- A record that says what the current version says opens no new version. -/
def OpensNoVersion (f : PromotionFile digest) (t t' : Tables) : Prop :=
  ∀ b v, Reobserves f t b v → Holds t v b → versionCount t' v.key = versionCount t v.key

/-- A record that says what the current version says is written like the last one before it. -/
def WritesAsBefore (before : List (DocumentStep digest)) (f : PromotionFile digest)
    (t : Tables) : Prop :=
  ∀ b v, Reobserves f t b v → Holds t v b →
    ∀ e ∈ lastRecord before v.key, ∀ e' ∈ f.recordOf v.key, WrittenAlike e e'

/-! ## One version and the next -/

/-- Of two versions of one promotion, the earlier ends before the later starts. -/
def Promotion.Before (a b : Promotion) : Prop :=
  a.key = b.key → ∃ e, a.validTo = some e ∧ e ≤ b.validFrom

theorem isOpen_eq_false {v : Promotion} {e : Time} (h : v.validTo = some e) :
    v.isOpen = false := by
  rw [Promotion.isOpen, h]
  rfl

/-- A chain has one open version of a key. -/
theorem open_unique {promotions : List Promotion} (hchain : promotions.Pairwise Promotion.Before)
    {v w : Promotion} (hv : v ∈ promotions) (hw : w ∈ promotions) (hvo : v.isOpen = true)
    (hwo : w.isOpen = true) (hkey : v.key = w.key) : v = w := by
  by_contra hne
  -- `Before` is not symmetric, but it denies the symmetric relation of being open together.
  have hpair : promotions.Pairwise fun a b =>
      ¬(a.isOpen = true ∧ b.isOpen = true ∧ a.key = b.key) := by
    refine hchain.imp fun hbefore hboth => ?_
    obtain ⟨e, he, -⟩ := hbefore hboth.2.2
    have hopen := hboth.1
    rw [isOpen_eq_false he] at hopen
    cases hopen
  have hsymm : Std.Symm fun a b : Promotion =>
      ¬(a.isOpen = true ∧ b.isOpen = true ∧ a.key = b.key) :=
    ⟨fun a b h hba => h ⟨hba.2.1, hba.1, hba.2.2.symm⟩⟩
  exact hpair.forall hv hw hne ⟨hvo, hwo, hkey⟩

theorem VersionChain.of_pairwise {t : Tables} (h : t.promotions.Pairwise Promotion.Before) :
    VersionChain t where
  openOnce k := by
    have hfilter := h.sublist (List.filter_sublist (p := fun v : Promotion =>
      decide (v.key = k) && v.isOpen))
    have hmem : ∀ v ∈ t.promotions.filter (fun v => decide (v.key = k) && v.isOpen),
        v.key = k ∧ v.isOpen = true := by
      intro v hv
      simpa using (List.mem_filter.mp hv).2
    match hl : t.promotions.filter (fun v => decide (v.key = k) && v.isOpen) with
    | [] =>
      rw [hl]
      exact Nat.zero_le 1
    | [_] =>
      rw [hl]
      exact le_refl 1
    | a :: b :: rest =>
      -- The first of two open versions would have ended before the second.
      rw [hl] at hfilter hmem
      have ha := hmem a List.mem_cons_self
      have hb := hmem b (List.mem_cons_of_mem a List.mem_cons_self)
      obtain ⟨e, he, -⟩ :=
        List.rel_of_pairwise_cons hfilter List.mem_cons_self (ha.1.trans hb.1.symm)
      have hopen := ha.2
      rw [isOpen_eq_false he] at hopen
      cases hopen
  disjoint := by
    refine h.imp fun hbefore hkey instant hboth => ?_
    obtain ⟨e, he, hle⟩ := hbefore hkey
    exact lt_irrefl e ((hle.trans hboth.2.1).trans_lt (hboth.1.2 e he))

/-! ## The statements of one file -/

/-- What the close and refresh statements make of a row. -/
def refreshPromotion (p : ApplyParameters) (incoming : List StagedPromotion) (r : Promotion) :
    Promotion :=
  if r.isOpen then
    match Table.lookup (StagedPromotion.key p) incoming r.key with
    | none => r
    | some b =>
      if r.fingerprint = b.fingerprint then
        { r with lastObservedAt := p.appliedAt, sourceFileId := p.sourceFileId }
      else { r with validTo := some p.appliedAt }
  else r

/-- The incoming rows whose key has no open version. -/
def freshPromotions (p : ApplyParameters) (incoming : List StagedPromotion)
    (promotions : List Promotion) : List StagedPromotion :=
  incoming.filter fun b =>
    (promotions.find? fun r => decide (r.key = b.key p) && r.isOpen).isNone

/-- The version that the insert statement makes of a numbered row. -/
def newVersion (p : ApplyParameters) (b : StagedPromotion × Nat) : Promotion :=
  ⟨b.2, b.1.key p, b.1.fingerprint, b.1.terms, p.sourceFileId, p.appliedAt, none, p.appliedAt⟩

section Refresh

variable (p : ApplyParameters) (incoming : List StagedPromotion) (r : Promotion)

/-- A closed row and one that no incoming row addresses stay; of the others the fingerprint
decides. -/
theorem refreshPromotion_cases :
    (refreshPromotion p incoming r = r ∧ (r.isOpen = false ∨
        Table.lookup (StagedPromotion.key p) incoming r.key = none)) ∨
      ∃ b, Table.lookup (StagedPromotion.key p) incoming r.key = some b ∧ r.isOpen = true ∧
        ((r.fingerprint = b.fingerprint ∧ refreshPromotion p incoming r =
            { r with lastObservedAt := p.appliedAt, sourceFileId := p.sourceFileId }) ∨
          (r.fingerprint ≠ b.fingerprint ∧ refreshPromotion p incoming r =
            { r with validTo := some p.appliedAt })) := by
  unfold refreshPromotion
  cases hopen : r.isOpen with
  | false => exact .inl ⟨rfl, .inl rfl⟩
  | true =>
    cases hlookup : Table.lookup (StagedPromotion.key p) incoming r.key with
    | none => exact .inl ⟨rfl, .inr rfl⟩
    | some b =>
      refine .inr ⟨b, rfl, rfl, ?_⟩
      by_cases hprint : r.fingerprint = b.fingerprint
      · exact .inl ⟨hprint, if_pos hprint⟩
      · exact .inr ⟨hprint, if_neg hprint⟩

/-- The statement keeps the columns that identify a version, and closes it at the instant or not at
all. -/
structure Advances (instant : Time) (u : Promotion → Promotion) : Prop where
  same : ∀ r, (u r).id = r.id ∧ (u r).key = r.key ∧ (u r).validFrom = r.validFrom
  closed : ∀ r e, r.validTo = some e → (u r).validTo = some e
  closes : ∀ r e, (u r).validTo = some e → r.validTo = some e ∨ e = instant

theorem refreshPromotion_advances : Advances p.appliedAt (refreshPromotion p incoming) where
  same r := by
    rcases refreshPromotion_cases p incoming r with ⟨h, -⟩ | ⟨b, -, -, ⟨-, h⟩ | ⟨-, h⟩⟩ <;>
      rw [h] <;> exact ⟨rfl, rfl, rfl⟩
  closed r e he := by
    rcases refreshPromotion_cases p incoming r with ⟨h, -⟩ | ⟨b, -, hopen, -⟩
    · rw [h]
      exact he
    · rw [isOpen_eq_false he] at hopen
      cases hopen
  closes r e he := by
    rcases refreshPromotion_cases p incoming r with ⟨h, -⟩ | ⟨b, -, -, ⟨-, h⟩ | ⟨-, h⟩⟩ <;>
      rw [h] at he
    · exact .inl he
    · exact .inl he
    · exact .inr (Option.some.inj he).symm

theorem Advances.id (instant : Time) : Advances instant id where
  same _ := ⟨rfl, rfl, rfl⟩
  closed _ _ he := he
  closes _ _ he := .inl he

end Refresh

theorem mem_freshPromotions {p : ApplyParameters} {incoming : List StagedPromotion}
    {promotions : List Promotion} {b : StagedPromotion} :
    b ∈ freshPromotions p incoming promotions ↔
      b ∈ incoming ∧ ∀ r ∈ promotions, r.key = b.key p → r.isOpen = false := by
  rw [freshPromotions, List.mem_filter]
  simp

theorem promotionIncoming_unique (p : ApplyParameters) (s : Staging) :
    Table.UniqueOn (StagedPromotion.key p) (promotionIncoming s) := by
  have hunique : Table.UniqueOn (fun r : StagedPromotion =>
      (r.subchainId, r.sourcePromotionId, r.sourceScopeStoreCode)) (promotionIncoming s) :=
    Table.distinctOn_unique _
  refine hunique.of_determines fun a b hab => ?_
  exact congrArg (fun k : PromotionKey =>
    (k.subchainCode, k.sourcePromotionId, k.sourceScopeStoreCode)) hab

/-- The tables between the statements of an accepted promotion apply: `t₂` after the items and
stores, `t₃` after the versions. -/
structure WritesVersions (a : DocumentApply) (t t₂ t₃ : Tables) : Prop where
  keeps : KeepsIdentities t t₂
  known : ∀ b ∈ a.staging.promotions, Known t₂ (b.key a.parameters) b
  promotionItems : t₂.promotionItems = t.promotionItems
  promotionStores : t₂.promotionStores = t.promotionStores
  promotionClubs : t₂.promotionClubs = t.promotionClubs
  written : t₃ = { t₂ with
    promotions :=
      t.promotions.map (refreshPromotion a.parameters (promotionIncoming a.staging)) ++
        ((freshPromotions a.parameters (promotionIncoming a.staging)
          (t.promotions.map (refreshPromotion a.parameters
            (promotionIncoming a.staging)))).zipIdx t₂.nextId).map (newVersion a.parameters)
    nextId := t₂.nextId + (freshPromotions a.parameters (promotionIncoming a.staging)
      (t.promotions.map (refreshPromotion a.parameters (promotionIncoming a.staging)))).length }

/-- The absence update closes some of the open versions. -/
theorem closeAbsentPromotions_advances {p : ApplyParameters} {s : Staging} {t t' : Tables} {n : Nat}
    (h : closeAbsentPromotions p s t = .ok (t', n)) :
    ∃ c, Advances p.appliedAt c ∧ (∀ r, (c r).isOpen = true → c r = r) ∧
      t' = { t with promotions := t.promotions.map c } := by
  obtain ⟨-, h⟩ := require_bind_eq_ok.mp h
  rw [pure_eq_ok] at h
  obtain ⟨rfl, -⟩ := Prod.mk.inj h
  have hopen : ∀ r : Promotion, r.isAbsent p s = true → r.isOpen = true := by
    intro r habsent
    simp only [Promotion.isAbsent, Bool.and_eq_true] at habsent
    exact habsent.1.1.1
  refine ⟨_, ⟨fun r => ?_, fun r e he => ?_, fun r e he => ?_⟩, fun r hr => ?_, rfl⟩
  · split <;> exact ⟨rfl, rfl, rfl⟩
  · split
    · rename_i habsent
      have hclosed := hopen r habsent
      rw [isOpen_eq_false he] at hclosed
      cases hclosed
    · exact he
  · split at he
    · exact .inr (Option.some.inj he).symm
    · exact .inl he
  · split at hr
    · cases hr
    · rename_i habsent
      exact if_neg habsent

theorem applyPromotions_writes {a : DocumentApply} {t t' : Tables} {summary : ApplySummary}
    (h : applyPromotions a t = .ok (t', summary)) :
    ∃ t₂ t₃ c, WritesVersions a t t₂ t₃ ∧ Advances a.parameters.appliedAt c ∧
      (∀ r, (c r).isOpen = true → c r = r) ∧
      t' = { attachPromotionRelations a.parameters (promotionIncoming a.staging) t₃ with
        promotions := t₃.promotions.map c } := by
  obtain ⟨t₁, t₂, t₃, promotions, h₁, h₂, hp, h₃, hend⟩ := applyPromotions_eq_ok h
  obtain ⟨hkeeps₁, hitems⟩ := keepsIdentities_ensurePromotionItems h₁
  obtain ⟨hkeeps₂, hstores⟩ := keepsIdentities_ensurePromotionStores h₂
  have hpromotions : t₂.promotions = t.promotions := by
    rw [ensurePromotionStores_frame h₂, ensurePromotionItems_frame h₁]
  have hwrites : WritesVersions a t t₂ t₃ := by
    refine ⟨hkeeps₁.trans hkeeps₂, fun b hb => ⟨fun child hc => ?_, fun code hc => ?_⟩,
      ?_, ?_, ?_, ?_⟩
    · obtain ⟨i, hi⟩ := Option.isSome_iff_exists.mp (hitems b hb child hc)
      exact Option.isSome_iff_exists.mpr ⟨i, hkeeps₂.items _ i hi⟩
    · exact hstores b hb code hc
    · rw [ensurePromotionStores_frame h₂, ensurePromotionItems_frame h₁]
    · rw [ensurePromotionStores_frame h₂, ensurePromotionItems_frame h₁]
    · rw [ensurePromotionStores_frame h₂, ensurePromotionItems_frame h₁]
    · obtain ⟨-, hp⟩ := require_bind_eq_ok.mp hp
      rw [pure_eq_ok, hpromotions] at hp
      obtain ⟨-, h₃⟩ := require_bind_eq_ok.mp h₃
      rw [pure_eq_ok, ← hp] at h₃
      rw [← h₃, List.length_zipIdx]
      rfl
  -- Only a full file closes the versions that it does not list.
  rcases hend with ⟨-, rfl⟩ | ⟨-, n, hn⟩
  · refine ⟨t₂, t₃, id, hwrites, .id _, fun _ _ => rfl, ?_⟩
    rw [List.map_id]
    rfl
  · obtain ⟨c, hadvances, hopen, rfl⟩ := closeAbsentPromotions_advances hn
    exact ⟨t₂, t₃, c, hwrites, hadvances, hopen, rfl⟩

end Makolet.Normalized
