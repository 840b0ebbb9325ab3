import Makolet.Parsing.Scoping

/-!
# Record events

The events of an accepted document: however its markup is split into feeds, its record elements
have one outcome each, a typed record or a rejection, numbered in document order.
-/

set_option autoImplicit false

namespace Makolet.Parsing

open Makolet.Domain Makolet.Lib Makolet.Normalized

/-- The record index of a typed record or of a rejection. -/
def outcomeIndex : ParsedEvent → Option Nat
  | .metadata _ => none
  | .store record => some record.recordIndex
  | .price record => some record.recordIndex
  | .promotion record => some record.recordIndex
  | .issue issue => if issue.severity = .recordRejection then issue.recordIndex else none

/-! ## Record indices -/

theorem parseStore_recordIndex {d : Decoders} {values context : Fields} {recordIndex : Nat}
    {record : StagedStore} (h : parseStore d values context recordIndex = .ok record) :
    record.recordIndex = recordIndex := by
  unfold parseStore at h
  repeat obtain ⟨_, -, h⟩ := bind_eq_ok.mp h
  cases pure_eq_ok.mp h
  rfl

theorem parsePrice_recordIndex {d : Decoders} {values context : Fields} {recordIndex : Nat}
    {record : StagedPrice} (h : parsePrice d values context recordIndex = .ok record) :
    record.recordIndex = recordIndex := by
  unfold parsePrice at h
  repeat obtain ⟨_, -, h⟩ := bind_eq_ok.mp h
  cases pure_eq_ok.mp h
  rfl

theorem parsePromotion_recordIndex {d : Decoders} {element : Element} {values context : Fields}
    {recordIndex : Nat} {findings : SchemaFindings} {record : StagedPromotion}
    (h : parsePromotion d element values context recordIndex findings = .ok record) :
    record.recordIndex = recordIndex := by
  unfold parsePromotion at h
  repeat obtain ⟨_, -, h⟩ := bind_eq_ok.mp h
  cases pure_eq_ok.mp h
  rfl

namespace ParserSettings

variable {p : ParserSettings}

theorem typedRecord_outcome {element : Element} {values context : Fields} {recordIndex : Nat}
    {findings : SchemaFindings} {record : ParsedEvent}
    (h : p.typedRecord element values context recordIndex findings = .ok record) :
    outcomeIndex record = some recordIndex := by
  unfold typedRecord at h
  split at h
  · obtain ⟨store, hstore, rfl⟩ := map_eq_ok.mp h
    exact congrArg some (parseStore_recordIndex hstore)
  · obtain ⟨price, hprice, rfl⟩ := map_eq_ok.mp h
    exact congrArg some (parsePrice_recordIndex hprice)
  · obtain ⟨price, hprice, rfl⟩ := map_eq_ok.mp h
    exact congrArg some (parsePrice_recordIndex hprice)
  · obtain ⟨promotion, hpromotion, rfl⟩ := map_eq_ok.mp h
    exact congrArg some (parsePromotion_recordIndex hpromotion)
  · obtain ⟨promotion, hpromotion, rfl⟩ := map_eq_ok.mp h
    exact congrArg some (parsePromotion_recordIndex hpromotion)
  · cases h

theorem parseRecord_eq_ok {element : Element} {context : Fields} {recordIndex : Nat}
    {record : ParsedEvent} {warning : Option ValidationIssue}
    (h : p.parseRecord element context recordIndex = .ok (record, warning)) :
    ∃ values findings, elementValues p.decoders element = .ok values ∧
      p.typedRecord element values context recordIndex findings = .ok record ∧
      ∀ issue ∈ warning, issue.severity = .warning := by
  obtain ⟨values, hvalues, h⟩ := bind_eq_ok.mp h
  obtain ⟨findings, -, h⟩ := bind_eq_ok.mp h
  obtain ⟨record', hrecord, h⟩ := bind_eq_ok.mp h
  split at h <;> cases pure_eq_ok.mp h
  · exact ⟨values, findings, hvalues, hrecord, fun _ hmem => nomatch hmem⟩
  · refine ⟨values, findings, hvalues, hrecord, fun issue hmem => ?_⟩
    cases hmem
    rfl

/-- A record has one outcome, and it has the number of the record. -/
theorem recordEvents_outcome {element : Element} {context : Fields} {recordIndex : Nat}
    {events : List ParsedEvent} (h : p.recordEvents element context recordIndex = .ok events) :
    events.filterMap outcomeIndex = [recordIndex] := by
  unfold recordEvents at h
  split at h
  · rename_i record warning hrecord
    cases h
    obtain ⟨_, _, -, htyped, hwarning⟩ := parseRecord_eq_ok hrecord
    rw [List.filterMap_cons_some (typedRecord_outcome htyped)]
    cases warning with
    | none => rfl
    | some issue =>
      have hnone : outcomeIndex (.issue issue) = none := by
        rw [outcomeIndex, hwarning issue rfl]
        rfl
      rw [Option.map_some, Option.toList_some, List.filterMap_cons_none hnone, List.filterMap_nil]
  · split at h <;> cases h
    rfl

theorem Emits.outcomes {n : Nat} {records : List (Element × List Scope)} {out : List ParsedEvent}
    (h : p.Emits n records out) :
    out.filterMap outcomeIndex = List.range' (n + 1) records.length := by
  induction records generalizing n out with
  | nil =>
    cases h
    rfl
  | cons record records ih =>
    obtain ⟨events, later, hevents, rfl, hlater⟩ := h
    rw [List.filterMap_append, recordEvents_outcome hevents, ih hlater, List.length_cons,
      List.range'_succ, List.singleton_append]

/-! ## Whole documents -/

theorem drain_append_eq_ok {s s₁ s' : ParseState} {events events' : List (FeedBytes × Markup)}
    {out out' : List ParsedEvent} (h : p.drain s events = .ok (s₁, out))
    (h' : p.drain s₁ events' = .ok (s', out')) :
    p.drain s (events ++ events') = .ok (s', out ++ out') := by
  induction events generalizing s out with
  | nil =>
    cases h
    exact h'
  | cons event events ih =>
    obtain ⟨s₂, first, later, hevent, hlater, rfl⟩ := drain_cons h
    refine bind_eq_ok.mpr ⟨(s₂, first), hevent, bind_eq_ok.mpr ⟨_, ih hlater, ?_⟩⟩
    rw [List.append_assoc]
    rfl

/-- The feeding loop drains the events of its feeds. -/
theorem drain_of_feedLoop {consumed consumed' : Nat} {s s' : ParseState} {feeds : List Feed}
    {out : List ParsedEvent} (h : p.feedLoop consumed s feeds = .ok (consumed', s', out)) :
    ∃ events : List (FeedBytes × Markup), events.map Prod.snd = feeds.flatMap Feed.events ∧
      p.drain s events = .ok (s', out) := by
  induction feeds generalizing consumed s out with
  | nil =>
    cases h
    exact ⟨[], rfl, rfl⟩
  | cons feed feeds ih =>
    obtain ⟨⟨s₁, first⟩, hfirst, h⟩ := bind_eq_ok.mp h
    obtain ⟨-, h⟩ := require_bind_eq_ok.mp h
    obtain ⟨⟨consumed₂, s₂, later⟩, hlater, h⟩ := bind_eq_ok.mp h
    cases pure_eq_ok.mp h
    obtain ⟨events, hevents, hdrain⟩ := ih hlater
    refine ⟨_, ?_, drain_append_eq_ok hfirst hdrain⟩
    rw [List.map_append, hevents, List.map_map, List.flatMap_cons]
    exact congrArg (· ++ _) (List.map_id _)

/-- The events of an accepted document: those of its record elements, and of the document. -/
theorem parseSpooled_eq_ok (hp : p.Regular) {root : Element} {findings : SchemaFindings}
    {feeds : List Feed} {closing : List Markup} {out : List ParsedEvent}
    (hroot : feeds.flatMap Feed.events ++ closing = root.markup)
    (h : p.parseSpooled findings feeds closing = .ok out) :
    ∃ records rest, out = records ++ rest ∧ p.Emits 0 (p.recordsOf [] root) records ∧
      p.SubchainsNamed [] root ∧ ∀ event ∈ rest, outcomeIndex event = none := by
  obtain ⟨⟨consumed, s₁, first⟩, hfeeds, h⟩ := bind_eq_ok.mp h
  obtain ⟨⟨s₂, last⟩, hclosing, h⟩ := bind_eq_ok.mp h
  obtain ⟨-, h⟩ := require_bind_eq_ok.mp h
  obtain ⟨-, h⟩ := require_bind_eq_ok.mp h
  obtain ⟨-, h⟩ := require_bind_eq_ok.mp h
  obtain ⟨-, h⟩ := require_bind_eq_ok.mp h
  obtain ⟨metadata, -, h⟩ := bind_eq_ok.mp h
  cases pure_eq_ok.mp h
  obtain ⟨events, hevents, hdrain⟩ := drain_of_feedLoop hfeeds
  obtain ⟨hwalked, hnamed⟩ := walk_element hp root (standing_init findings) rfl
    (by rw [List.map_append, hevents, List.map_map, ← hroot]
        exact congrArg (_ ++ ·) (List.map_id _))
    (drain_append_eq_ok hdrain hclosing)
  refine ⟨first ++ last, p.documentWarning s₂.findings ++ [.metadata metadata], by simp,
    hwalked.emits, hnamed, fun event hmem => ?_⟩
  rcases List.mem_append.mp hmem with hwarning | hmetadata
  · unfold documentWarning at hwarning
    split at hwarning
    · cases hwarning
    · cases List.mem_singleton.mp hwarning
      rfl
  · cases List.mem_singleton.mp hmetadata
    rfl

end ParserSettings

/-- The record elements of an accepted document have one outcome each, in document order, and no
other element has any. -/
theorem record_elements_emitted_once {decoders : Decoders} {limits : XmlParserLimits}
    {encodedRecordSize : Element → Nat} {documentType : DocumentType} {p : ParserSettings}
    (hp : parserSettings decoders limits encodedRecordSize documentType = .ok p)
    {root : Element} {findings : SchemaFindings} {feeds : List ParserSettings.Feed}
    {closing : List Markup} {out : List ParsedEvent}
    (hroot : feeds.flatMap ParserSettings.Feed.events ++ closing = root.markup)
    (h : p.parseSpooled findings feeds closing = .ok out) :
    out.filterMap outcomeIndex = List.range' 1 (p.recordsOf [] root).length ∧
      ∃ records rest, out = records ++ rest ∧ p.Emits 0 (p.recordsOf [] root) records ∧
        ∀ event ∈ rest, outcomeIndex event = none := by
  obtain ⟨records, rest, rfl, hemits, -, hrest⟩ :=
    ParserSettings.parseSpooled_eq_ok (ParserSettings.regular_of_parserSettings hp) hroot h
  refine ⟨?_, records, rest, rfl, hemits, hrest⟩
  rw [List.filterMap_append, hemits.outcomes, List.filterMap_eq_nil_iff.mpr hrest, List.append_nil]

/-! ## A nested document -/

/-- Decoders that take texts as they are. -/
def plainDecoders : Decoders where
  tagName := id
  cleanSourceText := .ok
  normalizeIdentifier := .ok
  parseDecimal := fun _ _ => .ok none
  parseInt := fun _ _ => .ok none
  parseCount := fun _ _ => .ok none
  parseBool := fun _ _ => .ok none
  parseSourceDatetime := fun _ => .ok none
  combineSourceDateTime := fun _ _ => .ok none
  gtin := fun _ => none
  casefold := id
  fingerprint := fun record => record.sourcePromotionId
  checkStore := fun _ => .ok ()
  checkPrice := fun _ => .ok ()
  checkPromotion := fun _ => .ok ()
  recordFindings := fun _ => .ok ⟨0, none, "", false, false⟩
  elementFindings := fun _ _ findings => .ok findings
  warningEvidence := fun _ => none
  promotionRestrictions := fun text _ => text

def plainSettings : ParserSettings where
  decoders := plainDecoders
  limits := ⟨8, 32, 4, 100, 100, 100, by decide, by decide, by decide, by decide, by decide,
    by decide⟩
  encodedRecordSize := fun _ => 1
  documentType := .stores
  container := "stores"
  record := "store"

/-- A document with one Chain and two SubChains: a store in the first one, and in the second one a
store without a name before another store. -/
def nestedDocument : Element :=
  .mk "root" [] none [
    .mk "chain" [] none [
      .mk "chainid" [] (some "729") [],
      .mk "subchains" [] none [
        .mk "subchain" [] none [
          .mk "subchainid" [] (some "2") [],
          .mk "stores" [] none [
            .mk "store" [] none [
              .mk "storeid" [] (some "7") [],
              .mk "storename" [] (some "Center") []]]],
        .mk "subchain" [] none [
          .mk "subchainid" [] (some "5") [],
          .mk "stores" [] none [
            .mk "store" [] none [
              .mk "storeid" [] (some "8") []],
            .mk "store" [] none [
              .mk "storeid" [] (some "9") [],
              .mk "storename" [] (some "North") []]]]]]]

theorem parserSettings_plain : parserSettings plainDecoders plainSettings.limits
    plainSettings.encodedRecordSize .stores = .ok plainSettings :=
  rfl

/-- The nested document in one feed. -/
def nestedFeeds : List ParserSettings.Feed := [⟨1, nestedDocument.markup⟩]

theorem nestedFeeds_events :
    nestedFeeds.flatMap ParserSettings.Feed.events ++ [] = nestedDocument.markup :=
  rfl

/-- A store of the nested document, with the header values of its Chain and SubChain. -/
def nestedStore (recordIndex : Nat) (subchainId storeId name : String) : StagedStore where
  recordIndex := recordIndex
  chainId := "729"
  subchainId := subchainId
  sourceStoreId := storeId
  description := ⟨none, none, none, none, name, none, none, none⟩

def northStore : StagedStore := nestedStore 3 "5" "9" "North"

/-- The outcomes of the nested document: its second record is rejected. -/
def nestedEvents : List ParsedEvent :=
  [.store (nestedStore 1 "2" "7" "Center"),
    .issue {
      severity := .recordRejection
      code := "domain_validation_error"
      message := "Required XML field storename is missing"
      recordIndex := some 2
      fieldName := none
      rejectedValue := none },
    .store northStore, .metadata ⟨none, none, none⟩]

theorem parse_nested : plainSettings.parseSpooled ⟨0, none, "", false, false⟩ nestedFeeds [] =
    .ok nestedEvents :=
  rfl

theorem nested_record_emitted_once :
    nestedEvents.filterMap outcomeIndex = [1, 2, 3] ∧
      nestedEvents.filterMap outcomeIndex =
        List.range' 1 (plainSettings.recordsOf [] nestedDocument).length :=
  ⟨rfl, (record_elements_emitted_once parserSettings_plain nestedFeeds_events parse_nested).1⟩

end Makolet.Parsing
