import Makolet.Parsing.Records
import Makolet.Parsing.TokenGuard

/-!
# The streaming parser

`RetailXmlParser._drain` and the feeding loop of `_parse_spooled`: the start and end events of the
elements of a document, fed in windows of the decompressed bytes. The decoder, the token guard and
the XML parser stand in front of it; what they pass on is a list of feeds. An event is drained with
the byte counters of the feed it came in.

The source keeps the elements of the open path, detaches an element from its parent when it is done
and clears it; a `Frame` is an open element with the children that are still attached to it.
-/

set_option autoImplicit false

namespace Makolet.Parsing

open Makolet.Domain Makolet.Lib Makolet.Normalized

/-! ## Document shapes -/

/-- `_record_tag`. -/
def recordTag : DocumentType → Except Failure String
  | .stores => .ok "store"
  | .priceFull | .priceDelta => .ok "item"
  | .promotionFull | .promotionDelta => .ok "promotion"
  | .unknown => .error (malformedDocument "No XML parser exists for the document type")

/-- `_record_container`. -/
def recordContainer : DocumentType → Except Failure String
  | .stores => .ok "stores"
  | .priceFull | .priceDelta => .ok "items"
  | .promotionFull | .promotionDelta => .ok "promotions"
  | .unknown => .error (malformedDocument "No XML parser exists for the document type")

def contextTags : List String :=
  ["chainid", "subchainid", "storeid", "bikoretno", "auditnumber", "lastupdatedate",
    "lastupdatetime", "updatedate", "updatetime", "priceupdatedate", "priceupdatetime"]

def storeContextTags : List String := contextTags ++ ["chainname", "subchainname"]

def recordContainers : List String := ["items", "promotions", "stores"]

def nestedStoreContainerPath : List String := ["root", "chain", "subchains", "subchain", "stores"]

/-- `_is_expected_container_path`. -/
def isExpectedContainerPath (container : String) (documentType : DocumentType)
    (path : List String) : Bool :=
  path = ["root", container] || documentType = .stores && path = nestedStoreContainerPath

/-- `_is_context_path`. -/
def isContextPath (documentType : DocumentType) (path : List String) : Bool :=
  match path with
  | ["root", tag] =>
      if documentType = .stores then tag ∈ storeContextTags else tag ∈ contextTags
  | ["root", "chain", tag] =>
      documentType = .stores && tag ∈ storeContextTags &&
        tag ∉ ["subchainid", "subchainname", "storeid"]
  | ["root", "chain", "subchains", "subchain", tag] =>
      documentType = .stores && tag ∈ storeContextTags && tag ∉ ["chainid", "chainname", "storeid"]
  | _ => false

/-- `_is_document_structure_path`. -/
def isDocumentStructurePath (container : String) (documentType : DocumentType)
    (path : List String) : Bool :=
  path = ["root"] || isExpectedContainerPath container documentType path ||
    documentType = .stores && path ∈ [["root", "chain"], ["root", "chain", "subchains"],
      ["root", "chain", "subchains", "subchain"]]

/-! ## The parser state -/

/-- What the tree target reports of an element: that it starts, with its attributes and the text
that it has by the time its end is drained, and that it ends. -/
inductive Markup
  | start (tag : String) (attributes : List (String × String)) (text : Option String)
  | stop

/-- The byte counters of the feed in which an event is drained. -/
structure FeedBytes where
  currentFeedStart : Nat
  decompressedBytes : Nat

/-- An open element. -/
structure Frame where
  tag : String
  attributes : List (String × String)
  text : Option String
  children : List Element

def Frame.element (f : Frame) : Element := ⟨f.tag, f.attributes, f.text, f.children⟩

/-- `_ParseState`, with the context. The stack has the innermost open element first. -/
structure ParseState where
  depth : Nat
  elements : Nat
  records : Nat
  activeRecordDepth : Option Nat
  activeRecordStart : Nat
  activeRecordEarliestStart : Nat
  rootSeen : Bool
  containers : Nat
  containerDepth : Option Nat
  stack : List Frame
  previousByDepth : Nat → String → Option (Option String)
  findings : SchemaFindings
  context : Fields

/-- The parts of a parser that a parse fixes. -/
structure ParserSettings where
  decoders : Decoders
  limits : XmlParserLimits
  encodedRecordSize : Element → Nat
  documentType : DocumentType
  container : String
  record : String

namespace ParserSettings

variable (p : ParserSettings)

def init (findings : SchemaFindings) : ParseState where
  depth := 0
  elements := 0
  records := 0
  activeRecordDepth := none
  activeRecordStart := 0
  activeRecordEarliestStart := 0
  rootSeen := false
  containers := 0
  containerDepth := none
  stack := []
  previousByDepth := fun _ _ => none
  findings := findings
  context := noFields

/-- The normalized tags of the open path, the root first. -/
def path (stack : List Frame) : List String :=
  (stack.map fun f => p.decoders.tagName f.tag).reverse

/-- The checks on a start of a record container. -/
def startContainer (tag : String) (s : ParseState) : Except Failure ParseState := do
  require (tag = p.container)
    (malformedDocument "XML container does not match the declared document type")
  require (isExpectedContainerPath p.container p.documentType (p.path s.stack))
    (malformedDocument "XML record container is outside an allowed document path")
  require (¬ (p.path s.stack = nestedStoreContainerPath ∧
      s.previousByDepth (s.depth - 1) "subchainid" = none))
    (malformedDocument "A nested SubChain with Stores must declare its own SubChainID")
  require (s.containerDepth = none)
    (malformedDocument "XML record containers may not be nested")
  pure { s with
    containers := s.containers + 1
    containerDepth := some s.depth }

/-- The checks on a start of a record. -/
def startRecord (bytes : FeedBytes) (s : ParseState) : Except Failure ParseState := do
  require (s.activeRecordDepth = none) (malformedDocument "XML records may not be nested")
  require (∃ depth, s.containerDepth = some depth ∧ s.depth = depth + 1)
    (malformedDocument "XML record is outside the expected record container")
  pure { s with
    activeRecordDepth := some s.depth
    activeRecordEarliestStart := bytes.currentFeedStart
    activeRecordStart := bytes.decompressedBytes }

/-- A start event puts its element on the stack. -/
def push (tag : String) (attributes : List (String × String)) (text : Option String)
    (s : ParseState) : Except Failure ParseState := do
  require (s.depth = 0 → s.rootSeen = false ∧ p.decoders.tagName tag = "root")
    (malformedDocument "XML root does not match the regulated document shape")
  require (s.depth + 1 ≤ p.limits.maximumDepth)
    (malformedDocument "XML nesting exceeds the depth limit")
  require (s.elements + 1 ≤ p.limits.maximumElements)
    (malformedDocument "XML document exceeds the element limit")
  pure { s with
    rootSeen := true
    depth := s.depth + 1
    elements := s.elements + 1
    stack := ⟨tag, attributes, text, []⟩ :: s.stack }

/-- The start branch of `_drain`. -/
def start (bytes : FeedBytes) (tag : String) (attributes : List (String × String))
    (text : Option String) (s : ParseState) : Except Failure ParseState := do
  let s ← p.push tag attributes text s
  let s ← if p.decoders.tagName tag ∈ recordContainers then
    p.startContainer (p.decoders.tagName tag) s else pure s
  if p.decoders.tagName tag = p.record then startRecord bytes s else pure s

/-- The typed record of `_parse_record`. -/
def typedRecord (element : Element) (values context : Fields) (recordIndex : Nat)
    (findings : SchemaFindings) : Except Failure ParsedEvent :=
  match p.documentType with
  | .stores => ParsedEvent.store <$> parseStore p.decoders values context recordIndex
  | .priceFull | .priceDelta =>
      ParsedEvent.price <$> parsePrice p.decoders values context recordIndex
  | .promotionFull | .promotionDelta =>
      ParsedEvent.promotion <$>
        parsePromotion p.decoders element values context recordIndex findings
  | .unknown => .error (domainValidation "Unsupported XML document type")

/-- `_parse_record`: the typed record, and a warning about the fields it does not know. -/
def parseRecord (element : Element) (context : Fields) (recordIndex : Nat) :
    Except Failure (ParsedEvent × Option ValidationIssue) := do
  let values ← elementValues p.decoders element
  let findings ← p.decoders.recordFindings element
  let record ← p.typedRecord element values context recordIndex findings
  if findings.count = 0 then pure (record, none)
  else pure (record, some {
    severity := .warning
    code := "unexpected_xml_field"
    message := "XML record contains " ++ toString findings.count ++ " unrecognized schema field(s)"
    recordIndex := some recordIndex
    fieldName := findings.fieldName
    rejectedValue := p.decoders.warningEvidence findings })

/-- The events of a record: the record with its warning, or its rejection. Failures of other kinds
end the parse. -/
def recordEvents (element : Element) (context : Fields) (recordIndex : Nat) :
    Except Failure (List ParsedEvent) :=
  match p.parseRecord element context recordIndex with
  | .ok (record, warning) => .ok (record :: (warning.map ParsedEvent.issue).toList)
  | .error failure =>
      if failure.kind = .domainValidation then
        .ok [.issue {
          severity := .recordRejection
          code := "domain_validation_error"
          message := failure.message
          recordIndex := some recordIndex
          fieldName := none
          rejectedValue := none }]
      else .error failure

/-- The end of a record. -/
def stopRecord (bytes : FeedBytes) (element : Element) (s : ParseState) :
    Except Failure (ParseState × List ParsedEvent) := do
  require (s.records + 1 ≤ p.limits.maximumRecords)
    (malformedDocument "XML document exceeds the record limit")
  require (¬ (p.limits.maximumRecordBytes < bytes.decompressedBytes - s.activeRecordEarliestStart ∧
      p.limits.maximumRecordBytes < p.encodedRecordSize element))
    (malformedDocument "XML record exceeds the byte limit")
  let events ← p.recordEvents element s.context (s.records + 1)
  pure ({ s with
    records := s.records + 1
    activeRecordDepth := none }, events)

/-- `_inspect_document_element`: the findings, and the text that the element gives the context. -/
def inspect (element : Element) (path : List String) (findings : SchemaFindings) :
    Except Failure (SchemaFindings × Option String) := do
  let text ← p.decoders.cleanSourceText element.text
  let findings ← p.decoders.elementFindings path element findings
  if isContextPath p.documentType path ∧ element.children = [] then pure (findings, text)
  else pure (findings, none)

/-- A header value is set in the scope of the parent, whose previous value is kept once. -/
def declare (depth : Nat) (tag text : String) (s : ParseState) : ParseState :=
  { s with
    -- The values of the root hold to the end; a deeper scope keeps what it shadows, the first time.
    previousByDepth :=
      if 1 < depth ∧ s.previousByDepth depth tag = none then
        fun k name => if k = depth ∧ name = tag then some (s.context tag)
          else s.previousByDepth k name
      else s.previousByDepth
    context := fun name => if name = tag then some text else s.context name }

/-- The end of an element outside the records. -/
def stopElement (element : Element) (s : ParseState) : Except Failure ParseState := do
  let (findings, text) ← p.inspect element (p.path s.stack) s.findings
  match text with
  | none => pure { s with findings := findings }
  | some text => pure (declare (s.depth - 1) (p.decoders.tagName element.tag) text
      { s with findings := findings })

/-- The scope of a depth is left: its header values are restored. -/
def restore (depth : Nat) (s : ParseState) : ParseState :=
  { s with
    previousByDepth := fun k name => if k = depth then none else s.previousByDepth k name
    context := fun name => (s.previousByDepth depth name).getD (s.context name) }

/-- The innermost element is closed. Outside the records it is detached from its parent. -/
def pop (tag : String) (element : Element) (rest : List Frame) (s : ParseState) : ParseState :=
  let s := { s with
    containerDepth :=
      if tag = p.container ∧ s.containerDepth = some s.depth then none else s.containerDepth }
  let s := restore s.depth s
  { s with
    depth := s.depth - 1
    -- Inside a record the element stays attached, for the record is read when it ends.
    stack :=
      if s.activeRecordDepth = none then rest
      else match rest with
        | [] => []
        | parent :: rest => { parent with children := parent.children ++ [element] } :: rest }

/-- The end branch of `_drain`. -/
def stop (bytes : FeedBytes) (s : ParseState) :
    Except Failure (ParseState × List ParsedEvent) :=
  match s.stack with
  | [] => .error (malformedDocument "XML element stack became inconsistent")
  | frame :: rest => do
      let tag := p.decoders.tagName frame.tag
      let (s, events) ←
        if s.activeRecordDepth = some s.depth ∧ tag = p.record then
          p.stopRecord bytes frame.element s
        else if s.activeRecordDepth = none then do
          let s ← p.stopElement frame.element s
          pure (s, [])
        else pure (s, [])
      pure (p.pop tag frame.element rest s, events)

/-- One event of `_drain`. -/
def drainEvent (bytes : FeedBytes) (s : ParseState) :
    Markup → Except Failure (ParseState × List ParsedEvent)
  | .start tag attributes text => do
      let s ← p.start bytes tag attributes text s
      pure (s, [])
  | .stop => p.stop bytes s

/-- `_drain`, for events with the byte counters of their feeds. -/
def drain : ParseState → List (FeedBytes × Markup) →
    Except Failure (ParseState × List ParsedEvent)
  | s, [] => .ok (s, [])
  | s, (bytes, event) :: events => do
      let (s, out) ← p.drainEvent bytes s event
      let (s, later) ← drain s events
      pure (s, out ++ later)

/-! ## Feeds -/

/-- A window of the decompressed bytes, with the events that the XML parser makes of it. -/
structure Feed where
  bytes : Nat
  events : List Markup

/-- The feeding loop of `_parse_spooled` from a number of decompressed bytes on. -/
def feedLoop : Nat → ParseState → List Feed → Except Failure (Nat × ParseState × List ParsedEvent)
  | consumed, s, [] => .ok (consumed, s, [])
  | consumed, s, feed :: feeds => do
      let bytes : FeedBytes := ⟨consumed, consumed + feed.bytes⟩
      let (s, out) ← p.drain s (feed.events.map fun event => (bytes, event))
      -- A record that is still open is measured from the end of the feed in which it started.
      require (¬ (s.activeRecordDepth ≠ none ∧
          p.limits.maximumRecordBytes < consumed + feed.bytes - s.activeRecordStart))
        (malformedDocument "XML record exceeds the byte limit")
      let (consumed, s, later) ← feedLoop (consumed + feed.bytes) s feeds
      pure (consumed, s, out ++ later)

/-- `DocumentMetadata` of a parsed document. -/
def documentMetadata (context : Fields) : Except Failure StagedDocument := do
  let sourceUpdatedAt ← dateTime p.decoders context noFields
    ["lastupdatedate", "updatedate", "priceupdatedate"]
    ["lastupdatetime", "updatetime", "priceupdatetime"]
  pure ⟨value context noFields ["subchainid"], value context noFields ["storeid"], sourceUpdatedAt⟩

/-- The warning about the elements and attributes that the document shape does not know. -/
def documentWarning (findings : SchemaFindings) : List ParsedEvent :=
  if findings.count = 0 then []
  else [.issue {
    severity := .warning
    code := "unexpected_xml_field"
    message :=
      "XML document contains " ++ toString findings.count ++ " unrecognized schema field(s)"
    recordIndex := none
    fieldName := findings.fieldName
    rejectedValue := p.decoders.warningEvidence findings }]

/-- `_parse_spooled`: the feeds, the events that closing the XML parser adds, and the checks and
events at the end of the document. -/
def parseSpooled (findings : SchemaFindings) (feeds : List Feed) (closing : List Markup) :
    Except Failure (List ParsedEvent) := do
  let (consumed, s, out) ← p.feedLoop 0 (init findings) feeds
  -- What closing adds is drained with the counters of the last feed.
  let start := consumed - (feeds.getLast?.map Feed.bytes).getD 0
  let (s, last) ← p.drain s (closing.map fun event => (⟨start, consumed⟩, event))
  require (s.rootSeen ∧ s.depth = 0)
    (malformedDocument "XML document did not close its root element")
  require (s.activeRecordDepth = none) (malformedDocument "XML document ended inside a record")
  require (s.containerDepth = none)
    (malformedDocument "XML document ended inside its record container")
  require (s.containers ≠ 0)
    (malformedDocument "XML document lacks the expected record container")
  let metadata ← p.documentMetadata s.context
  pure (out ++ last ++ p.documentWarning s.findings ++ [.metadata metadata])

end ParserSettings

/-- The settings of a parse: `_record_tag` and `_record_container` of its document type. -/
def parserSettings (decoders : Decoders) (limits : XmlParserLimits)
    (encodedRecordSize : Element → Nat) (documentType : DocumentType) :
    Except Failure ParserSettings := do
  let record ← recordTag documentType
  let container ← recordContainer documentType
  pure ⟨decoders, limits, encodedRecordSize, documentType, container, record⟩

end Makolet.Parsing
