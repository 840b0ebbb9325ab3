import Makolet.Parsing.RecordEvents

/-!
# Store context

Where the chain and subchain of a store record come from: its own fields, and else the header
values of the wrappers that are open around it, the SubChain first, then the Chain, then the root.
-/

set_option autoImplicit false

namespace Makolet.Parsing

open Makolet.Domain Makolet.Lib Makolet.Normalized

namespace ParserSettings

variable {p : ParserSettings}

/-! ## Scopes of records -/

/-- Scopes that are open around an element of a document: each path is one tag longer than the
next, and the SubChain of a nested container has declared its SubChainID. -/
def WellScoped (p : ParserSettings) : List Scope → Prop
  | [] => True
  | scope :: outer => (∃ tag, scope.path = currentPath outer ++ [tag]) ∧
      p.SubchainNamed scope.path outer ∧ WellScoped p outer

mutual

theorem wellScoped_of_mem_recordsOf (element : Element) {scopes scopes' : List Scope}
    {record : Element} (hscopes : p.WellScoped scopes) (hnamed : p.SubchainsNamed scopes element)
    (h : (record, scopes') ∈ p.recordsOf scopes element) :
    p.WellScoped scopes' ∧
      isExpectedContainerPath p.container p.documentType (currentPath scopes') = true := by
  match element with
  | .mk tag attributes text children =>
    rw [recordsOf] at h
    split at h
    · rename_i hrecord
      cases List.mem_singleton.mp h
      exact ⟨hscopes, hrecord.2⟩
    · exact wellScoped_of_mem_recordsAmong children ⟨⟨_, rfl⟩, hnamed.1, hscopes⟩ hnamed.2 h

theorem wellScoped_of_mem_recordsAmong (elements : List Element) {scopes scopes' : List Scope}
    {path : List String} {closed : List Element} {record : Element}
    (hscopes : p.WellScoped (⟨path, closed⟩ :: scopes))
    (hnamed : p.SubchainsNamedAmong scopes path closed elements)
    (h : (record, scopes') ∈ p.recordsAmong scopes path closed elements) :
    p.WellScoped scopes' ∧
      isExpectedContainerPath p.container p.documentType (currentPath scopes') = true := by
  match elements with
  | [] => cases h
  | element :: elements =>
    rcases List.mem_append.mp h with hfirst | hlater
    · exact wellScoped_of_mem_recordsOf element hscopes hnamed.1 hfirst
    · have hclosed : p.WellScoped (⟨path, closed ++ [element]⟩ :: scopes) :=
        ⟨hscopes.1, hscopes.2⟩
      exact wellScoped_of_mem_recordsAmong elements hclosed hnamed.2 hlater

end

/-- The innermost scope of a path. -/
theorem WellScoped.cons {scopes : List Scope} (h : p.WellScoped scopes) (path : List String)
    {tag : String} (hpath : currentPath scopes = path ++ [tag]) :
    ∃ scope outer, scopes = scope :: outer ∧ scope.path = path ++ [tag] ∧
      currentPath outer = path ∧ p.SubchainNamed scope.path outer ∧ p.WellScoped outer := by
  cases scopes with
  | nil => simp [currentPath] at hpath
  | cons scope outer =>
    obtain ⟨⟨tag', htag⟩, hnamed, houter⟩ := h
    refine ⟨scope, outer, rfl, hpath, ?_, hnamed, houter⟩
    exact (List.append_inj' (htag.symm.trans hpath) rfl).1

theorem WellScoped.nil {scopes : List Scope} (h : p.WellScoped scopes)
    (hpath : currentPath scopes = []) : scopes = [] := by
  cases scopes with
  | nil => rfl
  | cons scope outer =>
    obtain ⟨⟨tag, htag⟩, -⟩ := h
    exact absurd (htag.symm.trans hpath) (by simp)

/-- Inside an element that is no wrapper nothing is inherited but what is inherited around it. -/
theorem inherited_through {scope : Scope} {path : List String} (hpath : scope.path = path)
    (h : ∀ tag, isContextPath p.documentType (path ++ [tag]) = false) (outer : List Scope) :
    p.inherited (scope :: outer) = p.inherited outer := by
  obtain ⟨path', closed⟩ := scope
  subst hpath
  funext name
  show (p.declared _ name).orElse _ = _
  rw [declared_eq_noFields h]
  rfl

/-- The wrappers around a store record: those of a top-level container, or those of a container in
a SubChain, which has declared its SubChainID. -/
inductive StoreWrappers (p : ParserSettings) : List Scope → Prop
  | top (container root : Scope) : container.path = ["root", "stores"] → root.path = ["root"] →
      StoreWrappers p [container, root]
  | nested (container subchain subchains chain root : Scope) :
      container.path = ["root", "chain", "subchains", "subchain", "stores"] →
      subchain.path = ["root", "chain", "subchains", "subchain"] →
      subchains.path = ["root", "chain", "subchains"] → chain.path = ["root", "chain"] →
      root.path = ["root"] → p.declared subchain "subchainid" ≠ none →
      StoreWrappers p [container, subchain, subchains, chain, root]

/-- The values that the wrappers of a store record declare before it: the innermost wrapper that
declares the name counts. -/
def wrapperValue (p : ParserSettings) : List Scope → Fields
  | [_, root] => p.declared root
  | [_, subchain, _, chain, root] => fun name =>
      ((p.declared subchain name).or (p.declared chain name)).or (p.declared root name)
  | _ => noFields

theorem storeWrappers_of_wellScoped (hcontainer : p.container = "stores") {scopes : List Scope}
    (h : p.WellScoped scopes)
    (hpath : isExpectedContainerPath p.container p.documentType (currentPath scopes) = true) :
    p.StoreWrappers scopes := by
  rw [hcontainer, isExpectedContainerPath, Bool.or_eq_true, decide_eq_true_eq, Bool.and_eq_true,
    decide_eq_true_eq, decide_eq_true_eq] at hpath
  rcases hpath with htop | ⟨-, hnested⟩
  · obtain ⟨container, outer, rfl, hpath, houter, -, h⟩ := h.cons ["root"] htop
    obtain ⟨root, outer, rfl, hroot, hnil, -, h⟩ := h.cons [] houter
    obtain rfl := h.nil hnil
    exact .top container root hpath hroot
  · obtain ⟨container, outer, rfl, hpath, houter, hnamed, h⟩ :=
      h.cons ["root", "chain", "subchains", "subchain"] hnested
    obtain ⟨subchain, outer, rfl, hsubchain, houter, -, h⟩ :=
      h.cons ["root", "chain", "subchains"] houter
    obtain ⟨subchains, outer, rfl, hsubchains, houter, -, h⟩ :=
      h.cons ["root", "chain"] houter
    obtain ⟨chain, outer, rfl, hchain, houter, -, h⟩ := h.cons ["root"] houter
    obtain ⟨root, outer, rfl, hroot, hnil, -, h⟩ := h.cons [] houter
    obtain rfl := h.nil hnil
    obtain ⟨subchain', outer, heq, hdeclared⟩ := hnamed hpath
    cases heq
    exact .nested container subchain subchains chain root hpath hsubchain hsubchains hchain hroot
      hdeclared

theorem StoreWrappers.inherited_eq {scopes : List Scope} (h : p.StoreWrappers scopes) :
    p.inherited scopes = p.wrapperValue scopes := by
  have hstores : ∀ tag, isContextPath p.documentType (["root", "stores"] ++ [tag]) = false :=
    fun _ => rfl
  have hroot : ∀ root, p.inherited [root] = p.declared root := by
    intro root
    funext name
    show (p.declared root name).orElse _ = _
    cases p.declared root name <;> rfl
  cases h with
  | top container root hcontainer _ =>
    rw [inherited_through hcontainer hstores, hroot]
    rfl
  | nested container subchain subchains chain root hcontainer _ hsubchains _ _ _ =>
    rw [inherited_through hcontainer fun _ => rfl]
    funext name
    show (p.declared subchain name).orElse (fun _ => p.inherited (subchains :: _) name) = _
    rw [inherited_through hsubchains fun tag => by simp [isContextPath]]
    show (p.declared subchain name).orElse
      (fun _ => (p.declared chain name).orElse fun _ => p.inherited [root] name) = _
    rw [hroot]
    show _ = ((p.declared subchain name).or (p.declared chain name)).or (p.declared root name)
    cases p.declared subchain name <;> cases p.declared chain name <;> rfl

/-! ## Store records -/

/-- A store record takes its chain and subchain from the fields of its element, and else from a
context. -/
def TakesChain (p : ParserSettings) (element : Element) (context : Fields)
    (record : StagedStore) : Prop :=
  ∃ values, elementValues p.decoders element = .ok values ∧
    required values context ["chainid"] = .ok record.chainId ∧
    required values context ["subchainid"] = .ok record.subchainId ∧
    record.description.chainName = value values context ["chainname"] ∧
    record.description.subchainName = value values context ["subchainname"]

theorem takesChain_of_recordEvents {element : Element} {context : Fields} {recordIndex : Nat}
    {events : List ParsedEvent} {record : StagedStore}
    (h : p.recordEvents element context recordIndex = .ok events)
    (hmem : ParsedEvent.store record ∈ events) : p.TakesChain element context record := by
  unfold recordEvents at h
  split at h
  · rename_i typed warning hrecord
    cases h
    obtain ⟨values, findings, hvalues, htyped, -⟩ := parseRecord_eq_ok hrecord
    rcases List.mem_cons.mp hmem with rfl | hwarning
    · unfold typedRecord at htyped
      split at htyped
      · obtain ⟨store, hstore, heq⟩ := map_eq_ok.mp htyped
        cases heq
        obtain ⟨chainId, hchain, hstore⟩ := bind_eq_ok.mp hstore
        obtain ⟨subchainId, hsubchain, hstore⟩ := bind_eq_ok.mp hstore
        obtain ⟨storeId, -, hstore⟩ := bind_eq_ok.mp hstore
        obtain ⟨name, -, hstore⟩ := bind_eq_ok.mp hstore
        obtain ⟨-, -, hstore⟩ := bind_eq_ok.mp hstore
        cases pure_eq_ok.mp hstore
        exact ⟨values, hvalues, hchain, hsubchain, rfl, rfl⟩
      all_goals
        first
        | cases htyped
        | obtain ⟨_, _, heq⟩ := map_eq_ok.mp htyped
          cases heq
    · cases warning <;> simp at hwarning
  · split at h <;> cases h
    simp at hmem

/-- A store record of emitted events is that of the record element it has the number of. -/
theorem Emits.mem_store {n : Nat} {records : List (Element × List Scope)} {out : List ParsedEvent}
    (h : p.Emits n records out) {record : StagedStore} (hmem : ParsedEvent.store record ∈ out) :
    ∃ k element scopes, record.recordIndex = n + 1 + k ∧ records[k]? = some (element, scopes) ∧
      p.TakesChain element (p.inherited scopes) record := by
  induction records generalizing n out with
  | nil =>
    cases h
    cases hmem
  | cons first records ih =>
    obtain ⟨events, later, hevents, rfl, hlater⟩ := h
    rcases List.mem_append.mp hmem with hhere | hthere
    · have hindex : record.recordIndex ∈ events.filterMap outcomeIndex :=
        List.mem_filterMap.mpr ⟨.store record, hhere, rfl⟩
      rw [recordEvents_outcome hevents, List.mem_singleton] at hindex
      exact ⟨0, first.1, first.2, hindex, rfl, takesChain_of_recordEvents hevents hhere⟩
    · obtain ⟨k, element, scopes, hindex, hrecord, htakes⟩ := ih hlater hthere
      refine ⟨k + 1, element, scopes, ?_, hrecord, htakes⟩
      rw [hindex]
      omega

end ParserSettings

/-- The chain and subchain of every store record of an accepted document are those of its own
element's fields, or else those that the open wrappers of that element have declared last before it;
and the SubChain of every nested container has declared its SubChainID before. -/
theorem store_context_is_lexical {decoders : Decoders} {limits : XmlParserLimits}
    {encodedRecordSize : Element → Nat} {p : ParserSettings}
    (hp : parserSettings decoders limits encodedRecordSize .stores = .ok p) {root : Element}
    {findings : SchemaFindings} {feeds : List ParserSettings.Feed} {closing : List Markup}
    {out : List ParsedEvent}
    (hroot : feeds.flatMap ParserSettings.Feed.events ++ closing = root.markup)
    (h : p.parseSpooled findings feeds closing = .ok out) :
    p.SubchainsNamed [] root ∧
      ∀ record, ParsedEvent.store record ∈ out → ∃ element scopes,
        (p.recordsOf [] root)[record.recordIndex - 1]? = some (element, scopes) ∧
          p.StoreWrappers scopes ∧ p.TakesChain element (p.wrapperValue scopes) record := by
  obtain ⟨records, rest, rfl, hemits, hnamed, hrest⟩ :=
    ParserSettings.parseSpooled_eq_ok (ParserSettings.regular_of_parserSettings hp) hroot h
  refine ⟨hnamed, fun record hmem => ?_⟩
  have hrecords : ParsedEvent.store record ∈ records := by
    rcases List.mem_append.mp hmem with hrecords | hdocument
    · exact hrecords
    · cases hrest _ hdocument
  obtain ⟨k, element, scopes, hindex, hrecord, htakes⟩ := hemits.mem_store hrecords
  have hcontainer : p.container = "stores" := by
    cases hp
    rfl
  obtain ⟨hscopes, hpath⟩ :=
    ParserSettings.wellScoped_of_mem_recordsOf root (show p.WellScoped [] from trivial) hnamed
      (List.mem_of_getElem? hrecord)
  have hwrappers := ParserSettings.storeWrappers_of_wellScoped hcontainer hscopes hpath
  rw [hwrappers.inherited_eq] at htakes
  refine ⟨element, scopes, ?_, hwrappers, htakes⟩
  rw [hindex, Nat.zero_add, Nat.add_sub_cancel_left]
  exact hrecord

theorem nested_store_context : plainSettings.SubchainsNamed [] nestedDocument ∧
    ∃ element scopes, (plainSettings.recordsOf [] nestedDocument)[2]? = some (element, scopes) ∧
      plainSettings.StoreWrappers scopes ∧
        plainSettings.TakesChain element (plainSettings.wrapperValue scopes) northStore := by
  obtain ⟨hnamed, hstores⟩ :=
    store_context_is_lexical parserSettings_plain nestedFeeds_events parse_nested
  exact ⟨hnamed, hstores northStore (by simp [nestedEvents])⟩

end Makolet.Parsing
