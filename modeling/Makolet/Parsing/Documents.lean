import Makolet.Parsing.Drain

/-!
# Documents

What a document tree says, without the parser's bookkeeping: its start and end events, its record
elements in document order, and the header values in scope at each of them. A `Scope` is an open
element with its children that have already closed. An element declares a header value in the scope
of its parent; `inherited` looks a name up in the scopes from the innermost outwards, and within a
scope the last declaration counts.
-/

set_option autoImplicit false

namespace Makolet.Parsing

open Makolet.Domain Makolet.Lib Makolet.Normalized

mutual

/-- The events of an element. -/
def Element.markup : Element → List Markup
  | .mk tag attributes text children => .start tag attributes text :: (markupAll children ++ [.stop])

/-- The events of some siblings. -/
def markupAll : List Element → List Markup
  | [] => []
  | child :: children => child.markup ++ markupAll children

end

/-- An open element: its path, and its children that have closed. -/
structure Scope where
  path : List String
  closed : List Element

/-- The path of the innermost open element. -/
def currentPath : List Scope → List String
  | [] => []
  | scope :: _ => scope.path

/-- The scopes after an element has closed. -/
def closeChild (element : Element) : List Scope → List Scope
  | [] => []
  | scope :: outer => { scope with closed := scope.closed ++ [element] } :: outer

namespace ParserSettings

variable (p : ParserSettings)

/-- The header value that a child declares in the scope of a path. -/
def declares (path : List String) (child : Element) : Option (String × String) :=
  if isContextPath p.documentType (path ++ [p.decoders.tagName child.tag]) then
    match p.decoders.cleanSourceText child.text with
    | .ok (some text) => some (p.decoders.tagName child.tag, text)
    | _ => none
  else none

def addDeclaration (fields : Fields) : Option (String × String) → Fields
  | some (tag, text) => fun name => if name = tag then some text else fields name
  | none => fields

/-- The header values that the closed children of an open element declare. -/
def declared (scope : Scope) : Fields :=
  scope.closed.foldl (fun fields child => addDeclaration fields (p.declares scope.path child))
    noFields

/-- The header values in scope. -/
def inherited : List Scope → Fields
  | [] => noFields
  | scope :: outer => fun name => (p.declared scope name).orElse fun _ => inherited outer name

mutual

/-- The record elements of an element in document order, each with the scopes open at it. -/
def recordsOf (scopes : List Scope) : Element → List (Element × List Scope)
  | .mk tag attributes text children =>
      if p.decoders.tagName tag = p.record ∧
          isExpectedContainerPath p.container p.documentType (currentPath scopes) then
        [(.mk tag attributes text children, scopes)]
      else recordsAmong scopes (currentPath scopes ++ [p.decoders.tagName tag]) [] children

/-- The record elements of some siblings, with the siblings that closed before them. -/
def recordsAmong (scopes : List Scope) (path : List String) (closed : List Element) :
    List Element → List (Element × List Scope)
  | [] => []
  | child :: children =>
      recordsOf (⟨path, closed⟩ :: scopes) child ++
        recordsAmong scopes path (closed ++ [child]) children

end

/-- The SubChain of a nested container has declared its own SubChainID. -/
def SubchainNamed (path : List String) (scopes : List Scope) : Prop :=
  path = nestedStoreContainerPath → ∃ scope outer, scopes = scope :: outer ∧
    p.declared scope "subchainid" ≠ none

mutual

/-- The SubChains of all nested containers of an element have declared a SubChainID before. -/
def SubchainsNamed (scopes : List Scope) : Element → Prop
  | .mk tag _ _ children =>
      p.SubchainNamed (currentPath scopes ++ [p.decoders.tagName tag]) scopes ∧
        SubchainsNamedAmong scopes (currentPath scopes ++ [p.decoders.tagName tag]) [] children

/-- The SubChains of all nested containers of some siblings have declared a SubChainID before. -/
def SubchainsNamedAmong (scopes : List Scope) (path : List String) (closed : List Element) :
    List Element → Prop
  | [] => True
  | child :: children =>
      SubchainsNamed (⟨path, closed⟩ :: scopes) child ∧
        SubchainsNamedAmong scopes path (closed ++ [child]) children

end

/-- The events of record elements, numbered from `n + 1` on: of each record a typed record, maybe
with a warning, or a rejection, all with its number. -/
def Emits : Nat → List (Element × List Scope) → List ParsedEvent → Prop
  | _, [], out => out = []
  | n, (element, scopes) :: records, out =>
      ∃ events later, p.recordEvents element (p.inherited scopes) (n + 1) = .ok events ∧
        out = events ++ later ∧ Emits (n + 1) records later

/-- The settings are those of their document type. -/
structure Regular : Prop where
  record : recordTag p.documentType = .ok p.record
  container : recordContainer p.documentType = .ok p.container

variable {p}

theorem regular_of_parserSettings {decoders : Decoders} {limits : XmlParserLimits}
    {encodedRecordSize : Element → Nat} {documentType : DocumentType}
    (h : parserSettings decoders limits encodedRecordSize documentType = .ok p) : p.Regular := by
  obtain ⟨record, hrecord, h⟩ := bind_eq_ok.mp h
  obtain ⟨container, hcontainer, h⟩ := bind_eq_ok.mp h
  cases pure_eq_ok.mp h
  exact ⟨hrecord, hcontainer⟩

theorem Regular.tags (h : p.Regular) : p.record ∉ recordContainers ∧ p.record ∉ storeContextTags ∧
    p.container ∈ recordContainers := by
  obtain ⟨hrecord, hcontainer⟩ := h
  generalize p.documentType = documentType at hrecord hcontainer
  generalize p.record = record at *
  generalize p.container = container at *
  cases documentType <;> cases hrecord <;> cases hcontainer <;> decide

theorem Emits.append {n : Nat} {records records' : List (Element × List Scope)}
    {out out' : List ParsedEvent} (h : p.Emits n records out)
    (h' : p.Emits (n + records.length) records' out') :
    p.Emits n (records ++ records') (out ++ out') := by
  induction records generalizing n out with
  | nil =>
    cases h
    exact h'
  | cons record records ih =>
    obtain ⟨events, later, hevents, rfl, hlater⟩ := h
    refine ⟨events, later ++ out', hevents, List.append_assoc _ _ _, ih hlater ?_⟩
    rwa [List.length_cons, Nat.add_comm records.length 1, ← Nat.add_assoc] at h'

/-! ### Context paths -/

/-- Where a header value can stand: directly inside the root, a Chain or a SubChain. -/
theorem exists_of_isContextPath {documentType : DocumentType} {path : List String}
    (h : isContextPath documentType path = true) :
    ∃ outer tag, path = outer ++ [tag] ∧ tag ∈ storeContextTags ∧
      outer ∈ [["root"], ["root", "chain"], ["root", "chain", "subchains", "subchain"]] := by
  unfold isContextPath at h
  split at h
  · rename_i tag
    refine ⟨["root"], tag, rfl, ?_, by simp⟩
    split at h
    · exact of_decide_eq_true h
    · exact List.mem_append_left _ (of_decide_eq_true h)
  · rename_i tag
    simp only [Bool.and_eq_true, decide_eq_true_eq] at h
    exact ⟨["root", "chain"], tag, rfl, h.1.2, by simp⟩
  · rename_i tag
    simp only [Bool.and_eq_true, decide_eq_true_eq] at h
    exact ⟨["root", "chain", "subchains", "subchain"], tag, rfl, h.1.2, by simp⟩
  · cases h

theorem mem_tags_of_isContextPath {documentType : DocumentType} {path : List String} {tag : String}
    (h : isContextPath documentType (path ++ [tag]) = true) : tag ∈ storeContextTags := by
  obtain ⟨outer, tag', hpath, htag, -⟩ := exists_of_isContextPath h
  obtain ⟨-, heq⟩ := List.append_inj' hpath rfl
  rwa [List.singleton_inj.mp heq]

/-- Nothing inside a header element is a header element. -/
theorem not_isContextPath_append {documentType : DocumentType} {path : List String}
    (h : isContextPath documentType path = true) (tag : String) :
    isContextPath documentType (path ++ [tag]) = false := by
  by_contra hinner
  obtain ⟨outer, tag', hpath, -, houter⟩ :=
    exists_of_isContextPath (Bool.eq_true_of_not_eq_false hinner)
  obtain ⟨rfl, -⟩ := List.append_inj' hpath rfl
  obtain ⟨outer, name, rfl, hname, -⟩ := exists_of_isContextPath h
  -- The last tag of a wrapper is the root, a Chain or a SubChain, and none of them is a header tag.
  have hlast : name ∈ ["root", "chain", "subchain"] := by
    simp only [List.mem_cons, List.not_mem_nil, or_false] at houter ⊢
    rcases houter with heq | heq | heq <;>
    · have hname := congrArg List.getLast? heq
      simp only [List.getLast?_append, Option.some_or, List.getLast?_cons,
        Option.getD_some, Option.some.injEq, List.getLast?_nil, Option.getD_none] at hname
      simp [hname]
  revert hname
  simp only [List.mem_cons, List.not_mem_nil, or_false] at hlast
  rcases hlast with rfl | rfl | rfl <;> decide

/-- An element that does not stand inside a wrapper declares nothing. -/
theorem declares_eq_none_of {path : List String} {child : Element}
    (h : isContextPath p.documentType (path ++ [p.decoders.tagName child.tag]) = false) :
    p.declares path child = none := by
  rw [declares, h]
  rfl

/-! ### Scopes -/

theorem declared_append (path : List String) (closed : List Element) (child : Element) :
    p.declared ⟨path, closed ++ [child]⟩ =
      addDeclaration (p.declared ⟨path, closed⟩) (p.declares path child) :=
  List.foldl_append

/-- Inside a header element, and inside any element that is no wrapper, nothing is declared. -/
theorem declared_eq_noFields {path : List String}
    (h : ∀ tag, isContextPath p.documentType (path ++ [tag]) = false) (closed : List Element) :
    p.declared ⟨path, closed⟩ = noFields := by
  induction closed using List.reverseRecOn with
  | nil => rfl
  | append_singleton closed child ih =>
    rw [declared_append, ih, declares_eq_none_of (h _)]
    rfl

theorem inherited_open (path : List String) (scopes : List Scope) :
    p.inherited (⟨path, []⟩ :: scopes) = p.inherited scopes :=
  rfl

/-- A child that has closed leaves what it declares in the scope of its parent. -/
theorem inherited_closeChild (child : Element) (scope : Scope) (outer : List Scope) :
    p.inherited (closeChild child (scope :: outer)) =
      addDeclaration (p.inherited (scope :: outer)) (p.declares scope.path child) := by
  funext name
  simp only [closeChild, inherited, declared_append]
  cases p.declares scope.path child with
  | none => rfl
  | some declaration =>
    obtain ⟨tag, text⟩ := declaration
    simp only [addDeclaration]
    split <;> rfl

/-- The header values that the closing of an element restores: in every scope below the root those
that its children have declared, with the values they had outside. -/
def saved : List Scope → Nat → String → Option (Option String)
  | [], _, _ => none
  | scope :: outer, k, name =>
      if k = outer.length + 1 then
        if 1 < k ∧ p.declared scope name ≠ none then some (p.inherited outer name) else none
      else saved outer k name

theorem saved_above {scopes : List Scope} {k : Nat} (h : scopes.length < k) (name : String) :
    p.saved scopes k name = none := by
  induction scopes with
  | nil => rfl
  | cons scope outer ih =>
    rw [List.length_cons] at h
    rw [saved, if_neg (Nat.ne_of_gt h), ih (by omega)]

theorem saved_here (scope : Scope) (outer : List Scope) (name : String) :
    p.saved (scope :: outer) (outer.length + 1) name =
      if outer ≠ [] ∧ p.declared scope name ≠ none then some (p.inherited outer name) else none := by
  rw [saved, if_pos rfl]
  cases outer <;> simp

theorem saved_open (path : List String) (scopes : List Scope) :
    p.saved (⟨path, []⟩ :: scopes) = p.saved scopes := by
  funext k name
  rw [saved]
  split
  · rename_i hk
    rw [if_neg fun h => h.2 rfl, saved_above (by omega)]
  · rfl

/-- What a child declares is saved unless its name has been declared in the scope before. -/
theorem saved_closeChild {child : Element} {scope : Scope} {tag text : String}
    (h : p.declares scope.path child = some (tag, text)) (outer : List Scope) :
    p.saved (closeChild child (scope :: outer)) =
      if 1 < outer.length + 1 ∧ p.saved (scope :: outer) (outer.length + 1) tag = none then
        fun k name => if k = outer.length + 1 ∧ name = tag then
          some (p.inherited (scope :: outer) tag) else p.saved (scope :: outer) k name
      else p.saved (scope :: outer) := by
  have hdeclared : ∀ name, p.declared ⟨scope.path, scope.closed ++ [child]⟩ name =
      if name = tag then some text else p.declared scope name := by
    intro name
    rw [declared_append, h]
    rfl
  have hsaved : p.saved (closeChild child (scope :: outer)) = fun k name =>
      if k = outer.length + 1 ∧ name = tag ∧ outer ≠ [] then some (p.inherited outer tag)
      else p.saved (scope :: outer) k name := by
    funext k name
    simp only [closeChild, saved, hdeclared]
    by_cases hk : k = outer.length + 1
    · by_cases hname : name = tag <;> cases outer <;> simp [hk, hname]
    · simp [hk]
  rw [hsaved, saved_here]
  cases outer with
  | nil => simp
  | cons first rest =>
    by_cases hscope : p.declared scope tag = none
    · -- The value outside the scope is inherited while the scope does not declare the name.
      simp [hscope, inherited]
    · rw [if_neg (by simp [hscope])]
      funext k name
      split
      · rename_i hname
        rw [hname.1, hname.2.1, saved_here, if_pos ⟨hname.2.2, hscope⟩]
      · rfl

end ParserSettings

end Makolet.Parsing
