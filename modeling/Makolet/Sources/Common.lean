import Mathlib.Data.Nat.Digits.Lemmas
import Mathlib.Data.List.Sort
import Mathlib.Data.String.Basic
import Makolet.Domain.Enums
import Makolet.Lib.Outcome
import Makolet.Lib.Table

/-!
# What the source adapters share

Discovery cursors, the limit of a page, remote files and their deduplication, after
`adapters/sources/common.py`. A cursor is the JSON object that its text encodes: the text is the
URL-safe base64 of the compact JSON with ASCII escapes, of which only the length is read here.

How a link or a file name reads (URL joining, host names, the recognition of publisher file names)
is the record `Site`, over which everything is stated.
-/

set_option autoImplicit false

namespace Makolet.Sources

open Makolet.Domain Makolet.Lib

/-! ## Failures -/

def sourceResponse (message : String) : Failure := ⟨.sourceResponse, message, 0⟩

def domainValidation (message : String) : Failure := ⟨.domainValidation, message, 0⟩

/-- The position is outside the sequence. -/
def indexError : Failure := ⟨.other, "tuple index out of range", 0⟩

/-! ## Cursors -/

/-- The values that the adapters write into a cursor. -/
inductive CursorValue
  | int (n : Nat)
  | text (s : String)
  deriving DecidableEq, Repr

abbrev CursorState := List (String × CursorValue)

/-- The JSON object of a discovery cursor. -/
structure DiscoveryCursor where
  payload : CursorState
  deriving DecidableEq, Repr

/-- What `json.dumps` writes for one character. -/
def jsonCharSize (c : Char) : Nat :=
  if c = '"' ∨ c = '\\' ∨ c = '\n' ∨ c = '\r' ∨ c = '\t' ∨ c.toNat = 8 ∨ c.toNat = 12 then 2
  else if 32 ≤ c.toNat ∧ c.toNat ≤ 126 then 1
  else if c.toNat < 65536 then 6
  else 12

def jsonTextSize (s : String) : Nat := 2 + (s.toList.map jsonCharSize).sum

def CursorValue.jsonSize : CursorValue → Nat
  | .int n => max 1 (Nat.digits 10 n).length
  | .text s => jsonTextSize s

/-- The length of the compact JSON object: braces, and a colon and a comma for each field. -/
def jsonSize (payload : CursorState) : Nat :=
  1 + (payload.map fun field => jsonTextSize field.1 + field.2.jsonSize + 2).sum

/-- The length of the unpadded base64. -/
def DiscoveryCursor.size (c : DiscoveryCursor) : Nat := (4 * jsonSize c.payload + 2) / 3

/-- `MAXIMUM_CURSOR_BYTES`. -/
def maximumCursorBytes : Nat := 2048

def encodeCursor (sourceId : String) (state : CursorState) : DiscoveryCursor :=
  ⟨("v", .int 1) :: ("source", .text sourceId) :: state⟩

def decodeCursor (sourceId : String) : Option DiscoveryCursor → Except Failure CursorState
  | none => .ok []
  | some value => do
    require (value.size ≤ maximumCursorBytes)
      (domainValidation "Discovery cursor is empty or too large")
    require (value.payload.lookup "v" = some (.int 1))
      (domainValidation "Discovery cursor has an unsupported version")
    require (value.payload.lookup "source" = some (.text sourceId))
      (domainValidation "Discovery cursor belongs to another source")
    pure value.payload

def cursorInt (state : CursorState) (name : String) (default maximum : Nat) :
    Except Failure Nat :=
  match (state.lookup name).getD (.int default) with
  | .int n =>
    if n ≤ maximum then .ok n
    else .error (domainValidation ("Discovery cursor field " ++ name ++ " is invalid"))
  | .text _ => .error (domainValidation ("Discovery cursor field " ++ name ++ " is invalid"))

/-- The default `maximum` of `cursor_int`. -/
def maximumOffset : Nat := 1000000

def cursorText (state : CursorState) (name : String) : Except Failure (Option String) :=
  match state.lookup name with
  | none => .ok none
  | some (.text s) =>
    if s.length ≤ 128 then .ok (some s)
    else .error (domainValidation ("Discovery cursor field " ++ name ++ " is invalid"))
  | some (.int _) =>
    .error (domainValidation ("Discovery cursor field " ++ name ++ " is invalid"))

def validateLimit (limit : Nat) : Except Failure Unit :=
  require (1 ≤ limit ∧ limit ≤ 500) (domainValidation "Discovery limit must be between 1 and 500")

/-- A limit that `validate_limit` accepts. -/
abbrev PageLimit := { limit : Nat // 1 ≤ limit ∧ limit ≤ 500 }

/-! ## Remote files -/

structure RemoteFile where
  retailerId : String
  portalId : String
  remoteId : String
  downloadUrl : String
  originalFilename : String
  compression : CompressionFormat
  contentLength : Option Nat
  deriving DecidableEq, Repr

/-- A link of a listing page. -/
structure HtmlLink where
  href : String
  text : String
  attributes : List (String × String)
  rowText : String
  deriving DecidableEq, Repr

/-- How links, URLs and file names read. -/
structure Site where
  filenameFromLink : HtmlLink → Option String
  /-- the page numbers that one link contributes to `listing_page_numbers` -/
  pageNumbers : HtmlLink → List Nat
  absoluteUrl : String → String → String
  /-- `(urlsplit(url).hostname or "").casefold()` -/
  hostname : String → String
  casefold : String → String
  quote : String → String
  isDigit : Char → Bool
  validateDiscoveredUrl : String → List String → List String → Except Failure Unit
  /-- `_validate_listing_page_url` -/
  validateListingPageUrl : String → List String → Except Failure Unit
  safeBasename : String → Except Failure String
  canonicalRemoteId : String → String → String
  inferCompression : String → CompressionFormat
  /-- the checks of the `RemoteFile` constructor -/
  validateRemoteFile : RemoteFile → Except Failure Unit

def Site.buildRemoteFile (site : Site) (retailerId portalId downloadUrl originalFilename : String)
    (allowedHosts allowedSchemes : List String) (contentLength : Option Nat) :
    Except Failure RemoteFile := do
  site.validateDiscoveredUrl downloadUrl allowedHosts allowedSchemes
  let filename ← site.safeBasename originalFilename
  let file : RemoteFile :=
    { retailerId := retailerId
      portalId := portalId
      remoteId := site.canonicalRemoteId downloadUrl filename
      downloadUrl := downloadUrl
      originalFilename := filename
      compression := site.inferCompression filename
      contentLength := contentLength }
  site.validateRemoteFile file
  pure file

/-- `sorted(..., key=lambda item: item.remote_id)`. -/
def sortFiles (files : List RemoteFile) : List RemoteFile :=
  files.insertionSort fun a b => a.remoteId ≤ b.remoteId

def deduplicateFiles (files : List RemoteFile) : List RemoteFile :=
  sortFiles (Table.distinctOn RemoteFile.remoteId files)

structure DiscoveryPage where
  files : List RemoteFile
  nextCursor : Option DiscoveryCursor
  complete : Bool
  deriving DecidableEq, Repr

/-- The page that goes on at the state `next`, or the last page. -/
def DiscoveryPage.of (sourceId : String) (files : List RemoteFile) (next : Option CursorState) :
    DiscoveryPage :=
  ⟨files, next.map (encodeCursor sourceId), next.isNone⟩

/-! ## What the parts do -/

/-- `sys.maxsize`: no sequence is longer. -/
def maximumSize : Nat := 2 ^ 63 - 1

theorem jsonSize_int {n : Nat} (h : n ≤ maximumSize) : (CursorValue.int n).jsonSize ≤ 19 := by
  have hlt : n < 10 ^ 19 := by
    have : maximumSize < 10 ^ 19 := by decide
    omega
  have hlen := (Nat.digits_length_le_iff (by decide : 1 < 10) n).mpr hlt
  simp only [CursorValue.jsonSize]
  omega

theorem jsonTextSize_le (s : String) : jsonTextSize s ≤ 2 + 12 * s.length := by
  have hchar : ∀ c : Char, jsonCharSize c ≤ 12 := by
    intro c
    unfold jsonCharSize
    split_ifs <;> omega
  have hsum : ∀ cs : List Char, (cs.map jsonCharSize).sum ≤ 12 * cs.length := by
    intro cs
    induction cs with
    | nil => simp
    | cons c cs ih =>
      have := hchar c
      simp only [List.map_cons, List.sum_cons, List.length_cons]
      omega
  have := hsum s.toList
  simp only [jsonTextSize, ← String.length_toList]
  omega

/-- A source identifier that leaves room in every cursor. -/
def ShortId (sourceId : String) : Prop := jsonTextSize sourceId ≤ 1000

instance (sourceId : String) : Decidable (ShortId sourceId) := inferInstanceAs (Decidable (_ ≤ _))

/-- A cursor of the source with a small state is read back. -/
theorem decodeCursor_encodeCursor {sourceId : String} {state : CursorState} (hid : ShortId sourceId)
    (hstate : (state.map fun field => jsonTextSize field.1 + field.2.jsonSize + 2).sum ≤ 500) :
    decodeCursor sourceId (some (encodeCursor sourceId state)) =
      .ok (("v", .int 1) :: ("source", .text sourceId) :: state) := by
  have hv : jsonTextSize "v" = 3 := by decide
  have hsource : jsonTextSize "source" = 8 := by decide
  have hsize : (encodeCursor sourceId state).size ≤ maximumCursorBytes := by
    have hone : (CursorValue.int 1).jsonSize ≤ 19 := jsonSize_int (by decide)
    have htext : (CursorValue.text sourceId).jsonSize = jsonTextSize sourceId := rfl
    simp only [DiscoveryCursor.size, encodeCursor, jsonSize, List.map_cons, List.sum_cons, hv,
      hsource, htext, maximumCursorBytes]
    unfold ShortId at hid
    omega
  have hversion : (encodeCursor sourceId state).payload.lookup "v" = some (.int 1) :=
    List.lookup_cons_self
  have howner : (encodeCursor sourceId state).payload.lookup "source" = some (.text sourceId) :=
    List.lookup_eq_some_iff.2 ⟨[("v", .int 1)], state, rfl, by simp⟩
  rw [decodeCursor, require_bind_of hsize, require_bind_of hversion, require_bind_of howner]
  rfl

theorem validateLimit_ok (limit : PageLimit) : validateLimit limit.1 = .ok () :=
  require_eq_ok.mpr limit.2

/-- Files with different remote ids are only sorted. -/
theorem deduplicateFiles_perm {files : List RemoteFile}
    (h : (files.map RemoteFile.remoteId).Nodup) : (deduplicateFiles files).Perm files := by
  have hself : ∀ files : List RemoteFile, (files.map RemoteFile.remoteId).Nodup →
      Table.distinctOn RemoteFile.remoteId files = files := by
    intro files
    induction files with
    | nil => intro _; rfl
    | cons file rest ih =>
      intro h
      rw [List.map_cons, List.nodup_cons] at h
      rw [Table.distinctOn, ih h.2, List.filter_eq_self.mpr]
      intro other hother
      apply decide_eq_true
      intro heq
      exact h.1 (heq ▸ List.mem_map_of_mem hother)
  rw [deduplicateFiles, hself files h]
  exact List.perm_insertionSort _ _

theorem deduplicateFiles_length_le (files : List RemoteFile) :
    (deduplicateFiles files).length ≤ files.length := by
  rw [deduplicateFiles, sortFiles, List.length_insertionSort]
  exact (Table.distinctOn_sublist files).length_le

end Makolet.Sources
