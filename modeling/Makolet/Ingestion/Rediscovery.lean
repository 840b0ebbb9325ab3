import Makolet.Lib.System
import Makolet.Ingestion.Resume

/-!
# Rediscovery of a listed file

`register_discovery` of a file that is registered already, with everything that a listing declares:
`_rediscovery_updates` compares the listing with the row, fills in what is missing for the lock owner
of a file without an archive, and lets a signed HTTPS URL rotate. `record_archive` later writes the
media type, the entity tag and the modification time of the download over those of the listing, and
a rediscovery compares the listing with the result.

`rediscovery_idempotent` says when the listing that a file was discovered by is still accepted.
-/

set_option autoImplicit false

namespace Makolet.Ingestion

open Makolet.Domain Makolet.Lib Makolet.Normalized

/-! ## Signed URLs -/

/-- What `_is_signed_url_rotation` reads of a URL: `urlsplit` of it with the case-folded scheme and
host, and `parse_qsl` of its query with case-folded keys. -/
structure SplitUrl where
  scheme : String
  hostname : Option String
  port : Option Nat
  path : String
  fragment : String
  query : List (String × String)
  deriving DecidableEq, Repr

/-- `_SIGNED_QUERY_KEYS`. -/
def signedQueryKeys : List String :=
  ["access_token", "expires", "expiry", "se", "sig", "signature", "ske", "skoid", "sks", "skt",
    "sktid", "skv", "sp", "sr", "st", "sv", "token"]

/-- `_is_signed_query_key`. -/
def isSignedQueryKey (key : String) : Bool :=
  decide (key ∈ signedQueryKeys) || key.startsWith "x-amz-" || key.startsWith "x-goog-"

namespace SplitUrl

variable (u : SplitUrl)

/-- `_url_identity`. -/
def urlIdentity : Option String × Option Nat × String × String :=
  (u.hostname, u.port, u.path, u.fragment)

/-- `sorted` of a part of the query. -/
def sortedQuery (keep : String → Bool) : List (String × String) :=
  (u.query.filter fun pair => keep pair.1).insertionSort fun a b =>
    a.1 < b.1 ∨ (a.1 = b.1 ∧ a.2 ≤ b.2)

def stable : List (String × String) := u.sortedQuery fun key => !isSignedQueryKey key

def signed : List (String × String) := u.sortedQuery isSignedQueryKey

end SplitUrl

/-- `_is_signed_url_rotation`. -/
def isSignedUrlRotation (urlsplit : String → SplitUrl) (existing candidate : String) : Bool :=
  let existingUrl := urlsplit existing
  let candidateUrl := urlsplit candidate
  decide (existingUrl.scheme = "https" ∧ candidateUrl.scheme = "https" ∧
    existingUrl.urlIdentity = candidateUrl.urlIdentity ∧
    existingUrl.stable = candidateUrl.stable ∧ existingUrl.signed ≠ [] ∧
    candidateUrl.signed ≠ [] ∧ existingUrl.signed ≠ candidateUrl.signed)

/-! ## Listings and rows -/

/-- Everything a listing declares of a file; `remote` is what the rest of the lifecycle reads. -/
structure Listing where
  remote : RemoteFile
  downloadUrl : String
  originalFilename : String
  contentLength : Option Nat
  mediaType : Option String
  etag : Option String
  lastModified : Option Time
  responseMetadata : List (String × String)
  deriving DecidableEq, Repr

/-- The row of `source_files` with these columns. -/
structure ListedFile where
  row : SourceFile
  downloadUrl : String
  originalFilename : String
  declaredContentLength : Option Nat
  mediaType : Option String
  etag : Option String
  lastModified : Option Time
  responseMetadata : List (String × String)
  deriving DecidableEq, Repr

/-- What `record_archive` takes from the download. -/
structure DownloadEvidence where
  finishedAt : Time
  mediaType : Option String
  etag : Option String
  lastModified : Option Time
  deriving DecidableEq, Repr

/-- The row that a first registration inserts. -/
def ListedFile.discovered (l : Listing) : ListedFile where
  row := ⟨l.remote, .discovered, none, none⟩
  downloadUrl := l.downloadUrl
  originalFilename := l.originalFilename
  declaredContentLength := l.contentLength
  mediaType := l.mediaType
  etag := l.etag
  lastModified := l.lastModified
  responseMetadata := l.responseMetadata

/-! ## Registration of a registered file -/

def rediscoveryFailure (field : String) : Failure :=
  ⟨.persistenceConflict, "Rediscovered source conflicts with its original " ++ field, 0⟩

/-- Both sides declare a value and the values differ. -/
def Disagree {α : Type} (existing candidate : Option α) : Prop :=
  existing ≠ none ∧ candidate ≠ none ∧ existing ≠ candidate

instance {α : Type} [DecidableEq α] (existing candidate : Option α) :
    Decidable (Disagree existing candidate) :=
  inferInstanceAs (Decidable (_ ∧ _ ∧ _))

/-- One optional evidence field: compared where both sides declare it, filled in where only the
listing does. -/
def rediscoverEvidence {α : Type} [DecidableEq α] (field : String) (writable : Bool)
    (existing candidate : Option α) : Except Failure (Option α) := do
  require (¬ Disagree existing candidate) (rediscoveryFailure field)
  pure (if writable then existing.or candidate else existing)

/-- The response metadata, whose absence is the empty list. -/
def rediscoverMetadata (writable : Bool) (existing candidate : List (String × String)) :
    Except Failure (List (String × String)) := do
  require (existing = [] ∨ candidate = [] ∨ existing = candidate)
    (rediscoveryFailure "response_metadata")
  pure (if writable = true ∧ existing = [] then candidate else existing)

/-- `_rediscovery_updates`, with the updated row. -/
def rediscoveryUpdates (urlsplit : String → SplitUrl) (file : ListedFile) (l : Listing)
    (ownedRefresh : Bool) : Except Failure ListedFile := do
  require (file.originalFilename = l.originalFilename) (rediscoveryFailure "original_filename")
  require (file.row.remote.documentType = l.remote.documentType)
    (rediscoveryFailure "document_type")
  require (file.row.remote.compression = l.remote.compression) (rediscoveryFailure "compression")
  require (file.row.remote.protocol = l.remote.protocol) (rediscoveryFailure "protocol")
  let writable := ownedRefresh && file.row.archive.isNone
  require (file.downloadUrl = l.downloadUrl ∨ (l.remote.protocol = .https ∧
      isSignedUrlRotation urlsplit file.downloadUrl l.downloadUrl = true))
    (rediscoveryFailure "download_url")
  let sourceTimestamp ← rediscoverEvidence "source_timestamp" writable
    file.row.remote.sourceTimestamp l.remote.sourceTimestamp
  let declaredContentLength ← rediscoverEvidence "declared_content_length" writable
    file.declaredContentLength l.contentLength
  let mediaType ← rediscoverEvidence "media_type" writable file.mediaType l.mediaType
  let etag ← rediscoverEvidence "etag" writable file.etag l.etag
  let lastModified ← rediscoverEvidence "last_modified" writable file.lastModified l.lastModified
  let responseMetadata ← rediscoverMetadata writable file.responseMetadata l.responseMetadata
  pure
    { row := { file.row with
        remote := { file.row.remote with sourceTimestamp := sourceTimestamp } }
      downloadUrl := if writable then l.downloadUrl else file.downloadUrl
      originalFilename := file.originalFilename
      declaredContentLength := declaredContentLength
      mediaType := mediaType
      etag := etag
      lastModified := lastModified
      responseMetadata := responseMetadata }

/-- `register_discovery` of a registered file. -/
def registerListing (urlsplit : String → SplitUrl) (l : Listing) (ownedRefresh : Bool)
    (file : ListedFile) : Except Failure ListedFile :=
  if file.row.status = .completed then .ok file
  else rediscoveryUpdates urlsplit file l ownedRefresh

/-- `record_archive`: the download's evidence goes over the listing's. -/
def recordEvidence (archive : ArchiveObject) (evidence : DownloadEvidence) (file : ListedFile) :
    Except Failure ListedFile :=
  if file.row.status ≠ .downloading then
    .error (statusConflict file.row.status [.downloading])
  else .ok { file with
    row := { file.row with
      status := .archived
      archive := some archive
      downloadFinishedAt := some evidence.finishedAt }
    mediaType := evidence.mediaType.or file.mediaType
    etag := evidence.etag.or file.etag
    lastModified := evidence.lastModified.or file.lastModified }

/-! ## What an accepted registration means -/

/-- The row and a listing that `_rediscovery_updates` accepts for it. -/
structure Compatible (urlsplit : String → SplitUrl) (file : ListedFile) (l : Listing) : Prop where
  originalFilename : file.originalFilename = l.originalFilename
  documentType : file.row.remote.documentType = l.remote.documentType
  compression : file.row.remote.compression = l.remote.compression
  protocol : file.row.remote.protocol = l.remote.protocol
  downloadUrl : file.downloadUrl = l.downloadUrl ∨ (l.remote.protocol = .https ∧
    isSignedUrlRotation urlsplit file.downloadUrl l.downloadUrl = true)
  sourceTimestamp : ¬ Disagree file.row.remote.sourceTimestamp l.remote.sourceTimestamp
  contentLength : ¬ Disagree file.declaredContentLength l.contentLength
  mediaType : ¬ Disagree file.mediaType l.mediaType
  etag : ¬ Disagree file.etag l.etag
  lastModified : ¬ Disagree file.lastModified l.lastModified
  responseMetadata : file.responseMetadata = [] ∨ l.responseMetadata = [] ∨
    file.responseMetadata = l.responseMetadata

/-- The row after an accepted registration by the lock owner of a file without an archive. -/
def ListedFile.filled (file : ListedFile) (l : Listing) : ListedFile where
  row := { file.row with
    remote := { file.row.remote with
      sourceTimestamp := file.row.remote.sourceTimestamp.or l.remote.sourceTimestamp } }
  downloadUrl := l.downloadUrl
  originalFilename := file.originalFilename
  declaredContentLength := file.declaredContentLength.or l.contentLength
  mediaType := file.mediaType.or l.mediaType
  etag := file.etag.or l.etag
  lastModified := file.lastModified.or l.lastModified
  responseMetadata := if file.responseMetadata = [] then l.responseMetadata
    else file.responseMetadata

/-- The row after an accepted registration. -/
def ListedFile.refreshed (file : ListedFile) (l : Listing) (ownedRefresh : Bool) : ListedFile :=
  if ownedRefresh && file.row.archive.isNone then file.filled l else file

section Register

variable {urlsplit : String → SplitUrl} {file file' : ListedFile} {l : Listing} {owned : Bool}

theorem rediscoverEvidence_eq_ok {α : Type} [DecidableEq α] {field : String} {writable : Bool}
    {existing candidate r : Option α} :
    rediscoverEvidence field writable existing candidate = .ok r ↔
      ¬ Disagree existing candidate ∧ r = if writable then existing.or candidate else existing := by
  unfold rediscoverEvidence
  rw [require_bind_eq_ok, pure_eq_ok]
  exact and_congr_right fun _ => eq_comm

theorem rediscoverMetadata_eq_ok {writable : Bool} {existing candidate r : List (String × String)} :
    rediscoverMetadata writable existing candidate = .ok r ↔
      (existing = [] ∨ candidate = [] ∨ existing = candidate) ∧
        r = if writable = true ∧ existing = [] then candidate else existing := by
  unfold rediscoverMetadata
  rw [require_bind_eq_ok, pure_eq_ok]
  exact and_congr_right fun _ => eq_comm

/-- The updates are accepted exactly for a compatible listing. -/
theorem rediscoveryUpdates_eq_ok :
    rediscoveryUpdates urlsplit file l owned = .ok file' ↔
      Compatible urlsplit file l ∧ file' = file.refreshed l owned := by
  unfold rediscoveryUpdates
  simp only [bind_eq_ok, require_eq_ok, exists_const, rediscoverEvidence_eq_ok, rediscoverMetadata_eq_ok,
    pure_eq_ok]
  constructor
  · rintro ⟨hname, htype, hcompression, hprotocol, hurl, _, ⟨htime, rfl⟩, _, ⟨hlength, rfl⟩, _,
      ⟨hmedia, rfl⟩, _, ⟨hetag, rfl⟩, _, ⟨hmodified, rfl⟩, _, ⟨hmeta, rfl⟩, rfl⟩
    refine ⟨⟨hname, htype, hcompression, hprotocol, hurl, htime, hlength, hmedia, hetag, hmodified,
      hmeta⟩, ?_⟩
    unfold ListedFile.refreshed
    cases hw : owned && file.row.archive.isNone with
    | true => simp [ListedFile.filled]
    | false => simp
  · rintro ⟨h, rfl⟩
    refine ⟨h.originalFilename, h.documentType, h.compression, h.protocol, h.downloadUrl,
      _, ⟨h.sourceTimestamp, rfl⟩, _, ⟨h.contentLength, rfl⟩, _, ⟨h.mediaType, rfl⟩, _,
      ⟨h.etag, rfl⟩, _, ⟨h.lastModified, rfl⟩, _, ⟨h.responseMetadata, rfl⟩, ?_⟩
    unfold ListedFile.refreshed
    cases hw : owned && file.row.archive.isNone with
    | true => simp [ListedFile.filled]
    | false => simp

theorem registerListing_eq_ok (hopen : file.row.status ≠ .completed) :
    registerListing urlsplit l owned file = .ok file' ↔
      Compatible urlsplit file l ∧ file' = file.refreshed l owned := by
  rw [registerListing, if_neg hopen]
  exact rediscoveryUpdates_eq_ok

/-! ### The lifecycle's view

On the columns that the lifecycle reads, a registration and an archive are those of the
repository. -/

theorem refreshed_row (file : ListedFile) (l : Listing) (owned : Bool) :
    (file.refreshed l owned).row = rediscovered file.row l.remote owned := by
  unfold ListedFile.refreshed rediscovered
  cases owned with
  | false => simp
  | true =>
    cases harchive : file.row.archive with
    | some object => simp
    | none =>
      cases htime : file.row.remote.sourceTimestamp with
      | none => simp [ListedFile.filled, htime, harchive]
      | some time =>
        have hkept : (file.filled l).row = file.row := by
          simp only [ListedFile.filled, htime, Option.some_or]
          rw [← htime]
        simp [hkept]

theorem registerListing_refines {files : Files}
    (hrow : files l.remote.fileId = some file.row)
    (h : registerListing urlsplit l owned file = .ok file') :
    registerDiscovery l.remote owned files =
      .ok (Function.update files l.remote.fileId (some file'.row)) := by
  unfold registerDiscovery
  simp only [hrow]
  by_cases hdone : file.row.status = .completed
  · rw [registerListing, if_pos hdone] at h
    cases h
    rw [if_pos hdone, ← hrow, Function.update_eq_self]
  · obtain ⟨hl, rfl⟩ := (registerListing_eq_ok hdone).mp h
    have hnone : rediscoveryConflict file.row.remote l.remote = none := by
      have htime := hl.sourceTimestamp
      simp only [Disagree] at htime
      simp [rediscoveryConflict, hl.documentType, hl.compression, hl.protocol, htime]
    rw [if_neg hdone, hnone, refreshed_row]

theorem recordEvidence_refines {files : Files} {f : FileId} {archive : ArchiveObject}
    {evidence : DownloadEvidence} (hrow : files f = some file.row)
    (h : recordEvidence archive evidence file = .ok file') :
    recordArchive f archive evidence.finishedAt files =
      .ok (Function.update files f (some file'.row)) := by
  unfold recordEvidence at h
  unfold recordArchive
  simp only [hrow]
  split at h
  · cases h
  · rename_i hdownloading
    cases h
    rw [if_neg hdownloading]

end Register

/-! ## The life of one listed file -/

/-- A registered file with the listing that it was discovered by. -/
structure Rediscovery where
  first : Listing
  file : ListedFile

inductive RediscoveryEvent
  | register (l : Listing) (owned : Bool)
  | move (target : IngestionStatus)
  | archive (object : ArchiveObject) (evidence : DownloadEvidence)

/-- A refused registration changes nothing. -/
def Rediscovery.next (urlsplit : String → SplitUrl) (s : Rediscovery) :
    RediscoveryEvent → Option Rediscovery
  | .register l owned =>
    if l.remote.fileId = s.first.remote.fileId then
      match registerListing urlsplit l owned s.file with
      | .ok file => some { s with file := file }
      | .error _ => some s
    else none
  | .move target =>
    if target ∈ s.file.row.status.allowed then
      some { s with file := { s.file with row := { s.file.row with status := target } } }
    else none
  | .archive object evidence =>
    match recordEvidence object evidence s.file with
    | .ok file => some { s with file := file }
    | .error _ => none

def rediscoverySystem (urlsplit : String → SplitUrl) :
    Makolet.Lib.System Rediscovery RediscoveryEvent where
  init s := s.file = .discovered s.first
  next := Rediscovery.next urlsplit

/-- Another spelling of the stored URL with the same signature, which is no rotation of it. -/
def ListedFile.Respells (urlsplit : String → SplitUrl) (file : ListedFile) (url : String) : Prop :=
  file.downloadUrl ≠ url ∧ (urlsplit file.downloadUrl).signed = (urlsplit url).signed

/-- The identity of a row: everything of its published file but the timestamp, and its name. -/
structure SameIdentity (file file' : ListedFile) : Prop where
  remote : file'.row.remote = { file.row.remote with
    sourceTimestamp := file'.row.remote.sourceTimestamp }
  originalFilename : file'.originalFilename = file.originalFilename

/-- Until the file is completed its first listing is accepted, whoever registers it; identity stays,
and with an archive attached so does everything. Of two HTTPS listings that differ by a rotated
signature only, one is accepted if the other is, with the same effect on all other columns, but
where it spells the stored signature in another way. -/
structure Rediscovery.Idempotent (urlsplit : String → SplitUrl) (s : Rediscovery) : Prop where
  accepted : s.file.row.status ≠ .completed → ∀ owned, ∃ file',
    registerListing urlsplit s.first owned s.file = .ok file' ∧ SameIdentity s.file file' ∧
      (s.file.row.archive.isSome = true → file' = s.file)
  alike : ∀ (l : Listing) (owned : Bool) (url : String) (file' : ListedFile),
    l.remote.protocol = .https → isSignedUrlRotation urlsplit l.downloadUrl url = true →
    registerListing urlsplit l owned s.file = .ok file' →
    (s.file.row.status = .completed ∨ ¬ s.file.Respells urlsplit url → ∃ file'',
      registerListing urlsplit { l with downloadUrl := url } owned s.file = .ok file'' ∧
        { file'' with downloadUrl := file'.downloadUrl } = file') ∧
    (s.file.row.status ≠ .completed → s.file.Respells urlsplit url →
      registerListing urlsplit { l with downloadUrl := url } owned s.file =
        .error (rediscoveryFailure "download_url"))

/-- The side condition of a step: the download declares nothing that the first listing declares
otherwise, and no owner stores a URL that spells the signature of the first one in another way. -/
def Undisturbed (urlsplit : String → SplitUrl) (s : Rediscovery) : RediscoveryEvent → Prop
  | .register l owned => s.file.row.status ≠ .completed → owned = true → s.file.row.archive = none →
      Compatible urlsplit s.file l → l.downloadUrl = s.first.downloadUrl ∨
        (urlsplit l.downloadUrl).signed ≠ (urlsplit s.first.downloadUrl).signed
  | .move _ => True
  | .archive _ evidence => ¬ Disagree evidence.mediaType s.first.mediaType ∧
      ¬ Disagree evidence.etag s.first.etag ∧ ¬ Disagree evidence.lastModified s.first.lastModified

/-- What an undisturbed life keeps of the first listing. -/
structure Rediscovery.Keeps (urlsplit : String → SplitUrl) (s : Rediscovery) : Prop where
  originalFilename : s.file.originalFilename = s.first.originalFilename
  documentType : s.file.row.remote.documentType = s.first.remote.documentType
  compression : s.file.row.remote.compression = s.first.remote.compression
  protocol : s.file.row.remote.protocol = s.first.remote.protocol
  downloadUrl : s.file.downloadUrl = s.first.downloadUrl ∨ (s.first.remote.protocol = .https ∧
    isSignedUrlRotation urlsplit s.file.downloadUrl s.first.downloadUrl = true)
  sourceTimestamp : ∀ v, s.first.remote.sourceTimestamp = some v →
    s.file.row.remote.sourceTimestamp = some v
  contentLength : ∀ v, s.first.contentLength = some v → s.file.declaredContentLength = some v
  mediaType : ∀ v, s.first.mediaType = some v → s.file.mediaType = some v
  etag : ∀ v, s.first.etag = some v → s.file.etag = some v
  lastModified : ∀ v, s.first.lastModified = some v → s.file.lastModified = some v
  responseMetadata : s.first.responseMetadata = [] ∨
    s.file.responseMetadata = s.first.responseMetadata

section Runs

variable {urlsplit : String → SplitUrl} {s s' : Rediscovery} {e : RediscoveryEvent}

theorem not_disagree_of_kept {α : Type} {existing candidate : Option α}
    (h : ∀ v, candidate = some v → existing = some v) : ¬ Disagree existing candidate := by
  rintro ⟨-, hcandidate, hne⟩
  obtain ⟨v, hv⟩ := Option.ne_none_iff_exists'.mp hcandidate
  exact hne ((h v hv).trans hv.symm)

theorem Rediscovery.Keeps.compatible (h : s.Keeps urlsplit) : Compatible urlsplit s.file s.first where
  originalFilename := h.originalFilename
  documentType := h.documentType
  compression := h.compression
  protocol := h.protocol
  downloadUrl := h.downloadUrl
  sourceTimestamp := not_disagree_of_kept h.sourceTimestamp
  contentLength := not_disagree_of_kept h.contentLength
  mediaType := not_disagree_of_kept h.mediaType
  etag := not_disagree_of_kept h.etag
  lastModified := not_disagree_of_kept h.lastModified
  responseMetadata := .inr h.responseMetadata

/-- A rotation of a rotation is one, unless it leads back to the signature. -/
theorem rotation_trans {a b c : String} (hab : isSignedUrlRotation urlsplit a b = true)
    (hac : isSignedUrlRotation urlsplit a c = true)
    (hne : (urlsplit b).signed ≠ (urlsplit c).signed) :
    isSignedUrlRotation urlsplit b c = true := by
  simp only [isSignedUrlRotation, decide_eq_true_eq] at hab hac ⊢
  obtain ⟨-, hb, hid, hstable, -, hsigned, -⟩ := hab
  obtain ⟨-, hc, hid', hstable', -, hsigned', -⟩ := hac
  exact ⟨hb, hc, hid.symm.trans hid', hstable.symm.trans hstable', hsigned, hsigned', hne⟩

theorem rotation_symm {a b : String} (h : isSignedUrlRotation urlsplit a b = true) :
    isSignedUrlRotation urlsplit b a = true := by
  simp only [isSignedUrlRotation, decide_eq_true_eq] at h ⊢
  obtain ⟨ha, hb, hid, hstable, hsigned, hsigned', hne⟩ := h
  exact ⟨hb, ha, hid.symm, hstable.symm, hsigned', hsigned, hne.symm⟩

/-- The owner's registration fills in what is missing and keeps what is there. -/
theorem Rediscovery.Keeps.filled (h : s.Keeps urlsplit) {l : Listing}
    (hl : Compatible urlsplit s.file l) (hurl : l.downloadUrl = s.first.downloadUrl ∨
      (urlsplit l.downloadUrl).signed ≠ (urlsplit s.first.downloadUrl).signed) :
    Rediscovery.Keeps urlsplit { s with file := s.file.filled l } where
  originalFilename := h.originalFilename
  documentType := h.documentType
  compression := h.compression
  protocol := h.protocol
  downloadUrl := by
    show l.downloadUrl = s.first.downloadUrl ∨ (s.first.remote.protocol = .https ∧
      isSignedUrlRotation urlsplit l.downloadUrl s.first.downloadUrl = true)
    rcases hurl with hsame | hne
    · exact .inl hsame
    · rcases hl.downloadUrl with hstored | ⟨hhttps, hrotated⟩
      · rw [← hstored]
        exact h.downloadUrl
      · have hfirst : s.first.remote.protocol = .https := by
          rw [← h.protocol, hl.protocol, hhttps]
        rcases h.downloadUrl with heq | ⟨-, hback⟩
        · rw [heq] at hrotated
          exact .inr ⟨hfirst, rotation_symm hrotated⟩
        · exact .inr ⟨hfirst, rotation_trans hrotated hback hne⟩
  sourceTimestamp v hv := by simp [ListedFile.filled, h.sourceTimestamp v hv]
  contentLength v hv := by simp [ListedFile.filled, h.contentLength v hv]
  mediaType v hv := by simp [ListedFile.filled, h.mediaType v hv]
  etag v hv := by simp [ListedFile.filled, h.etag v hv]
  lastModified v hv := by simp [ListedFile.filled, h.lastModified v hv]
  responseMetadata := by
    rcases h.responseMetadata with hnone | hsame
    · exact .inl hnone
    · by_cases hempty : s.first.responseMetadata = []
      · exact .inl hempty
      · refine .inr ?_
        simp [ListedFile.filled, hsame, hempty]

theorem kept_or {α : Type} {first stored evidence : Option α}
    (h : ∀ v, first = some v → stored = some v) (hagree : ¬ Disagree evidence first) :
    ∀ v, first = some v → evidence.or stored = some v := by
  intro v hv
  cases evidence with
  | none => simp [h v hv]
  | some x =>
    by_contra hne
    refine hagree ⟨by simp, by simp [hv], ?_⟩
    rw [hv]
    simpa using hne

theorem Rediscovery.Keeps.next (h : s.Keeps urlsplit) (hok : Undisturbed urlsplit s e)
    (hnext : s.next urlsplit e = some s') : s'.Keeps urlsplit := by
  cases e with
  | register l owned =>
    simp only [Rediscovery.next] at hnext
    split at hnext
    · split at hnext
      · rename_i file' hregister
        cases hnext
        by_cases hdone : s.file.row.status = .completed
        · rw [registerListing, if_pos hdone] at hregister
          cases hregister
          exact h
        · obtain ⟨hl, rfl⟩ := (registerListing_eq_ok hdone).mp hregister
          unfold ListedFile.refreshed
          split
          · rename_i hwritable
            rw [Bool.and_eq_true, Option.isNone_iff_eq_none] at hwritable
            exact h.filled hl (hok hdone hwritable.1 hwritable.2 hl)
          · exact h
      · cases hnext
        exact h
    · cases hnext
  | move target =>
    simp only [Rediscovery.next] at hnext
    split at hnext
    · cases hnext
      exact ⟨h.originalFilename, h.documentType, h.compression, h.protocol, h.downloadUrl,
        h.sourceTimestamp, h.contentLength, h.mediaType, h.etag, h.lastModified,
        h.responseMetadata⟩
    · cases hnext
  | archive object evidence =>
    simp only [Rediscovery.next, recordEvidence] at hnext
    obtain ⟨hmedia, hetag, hmodified⟩ := hok
    split at hnext
    · rename_i file' hrecord
      cases hnext
      split at hrecord
      · cases hrecord
      · cases hrecord
        exact ⟨h.originalFilename, h.documentType, h.compression, h.protocol, h.downloadUrl,
          h.sourceTimestamp, h.contentLength, kept_or h.mediaType hmedia, kept_or h.etag hetag,
          kept_or h.lastModified hmodified, h.responseMetadata⟩
    · cases hnext

theorem rediscovery_keeps (h : Reach (rediscoverySystem urlsplit) (Undisturbed urlsplit) s) :
    s.Keeps urlsplit := by
  refine h.invariant (P := fun s => s.Keeps urlsplit) ?_ ?_
  · rintro ⟨first, file⟩ hinit
    have hfile : file = .discovered first := hinit
    subst hfile
    exact ⟨rfl, rfl, rfl, rfl, .inl rfl, fun _ h => h, fun _ h => h, fun _ h => h, fun _ h => h,
      fun _ h => h, .inr rfl⟩
  · exact fun s e s' hs hok hnext => hs.next hok hnext

theorem refreshed_identity (file : ListedFile) (l : Listing) (owned : Bool) :
    SameIdentity file (file.refreshed l owned) := by
  unfold ListedFile.refreshed
  split
  · exact ⟨rfl, rfl⟩
  · exact ⟨rfl, rfl⟩

theorem refreshed_of_archive {file : ListedFile} (h : file.row.archive.isSome = true) (l : Listing)
    (owned : Bool) : file.refreshed l owned = file := by
  obtain ⟨object, hobject⟩ := Option.isSome_iff_exists.mp h
  simp [ListedFile.refreshed, hobject]

/-- What is a rotation of an accepted URL is one of the stored URL, unless it re-spells it. -/
theorem accepted_of_rotation {file : ListedFile} {l : Listing} {url : String}
    (hhttps : l.remote.protocol = .https)
    (hrotated : isSignedUrlRotation urlsplit l.downloadUrl url = true)
    (hl : Compatible urlsplit file l) (hspelled : ¬ file.Respells urlsplit url) :
    file.downloadUrl = url ∨ (l.remote.protocol = .https ∧
      isSignedUrlRotation urlsplit file.downloadUrl url = true) := by
  by_cases hsame : file.downloadUrl = url
  · exact .inl hsame
  · refine .inr ⟨hhttps, ?_⟩
    rcases hl.downloadUrl with hstored | ⟨-, hstored⟩
    · rwa [hstored]
    · exact rotation_trans (rotation_symm hstored) hrotated
        fun hsigned => hspelled ⟨hsame, hsigned⟩

/-- A rotated signature changes nothing but the stored URL. -/
theorem registerListing_alike {file file' : ListedFile} {l : Listing} {owned : Bool} {url : String}
    (hhttps : l.remote.protocol = .https)
    (hrotated : isSignedUrlRotation urlsplit l.downloadUrl url = true)
    (hspelled : file.row.status = .completed ∨ ¬ file.Respells urlsplit url)
    (h : registerListing urlsplit l owned file = .ok file') :
    ∃ file'', registerListing urlsplit { l with downloadUrl := url } owned file = .ok file'' ∧
      { file'' with downloadUrl := file'.downloadUrl } = file' := by
  by_cases hdone : file.row.status = .completed
  · rw [registerListing, if_pos hdone] at h
    cases h
    exact ⟨file, by rw [registerListing, if_pos hdone], rfl⟩
  · obtain ⟨hl, rfl⟩ := (registerListing_eq_ok hdone).mp h
    have hurl := accepted_of_rotation hhttps hrotated hl (hspelled.resolve_left hdone)
    refine ⟨_, (registerListing_eq_ok hdone).mpr ⟨?_, rfl⟩, ?_⟩
    · exact ⟨hl.originalFilename, hl.documentType, hl.compression, hl.protocol, hurl,
        hl.sourceTimestamp, hl.contentLength, hl.mediaType, hl.etag, hl.lastModified,
        hl.responseMetadata⟩
    · unfold ListedFile.refreshed
      split <;> rfl

/-- A stored signature that is spelled in another way is refused. -/
theorem registerListing_respelled {file file' : ListedFile} {l : Listing} {owned : Bool}
    {url : String} (hopen : file.row.status ≠ .completed) (hspelled : file.Respells urlsplit url)
    (h : registerListing urlsplit l owned file = .ok file') :
    registerListing urlsplit { l with downloadUrl := url } owned file =
      .error (rediscoveryFailure "download_url") := by
  obtain ⟨hl, -⟩ := (registerListing_eq_ok hopen).mp h
  have hrefused : ¬ (file.downloadUrl = url ∨ (l.remote.protocol = .https ∧
      isSignedUrlRotation urlsplit file.downloadUrl url = true)) := by
    rintro (hsame | ⟨-, hrotated⟩)
    · exact hspelled.1 hsame
    · simp only [isSignedUrlRotation, decide_eq_true_eq] at hrotated
      exact hrotated.2.2.2.2.2.2 hspelled.2
  rw [registerListing, if_neg hopen, rediscoveryUpdates, require_bind_of hl.originalFilename,
    require_bind_of hl.documentType, require_bind_of hl.compression, require_bind_of hl.protocol]
  exact require_bind_of_not hrefused _

theorem Rediscovery.Keeps.idempotent (h : s.Keeps urlsplit) : s.Idempotent urlsplit := by
  refine ⟨fun hopen owned => ?_, ?_⟩
  · refine ⟨_, (registerListing_eq_ok hopen).mpr ⟨h.compatible, rfl⟩,
      refreshed_identity s.file s.first owned, fun harchive => refreshed_of_archive harchive _ _⟩
  · exact fun l owned url file' hhttps hrotated hregister =>
      ⟨fun hspelled => registerListing_alike hhttps hrotated hspelled hregister,
        fun hopen hspelled => registerListing_respelled hopen hspelled hregister⟩

/-- Where the first listing is accepted it agrees with the row. -/
theorem Rediscovery.Idempotent.compatible (h : s.Idempotent urlsplit)
    (hopen : s.file.row.status ≠ .completed) : Compatible urlsplit s.file s.first := by
  obtain ⟨file', hregister, -⟩ := h.accepted hopen false
  exact ((registerListing_eq_ok hopen).mp hregister).1

/-- A declared value that the download writes over disagrees with the listing from then on. -/
theorem not_disagree_of_or {α : Type} {evidence stored first : Option α}
    (h : ¬ Disagree (evidence.or stored) first) : ¬ Disagree evidence first := by
  rintro ⟨hevidence, hfirst, hne⟩
  obtain ⟨v, rfl⟩ := Option.ne_none_iff_exists'.mp hevidence
  exact h ⟨by simp, hfirst, by simpa using hne⟩

/-- A step after which the first listing is still accepted was undisturbed. -/
theorem undisturbed_of_idempotent (hnext : s.next urlsplit e = some s')
    (h : s'.Idempotent urlsplit) : Undisturbed urlsplit s e := by
  cases e with
  | register l owned =>
    intro hopen howned harchive hl
    simp only [Rediscovery.next] at hnext
    split at hnext
    · rw [(registerListing_eq_ok hopen).mpr ⟨hl, rfl⟩] at hnext
      cases hnext
      have hwritable : (owned && s.file.row.archive.isNone) = true := by
        rw [howned, harchive]
        rfl
      have hfilled : s.file.refreshed l owned = s.file.filled l := if_pos hwritable
      rw [hfilled] at h
      have hurl := (h.compatible hopen).downloadUrl
      rcases hurl with hsame | ⟨-, hrotated⟩
      · exact .inl hsame
      · simp only [isSignedUrlRotation, decide_eq_true_eq] at hrotated
        exact .inr hrotated.2.2.2.2.2.2
    · cases hnext
  | move target => exact trivial
  | archive object evidence =>
    simp only [Rediscovery.next, recordEvidence] at hnext
    split at hnext
    · rename_i file' hrecord
      cases hnext
      split at hrecord
      · cases hrecord
      · cases hrecord
        have hcompatible := h.compatible IngestionStatus.noConfusion
        exact ⟨not_disagree_of_or hcompatible.mediaType, not_disagree_of_or hcompatible.etag,
          not_disagree_of_or hcompatible.lastModified⟩
    · cases hnext

/-- Over every life of a listed file, with registrations of any listings by owners and others,
transitions and archives, that leaves the first listing undisturbed: rediscovery is idempotent at
every point. A step keeps it so exactly when it is undisturbed. -/
theorem rediscovery_idempotent (urlsplit : String → SplitUrl) :
    (∀ s, Reach (rediscoverySystem urlsplit) (Undisturbed urlsplit) s → s.Idempotent urlsplit) ∧
      ∀ s e s', Reach (rediscoverySystem urlsplit) (Undisturbed urlsplit) s →
        s.next urlsplit e = some s' → (s'.Idempotent urlsplit ↔ Undisturbed urlsplit s e) := by
  refine ⟨fun s h => (rediscovery_keeps h).idempotent, ?_⟩
  intro s e s' h hnext
  constructor
  · exact undisturbed_of_idempotent hnext
  · exact fun hok => ((rediscovery_keeps h).next hok hnext).idempotent

end Runs

/-! ## A sample life -/

/-- A listed file whose listing declares its modification time, under a signed URL. -/
def sampleListing : Listing where
  remote := sampleRemote
  downloadUrl := "https://prices.example/Price1.gz?sig=a"
  originalFilename := "Price1.gz"
  contentLength := none
  mediaType := none
  etag := none
  lastModified := some 90
  responseMetadata := []

/-- The parts of the sample URL and of its rotation. -/
def sampleSplit (url : String) : SplitUrl :=
  ⟨"https", some "prices.example", none, "/Price1.gz", "",
    [("sig", if url = "https://prices.example/Price1.gz?sig=a" then "a" else "b")]⟩

/-- The owner lists the file again under a rotated signature and downloads it, with the modification
time that the response declares. -/
def sampleLife (lastModified : Time) : List RediscoveryEvent :=
  [.register { sampleListing with downloadUrl := "https://prices.example/Price1.gz?sig=b" } true,
    .move .downloading,
    .archive ⟨"aa", 10⟩ ⟨200, some "application/gzip", some "\"1\"", some lastModified⟩]

theorem rediscovery_idempotent_sample :
    (∃ s, (rediscoverySystem sampleSplit).run ⟨sampleListing, .discovered sampleListing⟩
        (sampleLife 90) = some s ∧ s.file.row.status = .archived ∧
          s.file.downloadUrl = "https://prices.example/Price1.gz?sig=b") ∧
      Rediscovery.Idempotent sampleSplit ((rediscoverySystem sampleSplit).after
        ⟨sampleListing, .discovered sampleListing⟩ (sampleLife 90)) := by
  refine ⟨⟨_, rfl, by decide +kernel, by decide +kernel⟩, ?_⟩
  refine (rediscovery_idempotent sampleSplit).1 _ ?_
  have hstart : Reach (rediscoverySystem sampleSplit) (Undisturbed sampleSplit)
      ⟨sampleListing, .discovered sampleListing⟩ := .init rfl
  refine .step (.archive ⟨"aa", 10⟩ ⟨200, some "application/gzip", some "\"1\"", some 90⟩)
    (.step (.move .downloading) (.step (.register { sampleListing with
      downloadUrl := "https://prices.example/Price1.gz?sig=b" } true) hstart ?_ rfl) trivial rfl) ?_
      rfl
  · exact fun _ _ _ _ => .inr (by decide +kernel)
  · exact ⟨by decide, by decide, by decide⟩

/-- The response declares another modification time than the listing: the same listing is
refused. -/
theorem downloaded_evidence_conflicts :
    ¬ ∀ s, Reach (rediscoverySystem sampleSplit) Any s → s.Idempotent sampleSplit := by
  intro hall
  have hidempotent := hall _ (@reach_after _ _ (rediscoverySystem sampleSplit)
    ⟨sampleListing, .discovered sampleListing⟩ (sampleLife 95) rfl (by decide +kernel))
  have hopen : ((rediscoverySystem sampleSplit).after ⟨sampleListing, .discovered sampleListing⟩
      (sampleLife 95)).file.row.status ≠ .completed := by
    decide +kernel
  exact (hidempotent.compatible hopen).lastModified (by decide +kernel)

end Makolet.Ingestion
