import Mathlib.Logic.Basic

/-!
# Domain enumerations, statuses and failures

The closed vocabularies of `domain/enums.py` and the exception classes of `domain/errors.py` and
`adapters/persistence/errors.py`. Instants are integers of microseconds since the epoch; prices and
quantities are naturals in the smallest unit of their numeric column.
-/

set_option autoImplicit false

namespace Makolet.Domain

/-- An instant, in microseconds. -/
abbrev Time := Int

/-- A duration, in microseconds. -/
abbrev Duration := Int

def seconds (n : Int) : Duration := n * 1000000

def minutes (n : Int) : Duration := seconds (60 * n)

def hours (n : Int) : Duration := minutes (60 * n)

def days (n : Int) : Duration := hours (24 * n)

/-- Regulated source-document semantics. -/
inductive DocumentType
  | stores
  | priceFull
  | priceDelta
  | promotionFull
  | promotionDelta
  | unknown
  deriving DecidableEq, Repr

namespace DocumentType

def isFullSnapshot : DocumentType → Bool
  | stores | priceFull | promotionFull => true
  | _ => false

def isPrice : DocumentType → Bool
  | priceFull | priceDelta => true
  | _ => false

def isPromotion : DocumentType → Bool
  | promotionFull | promotionDelta => true
  | _ => false

end DocumentType

/-- Supported outer compression formats. -/
inductive CompressionFormat
  | none
  | gzip
  | zip
  | zstandard
  | unknown
  deriving DecidableEq, Repr

inductive SourceProtocol
  | https
  | http
  | ftp
  | ftps
  | fixture
  deriving DecidableEq, Repr

inductive IdentifierKind
  | gtin
  | retailerItem
  | manufacturer
  | unknown
  deriving DecidableEq, Repr

/-- Severities of a validation issue that this development generates. -/
inductive IssueSeverity
  | warning
  | recordRejection
  | fileQuarantine
  deriving DecidableEq, Repr

/-! ## The source-file lifecycle -/

/-- Auditable source-file lifecycle. -/
inductive IngestionStatus
  | discovered
  | downloading
  | archived
  | parsing
  | staged
  | validating
  | applying
  | completed
  | quarantined
  | failedRetryable
  | failedTerminal
  deriving DecidableEq, Repr

namespace IngestionStatus

/-- The stored text of a status. -/
def value : IngestionStatus → String
  | discovered => "discovered"
  | downloading => "downloading"
  | archived => "archived"
  | parsing => "parsing"
  | staged => "staged"
  | validating => "validating"
  | applying => "applying"
  | completed => "completed"
  | quarantined => "quarantined"
  | failedRetryable => "failed_retryable"
  | failedTerminal => "failed_terminal"

/-- The table `_ALLOWED_TRANSITIONS`. -/
def allowed : IngestionStatus → List IngestionStatus
  | discovered => [downloading, failedRetryable, failedTerminal]
  | downloading => [archived, failedRetryable, failedTerminal]
  | archived => [parsing, quarantined, failedRetryable, failedTerminal]
  | parsing => [staged, quarantined, failedRetryable, failedTerminal]
  | staged => [validating, quarantined, failedRetryable, failedTerminal]
  | validating => [applying, quarantined, failedRetryable, failedTerminal]
  | applying => [completed, quarantined, failedRetryable, failedTerminal]
  | failedRetryable => [archived, downloading, parsing, validating, applying, failedTerminal]
  | completed => []
  | quarantined => []
  | failedTerminal => []

/-- Statuses from which the table allows no transition. -/
def isFinal : IngestionStatus → Bool
  | completed | quarantined | failedTerminal => true
  | _ => false

theorem allowed_eq_nil_iff (s : IngestionStatus) : s.allowed = [] ↔ s.isFinal = true := by
  cases s <;> simp [allowed, isFinal]

end IngestionStatus

/-! ## Failures -/

/-- Exception classes raised across the modelled layers. The last three are not raised by the
repository itself: an error of the database driver, any other `Exception`, and a cancellation,
which is a `BaseException` only. -/
inductive ErrorKind
  | domainValidation
  | invalidStateTransition
  | sourceAccess
  | sourceResponse
  | sourceBlocked
  | unsafeRemote
  | downloadLimit
  | discoveryBudgetExceeded
  | chargeBudgetExceeded
  | archiveCapacity
  | archiveIntegrity
  | unsafeArchive
  | malformedDocument
  | quarantinedFile
  | repository
  | leaseUnavailable
  | maintenanceMode
  | queryLimit
  | notFound
  | catalogMatchConflict
  | persistenceConflict
  | persistenceNotFound
  | snapshotValidation
  | database
  | other
  | cancelled
  deriving DecidableEq, Repr

namespace ErrorKind

/-- Subclasses of `MakoletError`. -/
def isMakolet : ErrorKind → Bool
  | persistenceConflict | persistenceNotFound | snapshotValidation => false
  | database | other | cancelled => false
  | _ => true

/-- The class attribute `retryable` of a `MakoletError`. -/
def retryable : ErrorKind → Bool
  | sourceAccess | discoveryBudgetExceeded | chargeBudgetExceeded | archiveCapacity => true
  | repository | leaseUnavailable | maintenanceMode => true
  | _ => false

/-- `Exception`, as opposed to a bare `BaseException`. -/
def isException : ErrorKind → Bool
  | cancelled => false
  | _ => true

end ErrorKind

/-- A raised exception: its class, its message and the transferred bytes it carries. -/
structure Failure where
  kind : ErrorKind
  message : String
  transferredBytes : Nat := 0
  deriving DecidableEq, Repr

/-- `ensure_ingestion_transition`. -/
def ensureIngestionTransition (current target : IngestionStatus) : Except Failure Unit :=
  if target ∈ current.allowed then .ok ()
  else .error ⟨.invalidStateTransition,
    "Ingestion status cannot transition from " ++ current.value ++ " to " ++ target.value, 0⟩

theorem ensureIngestionTransition_ok_iff (current target : IngestionStatus) :
    ensureIngestionTransition current target = .ok () ↔ target ∈ current.allowed := by
  unfold ensureIngestionTransition
  split <;> simp_all

end Makolet.Domain
