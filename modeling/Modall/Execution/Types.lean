import Mathlib

/-!
# Execution states, failure codes and limits

The enumerations and value types of `modall/execution/types.py`. Instants are microseconds
on the database clock, durations are differences of instants, and identifiers are the 128-bit
values `uuid4` draws. `ExecutionLimits` and `ExecutionService` carry the checks their Python
constructors make, so a value that the constructor would refuse cannot be built.
-/
namespace Modall

abbrev Uuid := BitVec 128

instance instLawfulBEqUuid : LawfulBEq Uuid := inferInstance

abbrev Time := Int
abbrev Bytes := List UInt8
/-- A hexadecimal digest. -/
abbrev Digest := String

def seconds (n : Int) : Int := n * 1000000
def days (n : Int) : Int := n * 86400000000

/-- A JSON value as the code handles it. Floats keep the text that spells them. -/
inductive Json where
  | null
  | bool (b : Bool)
  | int (n : Int)
  | float (text : String)
  | str (s : String)
  | arr (items : List Json)
  | obj (members : List (String × Json))

/-- `isinstance(value, dict)`. -/
def Json.isObject : Json → Bool
  | .obj _ => true
  | _ => false

inductive RunStatus where
  | queued | preparing | sessionFenced | dispatchFenced
  | succeeded | failed | cancelled | timedOut | indeterminate
deriving DecidableEq

inductive JobStatus where
  | queued | leased | succeeded | failed | cancelled | timedOut | indeterminate
deriving DecidableEq

inductive RunEventType where
  | admitted | attemptStarted | sessionFenced | dispatchFenced | leaseLost
  | cancelRequested | terminal | contentExpired | restoreReconciled
deriving DecidableEq

inductive ExecutionFailureCode where
  | invalidArguments | argumentLimit | sensitiveArguments | scannerFailed
  | capabilityUnavailable | invalidConfirmation | confirmationExpired | confirmationReplayed
  | invalidIdempotencyKey | idempotencyConflict | idempotencyKeyHistoryIncomplete
  | confirmationKeyHistoryIncomplete | dispatchQuarantined | activeRunLimit | noJobAvailable
  | leaseLost | invalidTransition | persistenceFailure
deriving DecidableEq

/-- Payload-free terminal codes that workers may persist in the execution ledger. -/
inductive RunFailureCode where
  | workerLostBeforeDispatch | workerLostAfterDispatch | deadlineExceeded
  | cancelledBeforeDispatch | restoreReconciliation | contentRetentionDeadline
  | preparationFailed | sessionInitializationFailed | toolCallFailed | invalidToolResult
  | unsupportedToolResult | sensitiveToolResult | upstreamOutcomeUnknown
deriving DecidableEq

namespace RunStatus

/-- `_TERMINAL_RUN_STATUSES`. -/
def terminal : RunStatus → Bool
  | .succeeded | .failed | .cancelled | .timedOut | .indeterminate => true
  | _ => false

/-- `_ACTIVE_RUN_STATUS_VALUES`. -/
def active : RunStatus → Bool
  | .queued | .preparing | .sessionFenced | .dispatchFenced => true
  | _ => false

/-- The statuses `claim_job` selects. -/
def claimable : RunStatus → Bool
  | .queued | .preparing | .sessionFenced => true
  | _ => false

/-- The statuses of an attempt that is under way. -/
def attempting : RunStatus → Bool
  | .preparing | .sessionFenced | .dispatchFenced => true
  | _ => false

/-- `JobStatus(status.value)`, undefined on the values the two enumerations do not share. -/
def toJobStatus : RunStatus → Option JobStatus
  | .queued => some .queued
  | .succeeded => some .succeeded
  | .failed => some .failed
  | .cancelled => some .cancelled
  | .timedOut => some .timedOut
  | .indeterminate => some .indeterminate
  | .preparing | .sessionFenced | .dispatchFenced => none

@[simp] theorem active_eq_not_terminal (status : RunStatus) :
    status.active = !status.terminal := by cases status <;> rfl

theorem terminal_of_not_attempting {status : RunStatus} (h : status.attempting = false)
    (hq : status ≠ .queued) : status.terminal = true := by
  cases status <;> simp_all [attempting, terminal]

theorem not_terminal_of_attempting {status : RunStatus} (h : status.attempting = true) :
    status.terminal = false := by cases status <;> simp_all [attempting, terminal]

end RunStatus

structure AcceptedToolResult where
  payload : Json
  canonicalDigest : Digest
  byteCount : Int

structure HmacKeyVersion where
  version : String
  secret : Bytes
deriving DecidableEq

structure JobLease where
  jobId : Uuid
  runId : Uuid
  workspaceId : Uuid
  correlationId : Uuid
  workerId : String
  leaseEpoch : Nat
  executionEpoch : Nat
  expiresAt : Time
deriving DecidableEq

/-- Payload-free identity for a job terminalized while polling. -/
structure ReconciledJob where
  jobId : Uuid
  runId : Uuid
  workspaceId : Uuid
  correlationId : Uuid
  leaseEpoch : Nat
  status : RunStatus
deriving DecidableEq

/-- The limits of one installation, with the inequalities `__post_init__` insists on. The two
bounds handed to the schema validator's subprocess are not kept. -/
structure ExecutionLimits where
  maxArgumentBytes : Int
  maxResultBytes : Int
  confirmationTtlSeconds : Int
  maxRunSeconds : Int
  argumentRetentionDays : Int
  resultRetentionDays : Int
  runRetentionDays : Int
  maxIdempotencyKeyCharacters : Int
  maxHistoricalHmacKeys : Int
  reconciliationBatchSize : Int
  maxActiveRunsPerWorkspace : Int
  argumentBytes_pos : 0 < maxArgumentBytes
  resultBytes_pos : 0 < maxResultBytes
  confirmationTtl : 1 ≤ confirmationTtlSeconds ∧ confirmationTtlSeconds ≤ 300
  runSeconds_pos : 0 < maxRunSeconds
  argumentRetention : 1 ≤ argumentRetentionDays ∧ argumentRetentionDays ≤ 14
  resultRetention : 1 ≤ resultRetentionDays ∧ resultRetentionDays ≤ 14
  argumentRetention_le_run : argumentRetentionDays ≤ runRetentionDays
  resultRetention_le_run : resultRetentionDays ≤ runRetentionDays
  idempotencyKeyCharacters_pos : 0 < maxIdempotencyKeyCharacters
  historicalHmacKeys : 1 ≤ maxHistoricalHmacKeys ∧ maxHistoricalHmacKeys ≤ 16
  reconciliationBatch : 1 ≤ reconciliationBatchSize ∧ reconciliationBatchSize ≤ 1000
  activeRuns : 1 ≤ maxActiveRunsPerWorkspace ∧ maxActiveRunsPerWorkspace ≤ 100

namespace ExecutionLimits

/-- The defaults of the dataclass, which pass its own check. -/
def default : ExecutionLimits where
  maxArgumentBytes := 65536
  maxResultBytes := 262144
  confirmationTtlSeconds := 120
  maxRunSeconds := 300
  argumentRetentionDays := 14
  resultRetentionDays := 14
  runRetentionDays := 90
  maxIdempotencyKeyCharacters := 256
  maxHistoricalHmacKeys := 8
  reconciliationBatchSize := 100
  maxActiveRunsPerWorkspace := 100
  argumentBytes_pos := by decide
  resultBytes_pos := by decide
  confirmationTtl := by decide
  runSeconds_pos := by decide
  argumentRetention := by decide
  resultRetention := by decide
  argumentRetention_le_run := by decide
  resultRetention_le_run := by decide
  idempotencyKeyCharacters_pos := by decide
  historicalHmacKeys := by decide
  reconciliationBatch := by decide
  activeRuns := by decide

/-- The alphabet of `_KEY_VERSION`. -/
def keyVersionCharacter (c : Char) : Bool :=
  c.isAlphanum || c == '.' || c == '_' || c == '-'

/-- `_validate_keyring`. -/
def ValidKeyring (limits : ExecutionLimits) (keys : List HmacKeyVersion) : Prop :=
  keys ≠ [] ∧ (keys.length : Int) ≤ limits.maxHistoricalHmacKeys ∧
    (keys.map HmacKeyVersion.version).Nodup ∧
    (∀ key ∈ keys, 1 ≤ key.version.length ∧ key.version.length ≤ 32 ∧
      key.version.toList.all keyVersionCharacter = true) ∧
    ∀ key ∈ keys, 32 ≤ key.secret.length

instance (limits : ExecutionLimits) (keys : List HmacKeyVersion) :
    Decidable (limits.ValidKeyring keys) :=
  inferInstanceAs (Decidable (_ ∧ _ ∧ _ ∧ _ ∧ _))

end ExecutionLimits

/-- What `ExecutionService.__init__` is given besides its session: validated keyrings, active
key first, the limits, and whether the caller holds the system execution authority. -/
structure ExecutionService where
  limits : ExecutionLimits
  confirmationKeys : List HmacKeyVersion
  idempotencyKeys : List HmacKeyVersion
  systemAuthority : Bool
  confirmation_valid : limits.ValidKeyring confirmationKeys
  idempotency_valid : limits.ValidKeyring idempotencyKeys

end Modall
