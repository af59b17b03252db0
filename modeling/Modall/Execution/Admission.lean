import Modall.Execution.Leasing

/-!
# Admission

`preflight` and `create_run` of `ExecutionService`: confirmation tokens, key history,
idempotent replay and the admission of a new run. Identifiers and nonces that the code draws
with `uuid4` are arguments.
-/
namespace Modall
open Library

/-- `_AdmissionTarget`. -/
structure AdmissionTarget where
  capability : Capability
  version : CapabilityVersion
  binding : McpToolBinding
  connection : ServerConnection

/-- `_load_admission_target`, which has one failure for everything it misses. -/
def Registry.admissionTarget (registry : Registry) (workspaceId capabilityVersionId : Uuid) :
    Option AdmissionTarget := do
  let version ← registry.capabilityVersions.find? fun v =>
    v.id == capabilityVersionId && v.workspaceId == workspaceId
  let capability ← registry.capabilities.find? fun c =>
    c.id == version.capabilityId && c.workspaceId == workspaceId
  let binding ← registry.bindings.find? fun b =>
    b.capabilityVersionId == version.id && b.workspaceId == workspaceId
  let connection ← registry.connections.find? fun c =>
    c.id == binding.connectionId && c.workspaceId == workspaceId
  let snapshotId ← connection.currentSnapshotId
  let _ ← registry.snapshotCapabilities.find? fun row =>
    row.workspaceId == workspaceId && row.connectionId == connection.id &&
      row.connectionVersionId == binding.connectionVersionId && row.snapshotId == snapshotId &&
      row.capabilityVersionId == version.id
  if version.schemaSupported = false ∨ capability.status ≠ .enabled ∨
      capability.enabledVersionId ≠ some version.id ∨ capability.pendingVersionId ≠ none ∨
      connection.lifecycle ≠ .active ∨ connection.pendingVersionId ≠ none ∨
      connection.verifiedVersionId ≠ some binding.connectionVersionId ∨
      binding.protocolRevision ≠ qualifiedProtocolRevision then none
  else some ⟨capability, version, binding, connection⟩

def loadAdmissionTarget (context : WorkspaceContext) (capabilityVersionId : Uuid) :
    Tx AdmissionTarget := do
  let target ← query fun s =>
    s.rows.registry.admissionTarget context.workspaceId capabilityVersionId
  match target with
  | none => throw (.execution .capabilityUnavailable)
  | some target => return target

/-! ## Arguments -/

/-- `_normalize_arguments`. -/
def Platform.normalizeArguments (P : Platform) (limits : ExecutionLimits) (arguments : Json) :
    Except Failure (Json × Digest) :=
  if P.validateBoundedJson arguments = false then .error (.execution .invalidArguments)
  else match P.canonicalJson arguments with
    | none => .error (.execution .invalidArguments)
    | some encoded =>
      if limits.maxArgumentBytes < encoded.utf8ByteSize then .error (.execution .argumentLimit)
      else if (P.loads encoded).isObject = false then .error (.execution .invalidArguments)
      else .ok (P.loads encoded, P.sha256 encoded)

/-- `_validate_normalized_arguments`. -/
def Platform.validateNormalizedArguments (P : Platform) (arguments schema : Json) :
    Except Failure Unit :=
  match P.containsSensitiveJson arguments with
  | none => .error (.execution .scannerFailed)
  | some true => .error (.execution .sensitiveArguments)
  | some false =>
    match P.validateSchemaArguments arguments schema with
    | .invalidArguments => .error (.execution .invalidArguments)
    | .invalidSchema => .error (.execution .capabilityUnavailable)
    | .scannerFailed => .error (.execution .scannerFailed)
    | .valid => .ok ()

/-! ## Confirmation tokens -/

def tokenIssuer : String := "modall"
def tokenAudience : String := "modall-run-confirmation"
def runMethod : String := "POST"
def runRoute : String := "/v1/runs"

/-- `_ConfirmationClaims`. -/
structure ConfirmationClaims where
  workspaceId : Uuid
  actorUserId : Uuid
  capabilityVersionId : Uuid
  capabilityId : Uuid
  connectionId : Uuid
  connectionVersionId : Uuid
  argumentDigest : Digest
  route : String
  nonce : String
  keyVersion : String
  issuedAt : Time
  expiresAt : Time

/-- `_key_by_version`. -/
def keyByVersion (keys : List HmacKeyVersion) (version : String) : Option HmacKeyVersion :=
  keys.find? fun key => key.version == version

/-- `math.ceil(t.timestamp())`. -/
def ceilSeconds (t : Time) : Int := -(-t / 1000000)

/-- `int(t.timestamp())`, which rounds towards zero. -/
def wholeSeconds (t : Time) : Int := t.tdiv 1000000

structure RunPreflight where
  confirmationToken : ConfirmationToken
  capabilityVersionId : Uuid
  connectionVersionId : Uuid
  argumentDigest : Digest
  expiresAt : Time
  serverObservedAt : Time

namespace ExecutionService

def preflight (service : ExecutionService) (P : Platform) (context : WorkspaceContext)
    (capabilityVersionId : Uuid) (arguments : Json) (nonce : String) : Tx RunPreflight := do
  requireCurrentRole context [.admin, .operator] false
  let target ← loadAdmissionTarget context capabilityVersionId
  let (normalized, argumentDigest) ← lift (P.normalizeArguments service.limits arguments)
  lift (P.validateNormalizedArguments normalized target.version.inputSchema)
  let now ← durableNow
  let expires := ceilSeconds (now + seconds service.limits.confirmationTtlSeconds)
  let active := service.confirmationKeys.head service.confirmation_valid.1
  return {
    confirmationToken := {
      kid := active.version
      secret := active.secret
      payload := {
        iss := tokenIssuer, aud := tokenAudience, iat := wholeSeconds now, exp := expires,
        jti := nonce, w := context.workspaceId, a := context.actorUserId,
        cv := capabilityVersionId, c := target.capability.id, cn := target.connection.id,
        cnv := target.binding.connectionVersionId, ad := argumentDigest, r := runRoute } }
    capabilityVersionId
    connectionVersionId := target.binding.connectionVersionId
    argumentDigest
    expiresAt := seconds expires
    serverObservedAt := now }

/-- `_decode_confirmation`; `none` stands for text that is no token with these claims. -/
def decodeConfirmation (service : ExecutionService) (P : Platform)
    (token : Option ConfirmationToken) : Except Failure ConfirmationClaims :=
  match token with
  | none => .error (.execution .invalidConfirmation)
  | some token =>
    if P.tokenLength token = 0 ∨ 4096 < P.tokenLength token then
      .error (.execution .invalidConfirmation)
    else match keyByVersion service.confirmationKeys token.kid with
      | none => .error (.execution .invalidConfirmation)
      | some key =>
        if token.secret ≠ key.secret ∨ token.payload.aud ≠ tokenAudience ∨
            token.payload.iss ≠ tokenIssuer then .error (.execution .invalidConfirmation)
        else .ok {
          workspaceId := token.payload.w, actorUserId := token.payload.a,
          capabilityVersionId := token.payload.cv, capabilityId := token.payload.c,
          connectionId := token.payload.cn, connectionVersionId := token.payload.cnv,
          argumentDigest := token.payload.ad, route := token.payload.r,
          nonce := token.payload.jti, keyVersion := key.version,
          issuedAt := seconds token.payload.iat, expiresAt := seconds token.payload.exp }

end ExecutionService

/-- `_require_confirmation_bindings`. -/
def requireConfirmationBindings (claims : ConfirmationClaims) (context : WorkspaceContext)
    (capabilityVersionId : Uuid) (argumentDigest : Digest) (now : Time) : Tx Unit :=
  raiseIf (claims.workspaceId ≠ context.workspaceId ∨
    claims.actorUserId ≠ context.actorUserId ∨
    claims.capabilityVersionId ≠ capabilityVersionId ∨
    claims.argumentDigest ≠ argumentDigest ∨ claims.route ≠ runRoute ∨
    claims.nonce.length = 0 ∨ now < claims.issuedAt ∨ claims.expiresAt ≤ claims.issuedAt)
    (.execution .invalidConfirmation)

/-! ## Key history -/

/-- `SELECT column ... ORDER BY column LIMIT 1`. -/
def Collation.least (collation : Collation) (values : List String) : Option String :=
  (orderedBy (fun a b => collation.lt b a = false) values).head?

/-- The loop of `_find_unconfigured_key_version` with the probes it has left. -/
def Collation.probe (collation : Collation) (values configured : List String) :
    Nat → Option String → Option String
  | 0, previous => previous
  | probes + 1, previous =>
    match collation.least (values.filter fun v => previous.all fun p => collation.lt p v) with
    | none => none
    | some observed =>
      if observed ∈ configured then collation.probe values configured probes (some observed)
      else some observed

/-- `_find_unconfigured_key_version` over the values of one column. -/
def ExecutionLimits.findUnconfiguredKeyVersion (limits : ExecutionLimits)
    (collation : Collation) (values configured : List String) : Option String :=
  collation.probe values configured (limits.maxHistoricalHmacKeys + 1).toNat none

namespace ExecutionService

/-- `_require_idempotency_key_history`. -/
def requireIdempotencyKeyHistory (service : ExecutionService) (P : Platform) : Tx Unit := do
  let missing ← query fun s => service.limits.findUnconfiguredKeyVersion P.collation
    (s.rows.records.map IdempotencyRecord.keyVersion)
    (service.idempotencyKeys.map HmacKeyVersion.version)
  raiseIf (missing.isSome = true) (.execution .idempotencyKeyHistoryIncomplete)

/-- `_require_confirmation_key_history`. -/
def requireConfirmationKeyHistory (service : ExecutionService) (P : Platform) : Tx Unit := do
  let missing ← query fun s => service.limits.findUnconfiguredKeyVersion P.collation
    (s.rows.records.map IdempotencyRecord.confirmationKeyVersion)
    (service.confirmationKeys.map HmacKeyVersion.version)
  raiseIf (missing.isSome = true) (.execution .confirmationKeyHistoryIncomplete)
  let missingNonce ← query fun s => service.limits.findUnconfiguredKeyVersion P.collation
    (s.rows.nonces.map ConfirmationNonce.keyVersion)
    (service.confirmationKeys.map HmacKeyVersion.version)
  raiseIf (missingNonce.isSome = true) (.execution .confirmationKeyHistoryIncomplete)

/-- `_validate_idempotency_key`. -/
def validateIdempotencyKey (service : ExecutionService) (value : String) : Tx Unit :=
  raiseIf (value.length = 0 ∨ service.limits.maxIdempotencyKeyCharacters < value.length ∨
    value.toList.any (fun c => c.toNat < 33 || 126 < c.toNat) = true)
    (.execution .invalidIdempotencyKey)

/-- `_admission_deadline`. -/
def admissionDeadline (service : ExecutionService) (requested : Option Time) (now : Time) :
    Except Failure Time :=
  match requested with
  | none => .ok (now + seconds service.limits.maxRunSeconds)
  | some requested =>
    if requested ≤ now ∨ now + seconds service.limits.maxRunSeconds < requested then
      .error (.execution .invalidArguments)
    else .ok requested

end ExecutionService

/-- A `datetime` argument, with or without an offset. -/
inductive Datetime where
  | naive (t : Time)
  | aware (t : Time)
deriving DecidableEq

/-- `_canonicalize_deadline`. -/
def canonicalizeDeadline : Option Datetime → Except Failure (Option Time)
  | none => .ok none
  | some (.naive _) => .error (.execution .invalidArguments)
  | some (.aware t) => .ok (some t)

/-! ## Idempotency -/

/-- `_idempotency_hmac`. -/
def Platform.idempotencyHmac (P : Platform) (key : HmacKeyVersion) (context : WorkspaceContext)
    (rawKey : String) : Digest :=
  P.hmacHex key.secret
    (.key context.workspaceId context.actorUserId runMethod runRoute rawKey)

/-- `_canonical_request`. -/
def canonicalRequest (claims : ConfirmationClaims) (capabilityVersionId : Uuid)
    (argumentDigest : Digest) (deadline : Option Time) : CanonicalRequest :=
  { capabilityId := claims.capabilityId, capabilityVersionId,
    connectionId := claims.connectionId, connectionVersionId := claims.connectionVersionId,
    argumentDigest, deadline, method := runMethod, route := runRoute }

/-- The `WHERE` clause of `_find_idempotency_record`. -/
def Platform.matchesKey (P : Platform) (keys : List HmacKeyVersion) (context : WorkspaceContext)
    (rawKey : String) (record : IdempotencyRecord) : Bool :=
  record.workspaceId == context.workspaceId && record.actorUserId == context.actorUserId &&
    record.method == runMethod && record.route == runRoute &&
    keys.any fun key => record.keyVersion == key.version &&
      record.keyHmac == P.idempotencyHmac key context rawKey

/-- `_find_idempotency_record`. -/
def ExecutionService.findIdempotencyRecord (service : ExecutionService) (P : Platform)
    (context : WorkspaceContext) (rawKey : String) : Tx (Option IdempotencyRecord) :=
  selectRow (·.records) (P.matchesKey service.idempotencyKeys context rawKey)

/-- The nonce row that consumes a token. -/
def consumedNonce (context : WorkspaceContext) (claims : ConfirmationClaims)
    (nonceDigest : Digest) (runId : Uuid) (now : Time) : ConfirmationNonce :=
  { workspaceId := context.workspaceId, actorUserId := context.actorUserId, nonceDigest, runId,
    keyVersion := claims.keyVersion, expiresAt := claims.expiresAt, consumedAt := now }

def conflict : Failure := .execution .idempotencyConflict

/-- The end of `_replay_existing_run`, once the run and the record are locked: consume the
presented nonce against the original run. -/
def consumeReplayNonce (context : WorkspaceContext) (claims : ConfirmationClaims)
    (nonceDigest : Digest) (run : Run) : Tx Run := do
  let usedNonce ← selectRow (·.nonces) fun nonce => nonce.nonceDigest == nonceDigest
  let now ← durableNow
  match usedNonce with
  | some nonce =>
    raiseIf (nonce.runId ≠ run.id) (.execution .confirmationReplayed)
    return run
  | none =>
    assign fun s => s.addNonce (consumedNonce context claims nonceDigest run.id now)
    flush
    return run

/-- `_replay_existing_run`. -/
def ExecutionService.replayExistingRun (service : ExecutionService) (P : Platform)
    (context : WorkspaceContext) (record : IdempotencyRecord) (request : CanonicalRequest)
    (claims : ConfirmationClaims) (nonceDigest : Digest) : Tx Run := do
  match keyByVersion service.idempotencyKeys record.keyVersion with
  | none => throw conflict
  | some key =>
    raiseIf (record.requestHmac ≠ P.hmacHex key.secret (.request request)) conflict
    let run ← lockRun fun run =>
      run.id == record.resourceId && run.workspaceId == context.workspaceId
    match run with
    | none => throw conflict
    | some run =>
      let lockedRecord ← selectRow (·.records) fun r => r.resourceId == record.resourceId
      raiseIf (lockedRecord = none) conflict
      requireCurrentRole context [.admin, .operator] true
      raiseIf (run.capabilityId ≠ claims.capabilityId ∨
        run.capabilityVersionId ≠ claims.capabilityVersionId ∨
        run.connectionId ≠ claims.connectionId ∨
        run.connectionVersionId ≠ claims.connectionVersionId) conflict
      consumeReplayNonce context claims nonceDigest run

/-! ## Admission of a new run -/

/-- The arguments of `create_run` and the identifiers it draws. -/
structure RunRequest where
  context : WorkspaceContext
  capabilityVersionId : Uuid
  arguments : Json
  confirmationToken : Option ConfirmationToken
  idempotencyKey : String
  deadline : Option Datetime
  correlationId : Option Uuid
  runId : Uuid
  traceId : Uuid
  jobId : Uuid

/-- What `create_run` has established before it takes the admission lock. -/
structure Presented where
  state : SystemExecutionState
  normalized : Json
  argumentDigest : Digest
  claims : ConfirmationClaims
  requestedDeadline : Option Time
  nonceDigest : Digest

namespace ExecutionService

/-- The rows of an admitted run. -/
def admittedRun (service : ExecutionService) (request : RunRequest) (presented : Presented)
    (target : AdmissionTarget) (deadline now : Time) : Run :=
  { id := request.runId
    workspaceId := request.context.workspaceId
    correlationId := request.correlationId.getD request.traceId
    actorUserId := request.context.actorUserId
    capabilityId := target.capability.id
    capabilityVersionId := target.version.id
    connectionId := target.connection.id
    connectionVersionId := target.binding.connectionVersionId
    connectionControlEpoch := target.connection.controlEpoch
    capabilityStatusEpoch := target.capability.statusEpoch
    protocolRevision := target.binding.protocolRevision
    status := .queued
    arguments := some presented.normalized
    argumentDigest := some presented.argumentDigest
    argumentsExpiresAt := now + days service.limits.argumentRetentionDays
    deadline
    cancellationRequested := false
    safeErrorCode := none
    createdAt := now
    updatedAt := now
    terminalAt := none }

def admittedJob (request : RunRequest) (presented : Presented) (deadline now : Time) : Job :=
  { id := request.jobId
    workspaceId := request.context.workspaceId
    runId := request.runId
    actorUserId := request.context.actorUserId
    executionEpoch := presented.state.executionEpoch
    status := .queued
    leaseOwner := none
    leaseEpoch := 0
    leaseExpiresAt := none
    availableAt := now
    deadline
    createdAt := now
    completedAt := none }

def admittedRecord (service : ExecutionService) (P : Platform) (request : RunRequest)
    (presented : Presented) (now : Time) : IdempotencyRecord :=
  let activeKey := service.idempotencyKeys.head service.idempotency_valid.1
  { workspaceId := request.context.workspaceId
    actorUserId := request.context.actorUserId
    method := runMethod
    route := runRoute
    confirmationKeyVersion := presented.claims.keyVersion
    keyVersion := activeKey.version
    keyHmac := P.idempotencyHmac activeKey request.context request.idempotencyKey
    requestHmac := P.hmacHex activeKey.secret (.request (canonicalRequest presented.claims
      request.capabilityVersionId presented.argumentDigest presented.requestedDeadline))
    resourceId := request.runId
    createdAt := now
    completedAt := now
    expiresAt := now + days service.limits.runRetentionDays }

/-- Insert the rows of a new run. The two flushes cannot be refused: the ledger never holds
rows that violate their constraints. -/
def insertRun (service : ExecutionService) (P : Platform) (request : RunRequest)
    (presented : Presented) (target : AdmissionTarget) (deadline now : Time) : Tx Run := do
  let run := service.admittedRun request presented target deadline now
  assign fun s => s.addRun run
  flush
  assign fun s => s.addJob (admittedJob request presented deadline now)
  appendEvent run .admitted .queued now 1 none
  assign fun s => s.addNonce
    (consumedNonce request.context presented.claims presented.nonceDigest request.runId now)
  assign fun s => s.addRecord (service.admittedRecord P request presented now)
  assign fun s => s.addAudit
    { workspaceId := request.context.workspaceId, actorUserId := request.context.actorUserId,
      action := .runCreated, resourceType := .run, resourceId := request.runId,
      correlationId := request.correlationId.getD request.traceId }
  flush
  return run

/-- `create_run` from the consumed-nonce query on, under the admission lock. -/
def admitRun (service : ExecutionService) (P : Platform) (request : RunRequest)
    (presented : Presented) (now : Time) : Tx Run := do
  let usedNonce ← selectRow (·.nonces) fun nonce => nonce.nonceDigest == presented.nonceDigest
  raiseIf (presented.claims.expiresAt ≤ now) (.execution .confirmationExpired)
  raiseIf (usedNonce ≠ none) (.execution .confirmationReplayed)
  let _ ← lift (service.admissionDeadline presented.requestedDeadline now)
  let target ← loadAdmissionTarget request.context request.capabilityVersionId
  raiseIf (presented.claims.capabilityId ≠ target.capability.id ∨
    presented.claims.connectionId ≠ target.connection.id ∨
    presented.claims.connectionVersionId ≠ target.binding.connectionVersionId)
    (.execution .invalidConfirmation)
  lift (P.validateNormalizedArguments presented.normalized target.version.inputSchema)
  let now ← durableNow
  raiseIf (presented.claims.expiresAt ≤ now) (.execution .confirmationExpired)
  let deadline ← lift (service.admissionDeadline presented.requestedDeadline now)
  raiseIf presented.state.dispatchQuarantined (.execution .dispatchQuarantined)
  let activeRunCount ← query fun s => (s.rows.runs.filter fun run =>
    run.workspaceId == request.context.workspaceId && run.status.active).length
  raiseIf (service.limits.maxActiveRunsPerWorkspace ≤ activeRunCount)
    (.execution .activeRunLimit)
  service.insertRun P request presented target deadline now

/-- `create_run` up to its first lookup: everything it decides without a lock. -/
def presentRun (service : ExecutionService) (P : Platform) (request : RunRequest) :
    Tx Presented := do
  let state ← executionState
  requireCurrentRole request.context [.admin, .operator] false
  let (normalized, argumentDigest) ← lift
    (P.normalizeArguments service.limits request.arguments)
  service.requireConfirmationKeyHistory P
  service.requireIdempotencyKeyHistory P
  let claims ← lift (service.decodeConfirmation P request.confirmationToken)
  let now ← durableNow
  requireConfirmationBindings claims request.context request.capabilityVersionId
    argumentDigest now
  let requestedDeadline ← lift (canonicalizeDeadline request.deadline)
  service.validateIdempotencyKey request.idempotencyKey
  return { state, normalized, argumentDigest, claims, requestedDeadline,
           nonceDigest := P.sha256 claims.nonce }

/-- The replay branch of `create_run`. -/
def replayPresented (service : ExecutionService) (P : Platform) (request : RunRequest)
    (presented : Presented) (record : IdempotencyRecord) : Tx Run :=
  service.replayExistingRun P request.context record
    (canonicalRequest presented.claims request.capabilityVersionId presented.argumentDigest
      presented.requestedDeadline) presented.claims presented.nonceDigest

/-- `create_run` from the admission lock on. The lock is taken inside a savepoint, which is
rolled back before a replay; nothing has been written in it. -/
def admitLocked (service : ExecutionService) (P : Platform) (request : RunRequest)
    (presented : Presented) : Tx Run := do
  requireCurrentRole request.context [.admin, .operator] true
  let now ← durableNow
  service.requireConfirmationKeyHistory P
  service.requireIdempotencyKeyHistory P
  let record ← service.findIdempotencyRecord P request.context request.idempotencyKey
  match record with
  | some record => service.replayPresented P request presented record
  | none => service.admitRun P request presented now

/-- `create_run`. -/
def createRun (service : ExecutionService) (P : Platform) (request : RunRequest) : Tx Run := do
  let presented ← service.presentRun P request
  let record ← service.findIdempotencyRecord P request.context request.idempotencyKey
  match record with
  | some record => service.replayPresented P request presented record
  | none => service.admitLocked P request presented

end ExecutionService

end Modall
