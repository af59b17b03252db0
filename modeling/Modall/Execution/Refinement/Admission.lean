import Modall.Execution.KeyHistory
import Modall.Execution.Refinement.Leasing

/-!
# What a successful `create_run` has done

`create_run` reads without a lock, may wait for other transactions at the workspace or at the
run it replays, and writes at the end. The lemmas here follow a call through its phases from
any session with nothing pending, whatever commits while it waits: `PresentHolds` is what the
unlocked phase has established, `Replays` and `Admits` are the two ways to return a run.
-/
namespace Modall
open Library

variable {s t : Session}

theorem requireCurrentRole_unlocked {context : WorkspaceContext} {roles : List Role} {x : Unit}
    (h : requireCurrentRole context roles false s = .ok x t) : t = s := by
  unfold requireCurrentRole requireRole at h
  rw [bind_eq_ok] at h
  obtain ⟨⟨⟩, u, hu, h⟩ := h
  obtain ⟨-, rfl⟩ := raiseIf_eq_ok.mp hu
  rw [runIf_neg (by decide), bind_of_ok (pure_apply _ _), bind_of_ok (query_apply _ _)] at h
  exact (raiseIf_eq_ok.mp h).2

theorem Reads.loadAdmissionTarget (context : WorkspaceContext) (capabilityVersionId : Uuid) :
    Reads (loadAdmissionTarget context capabilityVersionId) := by
  refine .bind (.query _) fun target => ?_
  cases target with
  | none => exact .throw _
  | some target => exact .pure target

theorem Reads.preflight (service : ExecutionService) (P : Platform) (context : WorkspaceContext)
    (capabilityVersionId : Uuid) (arguments : Json) (nonce : String) :
    Reads (service.preflight P context capabilityVersionId arguments nonce) :=
  .bind (.requireCurrentRole _ _ _) fun _ => .bind (.loadAdmissionTarget _ _) fun _ =>
    .bind (.lift _) fun _ => .bind (.lift _) fun _ => .bind .durableNow fun _ => .pure _

/-- One store is another whose system row has been read or inserted. -/
def Store.Opens (s t : Store) : Prop := t = { s with system := t.system } ∧ s.SystemKept t

namespace Store.Opens
variable {s t : Store}

theorem registry (h : s.Opens t) : t.registry = s.registry := by rw [h.1]
theorem runs (h : s.Opens t) : t.runs = s.runs := by rw [h.1]
theorem nonces (h : s.Opens t) : t.nonces = s.nonces := by rw [h.1]
theorem records (h : s.Opens t) : t.records = s.records := by rw [h.1]
theorem lineage (h : s.Opens t) (r : Uuid) : t.lineage r = s.lineage r := by
  rw [h.1]
  rfl

theorem evolves (h : s.Opens t) : s.Evolves t :=
  ⟨h.registry, h.2, fun r => by rw [h.lineage r]⟩

end Store.Opens

/-- What `create_run` has established before its first lookup. -/
structure PresentHolds (service : ExecutionService) (P : Platform) (request : RunRequest)
    (s t : Session) (presented : Presented) : Prop where
  flushed : t.objects = t.rows
  opens : s.rows.Opens t.rows
  commits : t.commits = s.commits
  clock : s.clock ≤ t.clock
  epoch : presented.state.executionEpoch = s.rows.executionEpoch
  quarantine : presented.state.dispatchQuarantined = s.rows.quarantined
  configured : service.Configured s.rows
  normalized : P.normalizeArguments service.limits request.arguments =
    .ok (presented.normalized, presented.argumentDigest)
  decoded : service.decodeConfirmation P request.confirmationToken = .ok presented.claims
  workspaceId : presented.claims.workspaceId = request.context.workspaceId
  actorUserId : presented.claims.actorUserId = request.context.actorUserId
  capabilityVersionId : presented.claims.capabilityVersionId = request.capabilityVersionId
  argumentDigest : presented.claims.argumentDigest = presented.argumentDigest
  issued : presented.claims.issuedAt ≤ t.clock
  deadline : canonicalizeDeadline request.deadline = .ok presented.requestedDeadline
  nonce : presented.nonceDigest = P.sha256 presented.claims.nonce

theorem presentRun_ok {service : ExecutionService} {P : Platform} {request : RunRequest}
    {presented : Presented} (flushed : s.objects = s.rows)
    (h : service.presentRun P request s = .ok presented t) :
    PresentHolds service P request s t presented := by
  unfold ExecutionService.presentRun at h
  rw [bind_eq_ok] at h
  obtain ⟨state, u, hu, h⟩ := h
  obtain ⟨flushed', hrows, kept, hcommits, hclock, epoch, quarantine⟩ :=
    executionState_spec flushed hu
  rw [bind_eq_ok] at h
  obtain ⟨⟨⟩, v, hv, h⟩ := h
  have hv := requireCurrentRole_unlocked hv
  subst v
  rw [bind_eq_ok] at h
  obtain ⟨⟨normalized, digest⟩, v, hv, h⟩ := h
  obtain ⟨hnormalized, rfl⟩ := lift_eq_ok.mp hv
  dsimp only at h
  rw [bind_eq_ok] at h
  obtain ⟨⟨⟩, w, hw, h⟩ := h
  rw [bind_eq_ok] at h
  obtain ⟨⟨⟩, x, hx, h⟩ := h
  obtain ⟨hxs, configured⟩ := configured_of_keyHistory hw hx
  subst x
  rw [bind_eq_ok] at h
  obtain ⟨claims, x, hx, h⟩ := h
  obtain ⟨decoded, rfl⟩ := lift_eq_ok.mp hx
  rw [bind_eq_ok] at h
  obtain ⟨now, y, hy, h⟩ := h
  obtain ⟨hnow, hr, ho, hc, -, hclock'⟩ := durableNow_eq_ok hy
  rw [bind_eq_ok] at h
  obtain ⟨⟨⟩, z, hz, h⟩ := h
  obtain ⟨bound, rfl⟩ := raiseIf_eq_ok.mp hz
  simp only [not_or, ne_eq, not_not] at bound
  obtain ⟨workspaceId, actorUserId, capabilityVersionId, argumentDigest, -, -, issued, -⟩ := bound
  rw [bind_eq_ok] at h
  obtain ⟨deadline, z, hz, h⟩ := h
  obtain ⟨hdeadline, rfl⟩ := lift_eq_ok.mp hz
  rw [bind_eq_ok] at h
  obtain ⟨⟨⟩, z, hz, h⟩ := h
  obtain ⟨-, rfl⟩ := raiseIf_eq_ok.mp hz
  injection h with hp ht
  subst hp ht
  exact {
    flushed := by rw [ho, hr, flushed']
    opens := by rw [hr]; exact ⟨by rw [hrows], kept⟩
    commits := hc.trans hcommits
    clock := hclock.trans hclock'
    epoch := epoch
    quarantine := quarantine
    configured := by
      rw [hrows] at configured
      exact ⟨configured.idempotency, configured.confirmation, configured.nonces⟩
    normalized := hnormalized
    decoded := decoded
    workspaceId := workspaceId
    actorUserId := actorUserId
    capabilityVersionId := capabilityVersionId
    argumentDigest := argumentDigest
    issued := by rw [← hnow]; exact not_lt.mp issued
    deadline := hdeadline
    nonce := rfl }

/-! ## Replay -/

variable {service : ExecutionService} {P : Platform} {request : RunRequest}
  {presented : Presented} {record : IdempotencyRecord} {run : Run}

/-- `create_run` returns the run of an existing record. The run is locked in `u`, the last wait
is over in `v`, and the presented nonce is consumed there if nothing has consumed it yet. -/
structure Replays (service : ExecutionService) (P : Platform) (request : RunRequest)
    (presented : Presented) (record : IdempotencyRecord) (s u v t : Session) (run : Run) :
    Prop where
  authentic : ∃ key, keyByVersion service.idempotencyKeys record.keyVersion = some key ∧
    record.requestHmac = P.hmacHex key.secret (.request (canonicalRequest presented.claims
      request.capabilityVersionId presented.argumentDigest presented.requestedDeadline))
  waits : s.Waits u
  waits' : u.Waits v
  mem : run ∈ u.rows.runs
  runId : run.id = record.resourceId
  row : ∃ row ∈ u.rows.runs, row.id = record.resourceId ∧
    row.workspaceId = request.context.workspaceId
  recorded : ∃ r ∈ u.rows.records, r.resourceId = record.resourceId
  capabilityId : run.capabilityId = presented.claims.capabilityId
  capabilityVersionId : run.capabilityVersionId = presented.claims.capabilityVersionId
  connectionId : run.connectionId = presented.claims.connectionId
  connectionVersionId : run.connectionVersionId = presented.claims.connectionVersionId
  flushed : t.objects = t.rows
  commits : t.commits = v.commits
  clock : v.clock ≤ t.clock
  consumed : (∃ nonce ∈ v.rows.nonces, nonce.nonceDigest = presented.nonceDigest ∧
      nonce.runId = run.id ∧ t.rows = v.rows) ∨
    (∀ nonce ∈ v.rows.nonces, nonce.nonceDigest ≠ presented.nonceDigest) ∧
      t.rows = v.rows.addNonce (consumedNonce request.context presented.claims
        presented.nonceDigest run.id t.clock)

theorem find?_beq_none {α : Type} {f : α → Digest} {rows : List α} {d : Digest}
    (h : rows.find? (fun row => f row == d) = none) : ∀ row ∈ rows, f row ≠ d := by
  intro row mem heq
  have := List.find?_eq_none.mp h row mem
  simp [heq] at this

theorem consumeReplayNonce_ok {context : WorkspaceContext} {claims : ConfirmationClaims}
    {digest : Digest} {result : Run} (flushed : s.objects = s.rows)
    (h : consumeReplayNonce context claims digest run s = .ok result t) :
    result = run ∧ t.objects = t.rows ∧ t.commits = s.commits ∧ s.clock ≤ t.clock ∧
      ((∃ nonce ∈ s.rows.nonces, nonce.nonceDigest = digest ∧ nonce.runId = run.id ∧
          t.rows = s.rows) ∨
        (∀ nonce ∈ s.rows.nonces, nonce.nonceDigest ≠ digest) ∧
          t.rows = s.rows.addNonce (consumedNonce context claims digest run.id t.clock)) := by
  unfold consumeReplayNonce at h
  rw [bind_of_ok (selectRow_apply ..), bind_eq_ok] at h
  obtain ⟨now, u, hu, h⟩ := h
  obtain ⟨hnow, hr, ho, hc, -, hclock⟩ := durableNow_eq_ok hu
  cases hn : s.rows.nonces.find? fun nonce => nonce.nonceDigest == digest with
  | some nonce =>
    rw [hn] at h
    dsimp only at h
    rw [bind_eq_ok] at h
    obtain ⟨⟨⟩, v, hv, h⟩ := h
    obtain ⟨same, rfl⟩ := raiseIf_eq_ok.mp hv
    injection h with hrun ht
    subst hrun ht
    exact ⟨rfl, by rw [ho, hr, flushed], hc, hclock, .inl ⟨nonce, List.mem_of_find?_eq_some hn,
      by simpa using List.find?_some hn, not_not.mp same, hr⟩⟩
  | none =>
    rw [hn] at h
    dsimp only at h
    rw [bind_of_ok (assign_apply _ _), bind_of_ok (flush_apply _)] at h
    injection h with hrun ht
    subst hrun ht
    refine ⟨rfl, rfl, hc, hclock, .inr ⟨find?_beq_none hn, ?_⟩⟩
    simp only [ho, flushed, hnow]

theorem replayPresented_ok (flushed : s.objects = s.rows)
    (h : service.replayPresented P request presented record s = .ok run t) :
    ∃ u v, Replays service P request presented record s u v t run := by
  unfold ExecutionService.replayPresented ExecutionService.replayExistingRun at h
  cases hk : keyByVersion service.idempotencyKeys record.keyVersion with
  | none =>
    rw [hk] at h
    cases h
  | some key =>
    rw [hk] at h
    dsimp only at h
    rw [bind_eq_ok] at h
    obtain ⟨⟨⟩, u, hu, h⟩ := h
    obtain ⟨authentic, hs⟩ := raiseIf_eq_ok.mp hu
    subst u
    rw [bind_eq_ok] at h
    obtain ⟨found, v, hv, h⟩ := h
    cases found with
    | none => cases h
    | some found =>
      dsimp only at h
      unfold lockRun at hv
      rw [bind_eq_ok] at hv
      obtain ⟨⟨⟩, u, hu, hv⟩ := hv
      have waits := (Reads.othersCommit).ok hu
      obtain ⟨hvu, row, hrow, hobj⟩ := scalar_ok hv
      subst v
      rw [bind_of_ok (selectRow_apply ..), bind_eq_ok] at h
      obtain ⟨⟨⟩, w, hw, h⟩ := h
      obtain ⟨recorded, hws⟩ := raiseIf_eq_ok.mp hw
      subst w
      rw [bind_eq_ok] at h
      obtain ⟨⟨⟩, v, hv', h⟩ := h
      have waits' := (Reads.requireCurrentRole _ _ _).ok hv'
      rw [bind_eq_ok] at h
      obtain ⟨⟨⟩, w, hw, h⟩ := h
      obtain ⟨target, hws⟩ := raiseIf_eq_ok.mp hw
      subst w
      simp only [not_or, ne_eq, not_not] at target authentic
      obtain ⟨rfl, hflushed, hcommits, hclock, consumed⟩ :=
        consumeReplayNonce_ok (waits'.flushed (waits.flushed flushed)) h
      have hid : row.id = run.id := by simpa using List.find?_some hobj
      have hp : row.id = record.resourceId ∧ row.workspaceId = request.context.workspaceId := by
        simpa using List.find?_some hrow
      have mem := List.mem_of_find?_eq_some hobj
      rw [waits.flushed flushed] at mem
      obtain ⟨r, hr⟩ := Option.ne_none_iff_exists'.mp recorded
      refine ⟨u, v, ?_⟩
      exact {
        authentic := ⟨key, hk, authentic⟩
        waits := waits
        waits' := waits'
        mem := mem
        runId := hid.symm.trans hp.1
        row := ⟨row, List.mem_of_find?_eq_some hrow, hp⟩
        recorded := ⟨r, List.mem_of_find?_eq_some hr, by simpa using List.find?_some hr⟩
        capabilityId := target.1
        capabilityVersionId := target.2.1
        connectionId := target.2.2.1
        connectionVersionId := target.2.2.2
        flushed := hflushed
        commits := hcommits
        clock := hclock
        consumed := consumed }

/-! ## Admission -/

/-- The rows `create_run` inserts for a new run. -/
def Store.addAdmission (s : Store) (run : Run) (job : Job) (event : RunEvent)
    (nonce : ConfirmationNonce) (record : IdempotencyRecord) (audit : AuditEvent) : Store :=
  (((((s.addRun run).addJob job).addEvent event).addNonce nonce).addRecord record).addAudit audit

/-- `create_run` admits a new run in `t`, under the lock it has waited for until `s`. -/
structure Admits (service : ExecutionService) (P : Platform) (request : RunRequest)
    (presented : Presented) (s t : Session) (run : Run) (target : AdmissionTarget)
    (deadline : Time) : Prop where
  configured : service.Configured s.rows
  unmatched : ∀ record ∈ s.rows.records,
    P.matchesKey service.idempotencyKeys request.context request.idempotencyKey record = false
  unused : ∀ nonce ∈ s.rows.nonces, nonce.nonceDigest ≠ presented.nonceDigest
  unexpired : t.clock < presented.claims.expiresAt
  released : presented.state.dispatchQuarantined = false
  loaded : s.rows.registry.admissionTarget request.context.workspaceId
    request.capabilityVersionId = some target
  capabilityId : presented.claims.capabilityId = target.capability.id
  connectionId : presented.claims.connectionId = target.connection.id
  connectionVersionId : presented.claims.connectionVersionId = target.binding.connectionVersionId
  bounded : service.admissionDeadline presented.requestedDeadline t.clock = .ok deadline
  run_eq : run = service.admittedRun request presented target deadline t.clock
  flushed : t.objects = t.rows
  commits : t.commits = s.commits
  clock : s.clock ≤ t.clock
  rows : ∃ audit, t.rows = s.rows.addAdmission run
    (ExecutionService.admittedJob request presented deadline t.clock)
    { workspaceId := run.workspaceId, runId := run.id, sequence := 1, eventType := .admitted,
      status := .queued, safeErrorCode := none, occurredAt := t.clock }
    (consumedNonce request.context presented.claims presented.nonceDigest request.runId t.clock)
    (service.admittedRecord P request presented t.clock) audit

/-- What a version that may be run rests on. -/
structure AdmissionTarget.Loaded (registry : Registry) (workspaceId capabilityVersionId : Uuid)
    (target : AdmissionTarget) : Prop where
  version : registry.capabilityVersions.find? (fun v =>
    v.id == capabilityVersionId && v.workspaceId == workspaceId) = some target.version
  capability : registry.capabilities.find? (fun c =>
    c.id == target.version.capabilityId && c.workspaceId == workspaceId) = some target.capability
  binding : registry.bindings.find? (fun b =>
    b.capabilityVersionId == target.version.id && b.workspaceId == workspaceId) =
      some target.binding
  connection : registry.connections.find? (fun c =>
    c.id == target.binding.connectionId && c.workspaceId == workspaceId) = some target.connection
  snapshot : ∃ snapshotId row, target.connection.currentSnapshotId = some snapshotId ∧
    registry.snapshotCapabilities.find? (fun row => row.workspaceId == workspaceId &&
      row.connectionId == target.connection.id &&
      row.connectionVersionId == target.binding.connectionVersionId &&
      row.snapshotId == snapshotId && row.capabilityVersionId == target.version.id) = some row
  schemaSupported : target.version.schemaSupported = true
  status : target.capability.status = .enabled
  enabled : target.capability.enabledVersionId = some target.version.id
  reviewed : target.capability.pendingVersionId = none
  active : target.connection.lifecycle = .active
  settled : target.connection.pendingVersionId = none
  verified : target.connection.verifiedVersionId = some target.binding.connectionVersionId
  qualified : target.binding.protocolRevision = qualifiedProtocolRevision

theorem Registry.admissionTarget_eq_some {registry : Registry}
    {workspaceId capabilityVersionId : Uuid} {target : AdmissionTarget} :
    registry.admissionTarget workspaceId capabilityVersionId = some target ↔
      target.Loaded registry workspaceId capabilityVersionId := by
  obtain ⟨capability, version, binding, connection⟩ := target
  unfold Registry.admissionTarget
  simp only [Option.bind_eq_bind, Option.bind_eq_some_iff, Option.ite_none_left_eq_some, not_or,
    ne_eq, not_not, Bool.not_eq_false, Option.some.injEq, AdmissionTarget.mk.injEq]
  constructor
  · rintro ⟨_, hv, _, hc, _, hb, _, hn, snapshotId, hs, row, hrow, conditions, rfl, rfl, rfl, rfl⟩
    obtain ⟨h₁, h₂, h₃, h₄, h₅, h₆, h₇, h₈⟩ := conditions
    exact ⟨hv, hc, hb, hn, ⟨snapshotId, row, hs, hrow⟩, h₁, h₂, h₃, h₄, h₅, h₆, h₇, h₈⟩
  · rintro ⟨hv, hc, hb, hn, ⟨snapshotId, row, hs, hrow⟩, h₁, h₂, h₃, h₄, h₅, h₆, h₇, h₈⟩
    exact ⟨version, hv, capability, hc, binding, hb, connection, hn, snapshotId, hs, row, hrow,
      ⟨h₁, h₂, h₃, h₄, h₅, h₆, h₇, h₈⟩, rfl, rfl, rfl, rfl⟩

theorem loadAdmissionTarget_ok {context : WorkspaceContext} {capabilityVersionId : Uuid}
    {target : AdmissionTarget}
    (h : loadAdmissionTarget context capabilityVersionId s = .ok target t) :
    t = s ∧ s.rows.registry.admissionTarget context.workspaceId capabilityVersionId =
      some target := by
  unfold loadAdmissionTarget at h
  rw [bind_of_ok (query_apply _ _)] at h
  cases ht : s.rows.registry.admissionTarget context.workspaceId capabilityVersionId with
  | none =>
    rw [ht] at h
    cases h
  | some found =>
    rw [ht] at h
    injection h with hf hs
    exact ⟨hs.symm, congrArg some hf⟩

/-- The store with the rows that `create_run` inserts. -/
def ExecutionService.insertRows (service : ExecutionService) (P : Platform) (request : RunRequest)
    (presented : Presented) (target : AdmissionTarget) (deadline now : Time) (store : Store) :
    Store :=
  let run := service.admittedRun request presented target deadline now
  store.addAdmission run (admittedJob request presented deadline now)
    { workspaceId := run.workspaceId, runId := run.id, sequence := 1, eventType := .admitted,
      status := .queued, safeErrorCode := none, occurredAt := now }
    (consumedNonce request.context presented.claims presented.nonceDigest request.runId now)
    (service.admittedRecord P request presented now)
    { workspaceId := request.context.workspaceId, actorUserId := request.context.actorUserId,
      action := .runCreated, resourceType := .run, resourceId := request.runId,
      correlationId := request.correlationId.getD request.traceId }

/-- The insertion cannot fail, and all of it has been flushed. -/
theorem insertRun_apply (target : AdmissionTarget) (deadline now : Time)
    (flushed : s.objects = s.rows) :
    service.insertRun P request presented target deadline now s =
      .ok (service.admittedRun request presented target deadline now)
        { s with
          rows := service.insertRows P request presented target deadline now s.rows
          objects := service.insertRows P request presented target deadline now s.rows } := by
  -- every statement computes, so the two sessions agree by evaluation
  obtain ⟨rows, objects, clock, ticks, held, commits⟩ := s
  obtain rfl : objects = rows := flushed
  rfl

theorem insertRun_ok {target : AdmissionTarget} {deadline now : Time}
    (flushed : s.objects = s.rows)
    (h : service.insertRun P request presented target deadline now s = .ok run t) :
    run = service.admittedRun request presented target deadline now ∧ t.objects = t.rows ∧
      t.commits = s.commits ∧ t.clock = s.clock ∧ ∃ audit, t.rows = s.rows.addAdmission run
        (ExecutionService.admittedJob request presented deadline now)
        { workspaceId := run.workspaceId, runId := run.id, sequence := 1,
          eventType := .admitted, status := .queued, safeErrorCode := none, occurredAt := now }
        (consumedNonce request.context presented.claims presented.nonceDigest request.runId now)
        (service.admittedRecord P request presented now) audit := by
  rw [insertRun_apply target deadline now flushed] at h
  injection h with hr ht
  subst hr ht
  exact ⟨rfl, rfl, rfl, rfl, _, rfl⟩

theorem admitRun_ok {now : Time} (flushed : s.objects = s.rows)
    (configured : service.Configured s.rows)
    (unmatched : ∀ record ∈ s.rows.records,
      P.matchesKey service.idempotencyKeys request.context request.idempotencyKey record = false)
    (h : service.admitRun P request presented now s = .ok run t) :
    ∃ target deadline, Admits service P request presented s t run target deadline := by
  unfold ExecutionService.admitRun at h
  rw [bind_of_ok (selectRow_apply ..), bind_eq_ok] at h
  obtain ⟨⟨⟩, u, hu, h⟩ := h
  obtain ⟨-, hs⟩ := raiseIf_eq_ok.mp hu
  subst u
  rw [bind_eq_ok] at h
  obtain ⟨⟨⟩, u, hu, h⟩ := h
  obtain ⟨unused, hs⟩ := raiseIf_eq_ok.mp hu
  subst u
  rw [bind_eq_ok] at h
  obtain ⟨_, u, hu, h⟩ := h
  obtain ⟨-, hs⟩ := lift_eq_ok.mp hu
  subst u
  rw [bind_eq_ok] at h
  obtain ⟨target, u, hu, h⟩ := h
  obtain ⟨hs, loaded⟩ := loadAdmissionTarget_ok hu
  subst u
  rw [bind_eq_ok] at h
  obtain ⟨⟨⟩, u, hu, h⟩ := h
  obtain ⟨bound, hs⟩ := raiseIf_eq_ok.mp hu
  subst u
  simp only [not_or, ne_eq, not_not] at bound unused
  rw [bind_eq_ok] at h
  obtain ⟨⟨⟩, u, hu, h⟩ := h
  obtain ⟨-, hs⟩ := lift_eq_ok.mp hu
  subst u
  rw [bind_eq_ok] at h
  obtain ⟨now', u, hu, h⟩ := h
  obtain ⟨hnow, hr, ho, hc, -, hclock⟩ := durableNow_eq_ok hu
  rw [bind_eq_ok] at h
  obtain ⟨⟨⟩, v, hv, h⟩ := h
  obtain ⟨unexpired, hs⟩ := raiseIf_eq_ok.mp hv
  subst v
  rw [bind_eq_ok] at h
  obtain ⟨deadline, v, hv, h⟩ := h
  obtain ⟨bounded, hs⟩ := lift_eq_ok.mp hv
  subst v
  rw [bind_eq_ok] at h
  obtain ⟨⟨⟩, v, hv, h⟩ := h
  obtain ⟨released, hs⟩ := raiseIf_eq_ok.mp hv
  subst v
  rw [bind_of_ok (query_apply _ _), bind_eq_ok] at h
  obtain ⟨⟨⟩, v, hv, h⟩ := h
  obtain ⟨-, hs⟩ := raiseIf_eq_ok.mp hv
  subst v
  obtain ⟨hrun, hflushed, hcommits, hclock', audit, hrows⟩ :=
    insertRun_ok (by rw [ho, hr, flushed]) h
  have time : now' = t.clock := hnow.trans hclock'.symm
  subst time
  refine ⟨target, deadline, ?_⟩
  exact {
    configured := configured
    unmatched := unmatched
    unused := find?_beq_none unused
    unexpired := not_le.mp unexpired
    released := by simpa using released
    loaded := loaded
    capabilityId := bound.1
    connectionId := bound.2.1
    connectionVersionId := bound.2.2
    bounded := bounded
    run_eq := hrun
    flushed := hflushed
    commits := hcommits.trans hc
    clock := hclock'.symm ▸ hclock
    rows := ⟨audit, by rw [hrows, hr]⟩ }

/-- A successful `create_run`, whatever commits while it waits: the unlocked phase ends in `u`,
and in `v` the record of the key is found and replayed, or none is found and a run admitted. -/
theorem createRun_ok (flushed : s.objects = s.rows)
    (h : service.createRun P request s = .ok run t) :
    ∃ presented u v, PresentHolds service P request s u presented ∧ u.Waits v ∧
      ((∃ record ∈ v.rows.records, P.matchesKey service.idempotencyKeys request.context
            request.idempotencyKey record = true ∧
          ∃ w x, Replays service P request presented record v w x t run) ∨
        ∃ target deadline, Admits service P request presented v t run target deadline) := by
  unfold ExecutionService.createRun at h
  rw [bind_eq_ok] at h
  obtain ⟨presented, u, hu, h⟩ := h
  have holds := presentRun_ok flushed hu
  unfold ExecutionService.findIdempotencyRecord at h
  rw [bind_of_ok (selectRow_apply ..)] at h
  cases hf : u.rows.records.find? (P.matchesKey service.idempotencyKeys request.context
      request.idempotencyKey) with
  | some record =>
    rw [hf] at h
    obtain ⟨w, x, replays⟩ := replayPresented_ok holds.flushed h
    exact ⟨presented, u, u, holds, .refl u, .inl ⟨record, List.mem_of_find?_eq_some hf,
      List.find?_some hf, w, x, replays⟩⟩
  | none =>
    rw [hf] at h
    dsimp only at h
    unfold ExecutionService.admitLocked at h
    rw [bind_eq_ok] at h
    obtain ⟨⟨⟩, v, hv, h⟩ := h
    have waits := (Reads.requireCurrentRole _ _ _).ok hv
    rw [bind_eq_ok] at h
    obtain ⟨now, w, hw, h⟩ := h
    have waits' := waits.trans (Reads.durableNow.ok hw)
    rw [bind_eq_ok] at h
    obtain ⟨⟨⟩, x, hx, h⟩ := h
    rw [bind_eq_ok] at h
    obtain ⟨⟨⟩, y, hy, h⟩ := h
    obtain ⟨hyw, configured⟩ := configured_of_keyHistory hx hy
    subst y
    have flushed' := waits'.flushed holds.flushed
    unfold ExecutionService.findIdempotencyRecord at h
    rw [bind_of_ok (selectRow_apply ..)] at h
    cases hf' : w.rows.records.find? (P.matchesKey service.idempotencyKeys request.context
        request.idempotencyKey) with
    | some record =>
      rw [hf'] at h
      obtain ⟨y, z, replays⟩ := replayPresented_ok flushed' h
      exact ⟨presented, u, w, holds, waits', .inl ⟨record, List.mem_of_find?_eq_some hf',
        List.find?_some hf', y, z, replays⟩⟩
    | none =>
      rw [hf'] at h
      have unmatched := fun record mem => Bool.eq_false_iff.mpr (List.find?_eq_none.mp hf' record mem)
      obtain ⟨target, deadline, admits⟩ := admitRun_ok flushed' configured unmatched h
      exact ⟨presented, u, w, holds, waits', .inr ⟨target, deadline, admits⟩⟩

/-! ## Calls that nothing interferes with -/

section Lineages
variable {store : Store} {job : Job} {event : RunEvent} {nonce : ConfirmationNonce}
  {audit : AuditEvent}

theorem Store.lineage_addAdmission_self {r : Uuid} (fresh : store.lineage r = .empty)
    (hrun : run.id = r) (hj : job.runId = r) (he : event.runId = r) (hn : nonce.runId = r)
    (hr : record.resourceId = r) :
    (store.addAdmission run job event nonce record audit).lineage r =
      ⟨[run], [job], [], [event], [], [nonce], [record]⟩ := by
  simp only [lineage, Lineage.empty, Lineage.mk.injEq] at fresh
  obtain ⟨h₁, h₂, h₃, h₄, h₅, h₆, h₇⟩ := fresh
  simp only [addAdmission, addRun, addJob, addEvent, addNonce, addRecord, addAudit, lineage,
    List.filter_append, h₁, h₂, h₃, h₄, h₅, h₆, h₇]
  simp [hrun, hj, he, hn, hr]

theorem Store.lineage_addAdmission_other {q r : Uuid} (hq : q ≠ r) (hrun : run.id = r)
    (hj : job.runId = r) (he : event.runId = r) (hn : nonce.runId = r)
    (hr : record.resourceId = r) :
    (store.addAdmission run job event nonce record audit).lineage q = store.lineage q := by
  simp only [addAdmission, addRun, addJob, addEvent, addNonce, addRecord, addAudit, lineage,
    List.filter_append]
  simp [hrun, hj, he, hn, hr, hq.symm]

end Lineages

/-- The deadline of an admitted run lies ahead, within the limit. -/
theorem admissionDeadline_ok {requested : Option Time} {now deadline : Time}
    (h : service.admissionDeadline requested now = .ok deadline) :
    now < deadline ∧ deadline ≤ now + seconds service.limits.maxRunSeconds := by
  unfold ExecutionService.admissionDeadline at h
  cases requested with
  | none =>
    injection h with h
    subst h
    refine ⟨Int.lt_add_of_pos_right now ?_, le_refl _⟩
    have := service.limits.runSeconds_pos
    unfold seconds
    omega
  | some requested =>
    dsimp only at h
    split_ifs at h with hb
    injection h with h
    subst h
    rw [not_or, not_le, not_lt] at hb
    exact hb

/-- The rows of a run that has just been admitted. -/
def ExecutionService.admittedRows (service : ExecutionService) (P : Platform)
    (request : RunRequest) (presented : Presented) (target : AdmissionTarget)
    (deadline now : Time) : Lineage :=
  let run := service.admittedRun request presented target deadline now
  ⟨[run], [admittedJob request presented deadline now], [],
    [⟨run.workspaceId, run.id, 1, .admitted, .queued, none, now⟩], [],
    [consumedNonce request.context presented.claims presented.nonceDigest request.runId now],
    [service.admittedRecord P request presented now]⟩

theorem valid_admittedRows (target : AdmissionTarget) {deadline now : Time}
    (h : service.admissionDeadline presented.requestedDeadline now = .ok deadline) :
    (service.admittedRows P request presented target deadline now).Valid service.limits
      (service.admittedRun request presented target deadline now)
      (ExecutionService.admittedJob request presented deadline now) where
  runs := rfl
  jobs := rfl
  runId := rfl
  workspaceId := rfl
  deadline := rfl
  created := (admissionDeadline_ok h).1
  bounded := (admissionDeadline_ok h).2
  status := rfl
  attempts := .idle rfl (fun _ => nofun)
  numbered := .nil
  epochs _ := nofun
  epoch := rfl
  unstarted _ := rfl
  leased := nofun
  unleased _ := ⟨rfl, rfl⟩
  journal := ⟨rfl, ⟨[], _, rfl, rfl⟩, by
    simp [RunStatus.dispatched, ExecutionService.admittedRun, ExecutionService.admittedRows],
    List.pairwise_singleton _ _⟩
  failed := nofun
  ended := rfl
  endedAfter _ := nofun
  record := ⟨_, rfl, rfl, rfl⟩
  unanswered _ := rfl

/-- An admitted run has its arguments and nothing else yet. -/
theorem content_admittedRows (target : AdmissionTarget) (deadline now : Time) :
    (service.admittedRows P request presented target deadline now).Content
      (service.admittedRun request presented target deadline now) :=
  ⟨fun _ => ⟨rfl, rfl⟩, Nat.le_refl 0, .inl rfl⟩

/-- The times fixed at admission until which the arguments and the key of a run are kept. -/
structure Lineage.Kept (limits : ExecutionLimits) (l : Lineage) (run : Run) : Prop where
  arguments : run.argumentsExpiresAt = run.createdAt + days limits.argumentRetentionDays
  record : ∀ record ∈ l.records,
    record.expiresAt = run.createdAt + days limits.runRetentionDays

theorem kept_admittedRows (target : AdmissionTarget) (deadline now : Time) :
    (service.admittedRows P request presented target deadline now).Kept service.limits
      (service.admittedRun request presented target deadline now) where
  arguments := rfl
  record record mem := by
    rw [List.mem_singleton.mp mem]
    rfl

namespace Admits
variable {target : AdmissionTarget} {deadline : Time}

theorem run_id (h : Admits service P request presented s t run target deadline) :
    run.id = request.runId := by
  rw [h.run_eq]
  rfl

/-- The rows of the admitted run. -/
theorem lineage_self (h : Admits service P request presented s t run target deadline)
    (fresh : s.rows.lineage request.runId = .empty) :
    t.rows.lineage request.runId =
      service.admittedRows P request presented target deadline t.clock := by
  obtain ⟨audit, hrows⟩ := h.rows
  rw [hrows, h.run_eq]
  exact Store.lineage_addAdmission_self fresh rfl rfl rfl rfl rfl

theorem lineage_other (h : Admits service P request presented s t run target deadline)
    {q : Uuid} (hq : q ≠ request.runId) : t.rows.lineage q = s.rows.lineage q := by
  obtain ⟨audit, hrows⟩ := h.rows
  rw [hrows]
  exact Store.lineage_addAdmission_other hq h.run_id rfl h.run_id rfl rfl

theorem valid (h : Admits service P request presented s t run target deadline)
    (fresh : s.rows.lineage request.runId = .empty) :
    (t.rows.lineage request.runId).Valid service.limits run
      (ExecutionService.admittedJob request presented deadline t.clock) := by
  rw [h.lineage_self fresh, h.run_eq]
  exact valid_admittedRows target h.bounded

theorem content (h : Admits service P request presented s t run target deadline)
    (fresh : s.rows.lineage request.runId = .empty) :
    (t.rows.lineage request.runId).Content run := by
  rw [h.lineage_self fresh, h.run_eq]
  exact content_admittedRows target deadline t.clock

theorem kept (h : Admits service P request presented s t run target deadline)
    (fresh : s.rows.lineage request.runId = .empty) :
    (t.rows.lineage request.runId).Kept service.limits run := by
  rw [h.lineage_self fresh, h.run_eq]
  exact kept_admittedRows target deadline t.clock

end Admits

/-- One run has been admitted, with the rows of a queued run. -/
structure Store.Admitted (limits : ExecutionLimits) (clock : Time) (s t : Store)
    (request : RunRequest) (run : Run) (job : Job) : Prop where
  registry : t.registry = s.registry
  system : s.SystemKept t
  other : ∀ q, q ≠ request.runId → t.lineage q = s.lineage q
  valid : (t.lineage request.runId).Valid limits run job
  runId : run.id = request.runId
  created : run.createdAt ≤ clock
  jobId : job.id = request.jobId
  epoch : job.executionEpoch = s.executionEpoch
  released : s.quarantined = false
  content : (t.lineage request.runId).Content run
  kept : (t.lineage request.runId).Kept limits run

/-! ## What a call meets -/

/-- The session `v` is met after the unlocked phase of a call and some of its waits. -/
def Session.Meets (s v : Session) : Prop :=
  ∃ u : Session, s.rows.Opens u.rows ∧ u.commits = s.commits ∧ u.Waits v

theorem Session.Meets.trans {v w : Session} (h : s.Meets v) (g : v.Waits w) : s.Meets w := by
  obtain ⟨u, opens, commits, waits⟩ := h
  exact ⟨u, opens, commits, waits.trans g⟩

/-- Whenever the call looks for its key it meets the records of a store in `seen`, and after
its last wait it meets `store`. -/
structure Session.Views (s t : Session) (seen : List Store) (store : Store) : Prop where
  records : ∀ {v}, s.Meets v → ∃ x ∈ seen, v.rows.records = x.records
  last : ∀ {v}, s.Meets v → v.commits = t.commits → store.Opens v.rows

/-- A call that nothing interferes with meets the rows it began on. -/
theorem Session.Settled.views (settled : s.Settled) (t : Session) : s.Views t [s.rows] s.rows := by
  have meets {v : Session} (h : s.Meets v) : s.rows.Opens v.rows := by
    obtain ⟨u, opens, commits, waits⟩ := h
    rw [(waits.quiet (commits.trans settled.alone)).1]
    exact opens
  exact ⟨fun h => ⟨_, List.mem_singleton_self _, (meets h).records⟩, fun h _ => meets h⟩

/-- A wait that replaces the rows by those of a committed store. -/
def committed (store : Store) : Store → Store := fun _ => store

/-- The waits of a call end at committed stores. -/
theorem Session.Waits.committed {stores : List Store} (h : s.Waits t)
    (hc : s.commits = stores.map committed) :
    t.rows = s.rows ∧ t.commits = s.commits ∨
      ∃ before x after, stores = before ++ x :: after ∧ t.rows = x ∧
        t.commits = after.map Modall.committed := by
  obtain ⟨done, happened, rows, -, -, -⟩ := h
  rw [hc] at happened
  obtain ⟨first, after, rfl, rfl, hafter⟩ := List.map_eq_append_iff.mp happened
  rcases List.eq_nil_or_concat first with rfl | ⟨before, x, rfl⟩
  · exact .inl ⟨rows, by rw [hc, ← hafter]; rfl⟩
  · refine .inr ⟨before, x, after, by simp, ?_, hafter.symm⟩
    rw [rows]
    simp [Modall.committed]

/-- An overlapped call meets the store it began on and those that its waits end at. -/
theorem views_of_waits {began store : Store} {stores seen : List Store} {clock : Time}
    {ticks : List Nat} {held : List Uuid} (row : began.system.isSome = true)
    (hbegan : began ∈ seen) (hseen : ∀ x ∈ stores, x ∈ seen) (done : t.commits = [])
    (last : stores.getLast? = some store) :
    (Session.begin began clock ticks held (stores.map committed)).Views t seen store := by
  have rows {u : Session} (opens : began.Opens u.rows) : u.rows = began := by
    rw [opens.1]
    rcases opens.2 with kept | ⟨none, -⟩
    · rw [kept]
    · simp [none] at row
  constructor
  · rintro v ⟨u, opens, commits, waits⟩
    rcases waits.committed commits with ⟨hv, -⟩ | ⟨before, x, after, hs, hv, -⟩
    · exact ⟨began, hbegan, by rw [hv, rows opens]⟩
    · exact ⟨x, hseen x (by simp [hs]), by rw [hv]⟩
  · rintro v ⟨u, opens, commits, waits⟩ ended
    rw [done] at ended
    rcases waits.committed commits with ⟨-, hv⟩ | ⟨before, x, after, hs, hv, hafter⟩
    · rw [hv, commits] at ended
      rw [List.map_eq_nil_iff.mp ended] at last
      cases last
    · rw [hafter, List.map_eq_nil_iff] at ended
      subst ended
      have hx : x = store := by simpa [hs] using last
      rw [hv, hx]
      exact ⟨rfl, .inl rfl⟩

/-- A successful `create_run` among other transactions: it replays a record it has seen, or it
admits a run. Either way it writes to the rows of `store`. -/
theorem createRun_views {seen : List Store} {store : Store} (flushed : s.objects = s.rows)
    (views : s.Views t seen store) (h : service.createRun P request s = .ok run t) :
    ∃ presented u, PresentHolds service P request s u presented ∧
      ((∃ record x v w z, x ∈ seen ∧ record ∈ x.records ∧ P.matchesKey service.idempotencyKeys
            request.context request.idempotencyKey record = true ∧
          Replays service P request presented record v w z t run ∧ store.Opens z.rows) ∨
        ∃ v target deadline, Admits service P request presented v t run target deadline ∧
          u.clock ≤ v.clock ∧ store.Opens v.rows) := by
  obtain ⟨presented, u, v, holds, waits, result⟩ := createRun_ok flushed h
  have meets : s.Meets v := ⟨u, holds.opens, holds.commits, waits⟩
  refine ⟨presented, u, holds, ?_⟩
  rcases result with ⟨record, mem, matched, w, z, replays⟩ | ⟨target, deadline, admits⟩
  · obtain ⟨x, hx, hrecords⟩ := views.records meets
    have meets' := (meets.trans replays.waits).trans replays.waits'
    exact .inl ⟨record, x, v, w, z, hx, hrecords ▸ mem, matched, replays,
      views.last meets' replays.commits.symm⟩
  · obtain ⟨done, -, -, -, -, clock⟩ := waits
    exact .inr ⟨v, target, deadline, admits, clock, views.last meets admits.commits.symm⟩

/-- A nonce has been consumed against a run of the store, or nothing has changed. -/
structure Store.Consumes (s t : Store) : Prop where
  registry : t.registry = s.registry
  system : s.SystemKept t
  lineage : ∀ r, t.lineage r = s.lineage r ∨
    (s.lineage r).runs ≠ [] ∧ ∃ nonce, t.lineage r = (s.lineage r).addNonce nonce

/-- A replay writes at most a nonce of the run it returns. -/
theorem Replays.consumes {v w z : Session} {store : Store}
    (h : Replays service P request presented record v w z t run) (opens : store.Opens z.rows)
    (retained : ∃ row ∈ store.runs, row.id = run.id) : store.Consumes t.rows := by
  rcases h.consumed with ⟨nonce, -, -, -, rows⟩ | ⟨-, rows⟩
  · rw [rows]
    exact ⟨opens.registry, opens.2, fun r => .inl (opens.lineage r)⟩
  · rw [rows]
    refine ⟨opens.registry, opens.2, fun r => ?_⟩
    have edits := Store.edits_addNonce z.rows (consumedNonce request.context
      presented.claims presented.nonceDigest run.id t.clock)
    by_cases hr : r = run.id
    · subst hr
      obtain ⟨row, mem, hrow⟩ := retained
      have self := edits.self
      rw [opens.lineage] at self
      exact .inr ⟨List.ne_nil_of_mem (Store.mem_lineage_runs.mpr ⟨mem, hrow⟩), _, self⟩
    · exact .inl ((edits.other r hr).trans (opens.lineage r))

/-- The store in which a run has been admitted. -/
theorem Admits.admitted {limits : ExecutionLimits} {v : Session} {store : Store}
    {target : AdmissionTarget} {deadline : Time}
    (h : Admits service P request presented v t run target deadline) (opens : store.Opens v.rows)
    (same : service.limits = limits) (fresh : store.lineage request.runId = .empty)
    (epoch : presented.state.executionEpoch = store.executionEpoch)
    (quarantine : presented.state.dispatchQuarantined = store.quarantined) :
    store.Admitted limits t.clock t.rows request run
      (ExecutionService.admittedJob request presented deadline t.clock) where
  registry := by
    obtain ⟨audit, rows⟩ := h.rows
    rw [rows]
    exact opens.registry
  system := by
    obtain ⟨audit, rows⟩ := h.rows
    rw [rows]
    exact opens.2
  other q hq := (h.lineage_other hq).trans (opens.lineage q)
  valid := same ▸ h.valid (by rw [opens.lineage, fresh])
  runId := h.run_id
  created := by rw [h.run_eq]; exact le_refl _
  jobId := rfl
  epoch := epoch
  released := quarantine ▸ h.released
  content := h.content (by rw [opens.lineage, fresh])
  kept := same ▸ h.kept (by rw [opens.lineage, fresh])

end Modall
