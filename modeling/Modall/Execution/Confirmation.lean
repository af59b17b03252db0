import Modall.Execution.Idempotency

/-!
# Confirmation tokens

`preflight` signs a token that names one request and draws a nonce for it; `create_run` takes
the token once, by inserting a row for the nonce that hangs off the run it returns. A token is
spent for as long as that row is there. The row goes when its run is deleted, so what keeps a
token from being spent again is that it has expired by then. An issuance is a world together
with the tokens issued so far, which are the only tokens that verify.
-/
namespace Modall
open Library

namespace Label

/-- The tokens issued in this step. -/
def issued : Label → List ConfirmationToken
  | .call _ (.preflight ..) (.ok (.preflight preflight)) => [preflight.confirmationToken]
  | _ => []

/-- The token with which a run was returned in this step, new or replayed. -/
def presented : Label → Option ConfirmationToken
  | .call _ (.createRun request) (.ok (.run _)) => request.confirmationToken
  | _ => none

/-- The token with which a new run was created in this step. -/
def spent : Label → Option ConfirmationToken
  | .call _ (.createRun request) (.ok (.run run)) =>
    if run.id = request.runId then request.confirmationToken else none
  | _ => none

end Label

structure Issuance where
  world : World
  issued : List ConfirmationToken

/-- A step of the system in which every token that is accepted has been issued. -/
inductive Issuance.Step (P : Platform) (limits : ExecutionLimits) :
    Issuance → Label → Issuance → Prop where
  | mk {i : Issuance} {l : Label} {w : World} : Modall.Step P limits i.world l w →
      (∀ token, l.presented = some token → token ∈ i.issued) →
      Step P limits i l ⟨w, l.issued ++ i.issued⟩

def Issuance.Initial (i : Issuance) : Prop := i.world.Initial ∧ i.issued = []

/-- When expired metadata is deleted, no run that is due for deletion has a token that was
consumed after the run had ended and has not expired yet. -/
def Issuance.Outlived (limits : ExecutionLimits) (i : Issuance) (l : Label) (i' : Issuance) :
    Prop :=
  l.deletes = true → ∀ run ∈ i.world.store.runs, ∀ ended, run.terminalAt = some ended →
    ended + days limits.runRetentionDays ≤ i'.world.clock →
    ∀ nonce ∈ i.world.store.nonces, nonce.runId = run.id → ended ≤ nonce.consumedAt →
      nonce.expiresAt ≤ i'.world.clock

/-- A step at which no unexpired token is forgotten. -/
def Issuance.SafeStep (P : Platform) (limits : ExecutionLimits) (i : Issuance) (l : Label)
    (i' : Issuance) : Prop := i.Step P limits l i' ∧ i.Outlived limits l i'

section Tokens
variable {P : Platform} {limits : ExecutionLimits} {service : ExecutionService}
  {request : RunRequest} {run : Run} {token : ConfirmationToken} {s t : Session} {w w' : World}
  {l : Label} {i i' : Issuance} {ls : List Label}

/-! ## What the two calls do with a token -/

theorem preflight_ok {context : WorkspaceContext} {capabilityVersionId : Uuid}
    {arguments : Json} {nonce : String} {preflight : RunPreflight}
    (h : service.preflight P context capabilityVersionId arguments nonce s = .ok preflight t) :
    preflight.serverObservedAt = t.clock ∧
      preflight.confirmationToken.payload.jti = nonce ∧
      preflight.confirmationToken.payload.iat = wholeSeconds preflight.serverObservedAt ∧
      preflight.confirmationToken.payload.exp = ceilSeconds
        (preflight.serverObservedAt + seconds service.limits.confirmationTtlSeconds) := by
  unfold ExecutionService.preflight at h
  obtain ⟨_, u, -, h⟩ := bind_eq_ok.mp h
  obtain ⟨target, v, -, h⟩ := bind_eq_ok.mp h
  obtain ⟨⟨normalized, digest⟩, x, -, h⟩ := bind_eq_ok.mp h
  obtain ⟨_, y, -, h⟩ := bind_eq_ok.mp h
  obtain ⟨now, z, hnow, h⟩ := bind_eq_ok.mp h
  injection h with hp ht
  subst hp ht
  exact ⟨(durableNow_eq_ok hnow).1, rfl, rfl, rfl⟩

theorem seconds_ceilSeconds_lt (t : Time) : seconds (ceilSeconds t) < t + seconds 1 := by
  unfold seconds ceilSeconds
  omega

/-- The claims are the token's, under some version of the confirmation key. -/
structure ConfirmationToken.Claims (token : ConfirmationToken) (claims : ConfirmationClaims) :
    Prop where
  workspaceId : claims.workspaceId = token.payload.w
  actorUserId : claims.actorUserId = token.payload.a
  capabilityVersionId : claims.capabilityVersionId = token.payload.cv
  capabilityId : claims.capabilityId = token.payload.c
  connectionId : claims.connectionId = token.payload.cn
  connectionVersionId : claims.connectionVersionId = token.payload.cnv
  argumentDigest : claims.argumentDigest = token.payload.ad
  nonce : claims.nonce = token.payload.jti
  issuedAt : claims.issuedAt = seconds token.payload.iat
  expiresAt : claims.expiresAt = seconds token.payload.exp

theorem decodeConfirmation_ok {presented : Option ConfirmationToken} {claims : ConfirmationClaims}
    (h : service.decodeConfirmation P presented = .ok claims) :
    ∃ token, presented = some token ∧ token.Claims claims := by
  unfold ExecutionService.decodeConfirmation at h
  cases presented with
  | none => cases h
  | some token =>
    dsimp only at h
    split_ifs at h
    cases hk : keyByVersion service.confirmationKeys token.kid with
    | none =>
      rw [hk] at h
      cases h
    | some key =>
      rw [hk] at h
      dsimp only at h
      split_ifs at h
      injection h with h
      subst h
      exact ⟨token, rfl, rfl, rfl, rfl, rfl, rfl, rfl, rfl, rfl, rfl, rfl⟩

/-- A run returned for a token, and the row that consumes the token. -/
structure Confirms (P : Platform) (w w' : World) (request : RunRequest) (run : Run)
    (token : ConfirmationToken) : Prop where
  workspaceId : run.workspaceId = token.payload.w
  actorUserId : run.actorUserId = token.payload.a
  capabilityId : run.capabilityId = token.payload.c
  capabilityVersionId : run.capabilityVersionId = token.payload.cv
  connectionId : run.connectionId = token.payload.cn
  connectionVersionId : run.connectionVersionId = token.payload.cnv
  created : run.id = request.runId → run.argumentDigest = some token.payload.ad ∧
    seconds token.payload.iat ≤ run.createdAt ∧ run.createdAt < seconds token.payload.exp ∧
    w.clock ≤ run.createdAt ∧
    ∀ nonce ∈ w.store.nonces, nonce.nonceDigest ≠ P.sha256 token.payload.jti
  kept : ∀ nonce ∈ w.store.nonces, nonce ∈ w'.store.nonces
  used : ∃ nonce ∈ w'.store.nonces, nonce.nonceDigest = P.sha256 token.payload.jti
  new : ∀ nonce ∈ w'.store.nonces, nonce ∈ w.store.nonces ∨
    nonce.nonceDigest = P.sha256 token.payload.jti ∧
      nonce.expiresAt = seconds token.payload.exp ∧ w.clock ≤ nonce.consumedAt

variable {presented : Presented} {record : IdempotencyRecord} {u v : Session}

/-- A run that is replayed is the run of the caller's record, and it is the one named. -/
theorem Replays.confirms {x y : Session}
    (replays : Replays service P request presented record v x y t run)
    (holds : PresentHolds service P request s u presented)
    (claims : token.Claims presented.claims) (inv : w.Invariant limits)
    (mem : record ∈ w.store.records)
    (matched : P.matchesKey service.idempotencyKeys request.context request.idempotencyKey record =
      true)
    (runs : x.rows.runs = w.store.runs) (nonces : y.rows.nonces = w.store.nonces)
    (store : w'.store = t.rows) (later : w.clock ≤ t.clock)
    (fresh : request.runId ∉ w.drawn) : Confirms P w w' request run token := by
  obtain ⟨row, job, valid, only, -, -⟩ := inv.of_mem_records mem
  have same : run = row := by
    have mine := Store.mem_lineage_runs.mpr ⟨runs ▸ replays.mem, replays.runId⟩
    rw [valid.runs, List.mem_singleton] at mine
    exact mine
  obtain ⟨kept, honly, hworkspace, hactor⟩ := valid.record
  rw [only, List.cons.injEq] at honly
  obtain ⟨rfl, -⟩ := honly
  simp only [Platform.matchesKey, Bool.and_eq_true, beq_iff_eq] at matched
  have digest := holds.nonce.trans (congrArg P.sha256 claims.nonce)
  refine {
    workspaceId := by
      rw [same, ← hworkspace, matched.1.1.1.1, ← holds.workspaceId, claims.workspaceId]
    actorUserId := by
      rw [same, ← hactor, matched.1.1.1.2, ← holds.actorUserId, claims.actorUserId]
    capabilityId := replays.capabilityId.trans claims.capabilityId
    capabilityVersionId := replays.capabilityVersionId.trans claims.capabilityVersionId
    connectionId := replays.connectionId.trans claims.connectionId
    connectionVersionId := replays.connectionVersionId.trans claims.connectionVersionId
    created := fun hnew => ?_
    kept := fun nonce hn => ?_
    used := ?_
    new := fun nonce hn => ?_ }
  · refine (fresh ?_).elim
    rw [← hnew, replays.runId]
    exact (inv.drawn valid).1
  · rcases replays.consumed with ⟨-, -, -, -, rows⟩ | ⟨-, rows⟩
    · rwa [store, rows, nonces]
    · rw [store, rows]
      exact List.mem_append_left _ (nonces ▸ hn)
  · rw [store, ← digest]
    rcases replays.consumed with ⟨nonce, hn, hd, -, rows⟩ | ⟨-, rows⟩
    · exact ⟨nonce, rows ▸ hn, hd⟩
    · exact ⟨_, by rw [rows]; exact List.mem_append_right _ (List.mem_singleton_self _), rfl⟩
  · rw [store] at hn
    rcases replays.consumed with ⟨-, -, -, -, rows⟩ | ⟨-, rows⟩
    · rw [rows, nonces] at hn
      exact .inl hn
    · rw [rows] at hn
      rcases List.mem_append.mp hn with hn | hn
      · exact .inl (nonces ▸ hn)
      · rw [List.mem_singleton.mp hn]
        exact .inr ⟨digest, claims.expiresAt, later⟩

/-- A run that is admitted is the one named, and the token had not been used before. -/
theorem Admits.confirms {target : AdmissionTarget} {deadline : Time}
    (admits : Admits service P request presented v t run target deadline)
    (holds : PresentHolds service P request s u presented)
    (claims : token.Claims presented.claims) (nonces : v.rows.nonces = w.store.nonces)
    (store : w'.store = t.rows) (hclock : w.clock ≤ v.clock) (hu : u.clock ≤ v.clock) :
    Confirms P w w' request run token := by
  have later : w.clock ≤ t.clock := hclock.trans admits.clock
  have digest := holds.nonce.trans (congrArg P.sha256 claims.nonce)
  obtain ⟨audit, rows⟩ := admits.rows
  have added : w'.store.nonces = w.store.nonces ++ [consumedNonce request.context
      presented.claims presented.nonceDigest request.runId t.clock] := by
    rw [store, rows, ← nonces]
    rfl
  have version : target.version.id = request.capabilityVersionId := by
    have found := List.find?_some (Registry.admissionTarget_eq_some.mp admits.loaded).version
    simp only [Bool.and_eq_true, beq_iff_eq] at found
    exact found.1
  have hrun := admits.run_eq
  refine {
    workspaceId := by rw [hrun]; exact holds.workspaceId.symm.trans claims.workspaceId
    actorUserId := by rw [hrun]; exact holds.actorUserId.symm.trans claims.actorUserId
    capabilityId := by rw [hrun]; exact admits.capabilityId.symm.trans claims.capabilityId
    capabilityVersionId := by
      rw [hrun]
      exact (version.trans holds.capabilityVersionId.symm).trans claims.capabilityVersionId
    connectionId := by rw [hrun]; exact admits.connectionId.symm.trans claims.connectionId
    connectionVersionId := by
      rw [hrun]
      exact admits.connectionVersionId.symm.trans claims.connectionVersionId
    created := fun _ => ⟨?_, ?_, ?_, ?_, fun nonce hn => ?_⟩
    kept := fun nonce hn => by rw [added]; exact List.mem_append_left _ hn
    used := ⟨_, by rw [added]; exact List.mem_append_right _ (List.mem_singleton_self _), digest⟩
    new := fun nonce hn => ?_ }
  · rw [hrun]
    exact congrArg some (holds.argumentDigest.symm.trans claims.argumentDigest)
  · rw [hrun, ← claims.issuedAt]
    exact (holds.issued.trans hu).trans admits.clock
  · rw [hrun, ← claims.expiresAt]
    exact admits.unexpired
  · rw [hrun]
    exact later
  · rw [← digest]
    exact admits.unused nonce (nonces ▸ hn)
  · rw [added] at hn
    rcases List.mem_append.mp hn with hn | hn
    · exact .inl hn
    · rw [List.mem_singleton.mp hn]
      exact .inr ⟨digest, claims.expiresAt, later⟩

/-- Every run that `create_run` returns is returned for a token that names it. -/
theorem Ran.confirms (h : Ran P limits w service (.createRun request) (.run run) w' s t)
    (inv : w.Invariant limits) :
    ∃ token, request.confirmationToken = some token ∧ Confirms P w w' request run token := by
  obtain ⟨run', t', hrun, hr⟩ := bind_eq_ok.mp h.ran
  injection hr with hreply ht
  injection hreply with hreply
  subst hreply ht
  obtain ⟨presented, u, v, holds, waits, result⟩ := createRun_ok h.settled.flushed hrun
  obtain ⟨hvr, -, hvc, hvclock⟩ := waits.quiet (holds.commits.trans h.settled.alone)
  have opens : w.store.Opens v.rows := by
    rw [hvr, ← h.rows]
    exact holds.opens
  have hclock : w.clock ≤ v.clock := by
    rw [← h.clock]
    exact holds.clock.trans hvclock
  obtain ⟨token, hsome, claims⟩ := decodeConfirmation_ok holds.decoded
  refine ⟨token, hsome, ?_⟩
  rcases result with ⟨record, mem, matched, x, y, replays⟩ | ⟨target, deadline, admits⟩
  · obtain ⟨hxr, -, hxc, hxclock⟩ := replays.waits.quiet hvc
    obtain ⟨hyr, -, -, hyclock⟩ := replays.waits'.quiet hxc
    exact replays.confirms holds claims inv (opens.records ▸ mem) matched (by rw [hxr, opens.runs])
      (by rw [hyr, hxr, opens.nonces]) (h.store.trans replays.flushed)
      (((hclock.trans hxclock).trans hyclock).trans replays.clock)
      (h.fresh request.runId (by simp [Call.draws]))
  · exact admits.confirms holds claims opens.nonces (h.store.trans admits.flushed) hclock hvclock

/-! ## The rows of consumed tokens -/

theorem Label.of_presented (h : l.presented = some token) : ∃ service request run,
    l = .call service (.createRun request) (.ok (.run run)) ∧
      request.confirmationToken = some token := by
  unfold Label.presented at h
  split at h
  · exact ⟨_, _, _, rfl, h⟩
  · cases h

theorem Label.of_spent (h : l.spent = some token) : ∃ service request run,
    l = .call service (.createRun request) (.ok (.run run)) ∧
      request.confirmationToken = some token ∧ run.id = request.runId := by
  unfold Label.spent at h
  split at h
  · split_ifs at h with hnew
    exact ⟨_, _, _, rfl, h, hnew⟩
  · cases h

theorem Label.of_issued (h : token ∈ l.issued) : ∃ service context capabilityVersionId arguments
    nonce preflight, l = .call service (.preflight context capabilityVersionId arguments nonce)
      (.ok (.preflight preflight)) ∧ preflight.confirmationToken = token := by
  unfold Label.issued at h
  split at h
  · exact ⟨_, _, _, _, _, _, rfl, (List.mem_singleton.mp h).symm⟩
  · cases h

/-- Only `create_run` consumes a token, and only a deletion forgets one, with its run. -/
theorem Effect.nonces (effect : Effect limits w l w')
    (other : ∀ service request run, l ≠ .call service (.createRun request) (.ok (.run run))) :
    (∀ nonce ∈ w'.store.nonces, nonce ∈ w.store.nonces) ∧
      ∀ nonce ∈ w.store.nonces, nonce ∈ w'.store.nonces ∨
        l.deletes = true ∧ ∃ run ∈ w.store.runs, run.id = nonce.runId ∧ ∃ ended,
          run.terminalAt = some ended ∧ ended + days limits.runRetentionDays ≤ w'.clock := by
  have same (h : ∀ r, (w'.store.lineage r).nonces = (w.store.lineage r).nonces) (nonce) :
      nonce ∈ w'.store.nonces ↔ nonce ∈ w.store.nonces := by
    have mine : nonce ∈ (w'.store.lineage nonce.runId).nonces ↔
        nonce ∈ (w.store.lineage nonce.runId).nonces := by rw [h]
    simpa [Store.mem_lineage_nonces] using mine
  have unchanged (h : ∀ r, (w'.store.lineage r).nonces = (w.store.lineage r).nonces) :
      (∀ nonce ∈ w'.store.nonces, nonce ∈ w.store.nonces) ∧
      ∀ nonce ∈ w.store.nonces, nonce ∈ w'.store.nonces ∨
        l.deletes = true ∧ ∃ run ∈ w.store.runs, run.id = nonce.runId ∧ ∃ ended,
          run.terminalAt = some ended ∧ ended + days limits.runRetentionDays ≤ w'.clock :=
    ⟨fun nonce => (same h nonce).mp, fun nonce mem => .inl ((same h nonce).mpr mem)⟩
  cases effect with
  | evolve evolves => exact unchanged fun r => (evolves.steps r).nonces
  | replay hl | admission hl => exact (other _ _ _ hl).elim
  | enter _ lineage | clear _ _ lineage | registry lineage =>
    exact unchanged fun r => by rw [lineage]
  | @deletion ids hl hstore due =>
    rw [hstore]
    refine ⟨fun nonce mem => (List.mem_filter.mp mem).1, fun nonce mem => ?_⟩
    by_cases gone : nonce.runId ∈ ids
    · obtain ⟨run, job, ended, valid, hended, old⟩ := due _ gone
      have mine : run ∈ (w.store.lineage nonce.runId).runs := by simp [valid.runs]
      obtain ⟨mem, hid⟩ := Store.mem_lineage_runs.mp mine
      exact .inr ⟨hl, run, mem, hid, ended, hended, old⟩
    · exact .inl (List.mem_filter.mpr ⟨mem, by simpa using gone⟩)

theorem Step.nonces (h : Step P limits w l w') : ∀ n ∈ w.nonces, n ∈ w'.nonces := by
  cases h with
  | call => exact fun n mem => List.mem_append_right _ mem
  | registry => exact fun n mem => mem

/-- A preflight issues a token with a fresh nonce, for the time it was asked for. -/
theorem Step.issues {context : WorkspaceContext} {capabilityVersionId : Uuid}
    {arguments : Json} {nonce : String} {preflight : RunPreflight}
    (h : Step P limits w (.call service (.preflight context capabilityVersionId arguments nonce)
      (.ok (.preflight preflight))) w') :
    preflight.confirmationToken.payload.jti = nonce ∧ nonce ∉ w.nonces ∧ nonce ∈ w'.nonces ∧
      preflight.serverObservedAt ≤ w'.clock ∧
      preflight.confirmationToken.payload.iat = wholeSeconds preflight.serverObservedAt ∧
      preflight.confirmationToken.payload.exp = ceilSeconds
        (preflight.serverObservedAt + seconds limits.confirmationTtlSeconds) := by
  obtain ⟨s, t, ran⟩ := h.ran
  obtain ⟨result, u, hu, hr⟩ := bind_eq_ok.mp ran.ran
  injection hr with hreply ht
  injection hreply with hreply
  subst hreply ht
  obtain ⟨observed, jti, iat, exp⟩ := preflight_ok hu
  have drawn : nonce ∉ w.nonces ∧ nonce ∈ w'.nonces := by
    generalize hl : Label.call service (.preflight context capabilityVersionId arguments nonce)
      (.ok (.preflight result)) = l at h
    cases h with
    | registry => cases hl
    | call _ _ _ _ _ fresh =>
      injection hl with _ hc _
      subst hc
      exact ⟨fresh nonce (by simp [Call.nonces]), by simp [Call.nonces]⟩
  exact ⟨jti, drawn.1, drawn.2, observed ▸ ran.later, iat, ran.same ▸ exp⟩

/-! ## The invariant -/

/-- Tokens have distinct nonces and short lives, every row is of an issued token, and a token
that was presented with success has a row until it has expired. -/
structure Issuance.Invariant (P : Platform) (limits : ExecutionLimits) (ls : List Label)
    (i : Issuance) : Prop where
  world : i.world.Invariant limits
  drawn : ∀ token ∈ i.issued, token.payload.jti ∈ i.world.nonces
  distinct : ∀ a ∈ i.issued, ∀ b ∈ i.issued, a.payload.jti = b.payload.jti → a = b
  brief : ∀ token ∈ i.issued, seconds token.payload.exp ≤
    i.world.clock + seconds (limits.confirmationTtlSeconds + 1)
  consumed : ∀ nonce ∈ i.world.store.nonces, ∃ token ∈ i.issued,
    nonce.nonceDigest = P.sha256 token.payload.jti ∧
      nonce.expiresAt = seconds token.payload.exp ∧
      nonce.expiresAt ≤ nonce.consumedAt + seconds (limits.confirmationTtlSeconds + 1)
  used : ∀ l ∈ ls, ∀ token, l.presented = some token → token ∈ i.issued ∧
    ((∃ nonce ∈ i.world.store.nonces, nonce.nonceDigest = P.sha256 token.payload.jti) ∨
      seconds token.payload.exp ≤ i.world.clock)

/-- What a step does to the rows: it adds at most one, for a token that was presented, and
takes away only rows of expired tokens. -/
theorem Issuance.SafeStep.nonces (h : i.SafeStep P limits l i')
    (inv : i.Invariant P limits ls) :
    (∀ nonce ∈ i'.world.store.nonces, nonce ∈ i.world.store.nonces ∨ ∃ token,
        l.presented = some token ∧ nonce.nonceDigest = P.sha256 token.payload.jti ∧
          nonce.expiresAt = seconds token.payload.exp ∧ i.world.clock ≤ nonce.consumedAt) ∧
      ∀ nonce ∈ i.world.store.nonces, nonce ∈ i'.world.store.nonces ∨
        nonce.expiresAt ≤ i'.world.clock := by
  obtain ⟨⟨step, honest⟩, outlived⟩ := h
  by_cases creates : ∃ service request run, l = .call service (.createRun request) (.ok (.run run))
  · obtain ⟨service, request, run, rfl⟩ := creates
    obtain ⟨s, t, ran⟩ := step.ran
    obtain ⟨token, hsome, confirms⟩ := ran.confirms inv.world
    refine ⟨fun nonce mem => ?_, fun nonce mem => .inl (confirms.kept nonce mem)⟩
    exact (confirms.new nonce mem).imp_right fun new => ⟨token, hsome, new⟩
  · obtain ⟨old, kept⟩ := (step.effect inv.world).nonces
      fun service request run hl => creates ⟨service, request, run, hl⟩
    refine ⟨fun nonce mem => .inl (old nonce mem), fun nonce mem => ?_⟩
    rcases kept nonce mem with kept | ⟨deletes, run, hrun, hid, ended, hended, due⟩
    · exact .inl kept
    · refine .inr ?_
      obtain ⟨-, -, -, -, brief⟩ := inv.consumed nonce mem
      by_cases late : ended ≤ nonce.consumedAt
      · exact outlived deletes run hrun ended hended due nonce mem hid.symm late
      · -- a token consumed before the end expires within minutes, a run is kept for days
        have ttl := limits.confirmationTtl.2
        have retained := limits.argumentRetention.1.trans limits.argumentRetention_le_run
        simp only [seconds, days, Time] at brief due late ⊢
        omega

theorem Issuance.SafeStep.invariant (sha : Function.Injective P.sha256)
    (h : i.SafeStep P limits l i') (inv : i.Invariant P limits ls) :
    i'.Invariant P limits (ls ++ [l]) := by
  obtain ⟨added, kept⟩ := h.nonces inv
  obtain ⟨⟨step, honest⟩, -⟩ := h
  rename_i w'
  have clock := step.clock
  have fresh {token : ConfirmationToken} (mem : token ∈ l.issued) :
      token.payload.jti ∉ i.world.nonces ∧ token.payload.jti ∈ w'.nonces ∧
        seconds token.payload.exp ≤ w'.clock + seconds (limits.confirmationTtlSeconds + 1) ∧
        l.issued = [token] := by
    obtain ⟨service, context, version, arguments, nonce, preflight, rfl, rfl⟩ :=
      Label.of_issued mem
    obtain ⟨rfl, hfresh, hdrawn, observed, -, exp⟩ := step.issues
    refine ⟨hfresh, hdrawn, ?_, rfl⟩
    rw [exp]
    have rounded := seconds_ceilSeconds_lt
      (preflight.serverObservedAt + seconds limits.confirmationTtlSeconds)
    simp only [seconds, Time] at rounded observed ⊢
    omega
  exact {
    world := step.invariant inv.world
    drawn := by
      intro token mem
      rcases List.mem_append.mp mem with mem | mem
      · exact (fresh mem).2.1
      · exact step.nonces _ (inv.drawn token mem)
    distinct := by
      intro a ha b hb same
      rcases List.mem_append.mp ha with ha | ha <;> rcases List.mem_append.mp hb with hb | hb
      · have only := (fresh ha).2.2.2
        rw [only, List.mem_singleton] at hb
        exact hb.symm
      · exact ((fresh ha).1 (same ▸ inv.drawn b hb)).elim
      · exact ((fresh hb).1 (same ▸ inv.drawn a ha)).elim
      · exact inv.distinct a ha b hb same
    brief := by
      intro token mem
      rcases List.mem_append.mp mem with mem | mem
      · exact (fresh mem).2.2.1
      · exact (inv.brief token mem).trans (Int.add_le_add_right clock _)
    consumed := by
      intro nonce mem
      rcases added nonce mem with old | ⟨token, presented, digest, expires, later⟩
      · obtain ⟨token, mem, rest⟩ := inv.consumed nonce old
        exact ⟨token, List.mem_append_right _ mem, rest⟩
      · have mem := honest token presented
        refine ⟨token, List.mem_append_right _ mem, digest, expires, ?_⟩
        rw [expires]
        exact (inv.brief token mem).trans (Int.add_le_add_right later _)
    used := by
      intro m mem token presented
      rcases List.mem_append.mp mem with mem | mem
      · obtain ⟨issued, before⟩ := inv.used m mem token presented
        refine ⟨List.mem_append_right _ issued, ?_⟩
        rcases before with ⟨nonce, mem, digest⟩ | expired
        · rcases kept nonce mem with kept | expired
          · exact .inl ⟨nonce, kept, digest⟩
          · -- the row is the token's own
            obtain ⟨other, mem', digest', expires, -⟩ := inv.consumed nonce mem
            have same := sha (digest.symm.trans digest')
            obtain rfl := inv.distinct _ issued _ mem' same
            exact .inr (expires ▸ expired)
        · exact .inr (expired.trans clock)
      · obtain rfl := List.mem_singleton.mp mem
        refine ⟨List.mem_append_right _ (honest token presented), .inl ?_⟩
        obtain ⟨service, request, run, rfl, hsome⟩ := Label.of_presented presented
        obtain ⟨s, t, ran⟩ := step.ran
        obtain ⟨token', hsome', confirms⟩ := ran.confirms inv.world
        obtain rfl := Option.some.inj (hsome.symm.trans hsome')
        exact confirms.used }

/-- A token that was presented before creates no run. -/
theorem Issuance.SafeStep.fresh (h : i.SafeStep P limits l i') (inv : i.Invariant P limits ls) :
    ∀ earlier ∈ ls, ∀ token, earlier.presented = some token → l.spent ≠ some token := by
  intro earlier mem token presented spent
  obtain ⟨⟨step, -⟩, -⟩ := h
  obtain ⟨service, request, run, rfl, hsome, hnew⟩ := Label.of_spent spent
  obtain ⟨s, t, ran⟩ := step.ran
  obtain ⟨token', hsome', confirms⟩ := ran.confirms inv.world
  obtain rfl := Option.some.inj (hsome.symm.trans hsome')
  obtain ⟨-, -, unexpired, later, unused⟩ := confirms.created hnew
  rcases (inv.used earlier mem token presented).2 with ⟨nonce, mem, digest⟩ | expired
  · exact unused nonce mem digest
  · exact absurd (later.trans_lt unexpired) (not_lt.mpr expired)

theorem Issuance.Initial.invariant (h : i.Initial) : i.Invariant P limits [] where
  world := h.1.invariant
  drawn := by simp [h.2]
  distinct := by simp [h.2]
  brief := by simp [h.2]
  consumed nonce mem := by
    have mine := Store.mem_lineage_nonces.mpr ⟨mem, rfl⟩
    rw [h.1] at mine
    cases mine
  used := by simp

/-- Along a run of safe steps no token is presented before it is spent. -/
theorem pairwise_of_safe_path {i₀ : Issuance} (sha : Function.Injective P.sha256)
    (initial : i₀.Initial) (path : Path (Issuance.SafeStep P limits) i₀ ls i) :
    i.Invariant P limits ls ∧
      ls.Pairwise fun earlier later => ∀ token, earlier.presented = some token →
        later.spent ≠ some token := by
  induction path with
  | nil => exact ⟨initial.invariant, .nil⟩
  | snoc _ step ih =>
    refine ⟨step.invariant sha ih.1, List.pairwise_append.mpr ⟨ih.2, List.pairwise_singleton _ _, ?_⟩⟩
    intro earlier mem later hl
    rw [List.mem_singleton.mp hl]
    exact step.fresh ih.1 earlier mem

/-- What the label of a successful `create_run` says about its run and its token. -/
theorem Issuance.Step.named (h : i.Step P limits l i') (inv : i.world.Invariant limits)
    (hl : l = .call service (.createRun request) (.ok (.run run)))
    (hsome : request.confirmationToken = some token) :
    ∃ w w', Confirms P w w' request run token := by
  obtain ⟨step, -⟩ := h
  subst hl
  obtain ⟨s, t, ran⟩ := step.ran
  obtain ⟨token', hsome', confirms⟩ := ran.confirms inv
  obtain rfl := Option.some.inj (hsome.symm.trans hsome')
  exact ⟨_, _, confirms⟩

/-- In every run in which no unexpired token is forgotten with its run: a token that has been
presented with success, be it to create a run or to replay one, creates no run afterwards; every
run returned for a token is the one that the token names; and a run is created while its token
is valid, from the second in which it was issued to the second in which its time is up. -/
theorem token_creates_one_run {i₀ : Issuance} (sha : Function.Injective P.sha256)
    (initial : i₀.Initial) (path : Path (Issuance.SafeStep P limits) i₀ ls i) :
    (ls.Pairwise fun earlier later => ∀ token, earlier.presented = some token →
        later.spent ≠ some token) ∧
      ∀ service request run token,
        .call service (.createRun request) (.ok (.run run)) ∈ ls →
        request.confirmationToken = some token →
        (run.workspaceId = token.payload.w ∧ run.actorUserId = token.payload.a ∧
          run.capabilityId = token.payload.c ∧ run.capabilityVersionId = token.payload.cv ∧
          run.connectionId = token.payload.cn ∧ run.connectionVersionId = token.payload.cnv) ∧
        (run.id = request.runId → run.argumentDigest = some token.payload.ad ∧
          seconds token.payload.iat ≤ run.createdAt ∧
          run.createdAt < seconds token.payload.exp) ∧
        ∀ issuer context version arguments nonce preflight,
          .call issuer (.preflight context version arguments nonce) (.ok (.preflight preflight)) ∈
            ls → preflight.confirmationToken = token → run.id = request.runId →
          seconds (wholeSeconds preflight.serverObservedAt) ≤ run.createdAt ∧
            run.createdAt < seconds (ceilSeconds
              (preflight.serverObservedAt + seconds limits.confirmationTtlSeconds)) := by
  refine ⟨(pairwise_of_safe_path sha initial path).2, ?_⟩
  have kept (i : Issuance) (l : Label) (i' : Issuance) (inv : i.world.Invariant limits)
      (h : i.SafeStep P limits l i') : i'.world.Invariant limits := by
    obtain ⟨⟨step, -⟩, -⟩ := h
    exact step.invariant inv
  have named := path.labels kept
    (Q := fun l => ∀ service request run token,
      l = .call service (.createRun request) (.ok (.run run)) →
      request.confirmationToken = some token → ∃ w w', Confirms P w w' request run token)
    (fun i l i' inv h service request run token => h.1.named inv) initial.1.invariant
  have issued := path.labels kept
    (Q := fun l => ∀ issuer context version arguments nonce preflight,
      l = .call issuer (.preflight context version arguments nonce) (.ok (.preflight preflight)) →
      preflight.confirmationToken.payload.iat = wholeSeconds preflight.serverObservedAt ∧
        preflight.confirmationToken.payload.exp = ceilSeconds
          (preflight.serverObservedAt + seconds limits.confirmationTtlSeconds))
    (by
      rintro i l i' inv ⟨⟨step, -⟩, -⟩ issuer context version arguments nonce preflight rfl
      obtain ⟨-, -, -, -, iat, exp⟩ := step.issues
      exact ⟨iat, exp⟩) initial.1.invariant
  intro service request run token mem hsome
  obtain ⟨w, w', confirms⟩ := named _ mem service request run token rfl hsome
  refine ⟨⟨confirms.workspaceId, confirms.actorUserId, confirms.capabilityId,
    confirms.capabilityVersionId, confirms.connectionId, confirms.connectionVersionId⟩, ?_, ?_⟩
  · intro hnew
    obtain ⟨digest, after, before, -⟩ := confirms.created hnew
    exact ⟨digest, after, before⟩
  · rintro issuer context version arguments nonce preflight mem rfl hnew
    obtain ⟨iat, exp⟩ := issued _ mem issuer context version arguments nonce preflight rfl
    obtain ⟨-, after, before, -⟩ := confirms.created hnew
    rw [iat] at after
    rw [exp] at before
    exact ⟨after, before⟩

end Tokens

/-! ## A token that outlives its row -/

/-- The issuance after a call that nothing is held from and that no time passes after. -/
def Issuance.after (P : Platform) (service : ExecutionService) (ticks : List Nat) (call : Call)
    (i : Issuance) : Issuance :=
  ⟨i.world.after P service ticks call, (i.world.label P service ticks call).issued ++ i.issued⟩

theorem Issuance.step_after (P : Platform) (service : ExecutionService) (ticks : List Nat)
    (call : Call) (i : Issuance) (fresh : ∀ id ∈ call.draws, id ∉ i.world.drawn)
    (freshNonce : ∀ n ∈ call.nonces, n ∉ i.world.nonces)
    (honest : (i.world.label P service ticks call).presented.all (· ∈ i.issued) = true) :
    i.Step P service.limits (i.world.label P service ticks call) (i.after P service ticks call) :=
  .mk (i.world.step_after P service ticks call fresh freshNonce) fun token presented => by
    rw [presented] at honest
    simpa using honest

namespace Sample

def asks (nonce : String) : Call := .preflight context 7 (.obj []) nonce

/-- The token that a preflight issues one second before the retention of a run that ended at
time zero is over. -/
def lateToken : ConfirmationToken :=
  ⟨"v1", List.replicate 32 7, ⟨tokenIssuer, tokenAudience, 7775999, 7776119, "m", 1, 2, 7, 6, 3, 4,
    "x", runRoute⟩⟩

/-- The request once more, with the late token. -/
def lateRequest : RunRequest :=
  { request with confirmationToken := some lateToken, runId := 200, traceId := 201, jobId := 202 }

/-- Another request with the late token. -/
def otherRequest : RunRequest :=
  { request with confirmationToken := some lateToken, idempotencyKey := "j", runId := 300,
                 traceId := 301, jobId := 302 }

def issuance : Issuance := ⟨installed, []⟩
def asked : Issuance := issuance.after platform service [] (asks "n")
def created : Issuance := asked.after platform service [] (.createRun request)
def cancelled : Issuance := created.after platform service [] (.cancelRun context 100 103)
def askedLate : Issuance := cancelled.after platform service [7775999000000] (asks "m")
def replayedLate : Issuance := askedLate.after platform service [] (.createRun lateRequest)
def deletedLate : Issuance :=
  replayedLate.after platform service [2000000] (.deleteExpiredRunMetadata 10)
def createdLate : Issuance := deletedLate.after platform service [] (.createRun otherRequest)

def lateLabels : List Label :=
  [issuance.world.label platform service [] (asks "n"),
    asked.world.label platform service [] (.createRun request),
    created.world.label platform service [] (.cancelRun context 100 103),
    cancelled.world.label platform service [7775999000000] (asks "m"),
    askedLate.world.label platform service [] (.createRun lateRequest),
    replayedLate.world.label platform service [2000000] (.deleteExpiredRunMetadata 10),
    deletedLate.world.label platform service [] (.createRun otherRequest)]

theorem safe_of_keeps {i i' : Issuance} {l : Label} (h : i.Step platform .default l i')
    (keeps : l.deletes = false) : i.SafeStep platform .default l i' :=
  ⟨h, fun deletes => by simp [keeps] at deletes⟩

theorem cancels :
    Path (Issuance.SafeStep platform .default) issuance (lateLabels.take 3) cancelled :=
  .snoc (.snoc (.snoc (.nil _)
    (safe_of_keeps (Issuance.step_after platform service [] (asks "n") issuance
      (by simp [asks, Call.draws]) (fun _ _ => List.not_mem_nil) rfl) rfl))
    (safe_of_keeps (Issuance.step_after platform service [] (.createRun request) asked
      (fun _ _ => List.not_mem_nil) (by simp [Call.nonces]) (by decide +kernel)) rfl))
    (safe_of_keeps (Issuance.step_after platform service [] (.cancelRun context 100 103) created
      (by simp [Call.draws]) (by simp [Call.nonces]) rfl) rfl)

theorem lateRequest_fresh : ∀ id ∈ [lateRequest.runId, lateRequest.jobId],
    id ∉ [request.runId, request.jobId] := by simp [lateRequest, request]

theorem otherRequest_fresh : ∀ id ∈ [otherRequest.runId, otherRequest.jobId],
    id ∉ [lateRequest.runId, lateRequest.jobId, request.runId, request.jobId] := by
  simp [otherRequest, lateRequest, request]

theorem createsLate :
    Path (Issuance.Step platform .default) issuance lateLabels createdLate := by
  have asksLate := Issuance.step_after platform service [7775999000000] (asks "m") cancelled
    (by simp [asks, Call.draws]) (by simp [asks, Call.nonces, cancelled, created, asked, issuance,
      Issuance.after, World.after, installed]) rfl
  have replaysLate := Issuance.step_after platform service [] (.createRun lateRequest) askedLate
    lateRequest_fresh (by simp [Call.nonces]) (by decide +kernel)
  have deletesLate := Issuance.step_after platform service [2000000]
    (.deleteExpiredRunMetadata 10) replayedLate (by simp [Call.draws]) (by simp [Call.nonces]) rfl
  have createsLate := Issuance.step_after platform service [] (.createRun otherRequest) deletedLate
    otherRequest_fresh (by simp [Call.nonces]) (by decide +kernel)
  have cancels := cancels.mono fun _ _ _ h => h.1
  exact (((cancels.snoc asksLate).snoc replaysLate).snoc deletesLate).snoc createsLate

/-- The sample run, cancelled at time zero and deleted when its retention is over. -/
def deletedInTime : Issuance :=
  cancelled.after platform service [7776000000000] (.deleteExpiredRunMetadata 10)

end Sample

/-- The token of a late replay is forgotten together with the run it was attached to, and
creates a run under another key. -/
theorem replayed_token_creates_run :
    Function.Injective Sample.platform.sha256 ∧ Sample.issuance.Initial ∧
      Path (Issuance.Step Sample.platform .default) Sample.issuance Sample.lateLabels
        Sample.createdLate ∧
      ¬ Sample.lateLabels.Pairwise fun earlier later => ∀ token,
        earlier.presented = some token → later.spent ≠ some token := by
  refine ⟨fun _ _ h => h, ⟨Sample.installed_initial, rfl⟩, Sample.createsLate, fun all => ?_⟩
  have presented : (Sample.askedLate.world.label Sample.platform Sample.service []
      (.createRun Sample.lateRequest)).presented = some Sample.lateToken := by decide +kernel
  have spent : (Sample.deletedLate.world.label Sample.platform Sample.service []
      (.createRun Sample.otherRequest)).spent = some Sample.lateToken := by decide +kernel
  simp only [Sample.lateLabels, List.pairwise_cons] at all
  exact all.2.2.2.2.1 _ (by simp) _ presented spent

theorem token_creates_one_run_sample :
    (Sample.asked.world.label Sample.platform Sample.service []
        (.createRun Sample.request)).spent = some (Sample.token "n") ∧
      (Sample.lateLabels.take 3 ++ [Sample.cancelled.world.label Sample.platform Sample.service
        [7776000000000] (.deleteExpiredRunMetadata 10)]).Pairwise fun earlier later =>
          ∀ token, earlier.presented = some token → later.spent ≠ some token := by
  have step := Issuance.step_after Sample.platform Sample.service [7776000000000]
    (.deleteExpiredRunMetadata 10) Sample.cancelled (by simp [Call.draws]) (by simp [Call.nonces])
    rfl
  have expired : ∀ nonce ∈ Sample.cancelled.world.store.nonces,
      nonce.expiresAt ≤ Sample.deletedInTime.world.clock := by decide +kernel
  refine ⟨by decide +kernel, ?_⟩
  exact (token_creates_one_run (fun _ _ h => h) ⟨Sample.installed_initial, rfl⟩
    (Sample.cancels.snoc ⟨step, fun _ _ _ _ _ _ nonce mem _ _ => expired nonce mem⟩)).1

end Modall
