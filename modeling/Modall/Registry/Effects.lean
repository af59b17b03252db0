import Modall.Registry.Publication

/-!
# What an operation does to the registry

`Registry.Effect` lists the changes the operations of the registry services make, once for all
sixteen of them, and the invariants follow from it by cases: the capabilities stay in order under
every operation, and the refresh jobs, the snapshots and what is offered by them do as long as
the steps of an allocation are only taken inside `enqueue` and `publish_success`.
-/
namespace Modall
open Library

namespace Registry

/-- An enabled capability of an active connection is offered by its current snapshot, under its
verified version. -/
def Covered (r : Registry) : Prop :=
  ∀ connection ∈ r.connections, connection.lifecycle = .active →
    ∀ c ∈ r.capabilities, c.connectionId = connection.id → c.status = .enabled →
      ∃ versionId snapshotId, connection.verifiedVersionId = some versionId ∧
        connection.currentSnapshotId = some snapshotId ∧ r.Offers c versionId snapshotId

/-- A reviewer's change of a capability. -/
structure Reviews (R : RegistryPlatform) (decision : Decision) (c c' : Capability)
    (event : CapabilityStatusEvent) (r : Registry) : Prop where
  mem : c ∈ r.capabilities
  succeeds : c'.Succeeds c
  logs : event.Logs c'
  step : Dossier.Step R (some decision) (r.dossier c.id) ((r.dossier c.id).move c' event)
  offers : c'.status = .enabled → ∀ connection ∈ r.connections, connection.id = c.connectionId →
    ∃ versionId snapshotId, connection.verifiedVersionId = some versionId ∧
      connection.currentSnapshotId = some snapshotId ∧ r.Offers c' versionId snapshotId

/-- What an operation may do, with the identifiers it may use and the decision it stands for.
`standalone` tells whether the steps of an allocation were taken on their own. -/
inductive Effect (R : RegistryPlatform) (drawn : List Uuid) (r : Registry) :
    (standalone : Bool) → Option (Uuid × Decision) → Registry → Prop where
  /-- Nothing but the identity tables changes, which the registry services only read. -/
  | identity {standalone workspaces memberships secretBindings} :
      Effect R drawn r standalone none { r with workspaces, memberships, secretBindings }
  | create {standalone c version} : c.id ∈ drawn → c.allocatedControlEpoch = none →
      c.allocatedTargetVersionId = none → c.lifecycle = .verifying → c.currentSnapshotId = none →
      Effect R drawn r standalone none ((r.addConnection c).addConnectionVersion version)
  | refresh {standalone r'} (id : Uuid) : r.KeepsCatalogue r' →
      (r.Docketed → (∀ id ∈ drawn, id ∉ r.refreshJobs.map DiscoveryRefreshJob.id) →
        r.Turns drawn id r') →
      Effect R drawn r standalone none r'
  | allocation {r'} : r.KeepsCatalogue r' → Effect R drawn r true none r'
  | review {standalone c c' event decision} : Reviews R decision c c' event r →
      Effect R drawn r standalone (some (c.id, decision)) (r.moveCapability c' event)
  | publish {standalone context lease result drawn' snapshot c job now r₁ r₂ r'} : snapshot.id ∈ drawn →
      (∀ id ∈ drawn', id ∈ drawn) →
      r.Publishes R context lease result drawn' snapshot c job now r₁ r₂ r' →
      Effect R drawn r standalone none r'

/-- The decision an operation takes about a capability. -/
def decisionAt (decision : Option (Uuid × Decision)) (k : Uuid) : Option Decision :=
  decision.bind fun d => if d.1 = k then some d.2 else none

/-- The snapshots that rows belong to have drawn their identifiers. -/
def Noted (r : Registry) (drawn : List Uuid) : Prop :=
  ∀ row ∈ r.snapshotCapabilities, row.snapshotId ∈ drawn

/-- The connections, capabilities and versions have drawn their identifiers. -/
structure Named (r : Registry) (drawn : List Uuid) : Prop where
  connections : ∀ c ∈ r.connections, c.id ∈ drawn
  capabilities : ∀ c ∈ r.capabilities, c.id ∈ drawn
  versions : ∀ v ∈ r.capabilityVersions, v.id ∈ drawn

/-! ## Capabilities -/

section Catalogue
variable {R : RegistryPlatform} {r r' r₁ r₂ : Registry} {drawn drawn' : List Uuid}
  {standalone : Bool} {decision : Option (Uuid × Decision)} {context : WorkspaceContext}
  {lease : RefreshLease} {result : DiscoveryResult} {snapshot : DiscoverySnapshot} {c : ServerConnection}
  {job : DiscoveryRefreshJob} {now : Time}

theorem KeepsCatalogue.dossier (h : r.KeepsCatalogue r') (k : Uuid) :
    r'.dossier k = r.dossier k := by
  simp only [Registry.dossier, h.capabilities, h.capabilityVersions, h.bindings, h.statusEvents]

theorem ids_of_owners (h : r'.owners = r.owners) :
    r'.connections.map ServerConnection.id = r.connections.map ServerConnection.id := by
  simpa [owners, Function.comp_def] using congrArg (List.map Prod.fst) h

theorem KeepsCatalogue.catalogued (h : r.KeepsCatalogue r') (catalogued : r.Catalogued R) :
    r'.Catalogued R where
  dossiers k := by
    rw [h.dossier]
    exact catalogued.dossiers k
  versions := h.capabilityVersions ▸ catalogued.versions
  identities := h.capabilities ▸ catalogued.identities
  owned := by
    rw [h.capabilities, h.owners]
    exact catalogued.owned
  connections := ids_of_owners h.owners ▸ catalogued.connections

/-- The connection and the job of a publication are written beside its capabilities. -/
theorem Publishes.keeps (h : r.Publishes R context lease result drawn' snapshot c job now r₁ r₂ r') :
    r₂.KeepsCatalogue r' := by
  have survey := h.surveys
  have mem : c ∈ r₂.connections := by
    obtain ⟨payloads, begun⟩ := h.begun
    rw [survey.discovers.frame, begun]
    exact h.located.mem
  have owners : (r₂.setConnection c.id fun _ =>
      c.published lease.connectionVersionId snapshot.id now).owners = r₂.owners :=
    owners_setConnection survey.catalogued.connections mem rfl rfl
  rw [h.ended]
  exact ⟨rfl, rfl, rfl, rfl, rfl, owners⟩

theorem Publishes.begins (h : r.Publishes R context lease result drawn' snapshot c job now r₁ r₂ r') :
    r.KeepsCatalogue r₁ := by
  obtain ⟨payloads, rfl⟩ := h.begun
  exact ⟨rfl, rfl, rfl, rfl, rfl, rfl⟩

/-- Every operation keeps the capabilities in order. -/
theorem Effect.catalogued (effect : Effect R drawn r standalone decision r')
    (h : r.Catalogued R) (named : r.Named drawn') (fresh : ∀ id ∈ drawn, id ∉ drawn') :
    r'.Catalogued R := by
  cases effect with
  | identity => exact { h with }
  | @create _ c version hid =>
    refine { h with owned := fun row mem => ?_, connections := ?_ }
    · exact List.mem_map.mpr (by
        obtain ⟨owner, howner, heq⟩ := List.mem_map.mp (h.owned row mem)
        exact ⟨owner, List.mem_append_left _ howner, heq⟩)
    · change ((r.connections ++ [c]).map ServerConnection.id).Nodup
      rw [List.map_append]
      refine h.connections.append (List.nodup_singleton _) ?_
      rw [List.map_singleton, List.disjoint_singleton]
      intro known
      obtain ⟨old, hold, same⟩ := List.mem_map.mp known
      exact fresh _ hid (same ▸ named.connections old hold)
  | refresh _ keeps => exact keeps.catalogued h
  | allocation keeps => exact keeps.catalogued h
  | review reviews => exact h.move reviews.mem reviews.succeeds reviews.logs reviews.step
  | publish _ _ publishes => exact publishes.keeps.catalogued publishes.surveys.catalogued

/-- What an operation does to each capability, and that a decision is only about its own. -/
theorem Effect.moves (effect : Effect R drawn r standalone decision r') (k : Uuid) :
    Dossier.Moves R (decisionAt decision k) (r.dossier k) (r'.dossier k) := by
  cases effect with
  | identity => exact .refl
  | create => exact .refl
  | refresh _ keeps | allocation keeps =>
    rw [keeps.dossier]
    exact .refl
  | @review _ c c' event decision reviews =>
    obtain ⟨self, other⟩ := dossier_move reviews.succeeds reviews.logs reviews.step
    by_cases hk : c.id = k
    · subst hk
      simp only [decisionAt, Option.bind_some, if_true]
      exact self
    · simp only [decisionAt, Option.bind_some, hk, if_false]
      rw [other k (Ne.symm hk)]
      exact .refl
  | publish _ _ publishes =>
    rw [publishes.keeps.dossier, ← publishes.begins.dossier]
    exact publishes.surveys.discovers.dossiers k

/-- A publication adds rows of its own snapshot, and nothing else does. -/
theorem Effect.noted (effect : Effect R drawn r standalone decision r') (noted : r.Noted drawn') :
    r'.Noted (drawn ++ drawn') := by
  have old : r.Noted (drawn ++ drawn') := fun row mem => List.mem_append_right _ (noted row mem)
  cases effect with
  | identity | create | review => exact old
  | refresh _ keeps | allocation keeps =>
    unfold Noted
    rw [keeps.snapshotCapabilities]
    exact old
  | publish hid _ publishes =>
    obtain ⟨rows, added, own, -⟩ := publishes.surveys.lists
    intro row mem
    rw [publishes.keeps.snapshotCapabilities, added, publishes.begins.snapshotCapabilities] at mem
    rcases List.mem_append.mp mem with before | new
    · exact old row before
    · rw [own row new]
      exact List.mem_append_left _ hid

theorem KeepsCatalogue.named (h : r.KeepsCatalogue r') (named : r.Named drawn) :
    r'.Named drawn where
  connections c mem := by
    have known : c.id ∈ r'.connections.map ServerConnection.id := List.mem_map_of_mem mem
    rw [ids_of_owners h.owners] at known
    obtain ⟨old, hold, same⟩ := List.mem_map.mp known
    exact same ▸ named.connections old hold
  capabilities := h.capabilities ▸ named.capabilities
  versions := h.capabilityVersions ▸ named.versions

theorem Named.mono (named : r.Named drawn) (more : ∀ id ∈ drawn, id ∈ drawn') :
    r.Named drawn' where
  connections c mem := more _ (named.connections c mem)
  capabilities c mem := more _ (named.capabilities c mem)
  versions v mem := more _ (named.versions v mem)

theorem Effect.named (effect : Effect R drawn r standalone decision r') (named : r.Named drawn') :
    r'.Named (drawn ++ drawn') := by
  have old : r.Named (drawn ++ drawn') := named.mono fun _ h => List.mem_append_right _ h
  cases effect with
  | identity => exact { old with }
  | create hid =>
    refine { old with connections := fun row mem => ?_ }
    rcases List.mem_append.mp mem with before | new
    · exact old.connections row before
    · rw [List.mem_singleton.mp new]
      exact List.mem_append_left _ hid
  | refresh _ keeps => exact keeps.named old
  | allocation keeps => exact keeps.named old
  | review reviews =>
    refine { old with capabilities := fun row mem => ?_ }
    rcases (mem_moveCapability reviews.mem reviews.succeeds.id).mp mem with rfl | ⟨before, -⟩
    · rw [reviews.succeeds.id]
      exact old.capabilities _ reviews.mem
    · exact old.capabilities row before
  | publish _ more publishes =>
    have begun := publishes.begins.named old
    have discovers := publishes.surveys.discovers
    refine publishes.keeps.named ⟨fun c mem => ?_, fun c mem => ?_, fun v mem => ?_⟩
    · rw [discovers.frame] at mem
      exact begun.connections c mem
    · rcases discovers.capability c mem with new | before
      · exact List.mem_append_left _ (more _ new)
      · obtain ⟨c', mem', same⟩ := List.mem_map.mp before
        exact same ▸ begun.capabilities c' mem'
    · rcases discovers.version v mem with new | before
      · exact List.mem_append_left _ (more _ new)
      · obtain ⟨v', mem', same⟩ := List.mem_map.mp before
        exact same ▸ begun.versions v' mem'

end Catalogue

/-! ## Refreshes -/

/-- The refresh jobs and snapshots have drawn their identifiers. -/
structure Filed (r : Registry) (drawn : List Uuid) : Prop where
  jobs : ∀ job ∈ r.refreshJobs, job.id ∈ drawn
  snapshots : ∀ snapshot ∈ r.snapshots, snapshot.id ∈ drawn

section Refresh
variable {R : RegistryPlatform} {r r' r₁ r₂ : Registry} {drawn drawn' : List Uuid}
  {standalone : Bool} {decision : Option (Uuid × Decision)} {context : WorkspaceContext}
  {lease : RefreshLease} {result : DiscoveryResult} {snapshot : DiscoverySnapshot} {c : ServerConnection}
  {job : DiscoveryRefreshJob} {now : Time}

theorem Filed.unknown (filed : r.Filed drawn') (fresh : ∀ id ∈ drawn, id ∉ drawn') :
    ∀ id ∈ drawn, id ∉ r.refreshJobs.map DiscoveryRefreshJob.id := by
  intro id new known
  obtain ⟨job, mem, rfl⟩ := List.mem_map.mp known
  exact fresh _ new (filed.jobs job mem)

/-- What a lease says about the job it is for. -/
theorem leased_fields (h : job.leasedTo context lease = true) :
    job.id = lease.jobId ∧ job.status = .leased ∧ job.leaseEpoch = lease.leaseEpoch ∧
      job.connectionId = lease.connectionId ∧
      job.connectionVersionId = lease.connectionVersionId ∧
      job.generation = lease.generation := by
  simp only [DiscoveryRefreshJob.leasedTo, Bool.and_eq_true, beq_iff_eq] at h
  tauto

/-- The dockets after a publication. -/
theorem Publishes.docket (h : r.Publishes R context lease result drawn' snapshot c job now r₁ r₂ r')
    (docketed : r.Docketed) (k : Uuid) :
    r'.docket k = if k = c.id then (r.docket k).publish c job snapshot now else r.docket k := by
  obtain ⟨-, -, -, hconnection, hversion, -⟩ := leased_fields h.leased
  have own : job.connectionId = c.id := hconnection.trans h.located.id.symm
  obtain ⟨payloads, begun⟩ := h.begun
  have survey : r₂.docket k = r₁.docket k := by
    rw [h.surveys.discovers.frame]
    rfl
  have jobs : r₂.refreshJobs = r.refreshJobs := by
    rw [h.surveys.discovers.frame, begun]
    rfl
  have start : r₁.docket k =
      if k = c.id then (r.docket k).addSnapshot snapshot else r.docket k := by
    rw [begun, docket_addSnapshot, h.connectionId, h.located.id]
    rfl
  let r₃ := r₂.setConnection c.id fun _ =>
    c.published lease.connectionVersionId snapshot.id now
  have put : r₃.docket k = if k = c.id
      then (r₂.docket k).put (c.published lease.connectionVersionId snapshot.id now)
      else r₂.docket k := docket_setConnection c _ rfl
  have close := docket_setRefreshJob (r := r₃) (k := k) job (job.closed .succeeded)
    (jobs ▸ docketed.jobs) (jobs ▸ h.mem) rfl
  rw [h.ended, close, put, survey, start, own, ← hversion]
  split_ifs <;> rfl

theorem Publishes.jobs (h : r.Publishes R context lease result drawn' snapshot c job now r₁ r₂ r') :
    r'.refreshJobs.map DiscoveryRefreshJob.id = r.refreshJobs.map DiscoveryRefreshJob.id := by
  obtain ⟨payloads, begun⟩ := h.begun
  rw [h.ended, ids_setRefreshJob _ job (job.closed .succeeded) rfl]
  change r₂.refreshJobs.map _ = _
  rw [h.surveys.discovers.frame, begun]
  rfl

theorem Publishes.snapshots (h : r.Publishes R context lease result drawn' snapshot c job now r₁ r₂ r') :
    r'.snapshots = r.snapshots ++ [snapshot] := by
  obtain ⟨payloads, begun⟩ := h.begun
  rw [h.ended]
  change r₂.snapshots = _
  rw [h.surveys.discovers.frame, begun]
  rfl

/-- Every operation keeps the refreshes in order. -/
theorem Effect.advances (effect : Effect R drawn r false decision r') (h : r.Docketed)
    (named : r.Named drawn') (filed : r.Filed drawn') (fresh : ∀ id ∈ drawn, id ∉ drawn')
    (k : Uuid) : (r.docket k).Advances (r'.docket k) := by
  cases effect with
  | identity => exact .inl rfl
  | @create _ c version hid allocation target lifecycle current =>
    have new : r.docket c.id = .empty := by
      rcases h.valid c.id with none | ⟨old, valid⟩
      · exact none
      · obtain ⟨mem, same⟩ := of_docket valid
        exact (fresh _ hid (same ▸ named.connections old mem)).elim
    exact advances_addConnection new allocation target lifecycle current k
  | refresh _ _ turns => exact (turns h (filed.unknown fresh)).advances h k
  | review => exact .inl rfl
  | @publish _ _ lease _ _ snapshot c job now _ _ _ hid _ publishes =>
    rw [publishes.docket h]
    split_ifs with hk
    · subst hk
      have valid := h.of_mem publishes.located.mem
      obtain ⟨-, leased, -, hconnection, -, hgeneration⟩ := leased_fields publishes.leased
      have mine : job ∈ (r.docket c.id).jobs :=
        mem_docket_jobs.mpr ⟨publishes.mem, hconnection.trans publishes.located.id.symm⟩
      have unknown : snapshot.id ∉ (r.docket c.id).snapshots.map DiscoverySnapshot.id := by
        intro known
        obtain ⟨old, hold, same⟩ := List.mem_map.mp known
        exact fresh _ hid (same ▸ filed.snapshots old (mem_docket_snapshots.mp hold).1)
      obtain ⟨valid', continues⟩ := valid.publish now mine leased
        (publishes.generation.trans hgeneration.symm) unknown
      exact .inr (.inr ⟨c, _, valid, valid', continues⟩)
    · exact .inl rfl

theorem Effect.jobs (effect : Effect R drawn r false decision r') (h : r.Docketed)
    (unknown : ∀ id ∈ drawn, id ∉ r.refreshJobs.map DiscoveryRefreshJob.id) :
    (r'.refreshJobs.map DiscoveryRefreshJob.id).Nodup := by
  cases effect with
  | identity | create | review => exact h.jobs
  | refresh _ _ turns => exact (turns h unknown).jobs
  | publish _ _ publishes => exact publishes.jobs ▸ h.jobs

theorem Effect.docketed (effect : Effect R drawn r false decision r') (h : r.Docketed)
    (named : r.Named drawn') (filed : r.Filed drawn') (fresh : ∀ id ∈ drawn, id ∉ drawn') :
    r'.Docketed :=
  h.of_advances (effect.advances h named filed fresh) (effect.jobs h (filed.unknown fresh))

theorem Effect.filed (effect : Effect R drawn r false decision r') (h : r.Docketed)
    (filed : r.Filed drawn') (fresh : ∀ id ∈ drawn, id ∉ drawn') :
    r'.Filed (drawn ++ drawn') := by
  have old : r.Filed (drawn ++ drawn') :=
    ⟨fun job mem => List.mem_append_right _ (filed.jobs job mem),
      fun snapshot mem => List.mem_append_right _ (filed.snapshots snapshot mem)⟩
  cases effect with
  | identity | create | review => exact ⟨old.jobs, old.snapshots⟩
  | refresh _ _ turns =>
    have turns := turns h (filed.unknown fresh)
    refine ⟨fun job mem => ?_, turns.snapshots ▸ old.snapshots⟩
    rcases turns.known job mem with new | before
    · exact List.mem_append_left _ new
    · obtain ⟨job', mem', same⟩ := List.mem_map.mp before
      exact same ▸ old.jobs job' mem'
  | publish hid _ publishes =>
    constructor
    · intro job mem
      have known := List.mem_map_of_mem (f := DiscoveryRefreshJob.id) mem
      rw [publishes.jobs] at known
      obtain ⟨job', mem', same⟩ := List.mem_map.mp known
      exact same ▸ old.jobs job' mem'
    · intro row mem
      rw [publishes.snapshots] at mem
      rcases List.mem_append.mp mem with before | new
      · exact old.snapshots row before
      · rw [List.mem_singleton.mp new]
        exact List.mem_append_left _ hid

/-! ## What is offered -/

theorem Offers.of_keeps {capability : Capability} {versionId snapshotId : Uuid}
    (h : r.KeepsCatalogue r') (offers : r.Offers capability versionId snapshotId) :
    r'.Offers capability versionId snapshotId := by
  obtain ⟨id, enabled, ⟨binding, mem, bound⟩, row⟩ := offers
  exact ⟨id, enabled, ⟨binding, h.bindings ▸ mem, bound⟩, h.snapshotCapabilities ▸ row⟩

theorem Turns.covered {id : Uuid} (turns : r.Turns drawn id r') (h : r.Docketed)
    (covered : r.Covered) : r'.Covered := by
  intro connection mem active capability hc own status
  rw [turns.rest.capabilities] at hc
  have valid' := (turns.docketed h).of_mem mem
  -- Nothing but a publication makes a connection active.
  obtain ⟨before, there, hid, was, verified, current⟩ : ∃ before ∈ r.connections,
      before.id = connection.id ∧ before.lifecycle = .active ∧
      connection.verifiedVersionId = before.verifiedVersionId ∧
      connection.currentSnapshotId = before.currentSnapshotId := by
    by_cases same : connection.id = id
    · subst same
      rcases h.valid connection.id with none | ⟨before, valid⟩
      · exact (turns.step.ne_empty none).elim
      · obtain ⟨was, verified, current⟩ := turns.step.active valid valid' active
        obtain ⟨there, hid⟩ := of_docket valid
        exact ⟨before, there, hid, was, verified, current⟩
    · rw [turns.other _ same] at valid'
      exact ⟨connection, (of_docket valid').1, rfl, active, rfl, rfl⟩
  obtain ⟨versionId, snapshotId, hv, hs, offers⟩ :=
    covered before there was capability hc (own.trans hid.symm) status
  exact ⟨versionId, snapshotId, verified.trans hv, current.trans hs, offers.of_keeps turns.rest⟩

theorem Publishes.covered
    (h : r.Publishes R context lease result drawn' snapshot c job now r₁ r₂ r')
    (docketed : r.Docketed) (covered : r.Covered) : r'.Covered := by
  intro connection mem active capability hc own status
  rw [h.keeps.capabilities] at hc
  have mine : connection ∈ (r'.docket connection.id).connections :=
    mem_docket_connections.mpr ⟨mem, rfl⟩
  rw [h.docket docketed] at mine
  split_ifs at mine with same
  · -- The connection of the publication is offered everything by the new snapshot.
    have connections := (docketed.of_mem h.located.mem).connections
    rw [same] at mine
    simp only [Docket.publish, Docket.setJob, Docket.put, Docket.addSnapshot, connections,
      List.map_cons, List.map_nil, List.mem_singleton] at mine
    rw [mine]
    obtain ⟨-, -, -, -, hversion, -⟩ := leased_fields h.leased
    refine ⟨job.connectionVersionId, snapshot.id, rfl, rfl, ?_⟩
    rw [hversion]
    refine Offers.of_keeps h.keeps (h.surveys.offers capability hc ?_ status)
    rw [own, same, h.located.id]
    rfl
  · have elsewhere : capability.connectionId ≠ lease.connectionId := by
      rw [own, ← h.located.id]
      exact same
    have before := h.surveys.discovers.elsewhere capability hc elsewhere
    rw [h.begins.capabilities] at before
    obtain ⟨versionId, snapshotId, hv, hs, offers⟩ :=
      covered connection (mem_docket_connections.mp mine).1 active capability before own status
    exact ⟨versionId, snapshotId, hv, hs,
      ((offers.of_keeps h.begins).mono h.surveys.discovers).of_keeps h.keeps⟩

/-- Every operation keeps what is enabled within what is offered. -/
theorem Effect.covered (effect : Effect R drawn r false decision r') (h : r.Docketed)
    (unknown : ∀ id ∈ drawn, id ∉ r.refreshJobs.map DiscoveryRefreshJob.id)
    (covered : r.Covered) : r'.Covered := by
  cases effect with
  | identity => exact covered
  | create _ _ _ lifecycle _ =>
    intro connection mem active
    rcases List.mem_append.mp mem with old | new
    · exact covered connection old active
    · rw [List.mem_singleton.mp new, lifecycle] at active
      cases active
  | refresh _ _ turns => exact (turns h unknown).covered h covered
  | review reviews =>
    intro connection mem active capability hc own status
    rcases (mem_moveCapability reviews.mem reviews.succeeds.id).mp hc with rfl | ⟨old, -⟩
    · exact reviews.offers status connection mem (own.symm.trans reviews.succeeds.connectionId)
    · exact covered connection mem active capability old own status
  | publish _ _ publishes => exact publishes.covered h covered

end Refresh

end Registry

end Modall
