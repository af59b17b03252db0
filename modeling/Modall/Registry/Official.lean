import Modall.Identity.Repository
import Modall.Registry.OfficialItems

/-!
# Imports from the official registry

`OfficialRegistryService.import_cached`: a cached search result is validated again, one of its items
is picked by its digest, and the item becomes the next version of its entry unless the entry has that
digest already. The calls of one workspace are serialized by its row lock, so a call runs on the rows
committed before it.

Every awaited statement may fail or run into the time limit; `verdicts` says which do. The calls of
`uuid4` are part of the call's arguments. A failed call rolls back, and the callbacks it registered
then delete the caches it rejected.
-/
namespace Modall.Registry.Official

open Library Library.Json

inductive RegistrySource where
  | manual | official
deriving DecidableEq

structure RegistryEntry where
  id : Uuid
  workspaceId : Uuid
  source : RegistrySource
  externalId : Option Text
  currentVersionId : Option Uuid
deriving DecidableEq

structure RegistryEntryVersion where
  id : Uuid
  workspaceId : Uuid
  registryEntryId : Uuid
  sequence : Nat
  name : Text
  description : Option Text
  provenanceDigest : Text
  sourceVersion : Option Text
  sourceUri : Option Text
  normalizedMetadata : Option Value
  importedByUserId : Option Uuid

/-- A row of `registry_search_cache`; the table's check constraint leaves one provider. -/
structure RegistrySearchCache where
  id : Uuid
  workspaceId : Uuid
  queryDigest : Text
  responseDigest : Text
  normalizedResults : Value
  resultCount : Nat
  byteCount : Nat
  fetchedAt : Time
  expiresAt : Time

/-- The tables the service reads and writes: its own, and those of the platform, which hold the
memberships and the audit trail. -/
structure Catalogue where
  platform : Store
  entries : List RegistryEntry
  versions : List RegistryEntryVersion
  caches : List RegistrySearchCache

namespace Catalogue

def addEntry (c : Catalogue) (entry : RegistryEntry) : Catalogue :=
  { c with entries := c.entries ++ [entry] }

def addVersion (c : Catalogue) (version : RegistryEntryVersion) : Catalogue :=
  { c with versions := c.versions ++ [version] }

def addAudit (c : Catalogue) (event : AuditEvent) : Catalogue :=
  { c with platform := c.platform.addAudit event }

def setCurrent (c : Catalogue) (entryId versionId : Uuid) : Catalogue :=
  let point (entry : RegistryEntry) := { entry with currentVersionId := some versionId }
  { c with entries := updateWhere (fun entry => entry.id == entryId) point c.entries }

def deleteCaches (c : Catalogue) (p : RegistrySearchCache → Bool) : Catalogue :=
  { c with caches := c.caches.filter fun cache => !p cache }

/-- The versions of an entry, oldest first. -/
def versionsOf (c : Catalogue) (entryId : Uuid) : List RegistryEntryVersion :=
  c.versions.filter fun version => version.registryEntryId == entryId

/-- No table has two rows under one primary key. -/
def KeysUnique (c : Catalogue) : Prop :=
  (c.entries.map (·.id)).Nodup ∧ (c.versions.map (·.id)).Nodup

instance (c : Catalogue) : Decidable c.KeysUnique := inferInstanceAs (Decidable (_ ∧ _))

end Catalogue

/-- How an awaited statement ends. -/
inductive Verdict where
  | answers | databaseError | timesOut
deriving DecidableEq

inductive ImportFailure where
  | registry (code : OfficialRegistryFailureCode)
  | service (failure : Failure)
  | sqlAlchemyError
deriving DecidableEq

structure ImportSession where
  rows : Catalogue
  objects : Catalogue
  clock : Time
  /-- What the service's clock will say at its further readings. -/
  readings : List Time
  verdicts : List Verdict
  /-- The caches the callbacks registered for a rollback will delete. -/
  rejected : List (Uuid × Uuid)

namespace ImportSession

def begin (catalogue : Catalogue) (clock : Time) (readings : List Time) (verdicts : List Verdict) :
    ImportSession := ⟨catalogue, catalogue, clock, readings, verdicts, []⟩

end ImportSession

abbrev Import := EStateM ImportFailure ImportSession

def utcNow : Import Time := fun s =>
  match s.readings with
  | [] => .ok s.clock s
  | now :: readings => .ok now { s with clock := now, readings := readings }

def verdict : Import Verdict := fun s =>
  match s.verdicts with
  | [] => .ok .answers s
  | v :: verdicts => .ok v { s with verdicts := verdicts }

/-- Await a statement; a database error is raised as `failure`. -/
def statement {α : Type} (failure : ImportFailure) (x : Import α) : Import α := do
  match ← verdict with
  | .answers => x
  | .databaseError => throw failure
  | .timesOut => throw (.registry .timeout)

def assignObjects (f : Catalogue → Catalogue) : Import Unit :=
  change fun s => { s with objects := f s.objects }

/-- Write the mapped objects out. A second row under a primary key is refused. -/
def flushObjects (failure : ImportFailure) : Import Unit := statement failure do
  let unique ← query fun s => decide s.objects.KeysUnique
  raiseIf (unique = false) failure
  change fun s => { s with rows := s.objects }

def deleteNow (p : RegistrySearchCache → Bool) : Import Unit :=
  change fun s => { s with rows := s.rows.deleteCaches p, objects := s.objects.deleteCaches p }

/-- `require_current_role` with the workspace row locked. -/
def requireImporter (context : WorkspaceContext) : Import Unit := fun s =>
  match requireCurrentRole context [.admin, .operator] true
      (Session.begin s.rows.platform s.clock [] [] []) with
  | .ok _ _ => .ok () s
  | .error failure _ => .error (.service failure) s

/-- `_purge_expired_workspace_cache` under all of the limits. -/
def purgeExpiredWorkspaceCache (limits : OfficialRegistryLimits) (workspaceId : Uuid) (now : Time) :
    Import Unit :=
  deleteNow fun cache => cache.workspaceId == workspaceId &&
    (decide (cache.expiresAt ≤ now) || decide (cache.fetchedAt ≤ now - limits.cacheTtl) ||
      decide (limits.maxResponseBytes < cache.byteCount) ||
      decide (limits.maxItems < cache.resultCount))

/-- `_purge_rejected_cache`. -/
def purgeRejectedCache (workspaceId : Uuid) (cache : RegistrySearchCache) : Import Unit := do
  change fun s => { s with rejected := s.rejected ++ [(cache.id, workspaceId)] }
  assignObjects (·.deleteCaches fun other => other.id == cache.id)
  flushObjects .sqlAlchemyError

/-- `_require_fresh_cache`. -/
def requireFreshCache (limits : OfficialRegistryLimits) (cache : RegistrySearchCache) :
    Import Unit := do
  let validatedAt ← utcNow
  raiseIf (cache.expiresAt ≤ validatedAt ∨ cache.fetchedAt ≤ validatedAt - limits.cacheTtl)
    (.registry .cacheMiss)

/-- The arguments of a call, what its calls of `uuid4` return and what the scanner process answers. -/
structure ImportCall where
  context : WorkspaceContext
  cacheId : Uuid
  provenanceDigest : Text
  correlationId : Option Uuid
  entryId : Uuid
  versionId : Uuid
  newCorrelationId : Uuid
  scan : Value → Except OfficialRegistryFailureCode Bool

section importCached
variable (P : OfficialPlatform) (limits : OfficialRegistryLimits)

/-- `OFFICIAL_REGISTRY_SERVERS_URL`. -/
def officialRegistryServersUrl : Text :=
  text "https://registry.modelcontextprotocol.io/v0.1/servers"

/-- The checks of the cached row that come before its items are parsed. -/
def requireCache (cache : Option RegistrySearchCache) :
    Except OfficialRegistryFailureCode RegistrySearchCache :=
  match cache with
  | none => .error .cacheMiss
  | some cache => do
    let encoded ← canonicalJson P cache.normalizedResults
    if encoded.length ≠ cache.byteCount then throw .cacheMiss
    if (← digest P cache.normalizedResults) ≠ cache.responseDigest then throw .cacheMiss
    return cache

/-- `_import_cached_authorized` up to the choice of the item. -/
def selectItem (call : ImportCall) : Import (RegistrySearchCache × OfficialRegistryItem) := do
  let workspaceId := call.context.workspaceId
  statement .sqlAlchemyError (requireImporter call.context)
  raiseIf (call.provenanceDigest.length ≠ 64 ∨
    call.provenanceDigest.any fun c => !Text.among "0123456789abcdef" c) (.registry .cacheMiss)
  let now ← utcNow
  statement .sqlAlchemyError (purgeExpiredWorkspaceCache limits workspaceId now)
  let found ← statement .sqlAlchemyError (query fun s => s.rows.caches.find? fun cache =>
    cache.id == call.cacheId && cache.workspaceId == workspaceId &&
      decide (now < cache.expiresAt) && decide (now - limits.cacheTtl < cache.fetchedAt) &&
      decide (cache.byteCount ≤ limits.maxResponseBytes))
  let cache ← lift ((requireCache P found).mapError .registry)
  match ← statement .sqlAlchemyError
      (pure (parseCachedItems P limits call.scan cache.normalizedResults)) with
  | .error code => do
    purgeRejectedCache workspaceId cache
    throw (.registry code)
  | .ok items => do
    requireFreshCache limits cache
    match items.find? fun candidate => candidate.provenanceDigest == call.provenanceDigest with
    | none => throw (.registry .cacheMiss)
    | some item => return (cache, item)

/-- The entry for the item, and whether it is new. -/
def entryFor (call : ImportCall) (item : OfficialRegistryItem) : Import (RegistryEntry × Bool) := do
  let workspaceId := call.context.workspaceId
  let found ← statement (.registry .persistenceFailure) (query fun s =>
    s.rows.entries.find? fun entry => entry.workspaceId == workspaceId &&
      decide (entry.source = .official) && entry.externalId == some item.externalId)
  match found with
  | some entry => return (entry, false)
  | none => return (⟨call.entryId, workspaceId, .official, some item.externalId, none⟩, true)

/-- `(max(sequence) or 0) + 1` over the entry's versions; a new entry starts at one. -/
def nextSequence (entry : RegistryEntry) (isNew : Bool) : Import Nat :=
  if isNew then pure 1
  else statement (.registry .persistenceFailure) (query fun s =>
    maximum ((s.rows.versionsOf entry.id).map (·.sequence)) + 1)

def importAudit (call : ImportCall) (entry : RegistryEntry) : AuditEvent where
  workspaceId := call.context.workspaceId
  actorUserId := call.context.actorUserId
  action := .registryEntryImported
  resourceType := .registryEntry
  resourceId := entry.id
  correlationId := call.correlationId.getD call.newCorrelationId

/-- The rest of `_import_cached_authorized`: the version the entry has, or a new one. -/
def importItem (call : ImportCall) (cache : RegistrySearchCache) (item : OfficialRegistryItem) :
    Import RegistryEntryVersion := do
  let (entry, isNew) ← entryFor call item
  let existing ← statement (.registry .persistenceFailure) (query fun s =>
    s.rows.versions.find? fun version => version.registryEntryId == entry.id &&
      version.provenanceDigest == item.provenanceDigest)
  match existing with
  | some version => do
    requireFreshCache limits cache
    return version
  | none => do
    let sequence ← nextSequence entry isNew
    requireFreshCache limits cache
    runIf isNew (assignObjects (·.addEntry entry))
    let version : RegistryEntryVersion := {
      id := call.versionId
      workspaceId := call.context.workspaceId
      registryEntryId := entry.id
      sequence := sequence
      name := item.name
      description := item.description
      provenanceDigest := item.provenanceDigest
      sourceVersion := some item.sourceVersion
      sourceUri := some officialRegistryServersUrl
      normalizedMetadata := some item.normalizedMetadata
      importedByUserId := some call.context.actorUserId }
    assignObjects (·.addVersion version)
    flushObjects (.registry .persistenceFailure)
    assignObjects (·.setCurrent entry.id version.id)
    assignObjects (·.addAudit (importAudit call entry))
    flushObjects .sqlAlchemyError
    return version

def importCachedAuthorized (call : ImportCall) : Import RegistryEntryVersion := do
  let (cache, item) ← selectItem P limits call
  importItem limits call cache item

/-- What a call leaves behind. -/
structure ImportOutcome where
  result : Except ImportFailure RegistryEntryVersion
  catalogue : Catalogue

/-- The callbacks of a rollback, one transaction each. -/
def cleanUp : List (Uuid × Uuid) → List Verdict → Catalogue → Catalogue
  | [], _, c => c
  | (cacheId, workspaceId) :: rejected, verdicts, c =>
    cleanUp rejected verdicts.tail
      (if verdicts.head?.getD .answers = .answers then
        c.deleteCaches fun cache => cache.id == cacheId && cache.workspaceId == workspaceId
      else c)

/-- `import_cached` in a transaction of its own. The last verdict it meets is the commit's. -/
def importCached (call : ImportCall) (session : ImportSession) : ImportOutcome :=
  match importCachedAuthorized P limits call session with
  | .ok version s =>
    if s.verdicts.head?.getD .answers = .answers then ⟨.ok version, s.objects⟩
    else ⟨.error .sqlAlchemyError, cleanUp s.rejected s.verdicts.tail session.rows⟩
  | .error failure s => ⟨.error failure, cleanUp s.rejected s.verdicts session.rows⟩

end importCached

end Modall.Registry.Official
