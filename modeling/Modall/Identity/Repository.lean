import Modall.Persistence.Session

/-!
# Current-membership authorization

`require_current_role` of `modall/identity/repository.py`. When it serializes on the
workspace it takes the workspace row lock, and the transactions it waits for commit first.
-/
namespace Modall
open Library

/-- `AuthorizationDenied("workspace access denied")`. -/
def accessDenied : Failure := .authorizationDenied "workspace access denied"

def requireRole (context : WorkspaceContext) (roles : List Role) : Tx Unit :=
  raiseIf (context.role ∉ roles) accessDenied

/-- The membership test of `require_current_role`. -/
def currentRole (store : Store) (context : WorkspaceContext) (roles : List Role) : Bool :=
  match store.registry.memberships.find? fun m =>
      m.workspaceId == context.workspaceId && m.userId == context.actorUserId with
  | none => false
  | some membership => roles.contains membership.role

/-- Wait for the workspace row lock. -/
def lockWorkspace (workspaceId : Uuid) : Tx Unit := do
  othersCommit
  let workspace ← selectRow (·.registry.workspaces) (· == workspaceId)
  raiseIf (workspace = none) accessDenied

def requireCurrentRole (context : WorkspaceContext) (roles : List Role)
    (serializeWorkspace : Bool) : Tx Unit := do
  requireRole context roles
  runIf serializeWorkspace (lockWorkspace context.workspaceId)
  let allowed ← query fun s => currentRole s.rows context roles
  raiseIf (allowed = false) accessDenied

theorem Reads.lockWorkspace (workspaceId : Uuid) : Reads (lockWorkspace workspaceId) :=
  .bind .othersCommit fun _ => .bind (.selectRow _ _) fun _ => .raiseIf _ _

theorem Reads.requireCurrentRole (context : WorkspaceContext) (roles : List Role)
    (serialize : Bool) : Reads (requireCurrentRole context roles serialize) :=
  .bind (.raiseIf _ _) fun _ => .bind (.runIf _ (.lockWorkspace _)) fun _ =>
    .bind (.query _) fun _ => .raiseIf _ _

end Modall
