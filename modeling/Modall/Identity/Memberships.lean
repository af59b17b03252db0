import Modall.Identity.Repository
import Modall.Library.Serial

/-!
# The memberships of a workspace

`set_membership_role` of `modall/identity/service.py`. Every call locks the row of the workspace
before it reads who the members are, so however many calls run at once, each of them decides by what
the one before it has committed. `create_workspace` leaves one member behind, its owner.
-/
namespace Modall.Identity

open Library Library.Transactions Library.Transactions.Script

/-- `AuditEvent.succeeded` for `MEMBERSHIP_CHANGED`. -/
structure MembershipChanged where
  id : Uuid
  workspaceId : Uuid
  actorUserId : Uuid
  resourceId : Uuid
  correlationId : Uuid
deriving DecidableEq

/-- A row of one of the two tables that `set_membership_role` writes. -/
inductive MemberRow where
  | membership (membership : WorkspaceMembership)
  | audit (event : MembershipChanged)
deriving DecidableEq

/-- Their primary keys. -/
inductive MemberKey where
  | membership (workspaceId userId : Uuid)
  | audit (id : Uuid)
deriving DecidableEq

def MemberRow.key : MemberRow → MemberKey
  | .membership m => .membership m.workspaceId m.userId
  | .audit event => .audit event.id

abbrev MemberScript := Script MemberRow Time Failure

def membershipOf : MemberRow → Option WorkspaceMembership
  | .membership m => some m
  | .audit _ => none

def memberships (rows : List MemberRow) : List WorkspaceMembership := rows.filterMap membershipOf

/-- `select(WorkspaceMembership)` by its primary key. -/
def findMember (rows : List MemberRow) (workspaceId userId : Uuid) : Option WorkspaceMembership :=
  (memberships rows).find? fun m => m.workspaceId == workspaceId && m.userId == userId

def adminCount (rows : List MemberRow) (workspaceId : Uuid) : Nat :=
  (memberships rows).countP fun m => m.workspaceId == workspaceId && m.role == .admin

/-- `AuthorizationDenied("workspace must retain an admin")`. -/
def adminRequired : Failure := .authorizationDenied "workspace must retain an admin"

/-- A call of `set_membership_role`, with the identifiers it draws. -/
structure MembershipCall where
  context : WorkspaceContext
  userId : Uuid
  role : Role
  correlationId : Uuid
  auditId : Uuid

namespace MembershipCall

def event (call : MembershipCall) : MembershipChanged :=
  ⟨call.auditId, call.context.workspaceId, call.context.actorUserId, call.userId,
    call.correlationId⟩

def member (call : MembershipCall) : WorkspaceMembership :=
  ⟨call.context.workspaceId, call.userId, call.role⟩

/-- `WorkspaceMembership(...)` is added. -/
def insertMember (call : MembershipCall) : MemberScript Unit := do
  add (.membership call.member)
  add (.audit call.event)

/-- `membership.role = role.value` is flushed. -/
def updateMember (call : MembershipCall) : MemberScript Unit := do
  deleteWhere fun row => row.key == .membership call.context.workspaceId call.userId
  add (.membership call.member)
  add (.audit call.event)

/-- The branches of `set_membership_role` on the membership that is there. -/
def changeRole (call : MembershipCall) (membership : Option WorkspaceMembership) :
    MemberScript Unit :=
  match membership with
  | none => call.insertMember
  | some membership =>
    if membership.role = .admin ∧ call.role ≠ .admin then do
      let rows ← select
      if adminCount rows call.context.workspaceId ≤ 1 then fail adminRequired
      else call.updateMember
    else call.updateMember

/-- `set_membership_role`. The workspace is there, and its row is the lock. -/
def setMembershipRole (call : MembershipCall) : MemberScript Unit :=
  if call.context.role ≠ .admin then fail accessDenied
  else do
    acquire
    let rows ← select
    if ((findMember rows call.context.workspaceId call.context.actorUserId).any
        fun m => m.role == .admin) = false then fail accessDenied
    else do
      let rows ← select
      call.changeRole (findMember rows call.context.workspaceId call.userId)

end MembershipCall

/-- The calls for one workspace. -/
def Calls (workspaceId : Uuid) (script : MemberScript Unit) : Prop :=
  ∃ call : MembershipCall, call.context.workspaceId = workspaceId ∧ script = call.setMembershipRole

/-- `create_workspace` has committed and nobody is at work on the workspace yet. -/
def Created {ι : Type} (workspaceId owner : Uuid)
    (w : World ι MemberRow MemberKey Time Failure) : Prop :=
  memberships w.rows = [⟨workspaceId, owner, .admin⟩] ∧ w.holder = none ∧ ∀ i, w.callers i = none

/-! ## What a call does on its own -/

variable {workspaceId : Uuid} {rows rows' : List MemberRow}

/-- Every row belongs to the workspace and no two to one member, and somebody is an admin. -/
structure Governed (workspaceId : Uuid) (rows : List MemberRow) : Prop where
  own : ∀ m ∈ memberships rows, m.workspaceId = workspaceId
  unique : ((memberships rows).map WorkspaceMembership.userId).Nodup
  admin : ∃ m ∈ memberships rows, m.role = .admin

/-- The rows but for the membership of one user. -/
def without (rows : List MemberRow) (workspaceId userId : Uuid) : List MemberRow :=
  rows.filter fun row => row.key ≠ .membership workspaceId userId

/-- What a call that commits has done, and who made it. -/
structure Sets (call : MembershipCall) (rows rows' : List MemberRow) : Prop where
  actor : ∃ m, findMember rows call.context.workspaceId call.context.actorUserId = some m ∧
    m.role = .admin
  keeps : ∀ m, findMember rows call.context.workspaceId call.userId = some m → m.role = .admin →
    call.role ≠ .admin → 1 < adminCount rows call.context.workspaceId
  rows_eq : rows' = without rows call.context.workspaceId call.userId ++
    [.membership call.member, .audit call.event]

lemma view_none (rows : List MemberRow) :
    (Changes.none : Changes MemberRow MemberKey).view MemberRow.key rows = rows := by
  simp [Changes.view, Changes.none]

/-- A deletion by the primary key, at the start of a transaction. -/
lemma view_deleteWhere (rows : List MemberRow) (workspaceId userId : Uuid)
    (added : List MemberRow) :
    Changes.view MemberRow.key
      { (Changes.none : Changes MemberRow MemberKey).deleteWhere MemberRow.key rows
          (fun row => row.key == MemberKey.membership workspaceId userId) with inserted := added }
      rows = without rows workspaceId userId ++ added := by
  have hseen : ((Changes.none : Changes MemberRow MemberKey).deleteWhere MemberRow.key rows
      fun row => row.key == MemberKey.membership workspaceId userId).deleted =
        (rows.filter fun row => row.key == MemberKey.membership workspaceId userId).map
          MemberRow.key := by
    rw [Changes.deleteWhere, view_none]
    rfl
  unfold Changes.view without
  refine congrArg (· ++ added) (List.filter_congr fun row hrow => ?_)
  rw [Bool.eq_iff_iff, decide_eq_true_iff, decide_eq_true_iff, hseen, List.mem_map]
  constructor
  · intro h hkey
    exact h ⟨row, List.mem_filter.2 ⟨hrow, by simpa using hkey⟩, rfl⟩
  · rintro h ⟨other, hother, hsame⟩
    rw [List.mem_filter, beq_iff_eq] at hother
    exact h (hsame.symm.trans hother.2)

lemma without_of_findMember {userId : Uuid} (h : findMember rows workspaceId userId = none) :
    without rows workspaceId userId = rows := by
  refine List.filter_eq_self.2 fun row hrow => ?_
  rw [decide_eq_true_eq]
  intro hkey
  cases row with
  | audit => cases hkey
  | membership m =>
    have hnone := List.find?_eq_none.1 h m (List.mem_filterMap.2 ⟨_, hrow, rfl⟩)
    injection hkey with hworkspace huser
    simp [hworkspace, huser] at hnone

lemma effect_insertMember (call : MembershipCall) (rows : List MemberRow) (readings : List Time) :
    call.insertMember.effect MemberRow.key rows .none readings =
      some (.ok ⟨[], [.membership call.member, .audit call.event], []⟩) := by
  cases readings <;> rfl

lemma effect_updateMember (call : MembershipCall) (rows : List MemberRow) (readings : List Time) :
    call.updateMember.effect MemberRow.key rows .none readings =
      some (.ok { (Changes.none : Changes MemberRow MemberKey).deleteWhere MemberRow.key rows
        (fun row => row.key == .membership call.context.workspaceId call.userId) with
          inserted := [.membership call.member, .audit call.event] }) := by
  cases readings <;> rfl

/-- A call that commits was made by an admin and has set the role of one member. -/
theorem sets_of_effect {call : MembershipCall} {readings : List Time}
    {c : Changes MemberRow MemberKey}
    (h : call.setMembershipRole.effect MemberRow.key rows .none readings = some (.ok c)) :
    Sets call rows (c.view MemberRow.key rows) := by
  have hupdated : call.updateMember.effect MemberRow.key rows .none readings = some (.ok c) →
      c.view MemberRow.key rows = without rows call.context.workspaceId call.userId ++
        [.membership call.member, .audit call.event] := by
    intro heffect
    rw [effect_updateMember, Option.some.injEq, Except.ok.injEq] at heffect
    rw [← heffect, view_deleteWhere]
  unfold MembershipCall.setMembershipRole at h
  split at h
  · simp at h
  rw [effect_acquire, effect_select, view_none] at h
  split at h
  · simp at h
  case isFalse hactor =>
    rw [Bool.not_eq_false, Option.any_eq_true] at hactor
    obtain ⟨actor, hfound, hadmin⟩ := hactor
    have hactor : ∃ m, findMember rows call.context.workspaceId call.context.actorUserId = some m ∧
        m.role = .admin := ⟨actor, hfound, by simpa using hadmin⟩
    rw [effect_select, view_none] at h
    cases hmember : findMember rows call.context.workspaceId call.userId with
    | none =>
      rw [hmember, MembershipCall.changeRole, effect_insertMember, Option.some.injEq,
        Except.ok.injEq] at h
      refine ⟨hactor, fun m hm => by simp [hmember] at hm, ?_⟩
      rw [← h, without_of_findMember hmember]
      simp [Changes.view]
    | some member =>
      rw [hmember, MembershipCall.changeRole] at h
      split at h
      · rw [effect_select, view_none] at h
        split at h
        · simp at h
        case isFalse hcount =>
          exact ⟨hactor, fun _ _ _ _ => Nat.lt_of_not_le hcount, hupdated h⟩
      case isFalse hkept =>
        refine ⟨hactor, fun m hm hrole hdemoted => ?_, hupdated h⟩
        rw [hmember, Option.some.injEq] at hm
        exact absurd ⟨hm ▸ hrole, hdemoted⟩ hkept

/-! ## What the calls keep -/

lemma memberships_append (rows rows' : List MemberRow) :
    memberships (rows ++ rows') = memberships rows ++ memberships rows' := List.filterMap_append

lemma memberships_without (rows : List MemberRow) (userId : Uuid) :
    memberships (without rows workspaceId userId) = (memberships rows).filter fun m =>
      ¬(m.workspaceId = workspaceId ∧ m.userId = userId) := by
  induction rows with
  | nil => rfl
  | cons row rows ih =>
    cases row with
    | audit event =>
      rw [without, List.filter_cons_of_pos (by simp [MemberRow.key])]
      exact ih
    | membership m =>
      change memberships (without (MemberRow.membership m :: rows) workspaceId userId) =
        (m :: memberships rows).filter _
      by_cases hm : m.workspaceId = workspaceId ∧ m.userId = userId
      · rw [List.filter_cons_of_neg (by simp [hm]), without,
          List.filter_cons_of_neg (by simp [MemberRow.key, hm])]
        exact ih
      · have hother := not_and_or.1 hm
        rw [List.filter_cons_of_pos (by simpa using hother), without,
          List.filter_cons_of_pos (by simpa [MemberRow.key] using hother)]
        exact congrArg (m :: ·) ih

lemma Governed.eq_of_userId (h : Governed workspaceId rows) {m m' : WorkspaceMembership}
    (hm : m ∈ memberships rows) (hm' : m' ∈ memberships rows) (hsame : m.userId = m'.userId) :
    m = m' := List.inj_on_of_nodup_map h.unique hm hm' hsame

lemma Governed.findMember_eq (h : Governed workspaceId rows) {m : WorkspaceMembership}
    (hm : m ∈ memberships rows) : findMember rows workspaceId m.userId = some m := by
  cases hfound : findMember rows workspaceId m.userId with
  | none =>
    have hnone := List.find?_eq_none.1 hfound m hm
    simp [h.own m hm] at hnone
  | some other =>
    have hother := List.find?_some hfound
    simp only [Bool.and_eq_true, beq_iff_eq] at hother
    exact congrArg some (h.eq_of_userId (List.mem_of_find?_eq_some hfound) hm hother.2)

/-- When one admin is demoted and there were two, another is left. -/
lemma Governed.another_admin (h : Governed workspaceId rows) {m : WorkspaceMembership}
    (hcount : 1 < adminCount rows workspaceId) :
    ∃ m' ∈ memberships rows, m'.role = .admin ∧ m' ≠ m := by
  by_contra! hall
  have honly : adminCount rows workspaceId ≤ (memberships rows).count m := by
    refine List.countP_mono_left fun m' hm' hadmin => ?_
    simp only [Bool.and_eq_true, beq_iff_eq] at hadmin
    exact beq_iff_eq.2 (hall m' hm' hadmin.2)
  have honce := List.nodup_iff_count_le_one.1 (h.unique.of_map _) m
  omega

lemma Sets.memberships_eq {call : MembershipCall} (h : Sets call rows rows') :
    memberships rows' = (memberships rows).filter (fun m =>
      ¬(m.workspaceId = call.context.workspaceId ∧ m.userId = call.userId)) ++ [call.member] := by
  rw [h.rows_eq, memberships_append, memberships_without]
  rfl

/-- A call keeps the memberships of the workspace in order. -/
theorem Sets.governed {call : MembershipCall} (h : Sets call rows rows')
    (hworkspace : call.context.workspaceId = workspaceId) (hrows : Governed workspaceId rows) :
    Governed workspaceId rows' := by
  have hmem : ∀ m, m ∈ memberships rows' ↔
      m ∈ memberships rows ∧ m.userId ≠ call.userId ∨ m = call.member := by
    intro m
    rw [h.memberships_eq, List.mem_append, List.mem_filter, List.mem_singleton]
    refine or_congr_left (and_congr_right fun hm => ?_)
    simp [hrows.own m hm, hworkspace]
  refine ⟨fun m hm => ?_, ?_, ?_⟩
  · obtain ⟨hm, -⟩ | rfl := (hmem m).1 hm
    · exact hrows.own m hm
    · exact hworkspace
  · rw [h.memberships_eq, List.map_append, List.map_singleton, List.nodup_append]
    refine ⟨hrows.unique.sublist (List.filter_sublist.map _), List.nodup_singleton _, ?_⟩
    intro userId huser other hother hsame
    obtain ⟨m, hm, rfl⟩ := List.mem_map.1 huser
    rw [List.mem_filter, decide_eq_true_iff] at hm
    rw [List.mem_singleton] at hother
    exact hm.2 ⟨(hrows.own m hm.1).trans hworkspace.symm, hsame.trans hother⟩
  · by_cases hrole : call.role = .admin
    · exact ⟨call.member, (hmem _).2 (.inr rfl), hrole⟩
    obtain ⟨m, hm, hadmin⟩ := hrows.admin
    by_cases htarget : m.userId = call.userId
    · have hfound : findMember rows call.context.workspaceId call.userId = some m := by
        rw [hworkspace, ← htarget]
        exact hrows.findMember_eq hm
      have hcount := h.keeps m hfound hadmin hrole
      rw [hworkspace] at hcount
      obtain ⟨m', hm', hadmin', hne⟩ := hrows.another_admin (m := m) hcount
      have hother : m'.userId ≠ call.userId := fun hsame =>
        hne (hrows.eq_of_userId hm' hm (hsame.trans htarget.symm))
      exact ⟨m', (hmem _).2 (.inl ⟨hm', hother⟩), hadmin'⟩
    · exact ⟨m, (hmem _).2 (.inl ⟨hm, htarget⟩), hadmin⟩

/-! ## Any number of calls at once -/

/-- The lock comes first: the roles of the context are compared without a statement. -/
lemma Calls.locking {script : MemberScript Unit} (h : Calls workspaceId script) :
    script.Locking := by
  obtain ⟨call, -, rfl⟩ := h
  unfold MembershipCall.setMembershipRole
  split
  · trivial
  rw [locking_acquire, tidy_select]
  intro rows
  split
  · trivial
  rw [tidy_select]
  intro rows
  unfold MembershipCall.changeRole
  split
  · trivial
  split
  · rw [tidy_select]
    intro rows
    split <;> trivial
  · trivial

variable {ι : Type} [DecidableEq ι] {owner : Uuid} {w w' : World ι MemberRow MemberKey Time Failure}

omit [DecidableEq ι] in
lemma Created.governed (h : Created workspaceId owner w) : Governed workspaceId w.rows := by
  refine ⟨?_, ?_, ?_⟩ <;> simp [h.1]

lemma sets_of_commits (h : Commits MemberRow.key (Calls workspaceId) rows rows') :
    ∃ call : MembershipCall, call.context.workspaceId = workspaceId ∧ Sets call rows rows' := by
  obtain ⟨_, readings, c, ⟨call, hworkspace, rfl⟩, heffect, rfl⟩ := h
  exact ⟨call, hworkspace, sets_of_effect heffect⟩

lemma serial_of_created
    (h : Reachable (Created workspaceId owner) (Step MemberRow.key (Calls workspaceId)) w) :
    w.Serial MemberRow.key (Calls workspaceId) ∧ Governed workspaceId w.rows := by
  refine serial_of_reachable (fun _ => Calls.locking) (fun w hw => ⟨hw.governed, hw.2⟩) ?_ h
  intro rows rows' hrows hcommits
  obtain ⟨call, hworkspace, hsets⟩ := sets_of_commits hcommits
  exact hsets.governed hworkspace hrows

namespace Sample

/-- What the members of the workspace call: the owner makes another user an admin, and then both of
them step down. -/
def calls : Fin 3 → MembershipCall
  | 0 => ⟨⟨1, 2, .admin⟩, 3, .admin, 10, 20⟩
  | 1 => ⟨⟨1, 2, .admin⟩, 2, .viewer, 11, 21⟩
  | 2 => ⟨⟨1, 3, .admin⟩, 3, .viewer, 12, 22⟩

/-- The workspace as it was created. -/
def founded : World (Fin 3) MemberRow MemberKey Time Failure :=
  ⟨[.membership ⟨1, 2, .admin⟩], 0, none, fun _ => none⟩

def starting (i : Fin 3) : Option (Caller MemberRow MemberKey Time Failure) :=
  some ⟨.none, (calls i).setMembershipRole, []⟩

/-- All three have begun. -/
def begun : World (Fin 3) MemberRow MemberKey Time Failure :=
  { founded with
    callers := Function.update (Function.update (Function.update founded.callers 0 (starting 0))
      1 (starting 1)) 2 (starting 2) }

/-- The last of them is turned down. -/
def schedule : List (Fin 3) := List.replicate 6 0 ++ List.replicate 8 1 ++ List.replicate 4 2

lemma begun_reached : Reachable (Created 1 2) (Step MemberRow.key (Calls 1)) begun := by
  have hcalls : ∀ i, Calls 1 (calls i).setMembershipRole :=
    fun i => ⟨calls i, by fin_cases i <;> rfl, rfl⟩
  have hfirst : Step MemberRow.key (Calls 1) founded (.begins 0) _ :=
    .begins founded 0 _ (hcalls 0) rfl
  exact ⟨founded, _, ⟨rfl, rfl, fun _ => rfl⟩,
    ((Path.single hfirst).snoc (.begins _ 1 _ (hcalls 1) rfl)).snoc (.begins _ 2 _ (hcalls 2) rfl)⟩

/-- Where the schedule leads: the owner is a viewer, and the other admin waits to be turned down. -/
def refused (w : World (Fin 3) MemberRow MemberKey Time Failure) : Bool :=
  memberships w.rows == [⟨1, 3, .admin⟩, ⟨1, 2, .viewer⟩] && w.holder == some 2

end Sample

/-- However the calls of any number of admins interleave, and whichever of them are rolled back, the
workspace keeps an admin and no member has two roles. -/
theorem workspace_keeps_admin
    (h : Reachable (Created workspaceId owner) (Step MemberRow.key (Calls workspaceId)) w) :
    (∃ m ∈ memberships w.rows, m.role = .admin) ∧
      ((memberships w.rows).map WorkspaceMembership.userId).Nodup :=
  have hgoverned := (serial_of_created h).2
  ⟨hgoverned.admin, hgoverned.unique⟩

/-- Of two admins who step down at the same time, one is turned down. -/
theorem workspace_keeps_admin_refused :
    ∃ w, Sample.begun.follow MemberRow.key Sample.schedule = some w ∧ Sample.refused w = true ∧
      (∃ m ∈ memberships w.rows, m.role = .admin) ∧
      ((memberships w.rows).map WorkspaceMembership.userId).Nodup := by
  have hends : ((Sample.begun.follow MemberRow.key Sample.schedule).any Sample.refused) = true := by
    decide +kernel
  obtain ⟨w, hfollow, hrefused⟩ := (Option.any_eq_true _ _).mp hends
  exact ⟨w, hfollow, hrefused, workspace_keeps_admin
    (World.follow_reachable Sample.begun_reached hfollow)⟩

/-- A step that changes a row is the commit of one call: its actor is an admin at that very moment,
the role of one member is set, the last admin is not demoted, and one event is added to the
audit. -/
theorem role_changes_made_by_admins {l : Label ι}
    (h : Reachable (Created workspaceId owner) (Step MemberRow.key (Calls workspaceId)) w)
    (hstep : Step MemberRow.key (Calls workspaceId) w l w') :
    w'.rows = w.rows ∨
      ∃ call : MembershipCall, call.context.workspaceId = workspaceId ∧ Sets call w.rows w'.rows :=
  (hstep.serial (fun _ => Calls.locking) (serial_of_created h).1).2.imp_right sets_of_commits

/-- The owner's first call commits. -/
theorem role_changes_made_by_admins_first :
    ∃ w w' l, Sample.begun.follow MemberRow.key (List.replicate 5 0) = some w ∧
      Step MemberRow.key (Calls 1) w l w' ∧ (w'.rows = w.rows ∨
        ∃ call : MembershipCall, call.context.workspaceId = 1 ∧ Sets call w.rows w'.rows) := by
  have hends : ((Sample.begun.follow MemberRow.key (List.replicate 5 0)).any fun w =>
      (w.turn MemberRow.key 0).any fun w' => memberships w'.rows ==
        [⟨1, 2, .admin⟩, ⟨1, 3, .admin⟩]) = true := by
    decide +kernel
  obtain ⟨w, hfollow, hturns⟩ := (Option.any_eq_true _ _).mp hends
  obtain ⟨w', hturn, -⟩ := (Option.any_eq_true _ _).mp hturns
  obtain ⟨l, hstep⟩ : ∃ l, Step MemberRow.key (Calls 1) w l w' := World.turn_step hturn
  exact ⟨w, w', l, hfollow, hstep, role_changes_made_by_admins
    (World.follow_reachable Sample.begun_reached hfollow) hstep⟩

end Modall.Identity
