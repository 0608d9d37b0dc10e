import TenantAuth.TenantReports
import TenantAuth.UserDeletion
set_option autoImplicit false

namespace TenantAuth
open Transact

/-- An admin request has nothing to stumble over: the rows it names are there, a patch fits, and
a user who is deleted owns no tenant. -/
def AdminRoute.Storable (d : DB) : AdminRoute → Prop
  | .assignPermissionToRole roleId permissionId =>
    roleId ∈ d.roles.map Role.id ∧ permissionId ∈ d.permissions.map Permission.id
  | .assignRoleToUser userId roleId => userId ∈ d.users.map User.id ∧ roleId ∈ d.roles.map Role.id
  | .updateUser userId payload => ∀ u, d.users.find? (fun u => u.id = userId) = some u →
    payload.patch.Fits u
  | .deleteUser userId => ∀ t ∈ d.tenants, t.ownerId ≠ userId
  | .listRoles | .getRolePermissions _ | .removePermissionFromRole _ _ | .listPermissions
  | .listUsers | .getUser _ | .removeRoleFromUser _ _ | .getUserPermissions _ => True

/-- What the endpoint of the request, started at the reading `n`, writes, it can write. -/
def Request.Storable (P : Platform) (o : Nat → Reading) (n : Nat) (d : DB) (q : Request) : Prop :=
  match q.route with
  | .auth r => r.Storable P o n d
  | .me => True
  | .tenant r => ∀ a, authenticate P q.authorization (o n).now d = .ok a →
    r.Storable P o (n+1) d a
  | .admin r => ∀ a, authorize P r.permission q.authorization (o n).now d = .ok a → r.Storable d

/-- The handler that the request gets to returns or raises an `AppError`. -/
def Reported (P : Platform) (o : Readings) (w : World DB Mail) (q : Request) : Prop :=
  Admits P q (o.read w.taken).now w.db →
    (serve Write.apply o.read (q.endpoint P) ⟨w.db,endpointStart P w q,w.sent⟩).1.Within Exc.IsApp

section
variable {P : Platform} {o : Nat → Reading} {n : Nat} {d : DB} {s : List Mail}

theorem committed_within {x : Write} {b : Body} :
    ((commit >>= fun _ => (pure b : App Body)).exec Write.apply o ⟨d,d,[x],n,s⟩).1.Within
        Exc.IsApp ↔ x.violation d = none := by
  rw [within_commit_bind]
  exact ⟨fun ⟨_,hf,_⟩ => (flushAll_single.mp hf).1,
    fun hv => ⟨_,flushAll_single.mpr ⟨hv,rfl⟩,.ok b⟩⟩

theorem assigned_within {α : Type} {table : DB → List α} {p : α → Bool} {e : AppError} {x : Write}
    {b : Body} :
    ((do
      let exists' ← scalar table p
      e.raiseIf exists'.isSome
      add x
      commit
      pure b : App Body).exec Write.apply o ⟨d,d,[],n,s⟩).1.Within Exc.IsApp ↔
      ((table d).find? p = none → x.violation d = none) := by
  simp only [exec_scalar_bind,flushAll_nil,exec_appErrorIf_bind,exec_add_bind,List.nil_append]
  cases hx : (table d).find? p with
  | some r => exact iff_of_true within_app (by simp)
  | none =>
    simp only [Option.isSome_none,Bool.false_eq_true,if_false,forall_const]
    exact committed_within

/-- Where the links that are stored have their ends in place, a link is reported or made just
when its ends are in place. -/
theorem linked_iff {α : Type} {l : List α} {x : α} {p : α → Bool} {v : Option Fault} {A : Prop}
    (hp : ∀ r, p r = true ↔ r = x) (hv : v = none ↔ x ∉ l ∧ A) (hl : x ∈ l → A) :
    (l.find? p = none → v = none) ↔ A := by
  have hnone : l.find? p = none ↔ x ∉ l := by
    simp only [List.find?_eq_none,hp]
    exact ⟨fun h hin => h x hin rfl,fun h r hr he => h (he ▸ hr)⟩
  rw [hnone,hv]
  constructor
  · intro h
    by_cases hin : x ∈ l
    · exact hl hin
    · exact (h hin).2
  · exact fun ha hin => ⟨hin,ha⟩

namespace AdminRouter

theorem assignPermissionToRole_within (hw : d.Wf) {roleId permissionId : UUID} :
    ((assignPermissionToRole roleId permissionId).exec Write.apply o ⟨d,d,[],n,s⟩).1.Within
        Exc.IsApp ↔
      roleId ∈ d.roles.map Role.id ∧ permissionId ∈ d.permissions.map Permission.id := by
  refine assigned_within.trans (linked_iff (x := ⟨roleId,permissionId⟩) ?_ ?_ fun hin => ?_)
  · rintro ⟨roleId',permissionId'⟩
    simp
  · simp [Write.violation,firstViolation_eq_none]
  · exact ⟨hw.rolePermissionRole (List.mem_map_of_mem hin),
      hw.rolePermissionPermission (List.mem_map_of_mem hin)⟩

theorem assignRoleToUser_within (hw : d.Wf) {userId roleId : UUID} :
    ((assignRoleToUser userId roleId).exec Write.apply o ⟨d,d,[],n,s⟩).1.Within Exc.IsApp ↔
      userId ∈ d.users.map User.id ∧ roleId ∈ d.roles.map Role.id := by
  refine assigned_within.trans (linked_iff (x := ⟨userId,roleId⟩) ?_ ?_ fun hin => ?_)
  · rintro ⟨userId',roleId'⟩
    simp
  · simp [Write.violation,firstViolation_eq_none]
  · exact ⟨hw.userRoleUser (List.mem_map_of_mem hin),hw.userRoleRole (List.mem_map_of_mem hin)⟩

theorem updateUser_within {userId : UUID} {payload : UserUpdateRequest} :
    ((updateUser userId payload).exec Write.apply o ⟨d,d,[],n,s⟩).1.Within Exc.IsApp ↔
      ∀ u, d.users.find? (fun u => u.id = userId) = some u → payload.patch.Fits u := by
  unfold updateUser AuthService.userById
  simp only [exec_scalar_bind,flushAll_nil]
  cases hu : d.users.find? fun u => u.id = userId with
  | none => exact iff_of_true within_app (by simp)
  | some u =>
    have hmem := List.mem_of_find?_eq_some hu
    have hadmissible : Admissible (AuthService.userWrites u payload.patch (o n).now) d ↔ _ :=
      userWrites_admissible_iff hmem
    simp only [AuthService.exec_setUser_bind,List.nil_append]
    rw [within_commit_bind]
    constructor
    · rintro ⟨d',hf,-⟩ u' hu'
      cases hu'
      exact hadmissible.mp ⟨d',hf⟩
    · intro h
      obtain ⟨d',hf⟩ := hadmissible.mpr (h u rfl)
      refine ⟨d',hf,?_⟩
      have hfind : ∃ u', d'.users.find? (fun r => r.id = u.id) = some u' := by
        obtain ⟨f,hkeep,hd'⟩ := AuthService.userWrites_flush hf
        rw [hd']
        refine find_update_isSome (fun r => ?_) hmem rfl
        rcases hkeep with rfl | rfl <;> rfl
      obtain ⟨u',hu'⟩ := hfind
      simp only [exec_refreshRow_bind,hu']
      exact .ok _

theorem deleteUser_within (hw : d.Wf) {userId : UUID} :
    ((deleteUser userId).exec Write.apply o ⟨d,d,[],n,s⟩).1.Within Exc.IsApp ↔
      ∀ t ∈ d.tenants, t.ownerId ≠ userId := by
  by_cases hin : userId ∈ d.users.map User.id
  · obtain ⟨u,hu,rfl⟩ := List.mem_map.mp hin
    rw [deleteUser_exec o n s hw hu,← deleteUser_violation_iff hin]
    unfold Write.apply
    cases (Write.deleteUser u.id).violation d with
    | none => exact iff_of_true (.ok _) rfl
    | some f => exact iff_of_false (within_fault f) (by simp)
  · -- He is not found, and by the foreign key he owns nothing.
    refine iff_of_true ?_ fun t ht he => hin (he ▸ hw.tenantOwner (List.mem_map_of_mem ht))
    have hnone : d.users.find? (fun u => u.id = userId) = none := find_key_eq_none.mpr hin
    unfold deleteUser AuthService.userById
    simp only [exec_scalar_bind,flushAll_nil,hnone]
    exact within_app

end AdminRouter

theorem AdminRoute.endpoint_within (hw : d.Wf) (r : AdminRoute) :
    (r.endpoint.exec Write.apply o ⟨d,d,[],n,s⟩).1.Within Exc.IsApp ↔ r.Storable d := by
  cases r with
  | assignPermissionToRole => exact AdminRouter.assignPermissionToRole_within hw
  | assignRoleToUser => exact AdminRouter.assignRoleToUser_within hw
  | updateUser => exact AdminRouter.updateUser_within
  | deleteUser => exact AdminRouter.deleteUser_within hw
  | removePermissionFromRole roleId permissionId =>
    refine iff_of_true ?_ trivial
    unfold AdminRoute.endpoint AdminRouter.removePermissionFromRole
    simp only [exec_add_bind,List.nil_append]
    exact committed_within.mpr rfl
  | removeRoleFromUser => exact iff_of_true within_app trivial
  | getUser userId =>
    refine iff_of_true ?_ trivial
    unfold AdminRoute.endpoint AdminRouter.getUser AuthService.userById
    simp only [exec_scalar_bind,flushAll_nil]
    cases d.users.find? _ with
    | none => exact within_app
    | some u => exact .ok _
  | listRoles | getRolePermissions | listPermissions | listUsers | getUserPermissions =>
    exact iff_of_true (.ok _) trivial

/-- The whole request: its dependencies raise what they raise as an `AppError`, and behind them
stands the operation. -/
theorem Request.endpoint_within {q : Request} (hw : d.Wf) (hempty : d.auditLogs = [])
    (hfresh : FreshKeys o n d) (hsent : ∀ i, (o i).delivered = true)
    (hmigrated : ∀ i, (o i).migrated = true) :
    ((q.endpoint P).exec Write.apply o ⟨d,d,[],n,s⟩).1.Within Exc.IsApp ↔
      q.Storable P o n d := by
  obtain ⟨m,hm,-⟩ := getCurrentUser_exec P o d d n s q.authorization
  cases hq : q.route with
  | auth r =>
    simp only [Request.endpoint,Request.Storable,hq]
    exact AuthRoute.endpoint_within hw hfresh hsent q.xTenantId r
  | me =>
    simp only [Request.endpoint,Request.Storable,hq,within_bind_pure,hm,iff_true]
    cases authenticate P q.authorization (o n).now d with
    | error e => exact within_app
    | ok a => exact .ok a
  | tenant r =>
    simp only [Request.Storable,hq]
    cases ha : authenticate P q.authorization (o n).now d with
    | error e =>
      refine iff_of_true ?_ (by simp)
      simp only [Request.endpoint,hq]
      rw [exec_bind,hm,ha]
      exact within_app
    | ok a =>
      rw [exec_tenant hq ha]
      simpa using TenantRoute.endpoint_within hw hempty (hfresh.mono (Nat.le_succ n)) hmigrated r
  | admin r =>
    simp only [Request.Storable,hq]
    cases ha : authorize P r.permission q.authorization (o n).now d with
    | error e =>
      obtain ⟨m',hm',-⟩ := requirePermission_exec P o d d n s r.permission q.authorization
      refine iff_of_true ?_ (by simp)
      simp only [Request.endpoint,hq]
      rw [exec_bind,hm',ha]
      exact within_app
    | ok a =>
      rw [exec_admin hq ha]
      simpa using AdminRoute.endpoint_within hw r

end

/-- Nothing but an `AppError` leaves the handler just when what it writes can be written. -/
theorem reported_iff {P : Platform} {o : Readings} {w : World DB Mail} {q : Request}
    (hr : Reachable P o w) (hfresh : FreshKeys o.read w.taken w.db)
    (hsent : ∀ i, (o.read i).delivered = true) (hmigrated : ∀ i, (o.read i).migrated = true) :
    Reported P o w q ↔ (Admits P q (o.read w.taken).now w.db →
      q.Storable P o.read (endpointStart P w q) w.db) :=
  imp_congr_right fun _ => Request.endpoint_within hr.wf hr.auditLogs
    (hfresh.mono (Nat.le_add_right _ _)) hsent hmigrated

/-- A third tenant, whose slug is free. -/
theorem reported_iff_thirdTenant :
    Reported (plainPlatform {}) (Seed.readings 0) Seed.twoTenants
      (Seed.request 1 (.tenant (.createTenant "C" "c"))) := by
  refine (reported_iff Seed.reachable_twoTenants (Seed.freshKeys (by decide +kernel))
    (fun _ => rfl) fun _ => rfl).mpr fun _ => ?_
  intro a ha
  have ha' : authenticate (plainPlatform {})
      (Seed.request 1 (.tenant (.createTenant "C" "c"))).authorization
      ((Seed.readings 0).read (endpointStart (plainPlatform {}) Seed.twoTenants
        (Seed.request 1 (.tenant (.createTenant "C" "c"))))).now
      Seed.twoTenants.db = .ok Seed.owner := by decide +kernel
  cases ha'.symm.trans ha
  exact ⟨by decide +kernel,by decide +kernel,by decide +kernel,by decide +kernel⟩

/-- The slug of a tenant is used once more, and nobody looks before it is inserted. -/
theorem reported_fails :
    ¬ ∀ (P : Platform) (o : Readings) (w : World DB Mail) (q : Request), Reachable P o w →
      FreshKeys o.read w.taken w.db → (∀ i, (o.read i).delivered = true) →
      (∀ i, (o.read i).migrated = true) → Reported P o w q := by
  intro h
  have hreported := h (plainPlatform {}) (Seed.readings 0) Seed.twoTenants
    (Seed.request 1 (.tenant (.createTenant "C" "a"))) Seed.reachable_twoTenants
    (Seed.freshKeys (by decide +kernel)) (fun _ => rfl) (fun _ => rfl) ⟨none,rfl⟩
  have hfault : (serve Write.apply (Seed.readings 0).read
      ((Seed.request 1 (.tenant (.createTenant "C" "a"))).endpoint (plainPlatform {}))
      ⟨Seed.twoTenants.db,endpointStart (plainPlatform {}) Seed.twoTenants
        (Seed.request 1 (.tenant (.createTenant "C" "a"))),Seed.twoTenants.sent⟩).1 =
        .fault .unique := by decide +kernel
  rw [hfault] at hreported
  exact within_fault _ hreported

end TenantAuth
