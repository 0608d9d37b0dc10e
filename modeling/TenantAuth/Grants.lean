import TenantAuth.Permissions
set_option autoImplicit false

namespace TenantAuth
open Transact

/-- What an answered request tells about a permission of a role: granted, or withdrawn. -/
def tellsGranted (rp : RolePermission) (e : Request × Response) : Option Bool :=
  if e.2.isSuccess = false then none else
  match e.1.route with
  | .admin (.assignPermissionToRole roleId permissionId) =>
    if rp = ⟨roleId,permissionId⟩ then some true else none
  | .admin (.removePermissionFromRole roleId permissionId) =>
    if rp = ⟨roleId,permissionId⟩ then some false else none
  | _ => none

/-- The same about a role of a user; the roles go with the user, and no request takes one away. -/
def tellsAssigned (ur : UserRole) (e : Request × Response) : Option Bool :=
  if e.2.isSuccess = false then none else
  match e.1.route with
  | .admin (.assignRoleToUser userId roleId) =>
    if ur = ⟨userId,roleId⟩ then some true else none
  | .admin (.deleteUser userId) => if ur.userId = userId then some false else none
  | _ => none

section Steps
variable {P : Platform} {o : Readings} {w : World DB Mail} {q : Request} {r : AdminRoute}

theorem handle_admin (hq : q.route = .admin r) :
    ((handle P o w q).1.isSuccess = false ∧ (handle P o w q).2.db = w.db) ∨
      let x := r.endpoint.exec Write.apply o.read
        ⟨w.db,w.db,[],endpointStart P w q + 1,w.sent⟩
      handle P o w q = (respond q.route.statusCode x.1,⟨x.2.db,x.2.taken,x.2.sent⟩) := by
  rw [handle_eq]
  cases admission P q.authorization q.xTenantId (o.read w.taken).now w.db with
  | raised e => exact .inl ⟨rfl,rfl⟩
  | fault f => exact .inl ⟨rfl,rfl⟩
  | ok verdict =>
    cases verdict with
    | error e => exact .inl ⟨rfl,rfl⟩
    | ok context =>
      obtain ⟨m,hm,-⟩ := requirePermission_exec P o.read w.db w.db (endpointStart P w q) w.sent
        r.permission q.authorization
      cases ha : authorize P r.permission q.authorization (o.read (endpointStart P w q)).now
          w.db with
      | error e =>
        refine .inl ?_
        simp only [serve,Request.endpoint,hq]
        rw [exec_bind,hm,ha]
        exact ⟨rfl,rfl⟩
      | ok a =>
        refine .inr ?_
        simp only [serve,exec_admin hq ha]

def AdminRoute.write : AdminRoute → Option Write
  | .assignPermissionToRole roleId permissionId =>
    some (.insertRolePermission ⟨roleId,permissionId⟩)
  | .removePermissionFromRole roleId permissionId =>
    some (.deleteRolePermission ⟨roleId,permissionId⟩)
  | .assignRoleToUser userId roleId => some (.insertUserRole ⟨userId,roleId⟩)
  | .deleteUser userId => some (.deleteUser userId)
  | _ => none

theorem AdminRoute.write_exec {u : Write} (hr : r.write = some u) (o : Nat → Reading) (d : DB)
    (n : Nat) (s : List Mail) :
    let x := r.endpoint.exec Write.apply o ⟨d,d,[],n,s⟩
    (x.1.isOk = true ∧ x.2.db = u.effect d) ∨ (x.1.isOk = false ∧ x.2.db = d) := by
  have hone : ∀ b : Body,
      let x := (commit >>= fun _ => (pure b : App Body)).exec Write.apply o ⟨d,d,[u],n,s⟩
      (x.1.isOk = true ∧ x.2.db = u.effect d) ∨ (x.1.isOk = false ∧ x.2.db = d) := by
    intro b
    simp only [exec_commit_bind]
    cases hf : flushAll Write.apply [u] d with
    | ok d' => exact .inl ⟨rfl,(flushAll_single.mp hf).2⟩
    | error f => exact .inr ⟨rfl,rfl⟩
  cases r with
  | assignPermissionToRole roleId permissionId =>
    cases hr
    unfold endpoint AdminRouter.assignPermissionToRole
    simp only [exec_scalar_bind,flushAll_nil,exec_appErrorIf_bind,exec_add_bind,List.nil_append]
    split
    · exact .inr ⟨rfl,rfl⟩
    · exact hone _
  | removePermissionFromRole roleId permissionId =>
    cases hr
    exact hone _
  | assignRoleToUser userId roleId =>
    cases hr
    unfold endpoint AdminRouter.assignRoleToUser
    simp only [exec_scalar_bind,flushAll_nil,exec_appErrorIf_bind,exec_add_bind,List.nil_append]
    split
    · exact .inr ⟨rfl,rfl⟩
    · exact hone _
  | deleteUser userId =>
    cases hr
    unfold endpoint AdminRouter.deleteUser AuthService.userById
    simp only [exec_scalar_bind,flushAll_nil]
    cases hu : d.users.find? _ with
    | none => exact .inr ⟨rfl,rfl⟩
    | some a =>
      obtain rfl : a.id = userId := by simpa using List.find?_some hu
      simp only [exec_add_bind,List.nil_append]
      exact hone _
  | _ => cases hr

/-- Roles and permissions change by the write of a route that is answered with success, and
else not at all. -/
theorem handle_roles :
    (∃ r u, q.route = .admin r ∧ r.write = some u ∧ (handle P o w q).1.isSuccess = true ∧
      (handle P o w q).2.db = u.effect w.db) ∨
    ((∀ r, q.route = .admin r → r.write = none) ∨ (handle P o w q).1.isSuccess = false) ∧
      SameIn .rolePermissions w.db (handle P o w q).2.db ∧
      SameIn .userRoles w.db (handle P o w q).2.db := by
  by_cases hno : ∀ r, q.route = .admin r → r.write = none
  · refine .inr ⟨.inl hno,?_⟩
    obtain ⟨ws,h,hf⟩ := handle_commits P o w q
    cases h with
    | idle => exact ⟨flushAll_frame (by simp) hf,flushAll_frame (by simp) hf⟩
    | auth _ h => exact ⟨h.frame (by simp) hf,h.frame (by simp) hf⟩
    | tenant _ _ h => exact ⟨h.frame (by simp) hf,h.frame (by simp) hf⟩
    | admin hq _ h =>
      cases h with
      | nothing => exact ⟨flushAll_frame (by simp) hf,flushAll_frame (by simp) hf⟩
      | updateUser _ =>
        exact ⟨flushAll_frame_ne (userWrites_touches _ _ _) (by simp) hf,
          flushAll_frame_ne (userWrites_touches _ _ _) (by simp) hf⟩
      | _ => cases hno _ hq
  · push Not at hno
    obtain ⟨r,hq,hr⟩ := hno
    obtain ⟨u,hu⟩ := Option.ne_none_iff_exists'.mp hr
    rcases handle_admin (P := P) (o := o) (w := w) hq with ⟨hs,hd⟩ | h
    · exact .inr ⟨.inr hs,hd ▸ SameIn.refl _ _,hd ▸ SameIn.refl _ _⟩
    · rcases AdminRoute.write_exec hu o.read w.db (endpointStart P w q + 1) w.sent with
        ⟨hok,hd⟩ | ⟨hok,hd⟩
      · refine .inl ⟨r,u,hq,hu,?_,?_⟩
        · rw [h,respond_isSuccess,hok]
        · rw [h,hd]
      · refine .inr ⟨.inr ?_,?_⟩
        · rw [h,respond_isSuccess,hok]
        · rw [h,hd]
          exact ⟨SameIn.refl _ _,SameIn.refl _ _⟩

/-- One request changes what a role grants to what its answer tells. -/
theorem granted_step (rp : RolePermission) (w : World DB Mail) (q : Request) :
    decide (rp ∈ (handle P o w q).2.db.rolePermissions) =
      (tellsGranted rp (q,(handle P o w q).1)).getD (decide (rp ∈ w.db.rolePermissions)) := by
  unfold tellsGranted
  rcases handle_roles (P := P) (o := o) (w := w) (q := q) with
    ⟨r,u,hq,hr,hs,hd⟩ | ⟨hno | hs,hsame,-⟩
  · simp only [hs,hd,hq]
    cases r with
    | assignPermissionToRole roleId permissionId =>
      cases hr
      by_cases h : rp = ⟨roleId,permissionId⟩ <;> simp [Write.effect,h]
    | removePermissionFromRole roleId permissionId =>
      cases hr
      by_cases h : rp = ⟨roleId,permissionId⟩ <;> simp [Write.effect,h]
    | assignRoleToUser _ _ | deleteUser _ =>
      cases hr
      rfl
    | _ => cases hr
  · rw [hsame]
    split
    · rfl
    · split
      · cases hno _ ‹_›
      · cases hno _ ‹_›
      · rfl
  · simp only [hs,if_true,Option.getD_none]
    rw [hsame]

/-- One request changes the roles of a user to what its answer tells. -/
theorem assigned_step (ur : UserRole) (w : World DB Mail) (q : Request) :
    decide (ur ∈ (handle P o w q).2.db.userRoles) =
      (tellsAssigned ur (q,(handle P o w q).1)).getD (decide (ur ∈ w.db.userRoles)) := by
  unfold tellsAssigned
  rcases handle_roles (P := P) (o := o) (w := w) (q := q) with
    ⟨r,u,hq,hr,hs,hd⟩ | ⟨hno | hs,-,hsame⟩
  · simp only [hs,hd,hq]
    cases r with
    | assignRoleToUser userId roleId =>
      cases hr
      by_cases h : ur = ⟨userId,roleId⟩ <;> simp [Write.effect,h]
    | deleteUser userId =>
      cases hr
      by_cases h : ur.userId = userId <;> simp [Write.effect,h]
    | assignPermissionToRole _ _ | removePermissionFromRole _ _ =>
      cases hr
      rfl
    | _ => cases hr
  · rw [hsame]
    split
    · rfl
    · split
      · cases hno _ ‹_›
      · cases hno _ ‹_›
      · rfl
  · simp only [hs,if_true,Option.getD_none]
    rw [hsame]

end Steps

section Runs
variable (P : Platform) (o : Readings) (w : World DB Mail) (qs : List Request)

/-- By the last word of the run, or from before it, the role grants the permission. -/
def Granted (rp : RolePermission) : Prop :=
  (lastWord (tellsGranted rp) (transcript (handle P o) w qs)).getD
    (decide (rp ∈ w.db.rolePermissions)) = true

def Assigned (ur : UserRole) : Prop :=
  (lastWord (tellsAssigned ur) (transcript (handle P o) w qs)).getD
    (decide (ur ∈ w.db.userRoles)) = true

theorem after_permissions : (after P o w qs).db.permissions = w.db.permissions := by
  induction qs generalizing w with
  | nil => rfl
  | cons q qs ih => exact (ih _).trans (handle_frame P o w q (t := .permissions) (by simp))

/-- The tables of roles are the history of the run, and so is the verdict of the guard: it lets a
user through at the end of a run just when a role that grants the permission, by the last word on
it, is by the last word a role of the user. -/
theorem guard_by_history :
    (∀ rp, rp ∈ (after P o w qs).db.rolePermissions ↔ Granted P o w qs rp) ∧
    (∀ ur, ur ∈ (after P o w qs).db.userRoles ↔ Assigned P o w qs ur) ∧
    ∀ name header t a, authorize P name header t (after P o w qs).db = .ok a ↔
      authenticate P header t (after P o w qs).db = .ok a ∧
        ∃ p ∈ w.db.permissions, p.name = name ∧
          ∃ roleId, Granted P o w qs ⟨roleId,p.id⟩ ∧ Assigned P o w qs ⟨a.id,roleId⟩ := by
  have hgranted : ∀ rp, rp ∈ (after P o w qs).db.rolePermissions ↔ Granted P o w qs rp := by
    intro rp
    have h := reads_run (fun w : World DB Mail => decide (rp ∈ w.db.rolePermissions))
      (granted_step (P := P) (o := o) rp) w qs
    rw [Granted,← h,decide_eq_true_iff]
    rfl
  have hassigned : ∀ ur, ur ∈ (after P o w qs).db.userRoles ↔ Assigned P o w qs ur := by
    intro ur
    have h := reads_run (fun w : World DB Mail => decide (ur ∈ w.db.userRoles))
      (assigned_step (P := P) (o := o) ur) w qs
    rw [Assigned,← h,decide_eq_true_iff]
    rfl
  refine ⟨hgranted,hassigned,fun name header t a => ?_⟩
  have hjoin : name ∈ permissionNames (after P o w qs).db a.id ↔
      ∃ p ∈ w.db.permissions, p.name = name ∧
        ∃ roleId, Granted P o w qs ⟨roleId,p.id⟩ ∧ Assigned P o w qs ⟨a.id,roleId⟩ := by
    rw [mem_permissionNames,after_permissions]
    constructor
    · rintro ⟨p,hp,hn,rp,hrp,hk,ur,hur,hr,hu⟩
      refine ⟨p,hp,hn,rp.roleId,?_,?_⟩
      · rw [← hk]
        exact (hgranted rp).mp hrp
      · rw [← hu,← hr]
        exact (hassigned ur).mp hur
    · rintro ⟨p,hp,hn,roleId,hrp,hur⟩
      exact ⟨p,hp,hn,_,(hgranted _).mpr hrp,rfl,_,(hassigned _).mpr hur,rfl,rfl⟩
  constructor
  · intro h
    obtain ⟨hact,hname⟩ := authorize_ok h
    exact ⟨hact,hjoin.mp hname⟩
  · rintro ⟨hact,hp⟩
    simp only [authorize,hact,hjoin.mpr hp,if_true]

end Runs

end TenantAuth
