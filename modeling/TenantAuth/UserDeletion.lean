import TenantAuth.RequestCommits
import TenantAuth.Seed
set_option autoImplicit false

/-! `DELETE /admin/users/{id}`. The migrations would delete the tenants of the user with him;
the ORM sets their owner to NULL first, and that the column does not take. -/

namespace TenantAuth
open Transact

/-- No row names the user. -/
structure Forgotten (d : DB) (u : UUID) : Prop where
  users : u ∉ d.users.map User.id
  tenants : u ∉ d.tenants.map Tenant.ownerId
  members : u ∉ d.members.map TenantMember.userId
  refreshTokens : u ∉ d.refreshTokens.map RefreshToken.userId
  resetTokens : u ∉ d.resetTokens.map OneTimeToken.userId
  verificationTokens : u ∉ d.verificationTokens.map OneTimeToken.userId
  userRoles : u ∉ d.userRoles.map UserRole.userId

def Owns (d : DB) (u t : UUID) : Prop := (t,u) ∈ d.tenants.map fun x => (x.id,x.ownerId)

instance (d : DB) (u t : UUID) : Decidable (Owns d u t) := by
  unfold Owns
  infer_instance

/-- A refresh token before and after: at most the tenant of its scope is gone. -/
def RefreshToken.Kept (d : DB) (u : UUID) (r r' : RefreshToken) : Prop :=
  r' = r ∨ (r' = { r with tenantId := none } ∧ ∃ t ∈ r.tenantId, Owns d u t)

/-- The rows that name neither the user nor a tenant of his are the same in both states. -/
structure Confined (d d' : DB) (u : UUID) : Prop where
  users : d'.users.filter (fun x => x.id ≠ u) = d.users.filter (fun x => x.id ≠ u)
  tenants : d'.tenants.filter (fun t => t.ownerId ≠ u) = d.tenants.filter (fun t => t.ownerId ≠ u)
  members : d'.members.filter (fun m => m.userId ≠ u ∧ ¬ Owns d u m.tenantId) =
    d.members.filter (fun m => m.userId ≠ u ∧ ¬ Owns d u m.tenantId)
  invitations : d'.invitations.filter (fun i => ¬ Owns d u i.tenantId) =
    d.invitations.filter (fun i => ¬ Owns d u i.tenantId)
  refreshTokens : List.Forall₂ (RefreshToken.Kept d u)
    (d.refreshTokens.filter fun r => r.userId ≠ u) (d'.refreshTokens.filter fun r => r.userId ≠ u)
  resetTokens : d'.resetTokens.filter (fun r => r.userId ≠ u) =
    d.resetTokens.filter (fun r => r.userId ≠ u)
  verificationTokens : d'.verificationTokens.filter (fun r => r.userId ≠ u) =
    d.verificationTokens.filter (fun r => r.userId ≠ u)
  userRoles : d'.userRoles.filter (fun r => r.userId ≠ u) =
    d.userRoles.filter (fun r => r.userId ≠ u)
  roles : d'.roles = d.roles
  permissions : d'.permissions = d.permissions
  rolePermissions : d'.rolePermissions = d.rolePermissions
  auditLogs : d'.auditLogs = d.auditLogs

/-- The request succeeds and leaves no trace of the user, and the rest as it was. -/
def DeletesUser (P : Platform) (o : Readings) (w : World DB Mail) (q : Request) (u : UUID) :
    Prop :=
  (handle P o w q).1.isSuccess = true ∧ Forgotten (handle P o w q).2.db u ∧
    Confined w.db (handle P o w q).2.db u

section
variable {d : DB} {u : UUID}

theorem forgotten_deleteUser (hv : (Write.deleteUser u).violation d = none) :
    Forgotten ((Write.deleteUser u).effect d) u := by
  have hdeleted : ∀ {α : Type} (key : α → UUID) (l : List α), u ∉ (delete key u l).map key := by
    intro α key l hu
    obtain ⟨r,hr,hk⟩ := List.mem_map.mp hu
    exact (mem_delete.mp hr).2 hk
  simp only [Write.violation,firstViolation_eq_none,List.forall_mem_cons,vacant_iff] at hv
  exact ⟨hdeleted _ _,hv.1,hdeleted _ _,hdeleted _ _,hdeleted _ _,hdeleted _ _,hdeleted _ _⟩

theorem confined_deleteUser : Confined d ((Write.deleteUser u).effect d) u where
  users := filter_delete (by simp)
  tenants := rfl
  members := filter_delete (by simp +contextual)
  invitations := rfl
  refreshTokens := by
    rw [show ((Write.deleteUser u).effect d).refreshTokens.filter (fun r => r.userId ≠ u) =
      d.refreshTokens.filter (fun r => r.userId ≠ u) from filter_delete (by simp)]
    exact List.forall₂_same.mpr fun r _ => .inl rfl
  resetTokens := filter_delete (by simp)
  verificationTokens := filter_delete (by simp)
  userRoles := filter_delete (by simp)
  roles := rfl
  permissions := rfl
  rolePermissions := rfl
  auditLogs := rfl

theorem deleteUser_exec (o : Nat → Reading) (n : Nat) (s : List Mail) {user : User}
    (hw : d.Wf) (hu : user ∈ d.users) :
    (AdminRouter.deleteUser user.id).exec Write.apply o ⟨d,d,[],n,s⟩ =
      match (Write.deleteUser user.id).apply d with
      | .ok d' => (.ok (.message "User deleted."),⟨d',d',[],n,s⟩)
      | .error f => (.fault f,⟨d,d,[.deleteUser user.id],n,s⟩) := by
  have hfound : d.users.find? (fun v => v.id = user.id) = some user :=
    find_eq_some_of_unique hu (by simp) fun v hv hp =>
      eq_of_key hw.userKey hv hu (by simpa using hp)
  unfold AdminRouter.deleteUser AuthService.userById
  simp only [exec_scalar_bind,hfound,exec_add_bind,List.nil_append,exec_commit_bind,
    flushAll]
  cases (Write.deleteUser user.id).apply d <;> rfl

theorem deleteUser_violation_iff (hu : u ∈ d.users.map User.id) :
    (Write.deleteUser u).violation d = none ↔ ∀ t ∈ d.tenants, t.ownerId ≠ u := by
  simp only [Write.violation,firstViolation_eq_none,List.forall_mem_cons,vacant_iff,present_iff]
  constructor
  · rintro ⟨hv,-⟩ t ht he
    exact hv (he ▸ List.mem_map_of_mem ht)
  · intro h
    refine ⟨fun hm => ?_,hu,by simp⟩
    obtain ⟨t,ht,he⟩ := List.mem_map.mp hm
    exact h t ht he

end

/-- A holder of `users.delete` deletes a user just when the user owns no tenant. -/
theorem deletesUser_iff {P : Platform} {o : Readings} {w : World DB Mail} {q : Request}
    {user a : User} (hr : Reachable P o w) (hu : user ∈ w.db.users)
    (hq : q.route = .admin (.deleteUser user.id)) (hadm : Admits P q (o.read w.taken).now w.db)
    (ha : authorize P "users.delete" q.authorization (o.read (endpointStart P w q)).now w.db =
      .ok a) :
    DeletesUser P o w q user.id ↔ ∀ t ∈ w.db.tenants, t.ownerId ≠ user.id := by
  obtain ⟨context,hadm⟩ := hadm
  rw [← deleteUser_violation_iff (List.mem_map_of_mem hu)]
  unfold DeletesUser
  rw [handle_eq]
  simp only [hadm,serve]
  rw [exec_admin hq ha]
  simp only [AdminRoute.endpoint]
  rw [deleteUser_exec o.read _ _ hr.wf hu]
  unfold Write.apply
  cases hv : (Write.deleteUser user.id).violation w.db with
  | none =>
    refine ⟨fun _ => rfl,fun _ => ⟨rfl,forgotten_deleteUser hv,confined_deleteUser⟩⟩
  | some f =>
    constructor
    · rintro ⟨hs,-⟩
      cases hs
    · intro h
      cases h

def Seed.administered : World DB Mail :=
  after (plainPlatform {}) (readings 0) (world [⟨1,superAdmin⟩])
    [request 1 (.tenant (.createTenant "A" "a")),request 1 (.tenant (.createTenant "B" "b")),
      request 1 (.tenant (.inviteMember 1010 "guest@example.com" tenantMember)),accepting 1010,login]

theorem Seed.reachable_administered :
    Reachable (plainPlatform {}) (readings 0) administered :=
  (Reachable.start (deployed_world (by simp) (by simp) (by decide +kernel))).after _

theorem deletesUser_iff_guest :
    DeletesUser (plainPlatform {}) (Seed.readings 0) Seed.administered
      (Seed.request 1 (.admin (.deleteUser 2))) 2 := by
  have hu : Seed.guest ∈ Seed.administered.db.users := by decide +kernel
  have hadm : Admits (plainPlatform {}) (Seed.request 1 (.admin (.deleteUser 2)))
      ((Seed.readings 0).read Seed.administered.taken).now Seed.administered.db := ⟨none,rfl⟩
  have ha : authorize (plainPlatform {}) "users.delete" (Seed.bearer (plainPlatform {}) 1 none 0)
      0 Seed.administered.db = .ok Seed.owner := by decide +kernel
  exact (deletesUser_iff Seed.reachable_administered hu rfl hadm ha).mpr (by decide +kernel)

/-- The owner of a tenant is not deleted, by himself or anybody else. -/
theorem deletesUser_fails :
    ¬ ∀ (P : Platform) (o : Readings) (w : World DB Mail) (q : Request) (user a : User),
      Reachable P o w → user ∈ w.db.users → q.route = .admin (.deleteUser user.id) →
      Admits P q (o.read w.taken).now w.db →
      authorize P "users.delete" q.authorization (o.read (endpointStart P w q)).now w.db = .ok a →
      DeletesUser P o w q user.id := by
  intro h
  have hs := (h (plainPlatform {}) (Seed.readings 0) Seed.administered
    (Seed.request 1 (.admin (.deleteUser 1))) Seed.owner Seed.owner Seed.reachable_administered
    (by decide +kernel) rfl ⟨none,rfl⟩ (by decide +kernel)).1
  have hno : (handle (plainPlatform {}) (Seed.readings 0) Seed.administered
      (Seed.request 1 (.admin (.deleteUser 1)))).1.isSuccess = false := by decide +kernel
  rw [hno] at hs
  cases hs

end TenantAuth
