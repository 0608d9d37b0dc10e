import TenantAuth.RequestCommits
set_option autoImplicit false

namespace TenantAuth
open Transact

/-- Primary keys, unique indexes and foreign keys of the migrations. -/
structure DB.Wf (d : DB) : Prop where
  userKey : (d.users.map User.id).Nodup
  userEmail : (d.users.map User.email).Nodup
  tenantKey : (d.tenants.map Tenant.id).Nodup
  tenantSlug : (d.tenants.map Tenant.slug).Nodup
  memberKey : (d.members.map TenantMember.id).Nodup
  memberPair : (d.members.map fun m => (m.tenantId,m.userId)).Nodup
  invitationKey : (d.invitations.map TenantInvitation.id).Nodup
  refreshTokenKey : (d.refreshTokens.map RefreshToken.id).Nodup
  verificationTokenKey : (d.verificationTokens.map OneTimeToken.id).Nodup
  resetTokenKey : (d.resetTokens.map OneTimeToken.id).Nodup
  roleKey : (d.roles.map Role.id).Nodup
  roleName : (d.roles.map Role.name).Nodup
  permissionKey : (d.permissions.map Permission.id).Nodup
  permissionName : (d.permissions.map Permission.name).Nodup
  rolePermissionKey : d.rolePermissions.Nodup
  userRoleKey : d.userRoles.Nodup
  auditLogKey : (d.auditLogs.map AuditLog.id).Nodup
  tenantOwner : d.tenants.map Tenant.ownerId ⊆ d.users.map User.id
  memberTenant : d.members.map TenantMember.tenantId ⊆ d.tenants.map Tenant.id
  memberUser : d.members.map TenantMember.userId ⊆ d.users.map User.id
  memberRole : d.members.map TenantMember.roleId ⊆ d.roles.map Role.id
  invitationTenant : d.invitations.map TenantInvitation.tenantId ⊆ d.tenants.map Tenant.id
  invitationRole : d.invitations.map TenantInvitation.roleId ⊆ d.roles.map Role.id
  refreshTokenUser : d.refreshTokens.map RefreshToken.userId ⊆ d.users.map User.id
  refreshTokenTenant : ∀ r ∈ d.refreshTokens, ∀ t ∈ r.tenantId, t ∈ d.tenants.map Tenant.id
  verificationTokenUser : d.verificationTokens.map OneTimeToken.userId ⊆ d.users.map User.id
  resetTokenUser : d.resetTokens.map OneTimeToken.userId ⊆ d.users.map User.id
  rolePermissionRole : d.rolePermissions.map RolePermission.roleId ⊆ d.roles.map Role.id
  rolePermissionPermission :
    d.rolePermissions.map RolePermission.permissionId ⊆ d.permissions.map Permission.id
  userRoleUser : d.userRoles.map UserRole.userId ⊆ d.users.map User.id
  userRoleRole : d.userRoles.map UserRole.roleId ⊆ d.roles.map Role.id
  auditLogTenant : ∀ r ∈ d.auditLogs, ∀ t ∈ r.tenantId, t ∈ d.tenants.map Tenant.id

section Writes
variable {d : DB}

theorem DB.Wf.insertUser {r : User} (h : d.Wf)
    (hv : (Write.insertUser r).violation d = none) :
    ((Write.insertUser r).effect d).Wf := by
  simp only [Write.violation,firstViolation_eq_none,List.forall_mem_cons,vacant_iff] at hv
  obtain ⟨-,-,-,hid,hemail,-⟩ := hv
  exact { h with
    userKey := nodup_append_key h.userKey hid
    userEmail := nodup_append_key h.userEmail hemail
    tenantOwner := subset_insert_target r h.tenantOwner
    memberUser := subset_insert_target r h.memberUser
    refreshTokenUser := subset_insert_target r h.refreshTokenUser
    verificationTokenUser := subset_insert_target r h.verificationTokenUser
    resetTokenUser := subset_insert_target r h.resetTokenUser
    userRoleUser := subset_insert_target r h.userRoleUser }

theorem DB.Wf.updateUser {id : UUID} {p : UserPatch} {now : Nat} (h : d.Wf) :
    ((Write.updateUser id p now).effect d).Wf := by
  have hid : (update User.id id (p.apply now) d.users).map User.id = d.users.map User.id :=
    map_update User.id id (f := p.apply now) (fun _ => rfl) d.users
  have hemail : (update User.id id (p.apply now) d.users).map User.email =
      d.users.map User.email := map_update User.id id (f := p.apply now) (fun _ => rfl) d.users
  exact { h with
    userKey := hid ▸ h.userKey
    userEmail := hemail ▸ h.userEmail
    tenantOwner := hid ▸ h.tenantOwner
    memberUser := hid ▸ h.memberUser
    refreshTokenUser := hid ▸ h.refreshTokenUser
    verificationTokenUser := hid ▸ h.verificationTokenUser
    resetTokenUser := hid ▸ h.resetTokenUser
    userRoleUser := hid ▸ h.userRoleUser }

theorem DB.Wf.deleteUser {id : UUID} (h : d.Wf)
    (hv : (Write.deleteUser id).violation d = none) :
    ((Write.deleteUser id).effect d).Wf := by
  simp only [Write.violation,firstViolation_eq_none,List.forall_mem_cons,vacant_iff] at hv
  exact { h with
    userKey := nodup_delete h.userKey
    userEmail := nodup_delete h.userEmail
    memberKey := nodup_delete h.memberKey
    memberPair := nodup_delete h.memberPair
    refreshTokenKey := nodup_delete h.refreshTokenKey
    verificationTokenKey := nodup_delete h.verificationTokenKey
    resetTokenKey := nodup_delete h.resetTokenKey
    userRoleKey := h.userRoleKey.sublist (delete_sublist _ _ _)
    tenantOwner := subset_delete_target h.tenantOwner hv.1
    memberTenant := subset_delete_source id h.memberTenant
    memberUser := subset_delete_cascade id h.memberUser
    memberRole := subset_delete_source id h.memberRole
    refreshTokenUser := subset_delete_cascade id h.refreshTokenUser
    refreshTokenTenant := fun r hr => h.refreshTokenTenant r (mem_delete.mp hr).1
    verificationTokenUser := subset_delete_cascade id h.verificationTokenUser
    resetTokenUser := subset_delete_cascade id h.resetTokenUser
    userRoleUser := subset_delete_cascade id h.userRoleUser
    userRoleRole := subset_delete_source id h.userRoleRole }

theorem DB.Wf.insertTenant {r : Tenant} (h : d.Wf)
    (hv : (Write.insertTenant r).violation d = none) :
    ((Write.insertTenant r).effect d).Wf := by
  simp only [Write.violation,firstViolation_eq_none,List.forall_mem_cons,vacant_iff,
    present_iff] at hv
  obtain ⟨-,-,hid,hslug,howner,-⟩ := hv
  exact { h with
    tenantKey := nodup_append_key h.tenantKey hid
    tenantSlug := nodup_append_key h.tenantSlug hslug
    tenantOwner := subset_insert_source h.tenantOwner howner
    memberTenant := subset_insert_target r h.memberTenant
    invitationTenant := subset_insert_target r h.invitationTenant
    refreshTokenTenant := optional_insert_target r h.refreshTokenTenant
    auditLogTenant := optional_insert_target r h.auditLogTenant }

theorem DB.Wf.updateTenant {id : UUID} {p : TenantPatch} {now : Nat} (h : d.Wf) :
    ((Write.updateTenant id p now).effect d).Wf := by
  have hid : (update Tenant.id id (p.apply now) d.tenants).map Tenant.id =
      d.tenants.map Tenant.id := map_update Tenant.id id (f := p.apply now) (fun _ => rfl) d.tenants
  have hslug : (update Tenant.id id (p.apply now) d.tenants).map Tenant.slug =
      d.tenants.map Tenant.slug := map_update Tenant.id id (f := p.apply now) (fun _ => rfl) d.tenants
  have howner : (update Tenant.id id (p.apply now) d.tenants).map Tenant.ownerId =
      d.tenants.map Tenant.ownerId := map_update Tenant.id id (f := p.apply now) (fun _ => rfl) d.tenants
  exact { h with
    tenantKey := hid ▸ h.tenantKey
    tenantSlug := hslug ▸ h.tenantSlug
    tenantOwner := howner ▸ h.tenantOwner
    memberTenant := hid ▸ h.memberTenant
    invitationTenant := hid ▸ h.invitationTenant
    refreshTokenTenant := hid ▸ h.refreshTokenTenant
    auditLogTenant := hid ▸ h.auditLogTenant }

theorem DB.Wf.insertMember {r : TenantMember} (h : d.Wf)
    (hv : (Write.insertMember r).violation d = none) :
    ((Write.insertMember r).effect d).Wf := by
  simp only [Write.violation,firstViolation_eq_none,List.forall_mem_cons,vacant_iff,
    present_iff] at hv
  obtain ⟨hid,hpair,htenant,huser,hrole,-⟩ := hv
  exact { h with
    memberKey := nodup_append_key h.memberKey hid
    memberPair := nodup_append_key h.memberPair hpair
    memberTenant := subset_insert_source h.memberTenant htenant
    memberUser := subset_insert_source h.memberUser huser
    memberRole := subset_insert_source h.memberRole hrole }

theorem DB.Wf.updateMember {id : UUID} {p : TenantMemberPatch} (h : d.Wf)
    (hv : (Write.updateMember id p).violation d = none) :
    ((Write.updateMember id p).effect d).Wf := by
  simp only [Write.violation,firstViolation_eq_none,List.forall_mem_cons] at hv
  have hmap : ∀ {β : Type} {g : TenantMember → β}, (∀ m, g (p.apply m) = g m) →
      (update TenantMember.id id p.apply d.members).map g = d.members.map g :=
    fun hg => map_update TenantMember.id id hg d.members
  have hid := hmap (g := TenantMember.id) fun _ => rfl
  have hpair := hmap (g := fun m => (m.tenantId,m.userId)) fun _ => rfl
  have htenant := hmap (g := TenantMember.tenantId) fun _ => rfl
  have huser := hmap (g := TenantMember.userId) fun _ => rfl
  have hrole : (update TenantMember.id id p.apply d.members).map TenantMember.roleId ⊆
      d.roles.map Role.id := by
    intro k hk
    obtain ⟨m,hm,rfl⟩ := List.mem_map.mp hk
    rcases mem_update.mp hm with ⟨m',hm',-,rfl⟩ | ⟨hm',-⟩
    · cases hp : p.roleId with
      | none => simpa [TenantMemberPatch.apply,hp] using h.memberRole (List.mem_map_of_mem hm')
      | some roleId => simpa [TenantMemberPatch.apply,hp] using hv.1
    · exact h.memberRole (List.mem_map_of_mem hm')
  exact { h with
    memberKey := hid ▸ h.memberKey
    memberPair := hpair ▸ h.memberPair
    memberTenant := htenant ▸ h.memberTenant
    memberUser := huser ▸ h.memberUser
    memberRole := hrole }

theorem DB.Wf.insertInvitation {r : TenantInvitation} (h : d.Wf)
    (hv : (Write.insertInvitation r).violation d = none) :
    ((Write.insertInvitation r).effect d).Wf := by
  simp only [Write.violation,firstViolation_eq_none,List.forall_mem_cons,vacant_iff,
    present_iff] at hv
  obtain ⟨-,hid,htenant,hrole,-⟩ := hv
  exact { h with
    invitationKey := nodup_append_key h.invitationKey hid
    invitationTenant := subset_insert_source h.invitationTenant htenant
    invitationRole := subset_insert_source h.invitationRole hrole }

theorem DB.Wf.acceptInvitation {id : UUID} {now : Nat} (h : d.Wf) :
    ((Write.acceptInvitation id now).effect d).Wf := by
  have hmap : ∀ {β : Type} {g : TenantInvitation → β},
      (∀ i : TenantInvitation, g { i with acceptedAt := some now } = g i) →
      (update TenantInvitation.id id (fun i => { i with acceptedAt := some now })
        d.invitations).map g = d.invitations.map g :=
    fun hg => map_update TenantInvitation.id id hg d.invitations
  have hid := hmap (g := TenantInvitation.id) fun _ => rfl
  have htenant := hmap (g := TenantInvitation.tenantId) fun _ => rfl
  have hrole := hmap (g := TenantInvitation.roleId) fun _ => rfl
  exact { h with
    invitationKey := hid ▸ h.invitationKey
    invitationTenant := htenant ▸ h.invitationTenant
    invitationRole := hrole ▸ h.invitationRole }

theorem DB.Wf.insertRefreshToken {r : RefreshToken} (h : d.Wf)
    (hv : (Write.insertRefreshToken r).violation d = none) :
    ((Write.insertRefreshToken r).effect d).Wf := by
  simp only [Write.violation,firstViolation_eq_none,List.forall_mem_cons,vacant_iff,
    present_iff,all_present_iff] at hv
  obtain ⟨hid,huser,htenant,-⟩ := hv
  exact { h with
    refreshTokenKey := nodup_append_key h.refreshTokenKey hid
    refreshTokenUser := subset_insert_source h.refreshTokenUser huser
    refreshTokenTenant := optional_insert_source h.refreshTokenTenant htenant }

theorem DB.Wf.revokeRefreshToken {id : UUID} {now : Nat} (h : d.Wf) :
    ((Write.revokeRefreshToken id now).effect d).Wf := by
  have hmap : ∀ {β : Type} {g : RefreshToken → β},
      (∀ r : RefreshToken, g { r with revokedAt := some now } = g r) →
      (update RefreshToken.id id (fun r => { r with revokedAt := some now })
        d.refreshTokens).map g = d.refreshTokens.map g :=
    fun hg => map_update RefreshToken.id id hg d.refreshTokens
  have hid := hmap (g := RefreshToken.id) fun _ => rfl
  have huser := hmap (g := RefreshToken.userId) fun _ => rfl
  have htenant : ∀ r' ∈ update RefreshToken.id id (fun r => { r with revokedAt := some now })
      d.refreshTokens, ∀ t ∈ r'.tenantId, t ∈ d.tenants.map Tenant.id := by
    intro r' hr'
    rcases mem_update.mp hr' with ⟨r,hr,-,rfl⟩ | ⟨hr,-⟩
    · exact h.refreshTokenTenant r hr
    · exact h.refreshTokenTenant r' hr
  exact { h with
    refreshTokenKey := hid ▸ h.refreshTokenKey
    refreshTokenUser := huser ▸ h.refreshTokenUser
    refreshTokenTenant := htenant }

theorem DB.Wf.insertVerificationToken {r : EmailVerificationToken} (h : d.Wf)
    (hv : (Write.insertVerificationToken r).violation d = none) :
    ((Write.insertVerificationToken r).effect d).Wf := by
  simp only [Write.violation,firstViolation_eq_none,List.forall_mem_cons,vacant_iff,
    present_iff] at hv
  exact { h with
    verificationTokenKey := nodup_append_key h.verificationTokenKey hv.1
    verificationTokenUser := subset_insert_source h.verificationTokenUser hv.2.1 }

theorem DB.Wf.useVerificationToken {id : UUID} {now : Nat} (h : d.Wf) :
    ((Write.useVerificationToken id now).effect d).Wf := by
  have hid := map_update OneTimeToken.id id (g := OneTimeToken.id)
    (f := fun r => { r with usedAt := some now }) (fun _ => rfl) d.verificationTokens
  have huser := map_update OneTimeToken.id id (g := OneTimeToken.userId)
    (f := fun r => { r with usedAt := some now }) (fun _ => rfl) d.verificationTokens
  exact { h with
    verificationTokenKey := hid ▸ h.verificationTokenKey
    verificationTokenUser := huser ▸ h.verificationTokenUser }

theorem DB.Wf.insertResetToken {r : PasswordResetToken} (h : d.Wf)
    (hv : (Write.insertResetToken r).violation d = none) :
    ((Write.insertResetToken r).effect d).Wf := by
  simp only [Write.violation,firstViolation_eq_none,List.forall_mem_cons,vacant_iff,
    present_iff] at hv
  exact { h with
    resetTokenKey := nodup_append_key h.resetTokenKey hv.1
    resetTokenUser := subset_insert_source h.resetTokenUser hv.2.1 }

theorem DB.Wf.useResetToken {id : UUID} {now : Nat} (h : d.Wf) :
    ((Write.useResetToken id now).effect d).Wf := by
  have hid := map_update OneTimeToken.id id (g := OneTimeToken.id)
    (f := fun r => { r with usedAt := some now }) (fun _ => rfl) d.resetTokens
  have huser := map_update OneTimeToken.id id (g := OneTimeToken.userId)
    (f := fun r => { r with usedAt := some now }) (fun _ => rfl) d.resetTokens
  exact { h with
    resetTokenKey := hid ▸ h.resetTokenKey
    resetTokenUser := huser ▸ h.resetTokenUser }

theorem DB.Wf.insertAuditLog {r : AuditLog} (h : d.Wf)
    (hv : (Write.insertAuditLog r).violation d = none) :
    ((Write.insertAuditLog r).effect d).Wf := by
  simp only [Write.violation,firstViolation_eq_none,List.forall_mem_cons,vacant_iff,
    all_present_iff] at hv
  obtain ⟨hid,htenant,-⟩ := hv
  exact { h with
    auditLogKey := nodup_append_key h.auditLogKey hid
    auditLogTenant := optional_insert_source h.auditLogTenant htenant }

theorem DB.Wf.insertRolePermission {r : RolePermission} (h : d.Wf)
    (hv : (Write.insertRolePermission r).violation d = none) :
    ((Write.insertRolePermission r).effect d).Wf := by
  simp only [Write.violation,firstViolation_eq_none,List.forall_mem_cons,vacant_iff,
    present_iff] at hv
  obtain ⟨hid,hrole,hpermission,-⟩ := hv
  exact { h with
    rolePermissionKey := nodup_append_row h.rolePermissionKey hid
    rolePermissionRole := subset_insert_source h.rolePermissionRole hrole
    rolePermissionPermission := subset_insert_source h.rolePermissionPermission hpermission }

theorem DB.Wf.deleteRolePermission {r : RolePermission} (h : d.Wf) :
    ((Write.deleteRolePermission r).effect d).Wf :=
  { h with
    rolePermissionKey := h.rolePermissionKey.sublist (delete_sublist _ _ _)
    rolePermissionRole := subset_delete_source r h.rolePermissionRole
    rolePermissionPermission := subset_delete_source r h.rolePermissionPermission }

theorem DB.Wf.insertUserRole {r : UserRole} (h : d.Wf)
    (hv : (Write.insertUserRole r).violation d = none) :
    ((Write.insertUserRole r).effect d).Wf := by
  simp only [Write.violation,firstViolation_eq_none,List.forall_mem_cons,vacant_iff,
    present_iff] at hv
  obtain ⟨hid,huser,hrole,-⟩ := hv
  exact { h with
    userRoleKey := nodup_append_row h.userRoleKey hid
    userRoleUser := subset_insert_source h.userRoleUser huser
    userRoleRole := subset_insert_source h.userRoleRole hrole }

theorem DB.Wf.deleteUserRole {r : UserRole} (h : d.Wf) :
    ((Write.deleteUserRole r).effect d).Wf :=
  { h with
    userRoleKey := h.userRoleKey.sublist (delete_sublist _ _ _)
    userRoleUser := subset_delete_source r h.userRoleUser
    userRoleRole := subset_delete_source r h.userRoleRole }

end Writes

/-- No write that satisfies its constraints breaks the schema. -/
theorem DB.Wf.apply {w : Write} {d d' : DB} (h : d.Wf) (ha : w.apply d = .ok d') : d'.Wf := by
  obtain ⟨hv,rfl⟩ := Write.apply_eq_ok.mp ha
  cases w with
  | insertUser => exact h.insertUser hv
  | updateUser => exact h.updateUser
  | deleteUser => exact h.deleteUser hv
  | insertTenant => exact h.insertTenant hv
  | updateTenant => exact h.updateTenant
  | insertMember => exact h.insertMember hv
  | updateMember => exact h.updateMember hv
  | insertInvitation => exact h.insertInvitation hv
  | acceptInvitation => exact h.acceptInvitation
  | insertRefreshToken => exact h.insertRefreshToken hv
  | revokeRefreshToken => exact h.revokeRefreshToken
  | insertVerificationToken => exact h.insertVerificationToken hv
  | useVerificationToken => exact h.useVerificationToken
  | insertResetToken => exact h.insertResetToken hv
  | useResetToken => exact h.useResetToken
  | insertAuditLog => exact h.insertAuditLog hv
  | insertRolePermission => exact h.insertRolePermission hv
  | deleteRolePermission => exact h.deleteRolePermission
  | insertUserRole => exact h.insertUserRole hv
  | deleteUserRole => exact h.deleteUserRole
  | createSchema => exact { h with }

theorem DB.Wf.flushAll {ws : List Write} {d d' : DB} (h : d.Wf)
    (hf : flushAll Write.apply ws d = .ok d') : d'.Wf :=
  flushAll_rel (Keeps.ofInv fun _ ha h => DB.Wf.apply h ha)
    (fun w _ => (trivial : (fun _ => True) w)) hf h

section Reachability
variable (P : Platform) (o : Readings)

/-- The database when the application starts: migrated and seeded, with whatever users
the operator has put there, and no tenants or tokens yet. -/
structure Deployed (d : DB) : Prop where
  wf : d.Wf
  tenants : d.tenants = []
  members : d.members = []
  invitations : d.invitations = []
  refreshTokens : d.refreshTokens = []
  verificationTokens : d.verificationTokens = []
  resetTokens : d.resetTokens = []
  auditLogs : d.auditLogs = []

/-- The states that requests, served one after the other, lead to. -/
inductive Reachable : World DB Mail → Prop
  | start {w : World DB Mail} (h : Deployed w.db) : Reachable w
  | serve {w : World DB Mail} (h : Reachable w) (q : Request) : Reachable (handle P o w q).2

def after (w : World DB Mail) (qs : List Request) : World DB Mail :=
  qs.foldl (fun w q => (handle P o w q).2) w

variable {P o}

theorem after_append {w : World DB Mail} {qs : List Request} (qs' : List Request) :
    after P o w (qs ++ qs') = after P o (after P o w qs) qs' := List.foldl_append

theorem after_taken_le {w : World DB Mail} {qs : List Request} :
    w.taken ≤ (after P o w qs).taken := by
  induction qs generalizing w with
  | nil => exact Nat.le_refl _
  | cons q qs ih => exact (handle_taken_le P o w q).trans ih

theorem handle_wf {w : World DB Mail} (h : w.db.Wf) (q : Request) :
    (handle P o w q).2.db.Wf := by
  obtain ⟨ws,_,hf⟩ := handle_commits P o w q
  exact h.flushAll hf

theorem Reachable.wf {w : World DB Mail} (h : Reachable P o w) : w.db.Wf := by
  induction h with
  | start h => exact h.wf
  | serve _ q ih => exact handle_wf ih q

theorem Reachable.after {w : World DB Mail} (h : Reachable P o w) (qs : List Request) :
    Reachable P o (after P o w qs) := by
  induction qs generalizing w with
  | nil => exact h
  | cons q qs ih => exact ih (h.serve q)

end Reachability

end TenantAuth
