import TenantAuth.Catalog
set_option autoImplicit false

namespace TenantAuth.Schema
open Transact Relational

def users : TableDef TableName ColumnName :=
  { createUsers with indexes := [⟨"ix_users_email",[.email],true⟩] }
def roles : TableDef TableName ColumnName :=
  { createRoles with indexes := [⟨"ix_roles_name",[.name],true⟩] }
def tenants : TableDef TableName ColumnName :=
  { createTenants with indexes := [⟨"ix_tenants_slug",[.slug],true⟩] }
def tenantInvitations : TableDef TableName ColumnName :=
  { createTenantInvitations with
    indexes := [⟨"ix_tenant_invitations_token_hash",[.tokenHash],false⟩] }
def refreshTokens : TableDef TableName ColumnName :=
  { createRefreshTokens with indexes := [⟨"ix_refresh_tokens_token_hash",[.tokenHash],false⟩] }
def permissions : TableDef TableName ColumnName :=
  { createPermissions with indexes := [⟨"ix_permissions_name",[.name],true⟩] }
def auditLogs : TableDef TableName ColumnName :=
  { createAuditLogs with indexes :=
      [⟨"ix_audit_logs_tenant_id",[.tenantId],false⟩,
        ⟨"ix_audit_logs_created_at",[.createdAt],false⟩] }

/-- The `created_at` of the rows whose `created_at` nobody reads, by their keys. -/
structure Stamps where
  invitations : UUID → Nat
  refreshTokens : UUID → Nat
  resetTokens : UUID → Nat
  verificationTokens : UUID → Nat

def userRecord (u : User) : Record
  | .id => some (.uuid u.id)
  | .email => some (.text u.email)
  | .passwordHash => some (.text u.passwordHash)
  | .firstName => some (.text u.firstName)
  | .lastName => some (.text u.lastName)
  | .isActive => some (.bool u.isActive)
  | .isVerified => some (.bool u.isVerified)
  | .createdAt => some (.time u.createdAt)
  | .updatedAt => some (.time u.updatedAt)
  | _ => none

def roleRecord (r : Role) : Record
  | .id => some (.uuid r.id)
  | .name => some (.text r.name)
  | .description => some (.text r.description)
  | .createdAt => some (.time r.createdAt)
  | _ => none

def tenantRecord (t : Tenant) : Record
  | .id => some (.uuid t.id)
  | .name => some (.text t.name)
  | .slug => some (.text t.slug)
  | .ownerId => some (.uuid t.ownerId)
  | .isActive => some (.bool t.isActive)
  | .createdAt => some (.time t.createdAt)
  | .updatedAt => some (.time t.updatedAt)
  | _ => none

def memberRecord (m : TenantMember) : Record
  | .id => some (.uuid m.id)
  | .tenantId => some (.uuid m.tenantId)
  | .userId => some (.uuid m.userId)
  | .roleId => some (.uuid m.roleId)
  | .isActive => some (.bool m.isActive)
  | .joinedAt => some (.time m.joinedAt)
  | _ => none

def invitationRecord (stamp : UUID → Nat) (i : TenantInvitation) : Record
  | .id => some (.uuid i.id)
  | .tenantId => some (.uuid i.tenantId)
  | .email => some (.text i.email)
  | .roleId => some (.uuid i.roleId)
  | .tokenHash => some (.text i.tokenHash)
  | .expiresAt => some (.time i.expiresAt)
  | .acceptedAt => i.acceptedAt.map .time
  | .createdAt => some (.time (stamp i.id))
  | _ => none

def refreshTokenRecord (stamp : UUID → Nat) (r : RefreshToken) : Record
  | .id => some (.uuid r.id)
  | .userId => some (.uuid r.userId)
  | .tenantId => r.tenantId.map .uuid
  | .tokenHash => some (.text r.tokenHash)
  | .expiresAt => some (.time r.expiresAt)
  | .revokedAt => r.revokedAt.map .time
  | .createdAt => some (.time (stamp r.id))
  | _ => none

def oneTimeTokenRecord (stamp : UUID → Nat) (r : OneTimeToken) : Record
  | .id => some (.uuid r.id)
  | .userId => some (.uuid r.userId)
  | .tokenHash => some (.text r.tokenHash)
  | .expiresAt => some (.time r.expiresAt)
  | .usedAt => r.usedAt.map .time
  | .createdAt => some (.time (stamp r.id))
  | _ => none

def permissionRecord (p : Permission) : Record
  | .id => some (.uuid p.id)
  | .name => some (.text p.name)
  | .description => some (.text p.description)
  | .createdAt => some (.time p.createdAt)
  | _ => none

def rolePermissionRecord (r : RolePermission) : Record
  | .roleId => some (.uuid r.roleId)
  | .permissionId => some (.uuid r.permissionId)
  | _ => none

def userRoleRecord (r : UserRole) : Record
  | .userId => some (.uuid r.userId)
  | .roleId => some (.uuid r.roleId)
  | _ => none

def auditLogRecord (r : AuditLog) : Record
  | .id => some (.uuid r.id)
  | .tenantId => r.tenantId.map .uuid
  | .userId => r.userId.map .uuid
  | .action => some (.text r.action)
  | .details => some (.json r.details)
  | .ipAddress => r.ipAddress.map .text
  | .createdAt => some (.time r.createdAt)
  | _ => none

/-- The database behind the model: after `alembic upgrade head` and the SQL file. -/
def encode (x : Stamps) (d : DB) : Tables :=
  [⟨users,d.users.map userRecord⟩,⟨roles,d.roles.map roleRecord⟩,
    ⟨tenants,d.tenants.map tenantRecord⟩,⟨createTenantMembers,d.members.map memberRecord⟩,
    ⟨tenantInvitations,d.invitations.map (invitationRecord x.invitations)⟩,
    ⟨refreshTokens,d.refreshTokens.map (refreshTokenRecord x.refreshTokens)⟩,
    ⟨createOneTimeTokens .passwordResetTokens,
      d.resetTokens.map (oneTimeTokenRecord x.resetTokens)⟩,
    ⟨createOneTimeTokens .emailVerificationTokens,
      d.verificationTokens.map (oneTimeTokenRecord x.verificationTokens)⟩,
    ⟨permissions,d.permissions.map permissionRecord⟩,
    ⟨createRolePermissions,d.rolePermissions.map rolePermissionRecord⟩,
    ⟨createUserRoles,d.userRoles.map userRoleRecord⟩,⟨auditLogs,d.auditLogs.map auditLogRecord⟩]

def catalog : List (TableDef TableName ColumnName) :=
  [users,roles,tenants,createTenantMembers,tenantInvitations,refreshTokens,
    createOneTimeTokens .passwordResetTokens,createOneTimeTokens .emailVerificationTokens,
    permissions,createRolePermissions,createUserRoles,auditLogs]

theorem tables_encode (x : Stamps) (d : DB) : (encode x d).map Relation.table = catalog := rfl

/-- The texts fit their columns. -/
structure Fits (d : DB) : Prop where
  users : ∀ u ∈ d.users, varchar 255 u.email = true ∧ varchar 255 u.passwordHash = true ∧
    varchar 100 u.firstName = true ∧ varchar 100 u.lastName = true
  roles : ∀ r ∈ d.roles, varchar 50 r.name = true ∧ varchar 255 r.description = true
  tenants : ∀ t ∈ d.tenants, varchar 255 t.name = true ∧ varchar 100 t.slug = true
  invitations : ∀ i ∈ d.invitations, varchar 255 i.email = true ∧ varchar 255 i.tokenHash = true
  refreshTokens : ∀ r ∈ d.refreshTokens, varchar 255 r.tokenHash = true
  resetTokens : ∀ r ∈ d.resetTokens, varchar 255 r.tokenHash = true
  verificationTokens : ∀ r ∈ d.verificationTokens, varchar 255 r.tokenHash = true
  permissions : ∀ p ∈ d.permissions, varchar 100 p.name = true ∧ varchar 255 p.description = true
  auditLogs : ∀ r ∈ d.auditLogs, varchar 255 r.action = true ∧
    ∀ ip ∈ r.ipAddress, varchar 45 ip = true

section
variable {x : Stamps} {d : DB}

@[simp] theorem rows_users : (encode x d).rows .users = d.users.map userRecord := rfl
@[simp] theorem rows_roles : (encode x d).rows .roles = d.roles.map roleRecord := rfl
@[simp] theorem rows_tenants : (encode x d).rows .tenants = d.tenants.map tenantRecord := rfl
@[simp] theorem rows_permissions :
    (encode x d).rows .permissions = d.permissions.map permissionRecord := rfl

theorem text_stored {n : Nat} {s : String} (h : cut n s = s) :
    some (.text (cut n s) : Value) = some (.text s) := by rw [h]

theorem rolePermissionValues_record {x : Draws} (r : RolePermission) :
    createRolePermissions.newRow (rolePermissionValues r) x = rolePermissionRecord r := by
  funext c
  cases c <;> rfl

theorem rolePermission_eq {a b : RolePermission} :
    a = b ↔ a.roleId = b.roleId ∧ a.permissionId = b.permissionId := by
  cases a
  cases b
  simp

theorem userRole_eq {a b : UserRole} : a = b ↔ a.userId = b.userId ∧ a.roleId = b.roleId := by
  cases a
  cases b
  simp

theorem sound_users : Relation.Sound (encode x d) ⟨users,d.users.map userRecord⟩ ↔
    (∀ u ∈ d.users, varchar 255 u.email = true ∧ varchar 255 u.passwordHash = true ∧
      varchar 100 u.firstName = true ∧ varchar 100 u.lastName = true) ∧
    (d.users.map User.id).Nodup ∧ (d.users.map User.email).Nodup := by
  simp [Relation.Sound,users,createUsers,TableDef.uniqueKeys,userRecord,
    List.Nodup,List.pairwise_map]

theorem sound_roles : Relation.Sound (encode x d) ⟨roles,d.roles.map roleRecord⟩ ↔
    (∀ r ∈ d.roles, varchar 50 r.name = true ∧ varchar 255 r.description = true) ∧
    (d.roles.map Role.id).Nodup ∧ (d.roles.map Role.name).Nodup := by
  simp [Relation.Sound,roles,createRoles,TableDef.uniqueKeys,roleRecord,
    List.Nodup,List.pairwise_map]

theorem sound_tenants : Relation.Sound (encode x d) ⟨tenants,d.tenants.map tenantRecord⟩ ↔
    (∀ t ∈ d.tenants, varchar 255 t.name = true ∧ varchar 100 t.slug = true) ∧
    ((d.tenants.map Tenant.id).Nodup ∧ (d.tenants.map Tenant.slug).Nodup) ∧
    d.tenants.map Tenant.ownerId ⊆ d.users.map User.id := by
  simp [Relation.Sound,tenants,createTenants,TableDef.uniqueKeys,tenantRecord,
    List.Nodup,List.pairwise_map,Dangles,List.subset_def,userRecord]

theorem sound_members :
    Relation.Sound (encode x d) ⟨createTenantMembers,d.members.map memberRecord⟩ ↔
    ((d.members.map TenantMember.id).Nodup ∧
      (d.members.map fun m => (m.tenantId,m.userId)).Nodup) ∧
    d.members.map TenantMember.roleId ⊆ d.roles.map Role.id ∧
    d.members.map TenantMember.tenantId ⊆ d.tenants.map Tenant.id ∧
    d.members.map TenantMember.userId ⊆ d.users.map User.id := by
  simp [Relation.Sound,createTenantMembers,TableDef.uniqueKeys,memberRecord,
    List.Nodup,List.pairwise_map,Dangles,List.subset_def,userRecord,roleRecord,
    tenantRecord]

theorem sound_invitations : Relation.Sound (encode x d)
      ⟨tenantInvitations,d.invitations.map (invitationRecord x.invitations)⟩ ↔
    (∀ i ∈ d.invitations, varchar 255 i.email = true ∧ varchar 255 i.tokenHash = true) ∧
    (d.invitations.map TenantInvitation.id).Nodup ∧
    d.invitations.map TenantInvitation.roleId ⊆ d.roles.map Role.id ∧
    d.invitations.map TenantInvitation.tenantId ⊆ d.tenants.map Tenant.id := by
  simp [Relation.Sound,tenantInvitations,createTenantInvitations,TableDef.uniqueKeys,
    invitationRecord,admits_nullable,List.Nodup,List.pairwise_map,Dangles,
    List.subset_def,roleRecord,tenantRecord]

theorem sound_refreshTokens : Relation.Sound (encode x d)
      ⟨refreshTokens,d.refreshTokens.map (refreshTokenRecord x.refreshTokens)⟩ ↔
    (∀ r ∈ d.refreshTokens, varchar 255 r.tokenHash = true) ∧
    (d.refreshTokens.map RefreshToken.id).Nodup ∧
    (∀ r ∈ d.refreshTokens, ∀ t ∈ r.tenantId, t ∈ d.tenants.map Tenant.id) ∧
    d.refreshTokens.map RefreshToken.userId ⊆ d.users.map User.id := by
  simp [Relation.Sound,refreshTokens,createRefreshTokens,TableDef.uniqueKeys,
    refreshTokenRecord,admits_nullable,List.Nodup,List.pairwise_map,Dangles,
    List.subset_def,userRecord,tenantRecord]

theorem sound_oneTimeTokens {name : TableName} {l : List OneTimeToken} {stamp : UUID → Nat} :
    Relation.Sound (encode x d) ⟨createOneTimeTokens name,l.map (oneTimeTokenRecord stamp)⟩ ↔
    (∀ r ∈ l, varchar 255 r.tokenHash = true) ∧ (l.map OneTimeToken.id).Nodup ∧
    l.map OneTimeToken.userId ⊆ d.users.map User.id := by
  simp [Relation.Sound,createOneTimeTokens,TableDef.uniqueKeys,
    oneTimeTokenRecord,admits_nullable,List.Nodup,List.pairwise_map,Dangles,
    List.subset_def,userRecord]

theorem sound_permissions :
    Relation.Sound (encode x d) ⟨permissions,d.permissions.map permissionRecord⟩ ↔
    (∀ p ∈ d.permissions, varchar 100 p.name = true ∧ varchar 255 p.description = true) ∧
    (d.permissions.map Permission.id).Nodup ∧ (d.permissions.map Permission.name).Nodup := by
  simp [Relation.Sound,permissions,createPermissions,TableDef.uniqueKeys,permissionRecord,
    List.Nodup,List.pairwise_map]

theorem sound_rolePermissions : Relation.Sound (encode x d)
      ⟨createRolePermissions,d.rolePermissions.map rolePermissionRecord⟩ ↔
    d.rolePermissions.Nodup ∧ d.rolePermissions.map RolePermission.roleId ⊆ d.roles.map Role.id ∧
    d.rolePermissions.map RolePermission.permissionId ⊆ d.permissions.map Permission.id := by
  simp [Relation.Sound,createRolePermissions,TableDef.uniqueKeys,rolePermissionRecord,
    List.Nodup,List.pairwise_map,Dangles,List.subset_def,roleRecord,
    permissionRecord,rolePermission_eq]

theorem sound_userRoles : Relation.Sound (encode x d)
      ⟨createUserRoles,d.userRoles.map userRoleRecord⟩ ↔
    d.userRoles.Nodup ∧ d.userRoles.map UserRole.userId ⊆ d.users.map User.id ∧
    d.userRoles.map UserRole.roleId ⊆ d.roles.map Role.id := by
  simp [Relation.Sound,createUserRoles,TableDef.uniqueKeys,userRoleRecord,
    List.Nodup,List.pairwise_map,Dangles,List.subset_def,roleRecord,userRecord,
    userRole_eq]

theorem sound_auditLogs : Relation.Sound (encode x d) ⟨auditLogs,d.auditLogs.map auditLogRecord⟩ ↔
    (∀ r ∈ d.auditLogs, varchar 255 r.action = true ∧ ∀ ip ∈ r.ipAddress, varchar 45 ip = true) ∧
    (d.auditLogs.map AuditLog.id).Nodup ∧
    ∀ r ∈ d.auditLogs, ∀ t ∈ r.tenantId, t ∈ d.tenants.map Tenant.id := by
  simp [Relation.Sound,auditLogs,createAuditLogs,TableDef.uniqueKeys,auditLogRecord,admits_nullable,
    List.Nodup,List.pairwise_map,Dangles,tenantRecord]

theorem sound_encode : (encode x d).Sound ↔ Fits d ∧ d.Wf := by
  unfold Database.Sound
  simp only [encode,List.forall_mem_cons,List.not_mem_nil,false_imp_iff,implies_true,and_true]
  rw [← encode,sound_users,sound_roles,sound_tenants,sound_members,sound_invitations,
    sound_refreshTokens,sound_oneTimeTokens,sound_oneTimeTokens,sound_permissions,
    sound_rolePermissions,sound_userRoles,sound_auditLogs]
  constructor
  · rintro ⟨⟨hfu,hu⟩,⟨hfr,hr⟩,⟨hft,ht,hto⟩,⟨hm,hmr,hmt,hmu⟩,⟨hfi,hi,hir,hit⟩,
      ⟨hfn,hn,hnt,hnu⟩,⟨hfs,hs,hsu⟩,⟨hfv,hv,hvu⟩,⟨hfp,hp⟩,⟨hg,hgr,hgp⟩,⟨hl,hlu,hlr⟩,hfa,ha,hat⟩
    exact ⟨⟨hfu,hfr,hft,hfi,hfn,hfs,hfv,hfp,hfa⟩,
      { userKey := hu.1, userEmail := hu.2, tenantKey := ht.1, tenantSlug := ht.2
        memberKey := hm.1, memberPair := hm.2, invitationKey := hi, refreshTokenKey := hn
        verificationTokenKey := hv, resetTokenKey := hs, roleKey := hr.1, roleName := hr.2
        permissionKey := hp.1, permissionName := hp.2, rolePermissionKey := hg
        userRoleKey := hl, auditLogKey := ha, tenantOwner := hto, memberTenant := hmt
        memberUser := hmu, memberRole := hmr, invitationTenant := hit, invitationRole := hir
        refreshTokenUser := hnu, refreshTokenTenant := hnt, verificationTokenUser := hvu
        resetTokenUser := hsu, rolePermissionRole := hgr, rolePermissionPermission := hgp
        userRoleUser := hlu, userRoleRole := hlr, auditLogTenant := hat }⟩
  · rintro ⟨hf,h⟩
    exact ⟨⟨hf.users,h.userKey,h.userEmail⟩,⟨hf.roles,h.roleKey,h.roleName⟩,
      ⟨hf.tenants,⟨h.tenantKey,h.tenantSlug⟩,h.tenantOwner⟩,
      ⟨⟨h.memberKey,h.memberPair⟩,h.memberRole,h.memberTenant,h.memberUser⟩,
      ⟨hf.invitations,h.invitationKey,h.invitationRole,h.invitationTenant⟩,
      ⟨hf.refreshTokens,h.refreshTokenKey,h.refreshTokenTenant,h.refreshTokenUser⟩,
      ⟨hf.resetTokens,h.resetTokenKey,h.resetTokenUser⟩,
      ⟨hf.verificationTokens,h.verificationTokenKey,h.verificationTokenUser⟩,
      ⟨hf.permissions,h.permissionKey,h.permissionName⟩,
      ⟨h.rolePermissionKey,h.rolePermissionRole,h.rolePermissionPermission⟩,
      ⟨h.userRoleKey,h.userRoleUser,h.userRoleRole⟩,hf.auditLogs,h.auditLogKey,h.auditLogTenant⟩

end

end TenantAuth.Schema
