import TenantAuth.Relational.Definitions
import TenantAuth.Seed
set_option autoImplicit false

/-! `alembic/versions` and `migrations`: the tables with their columns, keys and foreign keys, the
rows that the revisions insert, and the way back. -/

namespace TenantAuth.Schema
open Relational

inductive TableName where
  | users | roles | tenants | tenantMembers | tenantInvitations | refreshTokens
  | passwordResetTokens | emailVerificationTokens | permissions | rolePermissions | userRoles
  | auditLogs
  deriving DecidableEq, Repr

inductive ColumnName where
  | id | email | passwordHash | firstName | lastName | isActive | isVerified | createdAt | updatedAt
  | name | description | slug | ownerId | tenantId | userId | roleId | joinedAt | tokenHash
  | expiresAt | acceptedAt | revokedAt | usedAt | permissionId | action | details | ipAddress
  deriving DecidableEq, Repr

/-- What `audit_logs.details` holds: the mapper stores Python's `None` as the document `null`. -/
abbrev Document := Option (List (String × Detail))

abbrev Value := Datum Document
abbrev Tables := Database TableName ColumnName Document
abbrev Record := Row ColumnName Document

def createUsers : TableDef TableName ColumnName where
  name := .users
  columns :=
    [{ name := .id, type := .uuid },{ name := .email, type := .varchar 255 },
      { name := .passwordHash, type := .varchar 255 },{ name := .firstName, type := .varchar 100 },
      { name := .lastName, type := .varchar 100 },
      { name := .isActive, type := .boolean, default := some (.bool true) },
      { name := .isVerified, type := .boolean, default := some (.bool false) },
      { name := .createdAt, type := .timestamp, default := some .now },
      { name := .updatedAt, type := .timestamp, default := some .now }]
  keys := [[.id]]

def createRoles : TableDef TableName ColumnName where
  name := .roles
  columns :=
    [{ name := .id, type := .uuid },{ name := .name, type := .varchar 50 },
      { name := .description, type := .varchar 255 },
      { name := .createdAt, type := .timestamp, default := some .now }]
  keys := [[.id]]

def createTenants : TableDef TableName ColumnName where
  name := .tenants
  columns :=
    [{ name := .id, type := .uuid },{ name := .name, type := .varchar 255 },
      { name := .slug, type := .varchar 100 },{ name := .ownerId, type := .uuid },
      { name := .isActive, type := .boolean, default := some (.bool true) },
      { name := .createdAt, type := .timestamp, default := some .now },
      { name := .updatedAt, type := .timestamp, default := some .now }]
  keys := [[.id]]
  foreignKeys := [⟨.ownerId,.users,.id,.cascade⟩]

def createTenantMembers : TableDef TableName ColumnName where
  name := .tenantMembers
  columns :=
    [{ name := .id, type := .uuid },{ name := .tenantId, type := .uuid },
      { name := .userId, type := .uuid },{ name := .roleId, type := .uuid },
      { name := .isActive, type := .boolean, default := some (.bool true) },
      { name := .joinedAt, type := .timestamp, default := some .now }]
  keys := [[.id],[.tenantId,.userId]]
  foreignKeys :=
    [⟨.roleId,.roles,.id,.restrict⟩,⟨.tenantId,.tenants,.id,.cascade⟩,⟨.userId,.users,.id,.cascade⟩]

def createTenantInvitations : TableDef TableName ColumnName where
  name := .tenantInvitations
  columns :=
    [{ name := .id, type := .uuid },{ name := .tenantId, type := .uuid },
      { name := .email, type := .varchar 255 },{ name := .roleId, type := .uuid },
      { name := .tokenHash, type := .varchar 255 },{ name := .expiresAt, type := .timestamp },
      { name := .acceptedAt, type := .timestamp, nullable := true },
      { name := .createdAt, type := .timestamp, default := some .now }]
  keys := [[.id]]
  foreignKeys := [⟨.roleId,.roles,.id,.restrict⟩,⟨.tenantId,.tenants,.id,.cascade⟩]

def createRefreshTokens : TableDef TableName ColumnName where
  name := .refreshTokens
  columns :=
    [{ name := .id, type := .uuid },{ name := .userId, type := .uuid },
      { name := .tenantId, type := .uuid, nullable := true },
      { name := .tokenHash, type := .varchar 255 },{ name := .expiresAt, type := .timestamp },
      { name := .revokedAt, type := .timestamp, nullable := true },
      { name := .createdAt, type := .timestamp, default := some .now }]
  keys := [[.id]]
  foreignKeys := [⟨.tenantId,.tenants,.id,.setNull⟩,⟨.userId,.users,.id,.cascade⟩]

/-- `password_reset_tokens` and `email_verification_tokens`. -/
def createOneTimeTokens (name : TableName) : TableDef TableName ColumnName where
  name := name
  columns :=
    [{ name := .id, type := .uuid, default := some .genRandomUuid },
      { name := .userId, type := .uuid },{ name := .tokenHash, type := .varchar 255 },
      { name := .expiresAt, type := .timestamp },
      { name := .usedAt, type := .timestamp, nullable := true },
      { name := .createdAt, type := .timestamp, default := some .now }]
  keys := [[.id]]
  foreignKeys := [⟨.userId,.users,.id,.cascade⟩]

def createPermissions : TableDef TableName ColumnName where
  name := .permissions
  columns :=
    [{ name := .id, type := .uuid },{ name := .name, type := .varchar 100 },
      { name := .description, type := .varchar 255 },
      { name := .createdAt, type := .timestamp, default := some .now }]
  keys := [[.id]]

def createRolePermissions : TableDef TableName ColumnName where
  name := .rolePermissions
  columns := [{ name := .roleId, type := .uuid },{ name := .permissionId, type := .uuid }]
  keys := [[.roleId,.permissionId]]
  foreignKeys := [⟨.roleId,.roles,.id,.cascade⟩,⟨.permissionId,.permissions,.id,.cascade⟩]

def createUserRoles : TableDef TableName ColumnName where
  name := .userRoles
  columns := [{ name := .userId, type := .uuid },{ name := .roleId, type := .uuid }]
  keys := [[.userId,.roleId]]
  foreignKeys := [⟨.userId,.users,.id,.cascade⟩,⟨.roleId,.roles,.id,.cascade⟩]

def createAuditLogs : TableDef TableName ColumnName where
  name := .auditLogs
  columns :=
    [{ name := .id, type := .uuid, default := some .genRandomUuid },
      { name := .tenantId, type := .uuid, nullable := true },
      { name := .userId, type := .uuid, nullable := true },
      { name := .action, type := .varchar 255 },
      { name := .details, type := .jsonb, nullable := true },
      { name := .ipAddress, type := .varchar 45, nullable := true },
      { name := .createdAt, type := .timestamp, default := some .now }]
  keys := [[.id]]
  foreignKeys := [⟨.tenantId,.tenants,.id,.setNull⟩]

section Seeds
variable (now : Nat → Nat)

/-- The rows of `op.bulk_insert`; `now i` is what the `i`-th look at the clock shows. -/
def seedRoles : List Role :=
  (Seed.roles 0).zipIdx.map fun (r,i) => { r with createdAt := now i }

def seedPermissions : List Permission :=
  ((Seed.permissions 0).zipIdx 5).map fun (p,i) => { p with createdAt := now i }

def roleValues (r : Role) : List (ColumnName × Option Value) :=
  [(.id,some (.uuid r.id)),(.name,some (.text r.name)),(.description,some (.text r.description)),
    (.createdAt,some (.time r.createdAt))]

def permissionValues (p : Permission) : List (ColumnName × Option Value) :=
  [(.id,some (.uuid p.id)),(.name,some (.text p.name)),(.description,some (.text p.description)),
    (.createdAt,some (.time p.createdAt))]

def rolePermissionValues (r : RolePermission) : List (ColumnName × Option Value) :=
  [(.roleId,some (.uuid r.roleId)),(.permissionId,some (.uuid r.permissionId))]

def initialAuthSchema : Relational.Revision TableName ColumnName Document where
  revision := "202604260850"
  downRevision := none
  upgrade :=
    [.createTable createUsers,.createIndex "ix_users_email" .users [.email] true,
      .createTable createRoles,.createIndex "ix_roles_name" .roles [.name] true,
      .createTable createTenants,.createIndex "ix_tenants_slug" .tenants [.slug] true,
      .createTable createTenantMembers,.createTable createTenantInvitations,
      .createIndex "ix_tenant_invitations_token_hash" .tenantInvitations [.tokenHash] false,
      .createTable createRefreshTokens,
      .createIndex "ix_refresh_tokens_token_hash" .refreshTokens [.tokenHash] false,
      .bulkInsert .roles ((seedRoles now).map roleValues)]
  downgrade :=
    [.dropIndex "ix_refresh_tokens_token_hash",.dropTable .refreshTokens,
      .dropIndex "ix_tenant_invitations_token_hash",.dropTable .tenantInvitations,
      .dropTable .tenantMembers,.dropIndex "ix_tenants_slug",.dropTable .tenants,
      .dropIndex "ix_roles_name",.dropTable .roles,.dropIndex "ix_users_email",.dropTable .users]

def addTokens : Relational.Revision TableName ColumnName Document where
  revision := "202604260900"
  downRevision := some "202604260850"
  upgrade :=
    [.createTable (createOneTimeTokens .passwordResetTokens),
      .createTable (createOneTimeTokens .emailVerificationTokens)]
  downgrade := [.dropTable .emailVerificationTokens,.dropTable .passwordResetTokens]

def addRbacTables : Relational.Revision TableName ColumnName Document where
  revision := "202604260950"
  downRevision := some "202604260900"
  upgrade :=
    [.createTable createPermissions,.createIndex "ix_permissions_name" .permissions [.name] true,
      .createTable createRolePermissions,.createTable createUserRoles,
      .bulkInsert .permissions ((seedPermissions now).map permissionValues),
      .bulkInsert .rolePermissions (Seed.rolePermissions.map rolePermissionValues)]
  downgrade :=
    [.dropTable .userRoles,.dropTable .rolePermissions,.dropIndex "ix_permissions_name",
      .dropTable .permissions]

/-- From the base to the head. -/
def revisions : List (Relational.Revision TableName ColumnName Document) :=
  [initialAuthSchema now,addTokens,addRbacTables now]

end Seeds

/-- `001_create_audit_logs_table.sql`, where the table is not there yet. -/
def createAuditLogsTable : List (Ddl TableName ColumnName Document) :=
  [.createTable createAuditLogs,
    .createIndex "ix_audit_logs_tenant_id" .auditLogs [.tenantId] false,
    .createIndex "ix_audit_logs_created_at" .auditLogs [.createdAt] false]

end TenantAuth.Schema
