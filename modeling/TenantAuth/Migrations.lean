import TenantAuth.Transact.Connection
import TenantAuth.Catalog
set_option autoImplicit false

/-! `alembic/env.py` and `alembic/versions`: what `alembic -x tenant_schema=... upgrade head`
does to the tables of a schema, and what it commits of that. -/

namespace TenantAuth
open Transact Connection

/-- Tables with their schemas, and what the `alembic_version` table of a schema holds. -/
structure Relations where
  tables : List (String × String)
  versions : List (String × String)
  deriving DecidableEq, Repr

/-- What the statements of one connection work on. -/
structure Backend where
  schemas : List String
  relations : Relations
  searchPath : List String
  deriving DecidableEq, Repr

/-- The schema in which an unqualified CREATE TABLE puts the table. -/
def Backend.target (b : Backend) : Option String := b.searchPath.find? (· ∈ b.schemas)

def Backend.visible (b : Backend) (table : String) : Prop :=
  ∃ schema ∈ b.searchPath, (schema,table) ∈ b.relations.tables

instance (b : Backend) (table : String) : Decidable (b.visible table) := by
  unfold Backend.visible
  infer_instance

inductive Statement where
  | setSearchPath (path : List String)
  /-- `op.create_table`, with the tables that its foreign keys refer to. -/
  | createTable (name : String) (references : List String)
  | createIndex (name table : String)
  | bulkInsert (table : String)
  /-- Alembic creates `alembic_version` where it is missing. -/
  | ensureVersionTable (schema : String)
  /-- Alembic writes the revision that it has reached. -/
  | stamp (schema revision : String)
  deriving DecidableEq, Repr

inductive MigrationError where
  | refused | noSchema | duplicateTable | undefinedTable
  deriving DecidableEq, Repr

def Backend.createTable (b : Backend) (schema table : String) : Backend :=
  { b with relations := { b.relations with tables := b.relations.tables ++ [(schema,table)] } }

def Statement.run : Statement → Backend → Except MigrationError Backend
  | .setSearchPath path, b => .ok { b with searchPath := path }
  | .createTable name references, b =>
    match b.target with
    | none => .error .noSchema
    | some schema =>
      if (schema,name) ∈ b.relations.tables then .error .duplicateTable
      else if ∀ table ∈ references, b.visible table then .ok (b.createTable schema name)
      else .error .undefinedTable
  | .createIndex _ table, b | .bulkInsert table, b =>
    if b.visible table then .ok b else .error .undefinedTable
  | .ensureVersionTable schema, b =>
    if (schema,"alembic_version") ∈ b.relations.tables then .ok b
    else .ok (b.createTable schema "alembic_version")
  | .stamp schema revision, b => .ok { b with relations := { b.relations with
      versions := b.relations.versions.filter (fun v => v.1 ≠ schema) ++ [(schema,revision)] } }

/-- The server may also refuse a statement for reasons of its own. -/
def Statement.sent (refuses : Statement → Bool) (st : Statement) (b : Backend) :
    Except MigrationError Backend :=
  if refuses st then .error .refused else st.run b

structure Revision where
  revision : String
  downRevision : Option String
  upgrade : List Statement
  deriving DecidableEq, Repr

namespace Schema
open Relational (Ddl)

def TableName.sql : TableName → String
  | .users => "users"
  | .roles => "roles"
  | .tenants => "tenants"
  | .tenantMembers => "tenant_members"
  | .tenantInvitations => "tenant_invitations"
  | .refreshTokens => "refresh_tokens"
  | .passwordResetTokens => "password_reset_tokens"
  | .emailVerificationTokens => "email_verification_tokens"
  | .permissions => "permissions"
  | .rolePermissions => "role_permissions"
  | .userRoles => "user_roles"
  | .auditLogs => "audit_logs"

/-- What the process sees of an operation, and of a revision: names. -/
def named : Ddl TableName ColumnName Document → Option TenantAuth.Statement
  | .createTable t => some (.createTable t.name.sql (t.foreignKeys.map fun fk => fk.target.sql))
  | .createIndex name table _ _ => some (.createIndex name table.sql)
  | .bulkInsert table (_ :: _) => some (.bulkInsert table.sql)
  | _ => none

def headed (r : Relational.Revision TableName ColumnName Document) : TenantAuth.Revision where
  revision := r.revision
  downRevision := r.downRevision
  upgrade := r.upgrade.filterMap named

end Schema

/-- The chain of `alembic/versions`, from its base to its head. -/
def revisions : List Revision := (Schema.revisions fun _ => 0).map Schema.headed

def Statement.table? : Statement → Option String
  | .createTable name _ => some name
  | _ => none

/-- The tables of all migrations. -/
def migrationTables : List String :=
  (revisions.flatMap Revision.upgrade).filterMap Statement.table?

/-- What `upgrade head` has left to do from the revision that the schema has. -/
def pendingRevisions : Option String → List Revision
  | none => revisions
  | some current => (revisions.dropWhile fun r => r.revision ≠ current).drop 1

/-- `version_table_schema`; without it the table goes where the search path says. -/
def versionSchema (tenantSchema : Option String) : String := tenantSchema.getD "public"

/-- The statements of `context.run_migrations()`. -/
def migrationStatements (tenantSchema : Option String) (b : Backend) : List Statement :=
  let schema := versionSchema tenantSchema
  let current := (b.relations.versions.find? fun v => v.1 = schema).map Prod.snd
  .ensureVersionTable schema ::
    (pendingRevisions current).flatMap fun r => r.upgrade ++ [.stamp schema r.revision]

/-- `do_run_migrations`. For a tenant a statement is executed before the block begins. -/
def doRunMigrations (refuses : Statement → Bool) (tenantSchema : Option String)
    (c : Connection Backend) : Except MigrationError Unit × Connection Backend :=
  let configured :=
    match tenantSchema with
    | some schema => c.execute ((Statement.setSearchPath [schema,"public"]).sent refuses)
    | none => (.ok (),c)
  match configured with
  | (.error e,c) => (.error e,c)
  | (.ok _,c) =>
    c.transaction (Connection.executeAll (Statement.sent refuses)
      (migrationStatements tenantSchema c.current))

/-- `run_migrations_online`, and whether the process exits with 0. -/
def upgradeHead (refuses : Statement → Bool) (tenantSchema : Option String)
    (schemas : List String) (r : Relations) : Bool × Relations :=
  let x := doRunMigrations refuses tenantSchema (.opened ⟨"public" :: schemas,r,["public"]⟩)
  (x.1.isOk,x.2.close.relations)

section
variable {refuses : Statement → Bool} {schemas : List String} {r : Relations}

/-- For a tenant the first statement opens the transaction; the block finds it open, and nobody
commits it. -/
theorem doRunMigrations_tenant (schema : String) (c : Connection Backend) :
    (doRunMigrations refuses (some schema) c).2.close = c.close := by
  have hkept := execute_committed (c := c) ((Statement.setSearchPath [schema,"public"]).sent refuses)
  have hbegun := execute_begun (c := c) ((Statement.setSearchPath [schema,"public"]).sent refuses)
  unfold doRunMigrations
  simp only []
  cases hx : c.execute ((Statement.setSearchPath [schema,"public"]).sent refuses) with
  | mk result c' =>
    rw [hx] at hkept hbegun
    cases result with
    | error e => exact hkept
    | ok _ => exact (transaction_inside hbegun _).trans hkept

theorem upgradeHead_tenant (schema : String) :
    (upgradeHead refuses (some schema) schemas r).2 = r :=
  congrArg Backend.relations (doRunMigrations_tenant schema _)

end

end TenantAuth
