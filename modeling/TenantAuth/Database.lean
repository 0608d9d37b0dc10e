import TenantAuth.Relational.Tables
import TenantAuth.Transact.Rules
import TenantAuth.Transact.Table
import TenantAuth.Platform
set_option autoImplicit false

/-! The tables of `app/models`, the writes that the services send, and the
constraints of the migrations that a write must satisfy. -/

namespace TenantAuth
open Transact
open Relational (varchar cut)

structure User where
  id : UUID
  email : String
  passwordHash : String
  firstName : String
  lastName : String
  isActive : Bool
  isVerified : Bool
  createdAt : Nat
  updatedAt : Nat
  deriving DecidableEq, Repr

structure Tenant where
  id : UUID
  name : String
  slug : String
  ownerId : UUID
  isActive : Bool
  createdAt : Nat
  updatedAt : Nat
  deriving DecidableEq, Repr

structure TenantMember where
  id : UUID
  tenantId : UUID
  userId : UUID
  roleId : UUID
  isActive : Bool
  joinedAt : Nat
  deriving DecidableEq, Repr

structure TenantInvitation where
  id : UUID
  tenantId : UUID
  email : String
  roleId : UUID
  tokenHash : String
  expiresAt : Nat
  acceptedAt : Option Nat
  deriving DecidableEq, Repr

structure RefreshToken where
  id : UUID
  userId : UUID
  tenantId : Option UUID
  tokenHash : String
  expiresAt : Nat
  revokedAt : Option Nat
  deriving DecidableEq, Repr

/-- `EmailVerificationToken` and `PasswordResetToken` have the same columns. -/
structure OneTimeToken where
  id : UUID
  userId : UUID
  tokenHash : String
  expiresAt : Nat
  usedAt : Option Nat
  deriving DecidableEq, Repr

abbrev EmailVerificationToken := OneTimeToken
abbrev PasswordResetToken := OneTimeToken

structure Role where
  id : UUID
  name : String
  description : String
  createdAt : Nat
  deriving DecidableEq, Repr

structure Permission where
  id : UUID
  name : String
  description : String
  createdAt : Nat
  deriving DecidableEq, Repr

structure RolePermission where
  roleId : UUID
  permissionId : UUID
  deriving DecidableEq, Repr

structure UserRole where
  userId : UUID
  roleId : UUID
  deriving DecidableEq, Repr

/-- A value of the JSON object in `audit_logs.details`. -/
inductive Detail where
  | null
  | text (s : String)
  | bool (b : Bool)
  | uuid (u : UUID)
  deriving DecidableEq, Repr

structure AuditLog where
  id : UUID
  tenantId : Option UUID
  userId : Option UUID
  action : String
  details : Option (List (String × Detail))
  ipAddress : Option String
  createdAt : Nat
  deriving DecidableEq, Repr

structure DB where
  users : List User
  tenants : List Tenant
  members : List TenantMember
  invitations : List TenantInvitation
  refreshTokens : List RefreshToken
  verificationTokens : List EmailVerificationToken
  resetTokens : List PasswordResetToken
  roles : List Role
  permissions : List Permission
  rolePermissions : List RolePermission
  userRoles : List UserRole
  auditLogs : List AuditLog
  /-- The PostgreSQL schemas that exist besides `public`. -/
  schemas : List String
  deriving DecidableEq, Repr

/-- What an IntegrityError, DataError or StaleDataError reports; a text is unfit for its column when
it is too long or has a NUL. -/
inductive Fault where
  | unique | foreignKey | notNull | unfit | stale
  deriving DecidableEq, Repr

/-- The columns of a `users` UPDATE. The inner option is SQL NULL, which the
patch schema of `update_user` lets through. -/
structure UserPatch where
  passwordHash : Option String := none
  firstName : Option (Option String) := none
  lastName : Option (Option String) := none
  isActive : Option (Option Bool) := none
  isVerified : Option Bool := none
  deriving DecidableEq, Repr

structure TenantPatch where
  name : Option String := none
  isActive : Option Bool := none
  deriving DecidableEq, Repr

structure TenantMemberPatch where
  roleId : Option UUID := none
  isActive : Option Bool := none
  deriving DecidableEq, Repr

/-- The ORM writes a column only when the assigned value differs from the loaded one. -/
def changed {α : Type} [DecidableEq α] (old : α) (new : Option α) : Option α :=
  if new = some old then none else new

def UserPatch.diff (p : UserPatch) (u : User) : UserPatch where
  passwordHash := changed u.passwordHash p.passwordHash
  firstName := changed (some u.firstName) p.firstName
  lastName := changed (some u.lastName) p.lastName
  isActive := changed (some u.isActive) p.isActive
  isVerified := changed u.isVerified p.isVerified

def TenantPatch.diff (p : TenantPatch) (t : Tenant) : TenantPatch where
  name := changed t.name p.name
  isActive := changed t.isActive p.isActive

def TenantMemberPatch.diff (p : TenantMemberPatch) (m : TenantMember) : TenantMemberPatch where
  roleId := changed m.roleId p.roleId
  isActive := changed m.isActive p.isActive

/-- `updated_at` has `onupdate=now()`. Only the names of `update_user` can be cut: other texts are
stripped, or `EmailStr`. -/
def UserPatch.apply (p : UserPatch) (now : Nat) (u : User) : User where
  id := u.id
  email := u.email
  passwordHash := p.passwordHash.getD u.passwordHash
  firstName := (p.firstName.join.map (cut 100)).getD u.firstName
  lastName := (p.lastName.join.map (cut 100)).getD u.lastName
  isActive := p.isActive.join.getD u.isActive
  isVerified := p.isVerified.getD u.isVerified
  createdAt := u.createdAt
  updatedAt := now

def TenantPatch.apply (p : TenantPatch) (now : Nat) (t : Tenant) : Tenant where
  id := t.id
  name := p.name.getD t.name
  slug := t.slug
  ownerId := t.ownerId
  isActive := p.isActive.getD t.isActive
  createdAt := t.createdAt
  updatedAt := now

def TenantMemberPatch.apply (p : TenantMemberPatch) (m : TenantMember) : TenantMember where
  id := m.id
  tenantId := m.tenantId
  userId := m.userId
  roleId := p.roleId.getD m.roleId
  isActive := p.isActive.getD m.isActive
  joinedAt := m.joinedAt

inductive Write where
  | insertUser (r : User)
  | updateUser (id : UUID) (p : UserPatch) (now : Nat)
  /-- `session.delete(user)`, with what the ORM and the database cascade. -/
  | deleteUser (id : UUID)
  | insertTenant (r : Tenant)
  | updateTenant (id : UUID) (p : TenantPatch) (now : Nat)
  | insertMember (r : TenantMember)
  | updateMember (id : UUID) (p : TenantMemberPatch)
  | insertInvitation (r : TenantInvitation)
  | acceptInvitation (id : UUID) (now : Nat)
  | insertRefreshToken (r : RefreshToken)
  | revokeRefreshToken (id : UUID) (now : Nat)
  | insertVerificationToken (r : EmailVerificationToken)
  | useVerificationToken (id : UUID) (now : Nat)
  | insertResetToken (r : PasswordResetToken)
  | useResetToken (id : UUID) (now : Nat)
  | insertAuditLog (r : AuditLog)
  | insertRolePermission (r : RolePermission)
  | deleteRolePermission (r : RolePermission)
  | insertUserRole (r : UserRole)
  | deleteUserRole (r : UserRole)
  /-- `CREATE SCHEMA IF NOT EXISTS`. -/
  | createSchema (name : String)
  deriving DecidableEq, Repr

def firstViolation : List (Bool × Fault) → Option Fault
  | [] => none
  | (ok,f) :: rest => if ok then firstViolation rest else some f

/-- The constraint a write violates, if any: primary keys, unique indexes, foreign
keys, NOT NULL, texts; an UPDATE that finds no row is stale. Hex digests, bcrypt
hashes and action names fit their columns. -/
def Write.violation : Write → DB → Option Fault
  | .insertUser r, d => firstViolation [
      (varchar 255 r.email,.unfit),(varchar 100 r.firstName,.unfit),
      (varchar 100 r.lastName,.unfit),
      (vacant User.id r.id d.users,.unique),(vacant User.email r.email d.users,.unique)]
  | .updateUser id p _, d => firstViolation [
      (p.firstName ≠ some none,.notNull),(p.lastName ≠ some none,.notNull),
      (p.isActive ≠ some none,.notNull),
      ((p.firstName.join.map (cut 100)).all (varchar 100),.unfit),
      ((p.lastName.join.map (cut 100)).all (varchar 100),.unfit),
      (present User.id id d.users,.stale)]
  -- `owned_tenants` has no delete cascade: the ORM loads it and sets `owner_id` to NULL first. A
  -- tenant that is committed behind that load would go with its owner instead.
  | .deleteUser id, d => firstViolation [
      (vacant Tenant.ownerId id d.tenants,.notNull),(present User.id id d.users,.stale)]
  | .insertTenant r, d => firstViolation [
      (varchar 255 r.name,.unfit),(varchar 100 r.slug,.unfit),
      (vacant Tenant.id r.id d.tenants,.unique),(vacant Tenant.slug r.slug d.tenants,.unique),
      (present User.id r.ownerId d.users,.foreignKey)]
  | .updateTenant id p _, d => firstViolation [
      (p.name.all (varchar 255),.unfit),(present Tenant.id id d.tenants,.stale)]
  | .insertMember r, d => firstViolation [
      (vacant TenantMember.id r.id d.members,.unique),
      (vacant (fun m => (m.tenantId,m.userId)) (r.tenantId,r.userId) d.members,.unique),
      (present Tenant.id r.tenantId d.tenants,.foreignKey),
      (present User.id r.userId d.users,.foreignKey),
      (present Role.id r.roleId d.roles,.foreignKey)]
  | .updateMember id p, d => firstViolation [
      (p.roleId.all (present Role.id · d.roles),.foreignKey),
      (present TenantMember.id id d.members,.stale)]
  | .insertInvitation r, d => firstViolation [
      (varchar 255 r.email,.unfit),(vacant TenantInvitation.id r.id d.invitations,.unique),
      (present Tenant.id r.tenantId d.tenants,.foreignKey),
      (present Role.id r.roleId d.roles,.foreignKey)]
  | .acceptInvitation id _, d => firstViolation [
      (present TenantInvitation.id id d.invitations,.stale)]
  | .insertRefreshToken r, d => firstViolation [
      (vacant RefreshToken.id r.id d.refreshTokens,.unique),
      (present User.id r.userId d.users,.foreignKey),
      (r.tenantId.all (present Tenant.id · d.tenants),.foreignKey)]
  | .revokeRefreshToken id _, d => firstViolation [
      (present RefreshToken.id id d.refreshTokens,.stale)]
  | .insertVerificationToken r, d => firstViolation [
      (vacant OneTimeToken.id r.id d.verificationTokens,.unique),
      (present User.id r.userId d.users,.foreignKey)]
  | .useVerificationToken id _, d => firstViolation [
      (present OneTimeToken.id id d.verificationTokens,.stale)]
  | .insertResetToken r, d => firstViolation [
      (vacant OneTimeToken.id r.id d.resetTokens,.unique),
      (present User.id r.userId d.users,.foreignKey)]
  | .useResetToken id _, d => firstViolation [
      (present OneTimeToken.id id d.resetTokens,.stale)]
  | .insertAuditLog r, d => firstViolation [
      (vacant AuditLog.id r.id d.auditLogs,.unique),
      (r.tenantId.all (present Tenant.id · d.tenants),.foreignKey)]
  | .insertRolePermission r, d => firstViolation [
      (vacant id r d.rolePermissions,.unique),(present Role.id r.roleId d.roles,.foreignKey),
      (present Permission.id r.permissionId d.permissions,.foreignKey)]
  | .insertUserRole r, d => firstViolation [
      (vacant id r d.userRoles,.unique),(present User.id r.userId d.users,.foreignKey),
      (present Role.id r.roleId d.roles,.foreignKey)]
  | .deleteRolePermission _, _ | .deleteUserRole _, _ | .createSchema _, _ => none

/-- What an admissible write does to the tables. -/
def Write.effect : Write → DB → DB
  | .insertUser r, d => { d with users := d.users ++ [r] }
  | .updateUser id p now, d => { d with users := update User.id id (p.apply now) d.users }
  | .deleteUser id, d => { d with
      users := delete User.id id d.users
      members := delete TenantMember.userId id d.members
      refreshTokens := delete RefreshToken.userId id d.refreshTokens
      verificationTokens := delete OneTimeToken.userId id d.verificationTokens
      resetTokens := delete OneTimeToken.userId id d.resetTokens
      userRoles := delete UserRole.userId id d.userRoles }
  | .insertTenant r, d => { d with tenants := d.tenants ++ [r] }
  | .updateTenant id p now, d => { d with tenants := update Tenant.id id (p.apply now) d.tenants }
  | .insertMember r, d => { d with members := d.members ++ [r] }
  | .updateMember id p, d => { d with members := update TenantMember.id id p.apply d.members }
  | .insertInvitation r, d => { d with invitations := d.invitations ++ [r] }
  | .acceptInvitation id now, d => { d with
      invitations := update TenantInvitation.id id
        (fun i => { i with acceptedAt := some now }) d.invitations }
  | .insertRefreshToken r, d => { d with refreshTokens := d.refreshTokens ++ [r] }
  | .revokeRefreshToken id now, d => { d with
      refreshTokens := update RefreshToken.id id
        (fun r => { r with revokedAt := some now }) d.refreshTokens }
  | .insertVerificationToken r, d => { d with
      verificationTokens := d.verificationTokens ++ [r] }
  | .useVerificationToken id now, d => { d with
      verificationTokens := update OneTimeToken.id id
        (fun r => { r with usedAt := some now }) d.verificationTokens }
  | .insertResetToken r, d => { d with resetTokens := d.resetTokens ++ [r] }
  | .useResetToken id now, d => { d with
      resetTokens := update OneTimeToken.id id
        (fun r => { r with usedAt := some now }) d.resetTokens }
  | .insertAuditLog r, d => { d with auditLogs := d.auditLogs ++ [r] }
  | .insertRolePermission r, d => { d with rolePermissions := d.rolePermissions ++ [r] }
  | .deleteRolePermission r, d => { d with rolePermissions := delete id r d.rolePermissions }
  | .insertUserRole r, d => { d with userRoles := d.userRoles ++ [r] }
  | .deleteUserRole r, d => { d with userRoles := delete id r d.userRoles }
  | .createSchema name, d => { d with
      schemas := if name ∈ d.schemas then d.schemas else d.schemas ++ [name] }

def Write.apply (w : Write) (d : DB) : Except Fault DB :=
  match w.violation d with
  | none => .ok (w.effect d)
  | some f => .error f

theorem firstViolation_eq_none {l : List (Bool × Fault)} :
    firstViolation l = none ↔ ∀ p ∈ l, p.1 = true := by
  induction l with
  | nil => simp [firstViolation]
  | cons p l ih =>
    obtain ⟨ok,f⟩ := p
    cases ok <;> simp [firstViolation,ih]

theorem firstViolation_found {α : Type} {key : α → UUID} {r : α} {l : List α} {f : Fault}
    (h : r ∈ l) : firstViolation [(present key (key r) l,f)] = none := by
  rw [firstViolation_eq_none,List.forall_mem_singleton,present_iff]
  exact List.mem_map_of_mem h

theorem Write.apply_eq_ok {w : Write} {d d' : DB} :
    w.apply d = .ok d' ↔ w.violation d = none ∧ d' = w.effect d := by
  unfold Write.apply
  cases h : w.violation d with
  | none => simp [eq_comm]
  | some f => simp

@[simp] theorem flushAll_cons {w : Write} {ws : List Write} {d d' : DB} :
    flushAll Write.apply (w :: ws) d = .ok d' ↔
      w.violation d = none ∧ flushAll Write.apply ws (w.effect d) = .ok d' := by
  rw [flushAll,Write.apply]
  cases w.violation d <;> simp

theorem flushAll_single {w : Write} {d d' : DB} :
    flushAll Write.apply [w] d = .ok d' ↔ w.violation d = none ∧ d' = w.effect d := by
  rw [flushAll_cons,flushAll_nil,Except.ok.injEq,eq_comm (a := d')]

theorem flushAll_unchanged {d d' : DB} (h : d' = d) : flushAll Write.apply [] d = .ok d' :=
  congrArg Except.ok h.symm

end TenantAuth
