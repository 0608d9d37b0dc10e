import TenantAuth.Transact.Simulation
import TenantAuth.Conformance
set_option autoImplicit false

namespace TenantAuth.Schema
open Transact Relational

/-- The tables in `public`, and the schemas beside it. -/
structure Server where
  tables : Tables
  schemas : List String

section Reading
variable (row : Record) (c : ColumnName)

def uuidAt : Option UUID :=
  match row c with
  | some (.uuid u) => some u
  | _ => none

def textAt : Option String :=
  match row c with
  | some (.text s) => some s
  | _ => none

def boolAt : Option Bool :=
  match row c with
  | some (.bool b) => some b
  | _ => none

def timeAt : Option Nat :=
  match row c with
  | some (.time t) => some t
  | _ => none

def documentAt : Document :=
  match row c with
  | some (.json j) => j
  | _ => none

end Reading

section Objects
variable (row : Record)

def readUser : User where
  id := (uuidAt row .id).getD 0
  email := (textAt row .email).getD ""
  passwordHash := (textAt row .passwordHash).getD ""
  firstName := (textAt row .firstName).getD ""
  lastName := (textAt row .lastName).getD ""
  isActive := (boolAt row .isActive).getD false
  isVerified := (boolAt row .isVerified).getD false
  createdAt := (timeAt row .createdAt).getD 0
  updatedAt := (timeAt row .updatedAt).getD 0

def readRole : Role where
  id := (uuidAt row .id).getD 0
  name := (textAt row .name).getD ""
  description := (textAt row .description).getD ""
  createdAt := (timeAt row .createdAt).getD 0

def readTenant : Tenant where
  id := (uuidAt row .id).getD 0
  name := (textAt row .name).getD ""
  slug := (textAt row .slug).getD ""
  ownerId := (uuidAt row .ownerId).getD 0
  isActive := (boolAt row .isActive).getD false
  createdAt := (timeAt row .createdAt).getD 0
  updatedAt := (timeAt row .updatedAt).getD 0

def readMember : TenantMember where
  id := (uuidAt row .id).getD 0
  tenantId := (uuidAt row .tenantId).getD 0
  userId := (uuidAt row .userId).getD 0
  roleId := (uuidAt row .roleId).getD 0
  isActive := (boolAt row .isActive).getD false
  joinedAt := (timeAt row .joinedAt).getD 0

def readInvitation : TenantInvitation where
  id := (uuidAt row .id).getD 0
  tenantId := (uuidAt row .tenantId).getD 0
  email := (textAt row .email).getD ""
  roleId := (uuidAt row .roleId).getD 0
  tokenHash := (textAt row .tokenHash).getD ""
  expiresAt := (timeAt row .expiresAt).getD 0
  acceptedAt := timeAt row .acceptedAt

def readRefreshToken : RefreshToken where
  id := (uuidAt row .id).getD 0
  userId := (uuidAt row .userId).getD 0
  tenantId := uuidAt row .tenantId
  tokenHash := (textAt row .tokenHash).getD ""
  expiresAt := (timeAt row .expiresAt).getD 0
  revokedAt := timeAt row .revokedAt

def readOneTimeToken : OneTimeToken where
  id := (uuidAt row .id).getD 0
  userId := (uuidAt row .userId).getD 0
  tokenHash := (textAt row .tokenHash).getD ""
  expiresAt := (timeAt row .expiresAt).getD 0
  usedAt := timeAt row .usedAt

def readPermission : Permission where
  id := (uuidAt row .id).getD 0
  name := (textAt row .name).getD ""
  description := (textAt row .description).getD ""
  createdAt := (timeAt row .createdAt).getD 0

def readRolePermission : RolePermission where
  roleId := (uuidAt row .roleId).getD 0
  permissionId := (uuidAt row .permissionId).getD 0

def readUserRole : UserRole where
  userId := (uuidAt row .userId).getD 0
  roleId := (uuidAt row .roleId).getD 0

def readAuditLog : AuditLog where
  id := (uuidAt row .id).getD 0
  tenantId := uuidAt row .tenantId
  userId := uuidAt row .userId
  action := (textAt row .action).getD ""
  details := documentAt row .details
  ipAddress := textAt row .ipAddress
  createdAt := (timeAt row .createdAt).getD 0

end Objects

def decode (g : Server) : DB where
  users := (g.tables.rows .users).map readUser
  tenants := (g.tables.rows .tenants).map readTenant
  members := (g.tables.rows .tenantMembers).map readMember
  invitations := (g.tables.rows .tenantInvitations).map readInvitation
  refreshTokens := (g.tables.rows .refreshTokens).map readRefreshToken
  verificationTokens := (g.tables.rows .emailVerificationTokens).map readOneTimeToken
  resetTokens := (g.tables.rows .passwordResetTokens).map readOneTimeToken
  roles := (g.tables.rows .roles).map readRole
  permissions := (g.tables.rows .permissions).map readPermission
  rolePermissions := (g.tables.rows .rolePermissions).map readRolePermission
  userRoles := (g.tables.rows .userRoles).map readUserRole
  auditLogs := (g.tables.rows .auditLogs).map readAuditLog
  schemas := g.schemas

section RoundTrip

theorem uuidAt_map {row : Record} {c : ColumnName} {o : Option UUID}
    (h : row c = o.map Datum.uuid) : uuidAt row c = o := by
  rw [uuidAt,h]
  cases o <;> rfl

theorem textAt_map {row : Record} {c : ColumnName} {o : Option String}
    (h : row c = o.map Datum.text) : textAt row c = o := by
  rw [textAt,h]
  cases o <;> rfl

theorem timeAt_map {row : Record} {c : ColumnName} {o : Option Nat}
    (h : row c = o.map Datum.time) : timeAt row c = o := by
  rw [timeAt,h]
  cases o <;> rfl

theorem readInvitation_record (stamp : UUID → Nat) (i : TenantInvitation) :
    readInvitation (invitationRecord stamp i) = i := by
  have haccepted : timeAt (invitationRecord stamp i) .acceptedAt = i.acceptedAt := timeAt_map rfl
  rw [readInvitation,haccepted]
  rfl

theorem readRefreshToken_record (stamp : UUID → Nat) (r : RefreshToken) :
    readRefreshToken (refreshTokenRecord stamp r) = r := by
  have htenant : uuidAt (refreshTokenRecord stamp r) .tenantId = r.tenantId := uuidAt_map rfl
  have hrevoked : timeAt (refreshTokenRecord stamp r) .revokedAt = r.revokedAt := timeAt_map rfl
  rw [readRefreshToken,htenant,hrevoked]
  rfl

theorem readOneTimeToken_record (stamp : UUID → Nat) (r : OneTimeToken) :
    readOneTimeToken (oneTimeTokenRecord stamp r) = r := by
  have hused : timeAt (oneTimeTokenRecord stamp r) .usedAt = r.usedAt := timeAt_map rfl
  rw [readOneTimeToken,hused]
  rfl

theorem readAuditLog_record (r : AuditLog) : readAuditLog (auditLogRecord r) = r := by
  have htenant : uuidAt (auditLogRecord r) .tenantId = r.tenantId := uuidAt_map rfl
  have huser : uuidAt (auditLogRecord r) .userId = r.userId := uuidAt_map rfl
  have hip : textAt (auditLogRecord r) .ipAddress = r.ipAddress := textAt_map rfl
  rw [readAuditLog,htenant,huser,hip]
  rfl

theorem read_rows {α : Type} {enc : α → Record} {dec : Record → α} {l : List α} {name : TableName}
    {g : Tables} (hrows : g.rows name = l.map enc) (h : ∀ a, dec (enc a) = a) :
    (g.rows name).map dec = l := by
  rw [hrows,List.map_map]
  exact (List.map_congr_left fun a _ => h a).trans (List.map_id l)

/-- What has been stored is read back. -/
theorem decode_encode (x : Stamps) (d : DB) : decode ⟨encode x d,d.schemas⟩ = d := by
  have husers := read_rows (rows_users (x := x) (d := d)) fun u => (rfl : readUser _ = u)
  have hroles := read_rows (rows_roles (x := x) (d := d)) fun r => (rfl : readRole _ = r)
  have htenants := read_rows (rows_tenants (x := x) (d := d)) fun t => (rfl : readTenant _ = t)
  have hpermissions := read_rows (rows_permissions (x := x) (d := d))
    fun p => (rfl : readPermission _ = p)
  have hmembers := read_rows (rfl : (encode x d).rows .tenantMembers = d.members.map memberRecord)
    fun m => (rfl : readMember _ = m)
  have hinvitations := read_rows (rfl : (encode x d).rows .tenantInvitations =
    d.invitations.map (invitationRecord x.invitations)) (readInvitation_record _)
  have hrefresh := read_rows (rfl : (encode x d).rows .refreshTokens =
    d.refreshTokens.map (refreshTokenRecord x.refreshTokens)) (readRefreshToken_record _)
  have hverify := read_rows (rfl : (encode x d).rows .emailVerificationTokens =
    d.verificationTokens.map (oneTimeTokenRecord x.verificationTokens)) (readOneTimeToken_record _)
  have hreset := read_rows (rfl : (encode x d).rows .passwordResetTokens =
    d.resetTokens.map (oneTimeTokenRecord x.resetTokens)) (readOneTimeToken_record _)
  have hgrants := read_rows (rfl : (encode x d).rows .rolePermissions =
    d.rolePermissions.map rolePermissionRecord) fun r => (rfl : readRolePermission _ = r)
  have huserRoles := read_rows (rfl : (encode x d).rows .userRoles =
    d.userRoles.map userRoleRecord) fun r => (rfl : readUserRole _ = r)
  have hlogs := read_rows (rfl : (encode x d).rows .auditLogs = d.auditLogs.map auditLogRecord)
    readAuditLog_record
  simp only [decode,husers,hroles,htenants,hpermissions,hmembers,hinvitations,hrefresh,hverify,
    hreset,hgrants,huserRoles,hlogs]

end RoundTrip

/-- `CREATE SCHEMA IF NOT EXISTS`. -/
def schemasAfter : Write → List String → List String
  | .createSchema name,schemas => if name ∈ schemas then schemas else schemas ++ [name]
  | _,schemas => schemas

def send (t : Moment) (w : Write) (g : Server) : Except Refusal Server :=
  match emitAll (statements t w g.tables) g.tables with
  | .error e => .error e
  | .ok tables => .ok ⟨tables,schemasAfter w g.schemas⟩

/-- The server has the rows of the model, and they keep to their tables. -/
def Represents (g : Server) (d : DB) : Prop :=
  ∃ x, g = ⟨encode x d,d.schemas⟩ ∧ g.tables.Sound

theorem Represents.wf {g : Server} {d : DB} (h : Represents g d) : d.Wf := by
  obtain ⟨x,rfl,hs⟩ := h
  exact (sound_encode.mp hs).2

theorem effect_schemas (w : Write) (d : DB) : (w.effect d).schemas = schemasAfter w d.schemas := by
  cases w <;> rfl

/-- The texts and digests fit their columns as they are, and a user who is deleted is still there. -/
def Storable (w : Write) (d : DB) : Prop :=
  (Uncut (texts w) ∧ ∀ s ∈ digests w, varchar 255 s = true) ∧ Loaded w d

instance (w : Write) (d : DB) : Decidable (Storable w d) := by
  unfold Storable
  infer_instance

/-- The statements implement the writes. -/
theorem implements : Implements Write.apply send Represents decode Made Storable where
  read := by
    rintro g d ⟨x,rfl,-⟩
    exact decode_encode x d
  ok := by
    rintro t w g d d' ⟨x,rfl,hs⟩ hm ⟨⟨hcut,hshort⟩,hl⟩ ha
    have hr : Regular w := ⟨hm,hcut,hshort⟩
    obtain ⟨hv,rfl⟩ := Write.apply_eq_ok.mp ha
    obtain ⟨x',hx'⟩ := (conforms t hs hr hl).1 hv
    obtain ⟨hf,hd⟩ := sound_encode.mp hs
    refine ⟨⟨encode x' (w.effect d),schemasAfter w d.schemas⟩,by rw [send,hx'],x',?_,?_⟩
    · rw [effect_schemas]
    · exact sound_encode.mpr ⟨fits_effect hf hr hv,hd.apply ha⟩
  error := by
    rintro t w g d f ⟨x,rfl,hs⟩ hm ⟨⟨hcut,hshort⟩,hl⟩ ha
    have hv : w.violation d ≠ none := by
      intro hv
      rw [Write.apply,hv] at ha
      cases ha
    obtain ⟨e,he⟩ := (conforms t hs ⟨hm,hcut,hshort⟩ hl).2 hv
    exact ⟨e,by rw [send,he]⟩

end TenantAuth.Schema
