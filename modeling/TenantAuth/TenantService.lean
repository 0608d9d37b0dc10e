import TenantAuth.AuthService
set_option autoImplicit false

/-! `tenant_service.py` and the logger of `audit_service.py`. -/

namespace TenantAuth
open Transact

/-- `uuid.hex`: 32 hexadecimal digits. -/
def hex (u : UUID) : String :=
  let digits := Nat.toDigits 16 u
  String.ofList (List.replicate (32-digits.length) '0' ++ digits)

namespace TenantSchemaService

def buildSchemaName (tenantId : UUID) : String := "tenant_" ++ hex tenantId

def createSchema (tenantId : UUID) : App String := do
  add (.createSchema (buildSchemaName tenantId))
  flush
  pure (buildSchemaName tenantId)

/-- The subprocess works on its own connection and only inside the tenant's schema,
so none of the tables here change. -/
def runMigrationsForSchema (tenantId : UUID) : App String := do
  match ← reading Reading.migrated with
  | true => pure (buildSchemaName tenantId)
  | false => Transact.raise .calledProcessError

end TenantSchemaService

/-- An invitation as `invite_member` returns it, with the token it does not store. -/
structure IssuedInvitation where
  invitation : TenantInvitation
  rawToken : String
  deriving DecidableEq, Repr

namespace TenantService

def roleNotSeeded : AppError :=
  ⟨500,"ROLE_NOT_FOUND","Tenant admin role has not been seeded."⟩
def tenantNotFound : AppError := ⟨404,"TENANT_NOT_FOUND","Tenant not found."⟩
def roleNotFound : AppError := ⟨404,"ROLE_NOT_FOUND","Role not found."⟩
def invitationNotFound : AppError :=
  ⟨404,"INVITATION_NOT_FOUND","Invitation not found or already accepted."⟩
def invitationExpired : AppError := ⟨400,"INVITATION_EXPIRED","Invitation has expired."⟩
def invitationEmailMismatch : AppError :=
  ⟨403,"INVITATION_EMAIL_MISMATCH","Invitation email does not match the authenticated user."⟩
def alreadyMember : AppError :=
  ⟨409,"ALREADY_MEMBER","User is already a member of this tenant."⟩
def memberNotFound : AppError := ⟨404,"MEMBER_NOT_FOUND","Member not found."⟩

/-- The new tenant in an open transaction: the row, then its owner's membership. -/
def addTenant (P : Platform) (name slug : String) (ownerId : UUID) : App UUID := do
  let id ← uuid4
  let created ← now
  add (.insertTenant ⟨id,strip name,P.lower (strip slug),ownerId,true,created,created⟩)
  flush
  let some tenantAdminRole ← scalar DB.roles (fun r => r.name = "tenant_admin")
    | roleNotSeeded.raise
  let memberId ← uuid4
  let joined ← now
  add (.insertMember ⟨memberId,id,ownerId,tenantAdminRole.id,true,joined⟩)
  pure id

def createTenant (P : Platform) (name slug : String) (ownerId : UUID) : App Tenant := do
  let id ← addTenant P name slug ownerId
  match P.settings.multiTenantMode with
  | .schema =>
    let _ ← TenantSchemaService.createSchema id
    commit
    let _ ← TenantSchemaService.runMigrationsForSchema id
    refreshRow DB.tenants fun t => t.id = id
  | .row =>
    commit
    refreshRow DB.tenants fun t => t.id = id

def getTenant (tenantId : UUID) : App (Option Tenant) :=
  scalar DB.tenants fun t => t.id = tenantId ∧ t.isActive

def getMembership (tenantId userId : UUID) : App (Option TenantMember) :=
  scalar DB.members fun m => m.tenantId = tenantId ∧ m.userId = userId ∧ m.isActive

/-- The join of `list_user_tenants`, before ordering. -/
def userTenantJoin (d : DB) (userId : UUID) : List Tenant :=
  d.tenants.flatMap fun t =>
    (d.members.filter fun m =>
      m.tenantId = t.id ∧ m.userId = userId ∧ m.isActive ∧ t.isActive).map fun _ => t

def listUserTenants (userId : UUID) : App (List Tenant) :=
  select fun d => (userTenantJoin d userId).mergeSort fun a b => b.createdAt ≤ a.createdAt

/-- Assign columns of a loaded tenant; the UPDATE waits for the next flush. -/
def setTenant (t : Tenant) (p : TenantPatch) : App Unit := do
  let at' ← now
  if p.diff t = {} then pure () else add (.updateTenant t.id (p.diff t) at')

def setMember (m : TenantMember) (p : TenantMemberPatch) : App Unit :=
  if p.diff m = {} then pure () else add (.updateMember m.id (p.diff m))

def updateTenant (tenantId : UUID) (name : Option String) (isActive : Option Bool) :
    App Tenant := do
  let some tenant ← getTenant tenantId | tenantNotFound.raise
  setTenant tenant { name := name.map strip, isActive := isActive }
  commit
  refreshRow DB.tenants fun t => t.id = tenant.id

def deleteTenant (tenantId : UUID) : App Unit := do
  let some tenant ← getTenant tenantId | tenantNotFound.raise
  setTenant tenant { isActive := some false }
  commit

/-- A member with the `user` and `role` that `session.refresh` loads. -/
structure MemberView where
  member : TenantMember
  user : Option User
  role : Option Role
  deriving DecidableEq, Repr

def listMembers (tenantId : UUID) : App (List MemberView) :=
  select fun d =>
    ((d.members.filter fun m => m.tenantId = tenantId ∧ m.isActive).mergeSort
      fun a b => b.joinedAt ≤ a.joinedAt).map fun m =>
        ⟨m,d.users.find? (fun u => u.id = m.userId),d.roles.find? (fun r => r.id = m.roleId)⟩

def inviteMember (P : Platform) (tenantId : UUID) (email : String) (roleId : UUID) :
    App IssuedInvitation := do
  let some _ ← scalar DB.roles (fun r => r.id = roleId) | roleNotFound.raise
  let token ← reading Reading.secret
  let expiresAt := (← now) + timedeltaDays 7
  let id ← uuid4
  add (.insertInvitation
    ⟨id,tenantId,P.lower (strip email),roleId,P.sha256 token,expiresAt,none⟩)
  commit
  let invitation ← refreshRow DB.invitations fun i => i.id = id
  pure ⟨invitation,token⟩

def pendingInvitation (P : Platform) (token : String) : App (Option TenantInvitation) :=
  scalar DB.invitations fun i => i.tokenHash = P.sha256 token ∧ i.acceptedAt = none

def acceptInvitation (P : Platform) (token : String) (userId : UUID) : App TenantMember := do
  let some invitation ← pendingInvitation P token | invitationNotFound.raise
  invitationExpired.raiseIf (invitation.expiresAt < (← now))
  let user ← scalar DB.users fun u => u.id = userId
  invitationEmailMismatch.raiseIf
    ¬ (user.any fun u => P.lower u.email = P.lower invitation.email)
  add (.acceptInvitation invitation.id (← now))
  let existing ← getMembership invitation.tenantId userId
  alreadyMember.raiseIf existing.isSome
  let id ← uuid4
  let joined ← now
  add (.insertMember ⟨id,invitation.tenantId,userId,invitation.roleId,true,joined⟩)
  commit
  refreshRow DB.members fun m => m.id = id

def updateMemberRole (tenantId userId roleId : UUID) : App TenantMember := do
  let some member ← getMembership tenantId userId | memberNotFound.raise
  let some _ ← scalar DB.roles (fun r => r.id = roleId) | roleNotFound.raise
  setMember member { roleId := some roleId }
  commit
  refreshRow DB.members fun m => m.id = member.id

def removeMember (tenantId userId : UUID) : App Unit := do
  let some member ← getMembership tenantId userId | memberNotFound.raise
  setMember member { isActive := some false }
  commit

end TenantService

/-- `AuditLogger.log`: the row is flushed, not committed. -/
def AuditLogger.log (action : String) (tenantId userId : Option UUID)
    (details : Option (List (String × Detail))) : App Unit := do
  let id ← uuid4
  let created ← now
  add (.insertAuditLog ⟨id,tenantId,userId,action,details,none,created⟩)
  flush

end TenantAuth
