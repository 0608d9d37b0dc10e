import TenantAuth.Middleware
set_option autoImplicit false

/-! `routers/tenant.py`, `routers/auth.py`, `routers/admin.py`, and how `main.py` puts
the middleware in front of them. -/

namespace TenantAuth
open Transact

/-- `UserRead` and `UserListResponse`: a user without the password hash. -/
structure UserRead where
  id : UUID
  email : String
  firstName : String
  lastName : String
  isActive : Bool
  isVerified : Bool
  createdAt : Nat
  updatedAt : Nat
  deriving DecidableEq, Repr

def UserRead.ofUser (u : User) : UserRead where
  id := u.id
  email := u.email
  firstName := u.firstName
  lastName := u.lastName
  isActive := u.isActive
  isVerified := u.isVerified
  createdAt := u.createdAt
  updatedAt := u.updatedAt

structure TenantMemberRead where
  id : UUID
  tenantId : UUID
  userId : UUID
  roleId : UUID
  isActive : Bool
  joinedAt : Nat
  userEmail : Option String
  roleName : Option String
  deriving DecidableEq, Repr

def TenantMemberRead.ofView (v : TenantService.MemberView) : TenantMemberRead where
  id := v.member.id
  tenantId := v.member.tenantId
  userId := v.member.userId
  roleId := v.member.roleId
  isActive := v.member.isActive
  joinedAt := v.member.joinedAt
  userEmail := v.user.map User.email
  roleName := v.role.map Role.name

/-- The `data` of a successful response. -/
inductive Body where
  | message (text : String)
  | registered (user : UserRead) (message : String)
  | tokens (data : TokenData)
  | user (data : UserRead)
  | users (data : List UserRead)
  | tenant (data : Tenant)
  | tenants (data : List Tenant)
  | members (data : List TenantMemberRead)
  | invitation (id tenantId : UUID) (email : String) (roleId : UUID) (expiresAt : Nat)
      (token : String)
  | member (message : String) (memberId : UUID)
  | roles (data : List Role)
  | permissions (data : List Permission)
  deriving DecidableEq, Repr

inductive Response where
  | success (statusCode : Nat) (body : Body)
  | error (statusCode : Nat) (code message : String)
  deriving DecidableEq, Repr

def forbiddenNotMember : AppError := ⟨403,"FORBIDDEN","You are not a member of this tenant."⟩
def forbiddenNotAdmin : AppError :=
  ⟨403,"FORBIDDEN","Only tenant admins can perform this action."⟩

def requireTenantAdmin (tenantId : UUID) (user : User) : App TenantMember := do
  let some membership ← TenantService.getMembership tenantId user.id
    | forbiddenNotMember.raise
  let role ← refreshRow DB.roles fun r => r.id = membership.roleId
  forbiddenNotAdmin.raiseIf (role.name ≠ "tenant_admin" ∧ role.name ≠ "super_admin")
  pure membership

namespace TenantRouter
variable (P : Platform)

def createTenant (name slug : String) (currentUser : User) : App Body := do
  let tenant ← TenantService.createTenant P name slug currentUser.id
  AuditLogger.log "tenant.created" (some tenant.id) (some currentUser.id)
    (some [("name",.text tenant.name),("slug",.text tenant.slug)])
  pure (.tenant tenant)

def listMyTenants (currentUser : User) : App Body := do
  let tenants ← TenantService.listUserTenants currentUser.id
  pure (.tenants tenants)

def getTenant (tenantId : UUID) (currentUser : User) : App Body := do
  let some _ ← TenantService.getMembership tenantId currentUser.id
    | forbiddenNotMember.raise
  let some tenant ← TenantService.getTenant tenantId | TenantService.tenantNotFound.raise
  pure (.tenant tenant)

def updateTenant (tenantId : UUID) (name : Option String) (isActive : Option Bool)
    (currentUser : User) : App Body := do
  let _ ← requireTenantAdmin tenantId currentUser
  let tenant ← TenantService.updateTenant tenantId name isActive
  AuditLogger.log "tenant.updated" (some tenantId) (some currentUser.id)
    (some [("name",name.elim .null .text),("is_active",isActive.elim .null .bool)])
  pure (.tenant tenant)

def deleteTenant (tenantId : UUID) (currentUser : User) : App Body := do
  let _ ← requireTenantAdmin tenantId currentUser
  TenantService.deleteTenant tenantId
  AuditLogger.log "tenant.deleted" (some tenantId) (some currentUser.id) none
  pure (.message "Tenant deactivated.")

def listMembers (tenantId : UUID) (currentUser : User) : App Body := do
  let some _ ← TenantService.getMembership tenantId currentUser.id
    | forbiddenNotMember.raise
  let members ← TenantService.listMembers tenantId
  pure (.members (members.map .ofView))

def inviteMember (tenantId : UUID) (email : String) (roleId : UUID) (currentUser : User) :
    App Body := do
  let _ ← requireTenantAdmin tenantId currentUser
  let issued ← TenantService.inviteMember P tenantId email roleId
  AuditLogger.log "tenant.invitation.created" (some tenantId) (some currentUser.id)
    (some [("email",.text email),("role_id",.uuid roleId)])
  let i := issued.invitation
  pure (.invitation i.id i.tenantId i.email i.roleId i.expiresAt issued.rawToken)

def acceptInvitation (tenantId : UUID) (token : String) (currentUser : User) : App Body := do
  let member ← TenantService.acceptInvitation P token currentUser.id
  AuditLogger.log "tenant.invitation.accepted" (some tenantId) (some currentUser.id)
    (some [("member_id",.uuid member.id)])
  pure (.member "Invitation accepted." member.id)

def updateMemberRole (tenantId userId roleId : UUID) (currentUser : User) : App Body := do
  let _ ← requireTenantAdmin tenantId currentUser
  let member ← TenantService.updateMemberRole tenantId userId roleId
  AuditLogger.log "tenant.member.role_changed" (some tenantId) (some currentUser.id)
    (some [("target_user_id",.uuid userId),("new_role_id",.uuid roleId)])
  pure (.member "Member role updated." member.id)

def removeMember (tenantId userId : UUID) (currentUser : User) : App Body := do
  let _ ← requireTenantAdmin tenantId currentUser
  TenantService.removeMember tenantId userId
  AuditLogger.log "tenant.member.removed" (some tenantId) (some currentUser.id)
    (some [("removed_user_id",.uuid userId)])
  pure (.message "Member removed from tenant.")

end TenantRouter

namespace AuthRouter
variable (P : Platform)

/-- The header as `login` reads it; unlike the middleware it does not strip. -/
def loginTenantId : Option String → Except AppError (Option UUID)
  | none => .ok none
  | some tenantHeader =>
    if tenantHeader = "" then .ok none else
    match P.parseUuid tenantHeader with
    | some t => .ok (some t)
    | none => .error invalidTenantId

def register (payload : RegisterRequest) : App Body := do
  let user ← AuthService.register P payload
  pure (.registered (.ofUser user) "Registration successful. Verification email sent.")

def login (payload : LoginRequest) (xTenantId : Option String) : App Body := do
  match loginTenantId P xTenantId with
  | .error e => e.raise
  | .ok tenantId =>
    let tokens ← AuthService.login P payload tenantId
    pure (.tokens tokens)

def logout (refreshToken : String) : App Body := do
  AuthService.logout P refreshToken
  pure (.message "Logout successful.")

def refresh (refreshToken : String) : App Body := do
  let tokens ← AuthService.refresh P refreshToken
  pure (.tokens tokens)

def verifyEmail (token : String) : App Body := do
  AuthService.verifyEmail P token
  pure (.message "Email verified successfully.")

def forgotPassword (email : String) : App Body := do
  AuthService.forgotPassword P email
  pure (.message "If an account with that email exists, a reset link has been sent.")

def resetPassword (token newPassword : String) : App Body := do
  AuthService.resetPassword P token newPassword
  pure (.message "Password reset successfully.")

end AuthRouter

/-- `UserUpdateRequest` after `exclude_unset`: `none` is unset, `some none` a null. -/
structure UserUpdateRequest where
  firstName : Option (Option String) := none
  lastName : Option (Option String) := none
  isActive : Option (Option Bool) := none
  deriving DecidableEq, Repr

def UserUpdateRequest.patch (r : UserUpdateRequest) : UserPatch :=
  { firstName := r.firstName, lastName := r.lastName, isActive := r.isActive }

namespace AdminRouter

def permissionAssigned : AppError :=
  ⟨409,"ALREADY_EXISTS","Permission already assigned to this role."⟩
def roleAssigned : AppError :=
  ⟨409,"ALREADY_EXISTS","Role already assigned to this user."⟩

def listRoles : App Body := do
  let roles ← select fun d => d.roles.mergeSort fun a b => a.name ≤ b.name
  pure (.roles roles)

def getRolePermissions (roleId : UUID) : App Body := do
  let permissions ← select fun d => d.permissions.flatMap fun p =>
    (d.rolePermissions.filter fun rp => rp.permissionId = p.id ∧ rp.roleId = roleId).map
      fun _ => p
  pure (.permissions permissions)

def assignPermissionToRole (roleId permissionId : UUID) : App Body := do
  let exists' ← scalar DB.rolePermissions fun rp =>
    rp.roleId = roleId ∧ rp.permissionId = permissionId
  permissionAssigned.raiseIf exists'.isSome
  add (.insertRolePermission ⟨roleId,permissionId⟩)
  commit
  pure (.message "Permission assigned to role.")

def removePermissionFromRole (roleId permissionId : UUID) : App Body := do
  add (.deleteRolePermission ⟨roleId,permissionId⟩)
  commit
  pure (.message "Permission removed from role.")

def listPermissions : App Body := do
  let permissions ← select fun d => d.permissions.mergeSort fun a b => a.name ≤ b.name
  pure (.permissions permissions)

def listUsers : App Body := do
  let users ← select fun d => d.users.mergeSort fun a b => b.createdAt ≤ a.createdAt
  pure (.users (users.map .ofUser))

def getUser (userId : UUID) : App Body := do
  let some user ← AuthService.userById userId | AuthService.userNotFound.raise
  pure (.user (.ofUser user))

def updateUser (userId : UUID) (payload : UserUpdateRequest) : App Body := do
  let some user ← AuthService.userById userId | AuthService.userNotFound.raise
  setUser user payload.patch
  commit
  let user ← refreshRow DB.users fun u => u.id = user.id
  pure (.user (.ofUser user))

def deleteUser (userId : UUID) : App Body := do
  let some user ← AuthService.userById userId | AuthService.userNotFound.raise
  add (.deleteUser user.id)
  commit
  pure (.message "User deleted.")

def assignRoleToUser (userId roleId : UUID) : App Body := do
  let exists' ← scalar DB.userRoles fun ur => ur.userId = userId ∧ ur.roleId = roleId
  roleAssigned.raiseIf exists'.isSome
  add (.insertUserRole ⟨userId,roleId⟩)
  commit
  pure (.message "Role assigned to user.")

/-- No request gets here: see `AdminRoute.endpoint`. -/
def removeRoleFromUser (userId roleId : UUID) : App Body := do
  add (.deleteUserRole ⟨userId,roleId⟩)
  commit
  pure (.message "Role removed from user.")

/-- The `msg` of pydantic's error for the `user_id` that the path `/admin/users/roles` has. -/
def rolesNoUuid : AppError := ⟨422,"VALIDATION_ERROR","Input should be a valid UUID, invalid " ++
  "character: expected an optional prefix of `urn:uuid:` followed by [0-9a-fA-F-], found `r` at 1"⟩

def getUserPermissions (userId : UUID) : App Body := do
  let permissions ← select fun d => permissionJoin d userId
  pure (.permissions permissions)

end AdminRouter

/-- The routes of `auth.py` that ask for no current user. -/
inductive AuthRoute where
  | register (payload : RegisterRequest)
  | login (payload : LoginRequest)
  | logout (refreshToken : String)
  | refresh (refreshToken : String)
  | verifyEmail (token : String)
  | forgotPassword (email : String)
  | resetPassword (token newPassword : String)
  deriving DecidableEq, Repr

/-- The routes of `tenant.py`, with the path parameters and the body. -/
inductive TenantRoute where
  | createTenant (name slug : String)
  | listMyTenants
  | getTenant (tenantId : UUID)
  | updateTenant (tenantId : UUID) (name : Option String) (isActive : Option Bool)
  | deleteTenant (tenantId : UUID)
  | listMembers (tenantId : UUID)
  | inviteMember (tenantId : UUID) (email : String) (roleId : UUID)
  | acceptInvitation (tenantId : UUID) (token : String)
  | updateMemberRole (tenantId userId roleId : UUID)
  | removeMember (tenantId userId : UUID)
  deriving DecidableEq, Repr

inductive AdminRoute where
  | listRoles
  | getRolePermissions (roleId : UUID)
  | assignPermissionToRole (roleId permissionId : UUID)
  | removePermissionFromRole (roleId permissionId : UUID)
  | listPermissions
  | listUsers
  | getUser (userId : UUID)
  | updateUser (userId : UUID) (payload : UserUpdateRequest)
  | deleteUser (userId : UUID)
  | assignRoleToUser (userId roleId : UUID)
  | removeRoleFromUser (userId roleId : UUID)
  | getUserPermissions (userId : UUID)
  deriving DecidableEq, Repr

inductive Route where
  | auth (r : AuthRoute)
  /-- `GET /auth/me`. -/
  | me
  | tenant (r : TenantRoute)
  | admin (r : AdminRoute)
  deriving DecidableEq, Repr

/-- A request whose path and body have passed FastAPI's own validation. -/
structure Request where
  authorization : Option String := none
  xTenantId : Option String := none
  route : Route
  deriving DecidableEq, Repr

def AuthRoute.endpoint (P : Platform) (xTenantId : Option String) : AuthRoute → App Body
  | .register payload => AuthRouter.register P payload
  | .login payload => AuthRouter.login P payload xTenantId
  | .logout refreshToken => AuthRouter.logout P refreshToken
  | .refresh refreshToken => AuthRouter.refresh P refreshToken
  | .verifyEmail token => AuthRouter.verifyEmail P token
  | .forgotPassword email => AuthRouter.forgotPassword P email
  | .resetPassword token newPassword => AuthRouter.resetPassword P token newPassword

def TenantRoute.endpoint (P : Platform) : TenantRoute → User → App Body
  | .createTenant name slug => TenantRouter.createTenant P name slug
  | .listMyTenants => TenantRouter.listMyTenants
  | .getTenant t => TenantRouter.getTenant t
  | .updateTenant t name isActive => TenantRouter.updateTenant t name isActive
  | .deleteTenant t => TenantRouter.deleteTenant t
  | .listMembers t => TenantRouter.listMembers t
  | .inviteMember t email roleId => TenantRouter.inviteMember P t email roleId
  | .acceptInvitation t token => TenantRouter.acceptInvitation P t token
  | .updateMemberRole t userId roleId => TenantRouter.updateMemberRole t userId roleId
  | .removeMember t userId => TenantRouter.removeMember t userId

/-- The argument of `require_permission` on the route that a request is given to. -/
def AdminRoute.permission : AdminRoute → String
  | .listRoles | .getRolePermissions _ | .assignPermissionToRole _ _
  | .removePermissionFromRole _ _ | .listPermissions | .assignRoleToUser _ _ => "roles.manage"
  | .listUsers | .getUser _ | .getUserPermissions _ => "users.read"
  | .updateUser _ _ => "users.write"
  -- `DELETE /admin/users/{user_id}` is declared before `DELETE /admin/users/roles` and gets both.
  | .deleteUser _ | .removeRoleFromUser _ _ => "users.delete"

def AdminRoute.endpoint : AdminRoute → App Body
  | .listRoles => AdminRouter.listRoles
  | .getRolePermissions roleId => AdminRouter.getRolePermissions roleId
  | .assignPermissionToRole roleId permissionId =>
    AdminRouter.assignPermissionToRole roleId permissionId
  | .removePermissionFromRole roleId permissionId =>
    AdminRouter.removePermissionFromRole roleId permissionId
  | .listPermissions => AdminRouter.listPermissions
  | .listUsers => AdminRouter.listUsers
  | .getUser userId => AdminRouter.getUser userId
  | .updateUser userId payload => AdminRouter.updateUser userId payload
  | .deleteUser userId => AdminRouter.deleteUser userId
  | .assignRoleToUser userId roleId => AdminRouter.assignRoleToUser userId roleId
  | .removeRoleFromUser _ _ => AdminRouter.rolesNoUuid.raise
  | .getUserPermissions userId => AdminRouter.getUserPermissions userId

/-- A route with the dependencies FastAPI resolves for it, all on one session. -/
def Request.endpoint (P : Platform) (q : Request) : App Body :=
  match q.route with
  | .auth r => r.endpoint P q.xTenantId
  | .me => do
    let currentUser ← getCurrentUser P q.authorization
    pure (.user (.ofUser currentUser))
  | .tenant r => do
    let currentUser ← getCurrentUser P q.authorization
    r.endpoint P currentUser
  | .admin r => do
    let _ ← requirePermission P r.permission q.authorization
    r.endpoint

/-- `status_code` of the route decorators. -/
def Route.statusCode : Route → Nat
  | .auth (.register _) | .tenant (.createTenant _ _) | .tenant (.inviteMember _ _ _) => 201
  | _ => 200

def Response.isSuccess : Response → Bool
  | .success _ _ => true
  | .error _ _ _ => false

def buildErrorResponse (e : AppError) : Response := .error e.statusCode e.code e.message

def unhandledException : Response :=
  .error 500 "INTERNAL_SERVER_ERROR" "An unexpected error occurred."

/-- `register_exception_handlers` around an endpoint. -/
def respond (statusCode : Nat) : Outcome Exc Fault Body → Response
  | .ok body => .success statusCode body
  | .raised (.app e) => buildErrorResponse e
  | .raised _ | .fault _ => unhandledException

theorem respond_eq_success {statusCode statusCode' : Nat} {r : Outcome Exc Fault Body}
    {b : Body} (h : respond statusCode r = .success statusCode' b) : r = .ok b := by
  cases r with
  | ok b' => cases h; rfl
  | raised e => cases e <;> cases h
  | fault f => cases h

theorem respond_isSuccess (statusCode : Nat) (r : Outcome Exc Fault Body) :
    (respond statusCode r).isSuccess = r.isOk := by
  cases r with
  | ok b => rfl
  | raised e => cases e <;> rfl
  | fault f => rfl

/-- One request, served alone: the tenant middleware in a session of its own, then
the endpoint. The exception handlers are inside the middleware, so what the
middleware itself raises is unhandled. -/
def handle (P : Platform) (o : Readings) (w : World DB Mail) (q : Request) :
    Response × World DB Mail :=
  match serve Write.apply o.read (tenantContextMiddleware P q.authorization q.xTenantId) w with
  | (.ok (.ok _),w') =>
    match serve Write.apply o.read (q.endpoint P) w' with
    | (r,w'') => (respond q.route.statusCode r,w'')
  | (.ok (.error e),w') => (buildErrorResponse e,w')
  | (.raised _,w') | (.fault _,w') => (unhandledException,w')

end TenantAuth
