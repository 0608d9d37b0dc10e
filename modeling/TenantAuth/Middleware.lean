import TenantAuth.TenantService
set_option autoImplicit false

/-! `middleware/tenant.py` and `middleware/auth.py`. -/

namespace TenantAuth
open Transact

/-- `request.state.tenant` and `request.state.tenant_member`. -/
structure TenantContext where
  tenant : Tenant
  tenantMember : TenantMember
  deriving DecidableEq, Repr

def invalidTenantId : AppError := ⟨400,"INVALID_TENANT_ID","Tenant ID is invalid."⟩
def tenantContextMismatch : AppError :=
  ⟨400,"TENANT_CONTEXT_MISMATCH","Tenant context does not match the access token."⟩
def authenticationRequired : AppError :=
  ⟨401,"AUTHENTICATION_REQUIRED","Authentication credentials were not provided."⟩
def contextTenantNotFound : AppError := ⟨404,"TENANT_NOT_FOUND","Tenant was not found."⟩
def authenticatedUserNotFound : AppError :=
  ⟨401,"USER_NOT_FOUND","Authenticated user was not found."⟩
def permissionRequired (name : String) : AppError :=
  ⟨403,"FORBIDDEN","Permission '" ++ name ++ "' is required."⟩

section
variable (P : Platform)

def parseTenantId : Option String → Except AppError (Option UUID)
  | none => .ok none
  | some value =>
    if strip value = "" then .ok none else
    match P.parseUuid value with
    | some t => .ok (some t)
    | none => .error invalidTenantId

/-- The token after `bearer `, as the tenant middleware splits the header: its first
six characters are letters, so the seventh is the first space. -/
def bearerToken : Option String → Option String
  | none => none
  | some header =>
    if lowerHeader (header.toList.take 7) = "bearer ".toList then
      some (strip (String.ofList (header.toList.drop 7)))
    else none

/-- The second half of `tenant_context_middleware`: `.error` is an error response of
its own, `.ok` a call of the next layer. -/
def contextFor (userId tokenTenantId headerTenantId : Option UUID) :
    App (Except AppError (Option TenantContext)) := do
  if tokenTenantId.isSome ∧ headerTenantId.isSome ∧ tokenTenantId ≠ headerTenantId then
    pure (.error tenantContextMismatch)
  else match tokenTenantId <|> headerTenantId, userId with
    | none, _ => pure (.ok none)
    | some _, none => pure (.error authenticationRequired)
    | some tenantId, some userId => do
      let some tenant ← TenantService.getTenant tenantId | pure (.error contextTenantNotFound)
      let some membership ← TenantService.getMembership tenantId userId
        | pure (.error AuthService.tenantAccessDenied)
      pure (.ok (some ⟨tenant,membership⟩))

def tenantContextMiddleware (authorization xTenantId : Option String) :
    App (Except AppError (Option TenantContext)) :=
  match parseTenantId P xTenantId with
  -- Parsed outside the try block, so this one is raised and not answered.
  | .error e => e.raise
  | .ok headerTenantId =>
    match bearerToken authorization with
    | none => contextFor none none headerTenantId
    | some token => do
      match ← (decodeToken P token (some .access)).attempt with
      | .ok payload => contextFor (some payload.subject) payload.tenantId headerTenantId
      | .error (.app e) =>
        if headerTenantId.isSome then pure (.error e) else contextFor none none headerTenantId
      | .error e => Transact.raise e

/-- `credentials.scheme.lower() == "bearer"`. -/
def HTTPAuthorizationCredentials.isBearer (credentials : HTTPAuthorizationCredentials) : Bool :=
  lowerHeader credentials.scheme.toList = "bearer".toList

def getCurrentUser (authorization : Option String) : App User := do
  let some credentials := P.httpBearer authorization | authenticationRequired.raise
  authenticationRequired.raiseIf (credentials.isBearer = false)
  let payload ← decodeToken P credentials.credentials (some .access)
  let some user ← scalar DB.users (fun u => u.id = payload.subject ∧ u.isActive)
    | authenticatedUserNotFound.raise
  pure user

/-- `Permission` joined with `RolePermission` and `UserRole`, for one user. -/
def permissionJoin (d : DB) (userId : UUID) : List Permission :=
  d.permissions.flatMap fun p =>
    (d.rolePermissions.filter fun rp => rp.permissionId = p.id).flatMap fun rp =>
      (d.userRoles.filter fun ur => ur.roleId = rp.roleId ∧ ur.userId = userId).map fun _ => p

def requirePermission (permissionName : String) (authorization : Option String) : App User := do
  let currentUser ← getCurrentUser P authorization
  let result ← select fun d =>
    (permissionJoin d currentUser.id).find? fun p => p.name = permissionName
  (permissionRequired permissionName).raiseIf (result = none)
  pure currentUser

end

end TenantAuth
