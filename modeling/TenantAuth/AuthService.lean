import TenantAuth.TokenService
set_option autoImplicit false

/-! `auth_service.py`, `security.py` and `email.py`. -/

namespace TenantAuth
open Transact

structure RegisterRequest where
  email : String
  password : String
  firstName : String
  lastName : String
  deriving DecidableEq, Repr

structure LoginRequest where
  email : String
  password : String
  deriving DecidableEq, Repr

/-- `aiosmtplib.send`: the server takes the message or the call raises. -/
def sendEmail (m : Mail) : App Unit := do
  let delivered ← reading Reading.delivered
  match delivered with
  | true => emit m
  | false => Transact.raise .smtpError

def hashPassword (P : Platform) (password : String) : App String := do
  match P.hashpw password (← reading Reading.salt) with
  | some hash => pure hash
  | none => Transact.raise .valueError

def verifyPassword (P : Platform) (password passwordHash : String) : Bool :=
  P.checkpw password passwordHash

/-- Assign columns of a loaded user; the UPDATE waits for the next flush. -/
def setUser (u : User) (p : UserPatch) : App Unit := do
  let at' ← now
  if p.diff u = {} then pure () else add (.updateUser u.id (p.diff u) at')

namespace AuthService
variable (P : Platform)

def emailAlreadyExists : AppError :=
  ⟨400,"EMAIL_ALREADY_EXISTS","A user with this email already exists."⟩
def invalidCredentials : AppError := ⟨401,"INVALID_CREDENTIALS","Invalid email or password."⟩
def userInactive : AppError := ⟨403,"USER_INACTIVE","User account is inactive."⟩
def unknownRefreshToken : AppError := ⟨401,"INVALID_REFRESH_TOKEN","Refresh token is invalid."⟩
def invalidRefreshToken : AppError :=
  ⟨401,"INVALID_REFRESH_TOKEN","Refresh token is invalid or expired."⟩
def tenantAccessDenied : AppError :=
  ⟨403,"TENANT_ACCESS_DENIED","User does not belong to this tenant."⟩
def invalidVerificationToken : AppError :=
  ⟨401,"INVALID_VERIFICATION_TOKEN","Verification token is invalid or expired."⟩
def userNotFound : AppError := ⟨404,"USER_NOT_FOUND","User not found."⟩
def alreadyVerified : AppError := ⟨400,"ALREADY_VERIFIED","Email is already verified."⟩
def invalidResetToken : AppError :=
  ⟨401,"INVALID_RESET_TOKEN","Password reset token is invalid or expired."⟩

def userByEmail (email : String) : App (Option User) :=
  scalar DB.users fun u => u.email = P.lower email

def userById (id : UUID) : App (Option User) := scalar DB.users fun u => u.id = id

def register (payload : RegisterRequest) : App User := do
  let existing ← userByEmail P payload.email
  emailAlreadyExists.raiseIf existing.isSome
  let passwordHash ← hashPassword P payload.password
  let id ← uuid4
  let created ← now
  add (.insertUser ⟨id,P.lower payload.email,passwordHash,strip payload.firstName,
    strip payload.lastName,true,false,created,created⟩)
  commit
  let user ← refreshRow DB.users fun u => u.id = id
  let (token,expiresAt) ← createVerificationToken P user.id user.email
  let tokenId ← uuid4
  add (.insertVerificationToken ⟨tokenId,user.id,hashToken P token,expiresAt,none⟩)
  commit
  sendEmail ⟨user.email,"Verify your account",
    "Welcome " ++ user.firstName ++ ", your verification token is: " ++ token⟩
  pure user

def requireActiveTenantMembership (userId tenantId : UUID) : App Unit := do
  let membership ← scalar DB.members fun m =>
    m.tenantId = tenantId ∧ m.userId = userId ∧ m.isActive
  tenantAccessDenied.raiseIf (membership = none)

/-- The membership check of `login` and `refresh`, made for a tenant scope only. -/
def requireScope (userId : UUID) : Option UUID → App Unit
  | some tenantId => requireActiveTenantMembership userId tenantId
  | none => pure ()

def login (payload : LoginRequest) (tenantId : Option UUID) : App TokenData := do
  let some user ← userByEmail P payload.email | invalidCredentials.raise
  invalidCredentials.raiseIf (verifyPassword P payload.password user.passwordHash = false)
  userInactive.raiseIf (user.isActive = false)
  requireScope user.id tenantId
  let tokens ← issueTokenPair P user.id tenantId
  commit
  pure tokens

/-- The stored row of a refresh token that is not revoked. -/
def liveRefreshToken (token : String) (userId : UUID) : App (Option RefreshToken) :=
  scalar DB.refreshTokens fun r =>
    r.tokenHash = hashToken P token ∧ r.userId = userId ∧ r.revokedAt = none

def logout (refreshToken : String) : App Unit := do
  let payload ← decodeToken P refreshToken (some .refresh)
  let some tokenRecord ← liveRefreshToken P refreshToken payload.subject
    | unknownRefreshToken.raise
  add (.revokeRefreshToken tokenRecord.id (← now))
  commit

def refresh (refreshToken : String) : App TokenData := do
  let payload ← decodeToken P refreshToken (some .refresh)
  let some tokenRecord ← liveRefreshToken P refreshToken payload.subject
    | invalidRefreshToken.raise
  invalidRefreshToken.raiseIf (tokenRecord.expiresAt ≤ (← now))
  requireScope payload.subject tokenRecord.tenantId
  add (.revokeRefreshToken tokenRecord.id (← now))
  flush
  let tokens ← issueTokenPair P payload.subject tokenRecord.tenantId
  commit
  pure tokens

/-- The stored row of a verification or reset token that is not used. -/
def unusedToken (table : DB → List OneTimeToken) (token : String) (userId : UUID) :
    App (Option OneTimeToken) :=
  scalar table fun r => r.tokenHash = hashToken P token ∧ r.userId = userId ∧ r.usedAt = none

def verifyEmail (token : String) : App Unit := do
  let payload ← decodeToken P token (some .verify)
  let some tokenRecord ← unusedToken P DB.verificationTokens token payload.subject
    | invalidVerificationToken.raise
  invalidVerificationToken.raiseIf (tokenRecord.expiresAt ≤ (← now))
  let some user ← userById payload.subject | userNotFound.raise
  alreadyVerified.raiseIf user.isVerified
  setUser user { isVerified := some true }
  add (.useVerificationToken tokenRecord.id (← now))
  commit

def forgotPassword (email : String) : App Unit := do
  match ← userByEmail P email with
  | none => pure ()
  | some user =>
    let (token,expiresAt) ← createPasswordResetToken P user.id user.email
    let id ← uuid4
    add (.insertResetToken ⟨id,user.id,hashToken P token,expiresAt,none⟩)
    commit
    sendEmail ⟨user.email,"Password Reset","Your password reset token is: " ++ token⟩

def resetPassword (token newPassword : String) : App Unit := do
  let payload ← decodeToken P token (some .reset)
  let some tokenRecord ← unusedToken P DB.resetTokens token payload.subject
    | invalidResetToken.raise
  invalidResetToken.raiseIf (tokenRecord.expiresAt ≤ (← now))
  let some user ← userById payload.subject | userNotFound.raise
  let passwordHash ← hashPassword P newPassword
  setUser user { passwordHash := some passwordHash }
  add (.useResetToken tokenRecord.id (← now))
  commit

end AuthService

end TenantAuth
