import TenantAuth.Database
set_option autoImplicit false

/-! The application's session programs, its errors, and `token_service.py`. -/

namespace TenantAuth
open Transact

structure AppError where
  statusCode : Nat
  code : String
  message : String
  deriving DecidableEq, Repr

/-- What a handler can raise. Only `app` has a handler of its own; the others end
as INTERNAL_SERVER_ERROR. -/
inductive Exc where
  | app (e : AppError)
  /-- `ValueError` from `bcrypt.hashpw`. -/
  | valueError
  /-- An `aiosmtplib` error. -/
  | smtpError
  /-- `CalledProcessError` from the migration subprocess. -/
  | calledProcessError
  /-- `InvalidRequestError` from `session.refresh` on a row that is gone. -/
  | invalidRequest
  deriving DecidableEq, Repr

def Exc.IsApp : Exc → Prop
  | .app _ => True
  | _ => False

structure Mail where
  recipient : String
  subject : String
  body : String
  deriving DecidableEq, Repr

abbrev App := Prog DB Write Reading Exc Mail

def AppError.raise {α : Type} (e : AppError) : App α := Transact.raise (.app e)
def AppError.raiseIf (e : AppError) (p : Prop) [Decidable p] : App Unit :=
  Transact.raiseIf p (.app e)

def now : App Nat := reading Reading.now
def uuid4 : App UUID := reading Reading.uuid

/-- `session.scalar(select(T).where(p))`: the first matching row. -/
def scalar {α : Type} (table : DB → List α) (p : α → Bool) : App (Option α) :=
  select fun d => (table d).find? p

/-- `session.refresh(row)`: read the row again by its key. -/
def refreshRow {α : Type} (table : DB → List α) (p : α → Bool) : App α := do
  let some r ← scalar table p | Transact.raise .invalidRequest
  pure r

structure TokenPayload where
  subject : UUID
  tokenType : TokenType
  tenantId : Option UUID
  deriving DecidableEq, Repr

structure TokenData where
  accessToken : String
  refreshToken : String
  tokenType : String
  expiresIn : Nat
  deriving DecidableEq, Repr

def tokenExpired : AppError := ⟨401,"TOKEN_EXPIRED","Token has expired."⟩
def invalidToken : AppError := ⟨401,"INVALID_TOKEN","Token is invalid."⟩
def invalidTokenType : AppError := ⟨401,"INVALID_TOKEN_TYPE","Token type is invalid."⟩
def missingSubject : AppError := ⟨401,"INVALID_TOKEN","Token subject is missing."⟩

/-- The claims of an access or refresh token of `u` with tenant option `x`. -/
def sessionClaims (type : TokenType) (u : UUID) (x : Option UUID) (expiresAt : Nat) : Claims :=
  ⟨some u,some type,seconds expiresAt,x,none⟩

section
variable (P : Platform)

def createAccessToken (userId : UUID) (tenantId : Option UUID) : App (String × Nat) := do
  let expiresAt := (← now) + timedeltaMinutes P.settings.jwtAccessExpireMinutes
  pure (P.jwtEncode (sessionClaims .access userId tenantId expiresAt),expiresAt)

def createRefreshToken (userId : UUID) (tenantId : Option UUID) : App (String × Nat) := do
  let expiresAt := (← now) + timedeltaDays P.settings.jwtRefreshExpireDays
  pure (P.jwtEncode (sessionClaims .refresh userId tenantId expiresAt),expiresAt)

def createTypedToken (userId : UUID) (email : String) (type : TokenType) (expiresAt : Nat) :
    String × Nat :=
  (P.jwtEncode ⟨some userId,some type,seconds expiresAt,none,some email⟩,expiresAt)

def createVerificationToken (userId : UUID) (email : String) : App (String × Nat) := do
  let expiresAt := (← now) + timedeltaHours 24
  pure (createTypedToken P userId email .verify expiresAt)

def createPasswordResetToken (userId : UUID) (email : String) : App (String × Nat) := do
  let expiresAt := (← now) + timedeltaHours 1
  pure (createTypedToken P userId email .reset expiresAt)

def hashToken (token : String) : String := P.sha256 token

def issueTokenPair (userId : UUID) (tenantId : Option UUID) : App TokenData := do
  let (accessToken,_) ← createAccessToken P userId tenantId
  let (refreshToken,refreshExpiresAt) ← createRefreshToken P userId tenantId
  let id ← uuid4
  add (.insertRefreshToken
    ⟨id,userId,tenantId,hashToken P refreshToken,refreshExpiresAt,none⟩)
  flush
  pure ⟨accessToken,refreshToken,"Bearer",P.settings.jwtAccessExpireMinutes*60⟩

/-- `decode_token` at the instant `t`. PyJWT checks the signature before the expiry. -/
def decodeAt (token : String) (expected : Option TokenType) (t : Nat) :
    Except AppError TokenPayload :=
  match P.jwtVerify token with
  | none => .error invalidToken
  | some payload =>
    if payload.exp*1000000 ≤ t then .error tokenExpired else
    let tokenType := payload.type.getD .access
    if expected.any (tokenType ≠ ·) then .error invalidTokenType else
    match payload.sub with
    | none => .error missingSubject
    | some subject => .ok ⟨subject,tokenType,payload.tenantId⟩

def decodeToken (token : String) (expected : Option TokenType) : App TokenPayload := do
  match decodeAt P token expected (← now) with
  | .error e => e.raise
  | .ok payload => pure payload

variable {P}

theorem decodeAt_sub {token : String} {k : Option TokenType} {t : Nat} {i : TokenPayload}
    (h : decodeAt P token k t = .ok i) :
    ∃ c, P.jwtVerify token = some c ∧ c.sub = some i.subject := by
  unfold decodeAt at h
  split at h
  · cases h
  rename_i c hc
  split at h
  · cases h
  simp only at h
  split at h
  · cases h
  split at h
  · cases h
  rename_i u hu
  cases h
  exact ⟨c,hc,hu⟩

end

section Equations
variable {α β : Type} (P : Platform) (o : Nat → Reading) (d v : DB) (ws : List Write) (n : Nat)
  (s : List Mail)

@[simp] theorem exec_appError (e : AppError) (c : Conn DB Write Mail) :
    (e.raise : App α).exec Write.apply o c = (.raised (.app e),c) := rfl

@[simp] theorem exec_appError_bind (e : AppError) (g : α → App β) (c : Conn DB Write Mail) :
    (e.raise >>= g).exec Write.apply o c = (.raised (.app e),c) := rfl

@[simp] theorem exec_appErrorIf_bind (e : AppError) (p : Prop) [Decidable p]
    (g : Unit → App β) (c : Conn DB Write Mail) :
    (e.raiseIf p >>= g).exec Write.apply o c =
      if p then (.raised (.app e),c) else (g ()).exec Write.apply o c :=
  exec_raiseIf_bind ..

@[simp] theorem exec_now_bind (g : Nat → App β) :
    (now >>= g).exec Write.apply o ⟨d,v,ws,n,s⟩ =
      (g (o n).now).exec Write.apply o ⟨d,v,ws,n+1,s⟩ := rfl

@[simp] theorem exec_uuid4_bind (g : UUID → App β) :
    (uuid4 >>= g).exec Write.apply o ⟨d,v,ws,n,s⟩ =
      (g (o n).uuid).exec Write.apply o ⟨d,v,ws,n+1,s⟩ := rfl

@[simp] theorem exec_scalar_bind (table : DB → List α) (p : α → Bool)
    (g : Option α → App β) :
    (scalar table p >>= g).exec Write.apply o ⟨d,v,ws,n,s⟩ =
      match flushAll Write.apply ws v with
      | .ok v' => (g ((table v').find? p)).exec Write.apply o ⟨d,v',[],n,s⟩
      | .error x => (.fault x,⟨d,v,ws,n,s⟩) := by
  unfold scalar
  rw [exec_select_bind]
  cases flushAll Write.apply ws v <;> rfl

@[simp] theorem exec_refreshRow_bind (table : DB → List α) (p : α → Bool)
    (g : α → App β) :
    (refreshRow table p >>= g).exec Write.apply o ⟨d,v,[],n,s⟩ =
      match (table v).find? p with
      | some r => (g r).exec Write.apply o ⟨d,v,[],n,s⟩
      | none => (.raised .invalidRequest,⟨d,v,[],n,s⟩) := by
  rw [exec_bind]
  unfold refreshRow
  rw [exec_scalar_bind]
  cases h : (table v).find? p <;> simp [h]

@[simp] theorem exec_refreshRow (table : DB → List α) (p : α → Bool) :
    (refreshRow table p).exec Write.apply o ⟨d,v,[],n,s⟩ =
      match (table v).find? p with
      | some r => (.ok r,⟨d,v,[],n,s⟩)
      | none => (.raised .invalidRequest,⟨d,v,[],n,s⟩) := by
  unfold refreshRow
  rw [exec_scalar_bind]
  cases h : (table v).find? p <;> simp [h]

@[simp] theorem exec_decodeToken_bind (token : String) (expected : Option TokenType)
    (g : TokenPayload → App β) :
    (decodeToken P token expected >>= g).exec Write.apply o ⟨d,v,ws,n,s⟩ =
      match decodeAt P token expected (o n).now with
      | .ok payload => (g payload).exec Write.apply o ⟨d,v,ws,n+1,s⟩
      | .error e => (.raised (.app e),⟨d,v,ws,n+1,s⟩) := by
  rw [exec_bind]
  unfold decodeToken
  rw [exec_now_bind]
  cases decodeAt P token expected (o n).now <;> simp

@[simp] theorem exec_createVerificationToken_bind (u : UUID) (email : String)
    (g : String × Nat → App β) :
    (createVerificationToken P u email >>= g).exec Write.apply o ⟨d,v,ws,n,s⟩ =
      (g (createTypedToken P u email .verify ((o n).now + timedeltaHours 24))).exec
        Write.apply o ⟨d,v,ws,n+1,s⟩ := rfl

@[simp] theorem exec_createPasswordResetToken_bind (u : UUID) (email : String)
    (g : String × Nat → App β) :
    (createPasswordResetToken P u email >>= g).exec Write.apply o ⟨d,v,ws,n,s⟩ =
      (g (createTypedToken P u email .reset ((o n).now + timedeltaHours 1))).exec
        Write.apply o ⟨d,v,ws,n+1,s⟩ := rfl

end Equations

theorem quiet_scalar {α : Type} (table : DB → List α) (p : α → Bool) :
    (scalar table p).Quiet :=
  quiet_select _

theorem quiet_appError {α : Type} (e : AppError) : (e.raise : App α).Quiet := trivial

theorem quiet_appErrorIf (e : AppError) (p : Prop) [Decidable p] : (e.raiseIf p).Quiet :=
  quiet_raiseIf p _

end TenantAuth
