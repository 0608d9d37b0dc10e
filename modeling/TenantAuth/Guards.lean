import TenantAuth.Routers
set_option autoImplicit false

namespace TenantAuth
open Transact

def AppError.outcome {α : Type} : Except AppError α → Outcome Exc Fault α
  | .ok a => .ok a
  | .error e => .raised (.app e)

section
variable (P : Platform)

/-- The user `get_current_user` finds at the instant `t`. -/
def authenticate (authorization : Option String) (t : Nat) (d : DB) : Except AppError User :=
  match P.httpBearer authorization with
  | none => .error authenticationRequired
  | some credentials =>
    if credentials.isBearer = false then .error authenticationRequired else
    match decodeAt P credentials.credentials (some .access) t with
    | .error e => .error e
    | .ok payload =>
      match d.users.find? fun u => u.id = payload.subject ∧ u.isActive with
      | none => .error authenticatedUserNotFound
      | some u => .ok u

/-- The names `require_permission` finds for a user. -/
def permissionNames (d : DB) (userId : UUID) : List String :=
  (permissionJoin d userId).map Permission.name

def authorize (permissionName : String) (authorization : Option String) (t : Nat) (d : DB) :
    Except AppError User :=
  match authenticate P authorization t d with
  | .error e => .error e
  | .ok u =>
    if permissionName ∈ permissionNames d u.id then .ok u
    else .error (permissionRequired permissionName)

/-- `get_membership` on one state. -/
def membershipOf (d : DB) (tenantId userId : UUID) : Option TenantMember :=
  d.members.find? fun m => m.tenantId = tenantId ∧ m.userId = userId ∧ m.isActive

/-- `get_tenant` on one state. -/
def activeTenant (d : DB) (tenantId : UUID) : Option Tenant :=
  d.tenants.find? fun t => t.id = tenantId ∧ t.isActive

def roleOf (d : DB) (roleId : UUID) : Option Role := d.roles.find? fun r => r.id = roleId

def adminMembership (d : DB) (tenantId userId : UUID) : Outcome Exc Fault TenantMember :=
  match membershipOf d tenantId userId with
  | none => .raised (.app forbiddenNotMember)
  | some m =>
    match roleOf d m.roleId with
    | none => .raised .invalidRequest
    | some role =>
      if role.name ≠ "tenant_admin" ∧ role.name ≠ "super_admin" then
        .raised (.app forbiddenNotAdmin)
      else .ok m

def contextAt (userId tokenTenantId headerTenantId : Option UUID) (d : DB) :
    Except AppError (Option TenantContext) :=
  if tokenTenantId.isSome ∧ headerTenantId.isSome ∧ tokenTenantId ≠ headerTenantId then
    .error tenantContextMismatch
  else match tokenTenantId <|> headerTenantId, userId with
    | none, _ => .ok none
    | some _, none => .error authenticationRequired
    | some tenantId, some userId =>
      match activeTenant d tenantId with
      | none => .error contextTenantNotFound
      | some tenant =>
        match membershipOf d tenantId userId with
        | none => .error AuthService.tenantAccessDenied
        | some m => .ok (some ⟨tenant,m⟩)

/-- What the tenant middleware makes of the two headers at the instant `t`. -/
def admission (authorization xTenantId : Option String) (t : Nat) (d : DB) :
    Outcome Exc Fault (Except AppError (Option TenantContext)) :=
  match parseTenantId P xTenantId with
  | .error e => .raised (.app e)
  | .ok headerTenantId =>
    match bearerToken authorization with
    | none => .ok (contextAt none none headerTenantId d)
    | some token =>
      match decodeAt P token (some .access) t with
      | .ok payload => .ok (contextAt (some payload.subject) payload.tenantId headerTenantId d)
      | .error e =>
        if headerTenantId.isSome then .ok (.error e)
        else .ok (contextAt none none headerTenantId d)

/-- The middleware hands the request on. -/
def Admits (q : Request) (t : Nat) (d : DB) : Prop :=
  ∃ context, admission P q.authorization q.xTenantId t d = .ok (.ok context)

/-- The readings the middleware takes before the endpoint gets its turn. -/
def middlewareReadings (authorization xTenantId : Option String) : Nat :=
  match parseTenantId P xTenantId, bearerToken authorization with
  | .ok _, some _ => 1
  | _, _ => 0

end

section Specs
variable (P : Platform) (o : Nat → Reading) (d v : DB) (n : Nat) (s : List Mail)

theorem getCurrentUser_exec (authorization : Option String) :
    ∃ m, (getCurrentUser P authorization).exec Write.apply o ⟨d,v,[],n,s⟩ =
        (AppError.outcome (authenticate P authorization (o n).now v),⟨d,v,[],n+m,s⟩) ∧
      ∀ u, authenticate P authorization (o n).now v = .ok u → m = 1 := by
  unfold getCurrentUser authenticate
  cases P.httpBearer authorization with
  | none => exact ⟨0,rfl,by simp⟩
  | some credentials =>
    simp only [exec_appErrorIf_bind,exec_decodeToken_bind,exec_scalar_bind,flushAll_nil]
    cases hs : credentials.isBearer with
    | false => exact ⟨0,rfl,by simp⟩
    | true =>
      refine ⟨1,?_,by simp⟩
      cases decodeAt P credentials.credentials (some .access) (o n).now with
      | error e => rfl
      | ok payload =>
        simp only [Bool.true_eq_false,if_false]
        cases v.users.find? _ <;> rfl

theorem requirePermission_exec (name : String) (authorization : Option String) :
    ∃ m, (requirePermission P name authorization).exec Write.apply o ⟨d,v,[],n,s⟩ =
        (AppError.outcome (authorize P name authorization (o n).now v),⟨d,v,[],n+m,s⟩) ∧
      ∀ u, authorize P name authorization (o n).now v = .ok u → m = 1 := by
  obtain ⟨m,hm,h1⟩ := getCurrentUser_exec P o d v n s authorization
  refine ⟨m,?_,?_⟩
  · unfold requirePermission authorize
    rw [exec_bind,hm]
    cases ha : authenticate P authorization (o n).now v with
    | error e => simp [AppError.outcome]
    | ok u =>
      simp only [AppError.outcome,exec_select_bind,flushAll_nil,exec_appErrorIf_bind]
      cases hf : (permissionJoin v u.id).find? fun p => p.name = name with
      | none =>
        have hn : name ∉ permissionNames v u.id := by
          intro h
          obtain ⟨p,hp,he⟩ := List.mem_map.mp h
          have := List.find?_eq_none.mp hf p hp
          simp [he] at this
        simp [hn]
      | some p =>
        have hp := List.mem_of_find?_eq_some hf
        have he : p.name = name := by simpa using List.find?_some hf
        have hn : name ∈ permissionNames v u.id := he ▸ List.mem_map_of_mem hp
        simp [hn]
  · intro u hu
    unfold authorize at hu
    cases ha : authenticate P authorization (o n).now v with
    | error e => simp [ha] at hu
    | ok u' => exact h1 u' ha

theorem requireTenantAdmin_exec (tenantId : UUID) (user : User) :
    (requireTenantAdmin tenantId user).exec Write.apply o ⟨d,v,[],n,s⟩ =
      (adminMembership v tenantId user.id,⟨d,v,[],n,s⟩) := by
  unfold requireTenantAdmin adminMembership TenantService.getMembership membershipOf roleOf
  simp only [exec_scalar_bind,flushAll_nil]
  cases hm : v.members.find? _ with
  | none => rfl
  | some m =>
    simp only [exec_refreshRow_bind,exec_appErrorIf_bind]
    cases hr : v.roles.find? _ with
    | none => rfl
    | some role =>
      simp only []
      split <;> rfl

theorem contextFor_exec (userId tokenTenantId headerTenantId : Option UUID) :
    (contextFor userId tokenTenantId headerTenantId).exec Write.apply o ⟨d,v,[],n,s⟩ =
      (.ok (contextAt userId tokenTenantId headerTenantId v),⟨d,v,[],n,s⟩) := by
  unfold contextFor contextAt
  split
  · rfl
  · cases htok : (tokenTenantId <|> headerTenantId) with
    | none => rfl
    | some tenantId =>
      cases userId with
      | none => rfl
      | some userId =>
        simp only [TenantService.getTenant,TenantService.getMembership,exec_scalar_bind,
          flushAll_nil,activeTenant,membershipOf]
        cases v.tenants.find? _ with
        | none => rfl
        | some tenant =>
          simp only [exec_scalar_bind,flushAll_nil]
          cases v.members.find? _ <;> rfl

theorem tenantContextMiddleware_exec (authorization xTenantId : Option String) :
    (tenantContextMiddleware P authorization xTenantId).exec Write.apply o ⟨d,v,[],n,s⟩ =
      (admission P authorization xTenantId (o n).now v,
        ⟨d,v,[],n + middlewareReadings P authorization xTenantId,s⟩) := by
  unfold tenantContextMiddleware admission middlewareReadings
  cases parseTenantId P xTenantId with
  | error e => rfl
  | ok headerTenantId =>
    cases bearerToken authorization with
    | none => simp [contextFor_exec]
    | some token =>
      have hd : (decodeToken P token (some .access)).attempt.exec Write.apply o ⟨d,v,[],n,s⟩ =
          (.ok (match decodeAt P token (some .access) (o n).now with
            | .ok payload => .ok payload
            | .error e => .error (.app e)),⟨d,v,[],n+1,s⟩) := by
        rw [exec_attempt]
        unfold decodeToken
        rw [exec_now_bind]
        cases decodeAt P token (some .access) (o n).now <;> simp
      simp only [exec_bind,hd]
      cases decodeAt P token (some .access) (o n).now with
      | ok payload => simp [contextFor_exec]
      | error e =>
        by_cases hh : headerTenantId.isSome
        · simp [hh]
        · simp [hh,contextFor_exec]

end Specs

/-- The reading at which the endpoint of an admitted request starts. -/
def endpointStart (P : Platform) (w : World DB Mail) (q : Request) : Nat :=
  w.taken + middlewareReadings P q.authorization q.xTenantId

/-- A served request: the middleware's verdict on the state before it, and on
admission the endpoint from where the middleware stopped reading. -/
theorem handle_eq (P : Platform) (o : Readings) (w : World DB Mail) (q : Request) :
    let w' : World DB Mail := ⟨w.db,endpointStart P w q,w.sent⟩
    handle P o w q =
      match admission P q.authorization q.xTenantId (o.read w.taken).now w.db with
      | .ok (.ok _) =>
        (respond q.route.statusCode (serve Write.apply o.read (q.endpoint P) w').1,
          (serve Write.apply o.read (q.endpoint P) w').2)
      | .ok (.error e) => (buildErrorResponse e,w')
      | .raised _ | .fault _ => (unhandledException,w') := by
  unfold handle
  have hs : serve Write.apply o.read
      (tenantContextMiddleware P q.authorization q.xTenantId) w =
      (admission P q.authorization q.xTenantId (o.read w.taken).now w.db,
        ⟨w.db,endpointStart P w q,w.sent⟩) := by
    rw [serve,tenantContextMiddleware_exec]
    rfl
  rw [hs]
  cases admission P q.authorization q.xTenantId (o.read w.taken).now w.db with
  | ok verdict => cases verdict <;> rfl
  | raised e => rfl
  | fault f => rfl

theorem endpointStart_le (P : Platform) (o : Readings) (w : World DB Mail) (q : Request) :
    endpointStart P w q ≤ (handle P o w q).2.taken := by
  rw [handle_eq]
  cases admission P q.authorization q.xTenantId (o.read w.taken).now w.db with
  | raised e => exact Nat.le_refl _
  | fault f => exact Nat.le_refl _
  | ok verdict =>
    cases verdict with
    | error e => exact Nat.le_refl _
    | ok context =>
      exact exec_taken_le Write.apply o.read (q.endpoint P)
        ⟨w.db,w.db,[],endpointStart P w q,w.sent⟩

/-- Serving a request takes readings from the run and gives none back. -/
theorem handle_taken_le (P : Platform) (o : Readings) (w : World DB Mail) (q : Request) :
    w.taken ≤ (handle P o w q).2.taken :=
  (Nat.le_add_right _ _ : w.taken ≤ endpointStart P w q).trans (endpointStart_le P o w q)

end TenantAuth
