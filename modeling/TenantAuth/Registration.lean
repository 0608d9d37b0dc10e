import TenantAuth.AuthReports
import TenantAuth.Schemas
set_option autoImplicit false

namespace TenantAuth
open Transact

section Requests
variable {P : Platform} {o : Readings} {w : World DB Mail} {r : AuthRoute}

theorem handle_plain :
    handle P o w { route := .auth r } =
      (respond (Route.auth r).statusCode
          ((r.endpoint P none).exec Write.apply o.read ⟨w.db,w.db,[],w.taken,w.sent⟩).1,
        ⟨((r.endpoint P none).exec Write.apply o.read ⟨w.db,w.db,[],w.taken,w.sent⟩).2.db,
          ((r.endpoint P none).exec Write.apply o.read ⟨w.db,w.db,[],w.taken,w.sent⟩).2.taken,
          ((r.endpoint P none).exec Write.apply o.read ⟨w.db,w.db,[],w.taken,w.sent⟩).2.sent⟩) := rfl

/-- A registration adds nobody, or one user with the email and a hash of the password that it was
sent with. -/
theorem register_users {q : Request} {payload : RegisterRequest}
    (hq : q.route = .auth (.register payload)) :
    (handle P o w q).2.db.users = w.db.users ∨
      ∃ u salt, (handle P o w q).2.db.users = w.db.users ++ [u] ∧ u.id ∉ w.db.users.map User.id ∧
        u.email = P.lower payload.email ∧ P.hashpw payload.password salt = some u.passwordHash := by
  rcases handle_auth hq with ⟨-,he⟩ | he
  · exact .inl (by rw [he])
  simp only [he,AuthRoute.endpoint,AuthRouter.register,exec_bind_pure]
  obtain ⟨ws,hreg,hf⟩ := AuthService.register_cases P o.read w.db (endpointStart P w q) w.sent payload
  generalize Outcome.isOk _ = ok at hreg
  cases hreg with
  | nothing => exact .inl (congrArg DB.users (Except.ok.inj hf)).symm
  | userOnly hfree hp =>
    obtain ⟨hv,hd⟩ := flushAll_single.mp hf
    simp only [Write.violation,firstViolation_eq_none,List.forall_mem_cons,vacant_iff] at hv
    exact .inr ⟨_,_,by rw [hd]; rfl,hv.2.2.2.1,rfl,hp⟩
  | all hfree hp =>
    obtain ⟨hv,hf⟩ := flushAll_cons.mp hf
    obtain ⟨-,hd⟩ := flushAll_single.mp hf
    simp only [Write.violation,firstViolation_eq_none,List.forall_mem_cons,vacant_iff] at hv
    exact .inr ⟨_,_,by rw [hd]; rfl,hv.2.2.2.1,rfl,hp⟩

end Requests

namespace AuthService
variable {P : Platform} {o : Nat → Reading} {d : DB} {n : Nat} {s : List Mail} {u : User}

theorem registered_freshKeys (hu : u.id = (o (n+1)).uuid) (h : FreshKeys o n d) :
    FreshKeys o (n+6) (registered P o d n u) := by
  refine ⟨fun i hi hk => ?_,(h.mono (Nat.le_add_right n 6)).distinct⟩
  have hold := h.unused i (by omega)
  have huser : (o i).uuid ≠ u.id := fun he =>
    absurd (h.distinct i (n+1) (by omega) (by omega) (he.trans hu)) (by omega)
  have htoken : (o i).uuid ≠ (o (n+4)).uuid := fun he =>
    absurd (h.distinct i (n+4) (by omega) (by omega) he) (by omega)
  simp only [DB.keys,registered,Write.effect,newVerificationToken,List.map_append,List.mem_append,
    List.map_cons,List.map_nil,List.mem_singleton] at hk hold
  tauto

theorem login_isOk_iff {payload : LoginRequest} (hfresh : FreshKeys o n d)
    (hu : d.users.find? (fun u => u.email = P.lower payload.email) = some u)
    (ha : u.isActive = true) :
    ((login P payload none).exec Write.apply o ⟨d,d,[],n,s⟩).1.isOk = true ↔
      verifyPassword P payload.password u.passwordHash = true := by
  have hrow : flushAll Write.apply [.insertRefreshToken (issuedAt P o n u.id none)] d =
      .ok ((Write.insertRefreshToken (issuedAt P o n u.id none)).effect d) :=
    flushAll_single.mpr ⟨insertRefreshToken_violation
      (List.mem_map_of_mem (List.mem_of_find?_eq_some hu)) (by simp [issuedAt])
      (hfresh.refreshTokens (Nat.le_add_right n 2)),rfl⟩
  have hscope : InScope d u.id none := by simp [InScope]
  unfold login userByEmail
  simp only [exec_scalar_bind,flushAll_nil,hu,exec_appErrorIf_bind,ha,Bool.true_eq_false,if_false,
    exec_requireScope_bind,hscope,if_true,exec_issueTokenPair_bind,List.nil_append,hrow]
  cases verifyPassword P payload.password u.passwordHash with
  | false => simp [Outcome.isOk]
  | true => simp [Outcome.isOk]

end AuthService

section Bodies
variable {P : Platform} {E : EmailStr P} {o : Readings} {w : World DB Mail}
  {email password firstName lastName : String}

theorem AuthBody.validate_register {payload : RegisterRequest}
    (h : RegisterRequest.validate E email password firstName lastName = .ok payload) :
    (AuthBody.register email password firstName lastName).validate E = .ok (.register payload) := by
  simp [AuthBody.validate,h,bind,Except.bind,pure,Except.pure]

theorem AuthBody.validate_eq_register {body : AuthBody} {payload : RegisterRequest}
    (h : body.validate E = .ok (.register payload)) :
    RegisterRequest.passwordField payload.password = .ok payload.password := by
  cases body with
  | register email password firstName lastName =>
    cases hv : RegisterRequest.validate E email password firstName lastName with
    | error m => simp [AuthBody.validate,hv,bind,Except.bind] at h
    | ok payload' =>
      obtain rfl : payload' = payload := by
        simpa [AuthBody.validate,hv,bind,Except.bind,pure,Except.pure] using h
      have hfield := (RegisterRequest.validate_ok.mp hv).2.1
      have heq : payload'.password = password := (RegisterRequest.passwordField_ok hfield).1
      rw [heq] at hfield ⊢
      exact hfield
  | login email password =>
    cases hv : LoginRequest.validate E email password <;>
      simp [AuthBody.validate,hv,bind,Except.bind,pure,Except.pure] at h
  | logout refreshToken | refresh refreshToken =>
    cases hv : strField 1 none refreshToken <;>
      simp [AuthBody.validate,hv,bind,Except.bind,pure,Except.pure] at h
  | forgotPassword email =>
    cases hv : E.validate email <;>
      simp [AuthBody.validate,hv,bind,Except.bind,pure,Except.pure] at h
  | verifyEmail token | resetPassword token newPassword => simp [AuthBody.validate] at h

theorem AuthBody.validate_login {payload : LoginRequest}
    (h : LoginRequest.validate E email password = .ok payload) :
    (AuthBody.login email password).validate E = .ok (.login payload) := by
  simp [AuthBody.validate,h,bind,Except.bind,pure,Except.pure]

theorem Reachable.submit {body : AuthBody} {r : AuthRoute} (hr : Reachable P o w)
    (authorization xTenantId : Option String) (h : body.validate E = .ok r) :
    Reachable P o (TenantAuth.submit E o w authorization xTenantId body).2 := by
  rw [submit_ok h]
  exact hr.serve _

theorem submit_error {authorization xTenantId : Option String} {body : AuthBody} {message : String}
    (h : body.validate E = .error message) :
    (submit E o w authorization xTenantId body).2.db = w.db := by
  simp only [submit,h,serve,tenantContextMiddleware_exec]
  split <;> rename_i heq <;> rw [← (Prod.mk.inj heq).2]

theorem submit_register {payload : RegisterRequest}
    (h : RegisterRequest.validate E email password firstName lastName = .ok payload) :
    let x := (AuthService.register P payload).exec Write.apply o.read
      ⟨w.db,w.db,[],w.taken,w.sent⟩
    let y := submit E o w none none (.register email password firstName lastName)
    y.1.isSuccess = x.1.isOk ∧ y.2 = ⟨x.2.db,x.2.taken,x.2.sent⟩ := by
  simp only [submit_ok (AuthBody.validate_register h),handle_plain,respond_isSuccess,
    AuthRoute.endpoint,AuthRouter.register,exec_bind_pure,and_self]

theorem submit_login {payload : LoginRequest}
    (h : LoginRequest.validate E email password = .ok payload) :
    (submit E o w none none (.login email password)).1.isSuccess =
      ((AuthService.login P payload none).exec Write.apply o.read
        ⟨w.db,w.db,[],w.taken,w.sent⟩).1.isOk := by
  simp only [submit_ok (AuthBody.validate_login h),handle_plain,respond_isSuccess,
    AuthRoute.endpoint,AuthRouter.login,AuthRouter.loginTenantId,exec_bind_pure]

end Bodies

end TenantAuth
