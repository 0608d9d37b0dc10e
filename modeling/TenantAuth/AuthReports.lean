import TenantAuth.Admissibility
import TenantAuth.Transact.Outcomes
set_option autoImplicit false

namespace TenantAuth
open Transact

/-- A registration or a password change has nothing to stumble over: once the checks are passed
the password can be hashed and the columns take the values. -/
def AuthRoute.Storable (P : Platform) (o : Nat → Reading) (n : Nat) (d : DB) : AuthRoute → Prop
  | .register payload => d.users.find? (fun u => u.email = P.lower payload.email) = none →
    (∃ hash, P.hashpw payload.password (o n).salt = some hash) ∧ payload.Fits P
  | .resetPassword token newPassword => ∀ r u,
    AuthService.OneTimeChecked P o n DB.resetTokens .reset d token r u →
    ∃ hash, P.hashpw newPassword (o (n+2)).salt = some hash
  | .login _ | .logout _ | .refresh _ | .verifyEmail _ | .forgotPassword _ => True

@[simp] theorem isApp_app (e : AppError) : (Exc.app e).IsApp := trivial
theorem within_app {α : Type} {e : AppError} :
    (Outcome.raised (.app e) : Outcome Exc Fault α).Within Exc.IsApp := .raised trivial

@[simp] theorem not_isApp_valueError : ¬ Exc.valueError.IsApp := id
@[simp] theorem not_isApp_invalidRequest : ¬ Exc.invalidRequest.IsApp := id

namespace AuthService
variable {P : Platform} {o : Nat → Reading} {n : Nat} {d : DB} {s : List Mail}

theorem exec_sendEmail {m : Mail} {v : DB} {ws : List Write} :
    (sendEmail m).exec Write.apply o ⟨d,v,ws,n,s⟩ =
      if (o n).delivered then (.ok (),⟨d,v,ws,n+1,s ++ [m]⟩)
      else (.raised .smtpError,⟨d,v,ws,n+1,s⟩) := by
  unfold sendEmail
  rw [exec_reading_bind]
  cases (o n).delivered <;> rfl

theorem exec_sendEmail_bind {α : Type} {m : Mail} {v : DB} {ws : List Write} {g : Unit → App α}
    (h : (o n).delivered = true) :
    (sendEmail m >>= g).exec Write.apply o ⟨d,v,ws,n,s⟩ =
      (g ()).exec Write.apply o ⟨d,v,ws,n+1,s ++ [m]⟩ := by
  rw [exec_bind,exec_sendEmail,if_pos h]

theorem exec_sendEmail_failed {α : Type} {m : Mail} {v : DB} {ws : List Write} {g : Unit → App α}
    (h : (o n).delivered = false) :
    (sendEmail m >>= g).exec Write.apply o ⟨d,v,ws,n,s⟩ =
      (.raised .smtpError,⟨d,v,ws,n+1,s⟩) := by
  rw [exec_bind,exec_sendEmail,if_neg (by simp [h])]

def verificationMail (P : Platform) (u : User) (t : Nat) : Mail :=
  ⟨u.email,"Verify your account","Welcome " ++ u.firstName ++ ", your verification token is: " ++
    verificationTokenAt P u t⟩

def registered (P : Platform) (o : Nat → Reading) (d : DB) (n : Nat) (u : User) : DB :=
  (Write.insertVerificationToken (newVerificationToken P o n u)).effect
    ((Write.insertUser u).effect d)

section Registrations
variable {payload : RegisterRequest} {hash : String} {u : User}

theorem registration_admissible (hu : u = newUser P o n payload hash) (hfresh : FreshKeys o n d)
    (hfree : d.users.find? (fun u => u.email = P.lower payload.email) = none)
    (hfits : payload.Fits P) :
    (Write.insertUser u).violation d = none ∧
      ((Write.insertUser u).effect d).users.find? (fun u => u.id = (o (n+1)).uuid) = some u ∧
      (Write.insertVerificationToken (newVerificationToken P o n u)).violation
        ((Write.insertUser u).effect d) = none := by
  subst hu
  have hkey : (newUser P o n payload hash).id ∉ d.users.map User.id :=
    hfresh.users (Nat.le_add_right n 1)
  refine ⟨(newUser_violation_iff hfresh hfree).mpr hfits,find_append_key hkey,?_⟩
  exact (insertOneTimeToken_violation (by simp [Write.effect,newVerificationToken])).1
    (hfresh.verificationTokens (Nat.le_add_right n 4))

/-- Where the email is free and the columns take the values, both commits succeed and the mail is
next. -/
theorem register_exec (hu : u = newUser P o n payload hash) (hfresh : FreshKeys o n d)
    (hfree : d.users.find? (fun u => u.email = P.lower payload.email) = none)
    (hp : P.hashpw payload.password (o n).salt = some hash) (hfits : payload.Fits P) :
    (register P payload).exec Write.apply o ⟨d,d,[],n,s⟩ =
      (sendEmail (verificationMail P u (o (n+3)).now) >>= fun _ => pure u).exec Write.apply o
        ⟨registered P o d n u,registered P o d n u,[],n+5,s⟩ := by
  obtain ⟨huser,hfind,htoken⟩ := registration_admissible hu hfresh hfree hfits
  have h1 : flushAll Write.apply [.insertUser u] d = .ok ((Write.insertUser u).effect d) :=
    flushAll_single.mpr ⟨huser,rfl⟩
  have h2 : flushAll Write.apply [.insertVerificationToken (newVerificationToken P o n u)]
      ((Write.insertUser u).effect d) = .ok (registered P o d n u) :=
    flushAll_single.mpr ⟨htoken,rfl⟩
  have hnew : (⟨(o (n+1)).uuid,P.lower payload.email,hash,strip payload.firstName,
      strip payload.lastName,true,false,(o (n+1+1)).now,(o (n+1+1)).now⟩ : User) = u := hu.symm
  have hrow : (⟨(o (n+1+1+1+1)).uuid,u.id,hashToken P (createTypedToken P u.id u.email .verify
      ((o (n+1+1+1)).now + timedeltaHours 24)).1,(createTypedToken P u.id u.email .verify
      ((o (n+1+1+1)).now + timedeltaHours 24)).2,none⟩ : OneTimeToken) =
      newVerificationToken P o n u := rfl
  unfold register userByEmail
  simp only [exec_scalar_bind,flushAll_nil,exec_appErrorIf_bind,exec_hashPassword_bind,hfree,
    Option.isSome_none,Bool.false_eq_true,if_false,hp,exec_uuid4_bind,exec_now_bind,exec_add_bind,
    List.nil_append,hnew,exec_commit_bind,h1,exec_refreshRow_bind,hfind,
    exec_createVerificationToken_bind,hrow,h2]
  rfl

/-- If then the mail server takes the message, it returns the new user, and his token is stored and
mailed. -/
theorem register_ok (hu : u = newUser P o n payload hash) (hfresh : FreshKeys o n d)
    (hfree : d.users.find? (fun u => u.email = P.lower payload.email) = none)
    (hp : P.hashpw payload.password (o n).salt = some hash) (hfits : payload.Fits P)
    (hsent : (o (n+5)).delivered = true) :
    (register P payload).exec Write.apply o ⟨d,d,[],n,s⟩ =
      (.ok u,⟨registered P o d n u,registered P o d n u,[],n+6,
        s ++ [verificationMail P u (o (n+3)).now]⟩) := by
  rw [register_exec hu hfresh hfree hp hfits,exec_sendEmail_bind hsent]
  rfl

theorem register_unfit (hfresh : FreshKeys o n d)
    (hfree : d.users.find? (fun u => u.email = P.lower payload.email) = none)
    (hp : P.hashpw payload.password (o n).salt = some hash) (hfits : ¬ payload.Fits P) :
    ∃ f, ((register P payload).exec Write.apply o ⟨d,d,[],n,s⟩).1 = .fault f := by
  obtain ⟨f,hf⟩ := newUser_refused hfresh hfree hfits
  have hnew : (⟨(o (n+1)).uuid,P.lower payload.email,hash,strip payload.firstName,
      strip payload.lastName,true,false,(o (n+1+1)).now,(o (n+1+1)).now⟩ : User) =
      newUser P o n payload hash := rfl
  unfold register userByEmail
  simp only [exec_scalar_bind,flushAll_nil,exec_appErrorIf_bind,exec_hashPassword_bind,hfree,
    Option.isSome_none,Bool.false_eq_true,if_false,hp,exec_uuid4_bind,exec_now_bind,exec_add_bind,
    List.nil_append,hnew,exec_commit_bind]
  rw [hf]
  exact ⟨f,rfl⟩

end Registrations

theorem register_within (hfresh : FreshKeys o n d) (hsent : ∀ i, (o i).delivered = true)
    (payload : RegisterRequest) :
    ((register P payload).exec Write.apply o ⟨d,d,[],n,s⟩).1.Within Exc.IsApp ↔
      AuthRoute.Storable P o n d (.register payload) := by
  unfold AuthRoute.Storable
  cases hfree : d.users.find? fun u => u.email = P.lower payload.email with
  | some u =>
    unfold register userByEmail
    simp [exec_scalar_bind,hfree]
  | none =>
    constructor
    · intro h _
      unfold register userByEmail at h
      simp only [exec_scalar_bind,flushAll_nil,exec_appErrorIf_bind,exec_hashPassword_bind,hfree,
        Option.isSome_none,Bool.false_eq_true,if_false] at h
      cases hp : P.hashpw payload.password (o n).salt with
      | none => simp [hp] at h
      | some hash =>
        simp only [hp,exec_uuid4_bind,exec_now_bind,exec_add_bind,List.nil_append] at h
        obtain ⟨d1,hf,-⟩ := within_commit_bind.mp h
        exact ⟨⟨hash,rfl⟩,(newUser_violation_iff hfresh hfree).mp (flushAll_single.mp hf).1⟩
    · intro h
      obtain ⟨⟨hash,hp⟩,hfits⟩ := h hfree
      rw [register_exec rfl hfresh hfree hp hfits,exec_sendEmail_bind (hsent _)]
      exact .ok _

theorem login_within (hw : d.Wf) (hfresh : FreshKeys o n d) (payload : LoginRequest)
    (x : Option UUID) :
    ((login P payload x).exec Write.apply o ⟨d,d,[],n,s⟩).1.Within Exc.IsApp := by
  unfold login userByEmail
  simp only [exec_scalar_bind,flushAll_nil]
  cases hu : d.users.find? _ with
  | none => exact within_app
  | some u =>
    simp only [exec_appErrorIf_bind,exec_requireScope_bind,exec_issueTokenPair_bind,
      List.nil_append]
    split
    · exact within_app
    split
    · exact within_app
    split
    · rename_i hscope
      have hv := insertRefreshToken_violation (r := issuedAt P o n u.id x)
        (List.mem_map_of_mem (List.mem_of_find?_eq_some hu)) (hscope.present hw)
        (hfresh.refreshTokens (Nat.le_add_right n 2))
      rw [flushAll_single.mpr ⟨hv,rfl⟩]
      exact .ok _
    · exact within_app

theorem logout_within (token : String) :
    ((logout P token).exec Write.apply o ⟨d,d,[],n,s⟩).1.Within Exc.IsApp := by
  unfold logout liveRefreshToken
  simp only [exec_decodeToken_bind]
  cases decodeAt P token (some .refresh) (o n).now with
  | error e => exact within_app
  | ok i =>
    simp only [exec_scalar_bind,flushAll_nil]
    cases hr : d.refreshTokens.find? _ with
    | none => exact within_app
    | some r =>
      simp only [exec_now_bind,exec_add_bind,List.nil_append]
      have hv : (Write.revokeRefreshToken r.id (o (n+1)).now).violation d = none :=
        firstViolation_found (List.mem_of_find?_eq_some hr)
      exact within_commit.mpr ⟨_,flushAll_single.mpr ⟨hv,rfl⟩⟩

theorem refresh_within (hw : d.Wf) (hfresh : FreshKeys o n d) (token : String) :
    ((refresh P token).exec Write.apply o ⟨d,d,[],n,s⟩).1.Within Exc.IsApp := by
  unfold refresh liveRefreshToken
  simp only [exec_decodeToken_bind]
  cases decodeAt P token (some .refresh) (o n).now with
  | error e => exact within_app
  | ok i =>
    simp only [exec_scalar_bind,flushAll_nil]
    cases hr : d.refreshTokens.find? _ with
    | none => exact within_app
    | some r =>
      simp only [exec_now_bind,exec_appErrorIf_bind,exec_requireScope_bind,exec_add_bind,
        exec_flush_bind,List.nil_append]
      split
      · exact within_app
      split
      · rename_i hscope
        have hmem := List.mem_of_find?_eq_some hr
        have hsubject : r.userId = i.subject := by
          have hp := List.find?_some hr
          simp only [decide_eq_true_eq] at hp
          exact hp.2.1
        have hv : (Write.revokeRefreshToken r.id (o (n+2)).now).violation d = none :=
          firstViolation_found hmem
        rw [flushAll_single.mpr ⟨hv,rfl⟩]
        simp only [exec_issueTokenPair_bind,List.nil_append]
        -- The row of the old token is still there, so the new one is stored beside it.
        have hkeys : ((Write.revokeRefreshToken r.id (o (n+2)).now).effect d).refreshTokens.map
            RefreshToken.id = d.refreshTokens.map RefreshToken.id := by
          apply map_update
          exact fun _ => rfl
        have hkey : (issuedAt P o (n+3) i.subject r.tenantId).id ∉
            ((Write.revokeRefreshToken r.id (o (n+2)).now).effect d).refreshTokens.map
              RefreshToken.id := by
          rw [hkeys]
          exact hfresh.refreshTokens (Nat.le_add_right n 5)
        have huser : i.subject ∈ d.users.map User.id :=
          hsubject ▸ hw.refreshTokenUser (List.mem_map_of_mem hmem)
        have htenant := hscope.present hw
        have hv' := insertRefreshToken_violation (r := issuedAt P o (n+3) i.subject r.tenantId)
          (d := (Write.revokeRefreshToken r.id (o (n+2)).now).effect d) huser htenant hkey
        rw [flushAll_single.mpr ⟨hv',rfl⟩]
        exact .ok _
      · exact within_app

theorem useToken_admissible {u : User} {p : UserPatch} {t : Nat} {x : Write} (hu : u ∈ d.users)
    (hp : p.Fits u) (hx : ∀ users, x.violation { d with users := users } = none) :
    Admissible (userWrites u p t ++ [x]) d := by
  obtain ⟨d1,hf⟩ := (userWrites_admissible_iff (t := t) hu).mpr hp
  obtain ⟨f,-,rfl⟩ := userWrites_flush hf
  rw [admissible_append hf,admissible_single]
  exact hx _

theorem verifyEmail_within (token : String) :
    ((verifyEmail P token).exec Write.apply o ⟨d,d,[],n,s⟩).1.Within Exc.IsApp := by
  unfold verifyEmail unusedToken userById
  simp only [exec_decodeToken_bind]
  cases decodeAt P token (some .verify) (o n).now with
  | error e => exact within_app
  | ok i =>
    simp only [exec_scalar_bind,flushAll_nil]
    cases hr : d.verificationTokens.find? _ with
    | none => exact within_app
    | some row =>
      simp only [exec_now_bind,exec_appErrorIf_bind,exec_scalar_bind,flushAll_nil]
      split
      · exact within_app
      cases hu : d.users.find? _ with
      | none => exact within_app
      | some u =>
        simp only [exec_appErrorIf_bind,exec_setUser_bind,exec_now_bind,exec_add_bind,
          List.nil_append]
        split
        · exact within_app
        refine within_commit.mpr (useToken_admissible (List.mem_of_find?_eq_some hu)
          ⟨by simp,by simp,by simp⟩ fun users => ?_)
        exact firstViolation_found (List.mem_of_find?_eq_some hr)

theorem forgotPassword_within (hfresh : FreshKeys o n d) (hsent : ∀ i, (o i).delivered = true)
    (email : String) :
    ((forgotPassword P email).exec Write.apply o ⟨d,d,[],n,s⟩).1.Within Exc.IsApp := by
  unfold forgotPassword userByEmail
  simp only [exec_scalar_bind,flushAll_nil]
  cases hu : d.users.find? _ with
  | none => exact .ok _
  | some u =>
    simp only [exec_createPasswordResetToken_bind,exec_uuid4_bind,exec_add_bind,List.nil_append]
    have hv := (insertOneTimeToken_violation (r := newResetToken P o n u)
      (List.mem_map_of_mem (List.mem_of_find?_eq_some hu))).2
        (hfresh.resetTokens (Nat.le_add_right n 1))
    refine within_commit_bind.mpr ⟨_,flushAll_single.mpr ⟨hv,rfl⟩,?_⟩
    rw [exec_sendEmail,if_pos (hsent _)]
    exact .ok _

theorem resetPassword_refused {token newPassword : String}
    (h : ∀ r u, ¬ OneTimeChecked P o n DB.resetTokens .reset d token r u) :
    ((resetPassword P token newPassword).exec Write.apply o ⟨d,d,[],n,s⟩).1.Within Exc.IsApp := by
  unfold resetPassword unusedToken userById
  simp only [exec_decodeToken_bind]
  cases hd : decodeAt P token (some .reset) (o n).now with
  | error e => exact within_app
  | ok i =>
    simp only [exec_scalar_bind,flushAll_nil]
    cases hr : d.resetTokens.find? fun r => r.tokenHash = hashToken P token ∧
        r.userId = i.subject ∧ r.usedAt = none with
    | none => exact within_app
    | some row =>
      simp only [exec_now_bind,exec_appErrorIf_bind,exec_scalar_bind,flushAll_nil]
      split
      · exact within_app
      rename_i hexp
      cases hu : d.users.find? fun u => u.id = i.subject with
      | none => exact within_app
      | some u => exact absurd ⟨⟨i,hd,hr,hu⟩,by omega⟩ (h row u)

theorem resetPassword_checked {token newPassword : String} {r : OneTimeToken} {u : User}
    (h : OneTimeChecked P o n DB.resetTokens .reset d token r u) :
    ((resetPassword P token newPassword).exec Write.apply o ⟨d,d,[],n,s⟩).1.Within Exc.IsApp ↔
      ∃ hash, P.hashpw newPassword (o (n+2)).salt = some hash := by
  obtain ⟨i,hi,hr,hu⟩ := h.decoded
  have hexp : ¬ r.expiresAt ≤ (o (n+1)).now := Nat.not_le.mpr h.unexpired
  unfold resetPassword unusedToken userById
  simp only [exec_decodeToken_bind,hi,exec_scalar_bind,flushAll_nil,hr,exec_now_bind,
    exec_appErrorIf_bind,hexp,if_false,hu,exec_hashPassword_bind]
  cases P.hashpw newPassword (o (n+2)).salt with
  | none => simp
  | some hash =>
    simp only [exec_setUser_bind,exec_now_bind,exec_add_bind,List.nil_append]
    refine iff_of_true (within_commit.mpr ?_) ⟨hash,rfl⟩
    refine useToken_admissible (List.mem_of_find?_eq_some hu) ⟨by simp,by simp,by simp⟩
      fun users => ?_
    exact firstViolation_found (List.mem_of_find?_eq_some hr)

theorem resetPassword_within (token newPassword : String) :
    ((resetPassword P token newPassword).exec Write.apply o ⟨d,d,[],n,s⟩).1.Within Exc.IsApp ↔
      AuthRoute.Storable P o n d (.resetPassword token newPassword) := by
  unfold AuthRoute.Storable
  by_cases hsome : ∃ r u, OneTimeChecked P o n DB.resetTokens .reset d token r u
  · obtain ⟨r,u,hchecked⟩ := hsome
    rw [resetPassword_checked hchecked]
    exact ⟨fun h _ _ _ => h,fun h => h r u hchecked⟩
  · simp only [not_exists] at hsome
    exact iff_of_true (resetPassword_refused hsome) fun r u h => absurd h (hsome r u)

end AuthService

theorem AuthRoute.endpoint_within {P : Platform} {o : Nat → Reading} {n : Nat} {d : DB}
    {s : List Mail} (hw : d.Wf) (hfresh : FreshKeys o n d) (hsent : ∀ i, (o i).delivered = true)
    (xTenantId : Option String) (r : AuthRoute) :
    ((r.endpoint P xTenantId).exec Write.apply o ⟨d,d,[],n,s⟩).1.Within Exc.IsApp ↔
      r.Storable P o n d := by
  cases r with
  | register payload => exact within_bind_pure.trans (AuthService.register_within hfresh hsent _)
  | login payload =>
    refine iff_of_true ?_ trivial
    unfold AuthRoute.endpoint AuthRouter.login
    cases AuthRouter.loginTenantId P xTenantId with
    | error e => exact within_app
    | ok x => exact within_bind_pure.mpr (AuthService.login_within hw hfresh payload x)
  | logout token =>
    exact iff_of_true (within_bind_pure.mpr (AuthService.logout_within token)) trivial
  | refresh token =>
    exact iff_of_true (within_bind_pure.mpr (AuthService.refresh_within hw hfresh token)) trivial
  | verifyEmail token =>
    exact iff_of_true (within_bind_pure.mpr (AuthService.verifyEmail_within token)) trivial
  | forgotPassword email =>
    exact iff_of_true (within_bind_pure.mpr (AuthService.forgotPassword_within hfresh hsent email))
      trivial
  | resetPassword token newPassword =>
    exact within_bind_pure.trans (AuthService.resetPassword_within token newPassword)

end TenantAuth
