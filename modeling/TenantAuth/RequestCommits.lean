import TenantAuth.AuthCommits
import TenantAuth.TenantCommits
set_option autoImplicit false

namespace TenantAuth
open Transact

/-- The user has an active membership of the tenant with one of the two admin roles. -/
def IsTenantAdmin (d : DB) (tenantId userId : UUID) : Prop :=
  ∃ m ∈ d.members, m.tenantId = tenantId ∧ m.userId = userId ∧ m.isActive = true ∧
    ∃ r ∈ d.roles, r.id = m.roleId ∧ (r.name = "tenant_admin" ∨ r.name = "super_admin")

theorem adminMembership_ok {d : DB} {t u : UUID} {m : TenantMember}
    (h : adminMembership d t u = .ok m) : IsTenantAdmin d t u := by
  unfold adminMembership at h
  cases hm : membershipOf d t u with
  | none => simp [hm] at h
  | some m' =>
    cases hr : roleOf d m'.roleId with
    | none => simp [hm,hr] at h
    | some role =>
      simp only [hm,hr] at h
      split at h
      · cases h
      rename_i hname
      obtain ⟨hmem,ht,hu,ha⟩ := TenantService.membershipOf_mem hm
      have hid : role.id = m'.roleId := by simpa using List.find?_some hr
      exact ⟨m',hmem,ht,hu,ha,role,List.mem_of_find?_eq_some hr,hid,by tauto⟩

section Relations
variable (P : Platform) (o : Nat → Reading) (n : Nat) (d : DB)

inductive AuthCommit (xTenantId : Option String) : AuthRoute → List Write → Prop
  | nothing (r : AuthRoute) : AuthCommit xTenantId r []
  | register {payload : RegisterRequest} {ok : Bool} {ws : List Write}
      (h : AuthService.Registers P o d n payload ok ws) :
    AuthCommit xTenantId (.register payload) ws
  | login {payload : LoginRequest} {x : Option UUID} {u : User}
      (hx : AuthRouter.loginTenantId P xTenantId = .ok x)
      (h : AuthService.LoginChecked P d payload x u) :
    AuthCommit xTenantId (.login payload) [.insertRefreshToken (issuedAt P o n u.id x)]
  | logout {token : String} {i : TokenPayload} {r : RefreshToken}
      (h : AuthService.Presented P d token (o n).now i r) :
    AuthCommit xTenantId (.logout token) [.revokeRefreshToken r.id (o (n+1)).now]
  | refresh {token : String} {i : TokenPayload} {r : RefreshToken}
      (h : AuthService.RefreshChecked P o n d token i r) :
    AuthCommit xTenantId (.refresh token) (AuthService.rotation P o n i r)
  | verifyEmail {token : String} {r : EmailVerificationToken} {u : User}
      (h : AuthService.OneTimeChecked P o n DB.verificationTokens .verify d token r u) :
    AuthCommit xTenantId (.verifyEmail token) (AuthService.verification o n r u)
  | forgotPassword {email : String} {u : User}
      (h : d.users.find? (fun u => u.email = P.lower email) = some u) :
    AuthCommit xTenantId (.forgotPassword email)
      [.insertResetToken (AuthService.newResetToken P o n u)]
  | resetPassword {token newPassword hash : String} {r : PasswordResetToken} {u : User}
      (h : AuthService.OneTimeChecked P o n DB.resetTokens .reset d token r u) :
    AuthCommit xTenantId (.resetPassword token newPassword)
      (AuthService.passwordChange o n r u hash)

inductive TenantCommit (a : User) : TenantRoute → List Write → Prop
  | nothing (r : TenantRoute) : TenantCommit a r []
  | createTenant {name slug : String} {role : Role}
      (hr : TenantService.adminRole d = some role) :
    TenantCommit a (.createTenant name slug) (TenantService.creation P o n name slug a.id role)
  | updateTenant {t : UUID} {name : Option String} {isActive : Option Bool} {tenant : Tenant}
      (ha : IsTenantAdmin d t a.id) (ht : activeTenant d t = some tenant) :
    TenantCommit a (.updateTenant t name isActive)
      (TenantService.tenantWrites tenant { name := name.map strip, isActive := isActive }
        (o n).now)
  | deleteTenant {t : UUID} {tenant : Tenant}
      (ha : IsTenantAdmin d t a.id) (ht : activeTenant d t = some tenant) :
    TenantCommit a (.deleteTenant t)
      (TenantService.tenantWrites tenant { isActive := some false } (o n).now)
  | inviteMember {t : UUID} {email : String} {roleId : UUID} {role : Role}
      (ha : IsTenantAdmin d t a.id) (hr : roleOf d roleId = some role) :
    TenantCommit a (.inviteMember t email roleId)
      [.insertInvitation (TenantService.newInvitation P o n t email roleId)]
  | acceptInvitation {t : UUID} {token : String} {inv : TenantInvitation}
      (h : TenantService.Acceptable P d token a.id (o n).now inv) :
    TenantCommit a (.acceptInvitation t token) (TenantService.acceptance o n a.id inv)
  | updateMemberRole {t u roleId : UUID} {m : TenantMember} {role : Role}
      (ha : IsTenantAdmin d t a.id) (hm : membershipOf d t u = some m)
      (hr : roleOf d roleId = some role) :
    TenantCommit a (.updateMemberRole t u roleId)
      (TenantService.memberWrites m { roleId := some roleId })
  | removeMember {t u : UUID} {m : TenantMember}
      (ha : IsTenantAdmin d t a.id) (hm : membershipOf d t u = some m) :
    TenantCommit a (.removeMember t u)
      (TenantService.memberWrites m { isActive := some false })

inductive AdminCommit : AdminRoute → List Write → Prop
  | nothing (r : AdminRoute) : AdminCommit r []
  | assignPermissionToRole (roleId permissionId : UUID) :
    AdminCommit (.assignPermissionToRole roleId permissionId)
      [.insertRolePermission ⟨roleId,permissionId⟩]
  | removePermissionFromRole (roleId permissionId : UUID) :
    AdminCommit (.removePermissionFromRole roleId permissionId)
      [.deleteRolePermission ⟨roleId,permissionId⟩]
  | updateUser {id : UUID} {payload : UserUpdateRequest} {u : User}
      (h : d.users.find? (fun u => u.id = id) = some u) :
    AdminCommit (.updateUser id payload)
      (AuthService.userWrites u payload.patch (o n).now)
  | deleteUser {id : UUID} {u : User} (h : d.users.find? (fun u => u.id = id) = some u) :
    AdminCommit (.deleteUser id) [.deleteUser u.id]
  | assignRoleToUser (userId roleId : UUID) :
    AdminCommit (.assignRoleToUser userId roleId) [.insertUserRole ⟨userId,roleId⟩]

inductive RequestCommit (q : Request) : List Write → Prop
  | idle : RequestCommit q []
  | auth {r : AuthRoute} {ws : List Write} (hq : q.route = .auth r)
      (h : AuthCommit P o n d q.xTenantId r ws) : RequestCommit q ws
  | tenant {r : TenantRoute} {a : User} {ws : List Write} (hq : q.route = .tenant r)
      (ha : authenticate P q.authorization (o n).now d = .ok a)
      (h : TenantCommit P o (n+1) d a r ws) : RequestCommit q ws
  | admin {r : AdminRoute} {a : User} {ws : List Write} (hq : q.route = .admin r)
      (ha : authorize P r.permission q.authorization (o n).now d = .ok a)
      (h : AdminCommit o (n+1) d r ws) : RequestCommit q ws

end Relations

section Endpoints
variable (P : Platform) (o : Nat → Reading) (d v : DB) (n : Nat) (s : List Mail)

theorem quiet_log (action : String) (tenantId userId : Option UUID)
    (details : Option (List (String × Detail))) :
    (AuditLogger.log action tenantId userId details).Quiet :=
  Prog.Quiet.bind (quiet_reading _) fun _ =>
    Prog.Quiet.bind (quiet_reading _) fun _ =>
      Prog.Quiet.bind (quiet_add _) fun _ => quiet_flush

theorem quiet_logged (action : String) (tenantId userId : Option UUID)
    (details : Option (List (String × Detail))) (b : Body) :
    (AuditLogger.log action tenantId userId details >>= fun _ => (pure b : App Body)).Quiet :=
  Prog.Quiet.bind (quiet_log _ _ _ _) fun _ => quiet_pure b

theorem AuthRoute.endpoint_commits (xTenantId : Option String) (r : AuthRoute) :
    ∃ ws, AuthCommit P o n d xTenantId r ws ∧
      flushAll Write.apply ws d =
        .ok ((r.endpoint P xTenantId).exec Write.apply o ⟨d,d,[],n,s⟩).2.db := by
  cases r with
  | register payload =>
    obtain ⟨ws,h,hf⟩ := AuthService.register_cases P o d n s payload
    refine ⟨ws,.register h,hf.trans (congrArg _ ?_)⟩
    exact (exec_bind_quiet (fun _ => quiet_pure _) _).symm
  | login payload =>
    unfold AuthRoute.endpoint AuthRouter.login
    cases hx : AuthRouter.loginTenantId P xTenantId with
    | error e => exact ⟨[],.nothing _,rfl⟩
    | ok x =>
      simp only []
      rw [exec_bind_quiet fun _ => quiet_pure _]
      rcases AuthService.login_cases P o d n s payload x with ⟨_,hd⟩ | ⟨u,h,_,hf⟩
      · exact ⟨[],.nothing _,flushAll_unchanged hd⟩
      · exact ⟨_,.login hx h,hf⟩
  | logout token =>
    unfold AuthRoute.endpoint AuthRouter.logout
    rw [exec_bind_quiet fun _ => quiet_pure _]
    rcases AuthService.logout_cases P o d n s token with ⟨_,hd⟩ | ⟨i,r,h,_,hf⟩
    · exact ⟨[],.nothing _,flushAll_unchanged hd⟩
    · exact ⟨_,.logout h,hf⟩
  | refresh token =>
    unfold AuthRoute.endpoint AuthRouter.refresh
    rw [exec_bind_quiet fun _ => quiet_pure _]
    rcases AuthService.refresh_cases P o d n s token with ⟨_,hd⟩ | ⟨i,r,h,_,hf⟩
    · exact ⟨[],.nothing _,flushAll_unchanged hd⟩
    · exact ⟨_,.refresh h,hf⟩
  | verifyEmail token =>
    unfold AuthRoute.endpoint AuthRouter.verifyEmail
    rw [exec_bind_quiet fun _ => quiet_pure _]
    rcases AuthService.verifyEmail_cases P o d n s token with ⟨_,hd⟩ | ⟨r,u,h,_,_,hf⟩
    · exact ⟨[],.nothing _,flushAll_unchanged hd⟩
    · exact ⟨_,.verifyEmail h,hf⟩
  | forgotPassword email =>
    unfold AuthRoute.endpoint AuthRouter.forgotPassword
    rw [exec_bind_quiet fun _ => quiet_pure _]
    rcases AuthService.forgotPassword_cases P o d n s email with hd | ⟨u,h,hf⟩
    · exact ⟨[],.nothing _,flushAll_unchanged hd⟩
    · exact ⟨_,.forgotPassword h,hf⟩
  | resetPassword token newPassword =>
    unfold AuthRoute.endpoint AuthRouter.resetPassword
    rw [exec_bind_quiet fun _ => quiet_pure _]
    rcases AuthService.resetPassword_cases P o d n s token newPassword with
      ⟨_,hd⟩ | ⟨r,u,hash,h,_,_,hf⟩
    · exact ⟨[],.nothing _,flushAll_unchanged hd⟩
    · exact ⟨_,.resetPassword h,hf⟩

theorem requireTenantAdmin_bind (t : UUID) (a : User) (p : App Body) :
    (IsTenantAdmin d t a.id ∧
      (requireTenantAdmin t a >>= fun _ => p).exec Write.apply o ⟨d,d,[],n,s⟩ =
        p.exec Write.apply o ⟨d,d,[],n,s⟩) ∨
      ((requireTenantAdmin t a >>= fun _ => p).exec Write.apply o ⟨d,d,[],n,s⟩).2.db = d := by
  rw [exec_bind,requireTenantAdmin_exec]
  cases h : adminMembership d t a.id with
  | ok m => exact .inl ⟨adminMembership_ok h,rfl⟩
  | raised e => exact .inr rfl
  | fault f => exact .inr rfl

theorem TenantRouter.quiet_getTenant (t : UUID) (a : User) : (TenantRouter.getTenant t a).Quiet :=
  Prog.Quiet.bind (quiet_scalar _ _) fun m => by
    cases m with
    | none => exact quiet_appError _
    | some m =>
      exact Prog.Quiet.bind (quiet_scalar _ _) fun t => by
        cases t with
        | none => exact quiet_appError _
        | some t => exact quiet_pure _

theorem TenantRouter.quiet_listMembers (t : UUID) (a : User) :
    (TenantRouter.listMembers t a).Quiet :=
  Prog.Quiet.bind (quiet_scalar _ _) fun m => by
    cases m with
    | none => exact quiet_appError _
    | some m => exact Prog.Quiet.bind (quiet_select _) fun _ => quiet_pure _

theorem quiet_commits {α : Type} {p : App α} (hp : p.Quiet) :
    flushAll Write.apply [] d = .ok (p.exec Write.apply o ⟨d,d,[],n,s⟩).2.db :=
  congrArg Except.ok (hp.exec_db ⟨d,d,[],n,s⟩).symm

theorem TenantRoute.endpoint_commits (a : User) (r : TenantRoute) :
    ∃ ws, TenantCommit P o n d a r ws ∧
      flushAll Write.apply ws d =
        .ok ((r.endpoint P a).exec Write.apply o ⟨d,d,[],n,s⟩).2.db := by
  cases r with
  | createTenant name slug =>
    unfold TenantRoute.endpoint TenantRouter.createTenant
    rw [exec_bind_quiet fun _ => quiet_logged _ _ _ _ _]
    rcases TenantService.createTenant_cases P o d n s name slug a.id with
      ⟨_,hd⟩ | ⟨role,d',hr,hf,hd,_⟩
    · exact ⟨[],.nothing _,flushAll_unchanged hd⟩
    · exact ⟨_,.createTenant hr,by rw [hd,hf]⟩
  | listMyTenants =>
    have hq : (TenantRouter.listMyTenants a).Quiet :=
      Prog.Quiet.bind (quiet_select _) fun _ => quiet_pure _
    exact ⟨[],.nothing _,quiet_commits o d n s hq⟩
  | getTenant t =>
    have hq := TenantRouter.quiet_getTenant t a
    exact ⟨[],.nothing _,quiet_commits o d n s hq⟩
  | listMembers t =>
    have hq := TenantRouter.quiet_listMembers t a
    exact ⟨[],.nothing _,quiet_commits o d n s hq⟩
  | updateTenant t name isActive =>
    unfold TenantRoute.endpoint TenantRouter.updateTenant
    rcases requireTenantAdmin_bind o d n s t a _ with ⟨ha,he⟩ | hd
    · rw [he,exec_bind_quiet fun _ => quiet_logged _ _ _ _ _]
      rcases TenantService.updateTenant_cases o d n s t name isActive with
        ⟨_,hd⟩ | ⟨tenant,d',ht,hf,t',hr⟩
      · exact ⟨[],.nothing _,flushAll_unchanged hd⟩
      · exact ⟨_,.updateTenant ha ht,by rw [hr,hf]⟩
    · exact ⟨[],.nothing _,flushAll_unchanged hd⟩
  | deleteTenant t =>
    unfold TenantRoute.endpoint TenantRouter.deleteTenant
    rcases requireTenantAdmin_bind o d n s t a _ with ⟨ha,he⟩ | hd
    · rw [he,exec_bind_quiet fun _ => quiet_logged _ _ _ _ _]
      rcases TenantService.deleteTenant_cases o d n s t with ⟨_,hd⟩ | ⟨tenant,d',ht,hf,hr⟩
      · exact ⟨[],.nothing _,flushAll_unchanged hd⟩
      · exact ⟨_,.deleteTenant ha ht,by rw [hr,hf]⟩
    · exact ⟨[],.nothing _,flushAll_unchanged hd⟩
  | inviteMember t email roleId =>
    unfold TenantRoute.endpoint TenantRouter.inviteMember
    rcases requireTenantAdmin_bind o d n s t a _ with ⟨ha,he⟩ | hd
    · rw [he,exec_bind_quiet fun _ => quiet_logged _ _ _ _ _]
      rcases TenantService.inviteMember_cases P o d n s t email roleId with
        ⟨_,hd⟩ | ⟨role,d',hr,hf,hx⟩
      · exact ⟨[],.nothing _,flushAll_unchanged hd⟩
      · exact ⟨_,.inviteMember ha hr,by rw [hx,hf]⟩
    · exact ⟨[],.nothing _,flushAll_unchanged hd⟩
  | acceptInvitation t token =>
    unfold TenantRoute.endpoint TenantRouter.acceptInvitation
    rw [exec_bind_quiet fun _ => quiet_logged _ _ _ _ _]
    rcases TenantService.acceptInvitation_cases P o d n s token a.id with
      ⟨_,hd⟩ | ⟨inv,d',h,hf,hr⟩
    · exact ⟨[],.nothing _,flushAll_unchanged hd⟩
    · exact ⟨_,.acceptInvitation h,by rw [hr,hf]⟩
  | updateMemberRole t u roleId =>
    unfold TenantRoute.endpoint TenantRouter.updateMemberRole
    rcases requireTenantAdmin_bind o d n s t a _ with ⟨ha,he⟩ | hd
    · rw [he,exec_bind_quiet fun _ => quiet_logged _ _ _ _ _]
      rcases TenantService.updateMemberRole_cases o d n s t u roleId with
        ⟨_,hd⟩ | ⟨m,role,d',hm,hr,hf,m',hx⟩
      · exact ⟨[],.nothing _,flushAll_unchanged hd⟩
      · exact ⟨_,.updateMemberRole ha hm hr,by rw [hx,hf]⟩
    · exact ⟨[],.nothing _,flushAll_unchanged hd⟩
  | removeMember t u =>
    unfold TenantRoute.endpoint TenantRouter.removeMember
    rcases requireTenantAdmin_bind o d n s t a _ with ⟨ha,he⟩ | hd
    · rw [he,exec_bind_quiet fun _ => quiet_logged _ _ _ _ _]
      rcases TenantService.removeMember_cases o d n s t u with ⟨_,hd⟩ | ⟨m,d',hm,hf,hx⟩
      · exact ⟨[],.nothing _,flushAll_unchanged hd⟩
      · exact ⟨_,.removeMember ha hm,by rw [hx,hf]⟩
    · exact ⟨[],.nothing _,flushAll_unchanged hd⟩

theorem exec_commitOne (ws : List Write) (b : Body) :
    flushAll Write.apply ws d =
        .ok ((commit >>= fun _ => (pure b : App Body)).exec Write.apply o ⟨d,d,ws,n,s⟩).2.db ∨
      ((commit >>= fun _ => (pure b : App Body)).exec Write.apply o ⟨d,d,ws,n,s⟩).2.db = d := by
  rw [exec_commit_bind]
  cases hf : flushAll Write.apply ws d with
  | ok d' => exact .inl rfl
  | error f => exact .inr rfl

theorem AdminRoute.endpoint_commits (r : AdminRoute) :
    ∃ ws, AdminCommit o n d r ws ∧
      flushAll Write.apply ws d =
        .ok (r.endpoint.exec Write.apply o ⟨d,d,[],n,s⟩).2.db := by
  have hread : ∀ {r : AdminRoute}, r.endpoint.Quiet → ∃ ws, AdminCommit o n d r ws ∧
      flushAll Write.apply ws d =
        .ok (r.endpoint.exec Write.apply o ⟨d,d,[],n,s⟩).2.db := by
    intro r hq
    exact ⟨[],.nothing _,quiet_commits o d n s hq⟩
  cases r with
  | listRoles => exact hread (Prog.Quiet.bind (quiet_select _) fun _ => quiet_pure _)
  | getRolePermissions roleId =>
    exact hread (Prog.Quiet.bind (quiet_select _) fun _ => quiet_pure _)
  | listPermissions => exact hread (Prog.Quiet.bind (quiet_select _) fun _ => quiet_pure _)
  | listUsers => exact hread (Prog.Quiet.bind (quiet_select _) fun _ => quiet_pure _)
  | getUserPermissions userId =>
    exact hread (Prog.Quiet.bind (quiet_select _) fun _ => quiet_pure _)
  | getUser userId =>
    refine hread (Prog.Quiet.bind (quiet_scalar _ _) fun u => ?_)
    cases u with
    | none => exact quiet_appError _
    | some u => exact quiet_pure _
  | assignPermissionToRole roleId permissionId =>
    unfold AdminRoute.endpoint AdminRouter.assignPermissionToRole
    simp only [exec_scalar_bind,flushAll_nil,exec_appErrorIf_bind,exec_add_bind,List.nil_append]
    split
    · exact ⟨[],.nothing _,rfl⟩
    rcases exec_commitOne o d n s _ _ with hf | hd
    · exact ⟨_,.assignPermissionToRole roleId permissionId,hf⟩
    · exact ⟨[],.nothing _,flushAll_unchanged hd⟩
  | removePermissionFromRole roleId permissionId =>
    unfold AdminRoute.endpoint AdminRouter.removePermissionFromRole
    simp only [exec_add_bind,List.nil_append]
    rcases exec_commitOne o d n s _ _ with hf | hd
    · exact ⟨_,.removePermissionFromRole roleId permissionId,hf⟩
    · exact ⟨[],.nothing _,flushAll_unchanged hd⟩
  | assignRoleToUser userId roleId =>
    unfold AdminRoute.endpoint AdminRouter.assignRoleToUser
    simp only [exec_scalar_bind,flushAll_nil,exec_appErrorIf_bind,exec_add_bind,List.nil_append]
    split
    · exact ⟨[],.nothing _,rfl⟩
    rcases exec_commitOne o d n s _ _ with hf | hd
    · exact ⟨_,.assignRoleToUser userId roleId,hf⟩
    · exact ⟨[],.nothing _,flushAll_unchanged hd⟩
  | removeRoleFromUser userId roleId => exact hread (quiet_appError _)
  | deleteUser userId =>
    unfold AdminRoute.endpoint AdminRouter.deleteUser AuthService.userById
    simp only [exec_scalar_bind,flushAll_nil]
    cases hu : d.users.find? _ with
    | none => exact ⟨[],.nothing _,rfl⟩
    | some u =>
      simp only [exec_add_bind,List.nil_append]
      rcases exec_commitOne o d n s _ _ with hf | hd
      · exact ⟨_,.deleteUser hu,hf⟩
      · exact ⟨[],.nothing _,flushAll_unchanged hd⟩
  | updateUser userId payload =>
    unfold AdminRoute.endpoint AdminRouter.updateUser AuthService.userById
    simp only [exec_scalar_bind,flushAll_nil]
    cases hu : d.users.find? _ with
    | none => exact ⟨[],.nothing _,rfl⟩
    | some u =>
      simp only [AuthService.exec_setUser_bind,exec_commit_bind,List.nil_append]
      cases hf : flushAll Write.apply (AuthService.userWrites u _ _) d with
      | error f => exact ⟨[],.nothing _,rfl⟩
      | ok d' =>
        refine ⟨_,.updateUser hu,hf.trans (congrArg Except.ok ?_)⟩
        simp only [exec_refreshRow_bind]
        split <;> rfl

end Endpoints

/-- What a request leaves in the database it has committed, in one piece, after the
checks that `RequestCommit` lists. -/
theorem handle_commits (P : Platform) (o : Readings) (w : World DB Mail) (q : Request) :
    ∃ ws, RequestCommit P o.read (endpointStart P w q) w.db q ws ∧
      flushAll Write.apply ws w.db = .ok (handle P o w q).2.db := by
  rw [handle_eq]
  generalize endpointStart P w q = n
  cases admission P q.authorization q.xTenantId (o.read w.taken).now w.db with
  | raised e => exact ⟨[],.idle,rfl⟩
  | fault f => exact ⟨[],.idle,rfl⟩
  | ok verdict =>
    cases verdict with
    | error e => exact ⟨[],.idle,rfl⟩
    | ok context =>
      simp only [serve]
      unfold Request.endpoint
      cases hq : q.route with
      | auth r =>
        obtain ⟨ws,h,hf⟩ := r.endpoint_commits P o.read w.db n w.sent q.xTenantId
        exact ⟨ws,.auth hq h,hf⟩
      | me =>
        obtain ⟨m,hm,_⟩ := getCurrentUser_exec P o.read w.db w.db n w.sent q.authorization
        refine ⟨[],.idle,?_⟩
        simp only []
        rw [exec_bind_quiet fun _ => quiet_pure _,hm]
        rfl
      | tenant r =>
        obtain ⟨m,hm,h1⟩ := getCurrentUser_exec P o.read w.db w.db n w.sent q.authorization
        simp only [exec_bind,hm]
        cases ha : authenticate P q.authorization (o.read n).now w.db with
        | error e => exact ⟨[],.idle,rfl⟩
        | ok a =>
          cases h1 a ha
          obtain ⟨ws,h,hf⟩ := r.endpoint_commits P o.read w.db (n+1) w.sent a
          exact ⟨ws,.tenant hq ha h,hf⟩
      | admin r =>
        obtain ⟨m,hm,h1⟩ :=
          requirePermission_exec P o.read w.db w.db n w.sent r.permission q.authorization
        simp only [exec_bind,hm]
        cases ha : authorize P r.permission q.authorization (o.read n).now w.db with
        | error e => exact ⟨[],.idle,rfl⟩
        | ok a =>
          cases h1 a ha
          obtain ⟨ws,h,hf⟩ := r.endpoint_commits o.read w.db (n+1) w.sent
          exact ⟨ws,.admin hq ha h,hf⟩

/-- `a` is the user behind the request: the one `get_current_user` finds for it. -/
def ActsAs (P : Platform) (o : Readings) (w : World DB Mail) (q : Request) (a : User) : Prop :=
  authenticate P q.authorization (o.read (endpointStart P w q)).now w.db = .ok a

theorem authenticate_ok {P : Platform} {authorization : Option String} {t : Nat} {d : DB}
    {a : User} (h : authenticate P authorization t d = .ok a) :
    a ∈ d.users ∧ a.isActive = true := by
  unfold authenticate at h
  split at h
  · cases h
  split at h
  · cases h
  split at h
  · cases h
  split at h
  · cases h
  rename_i u hu
  cases h
  have hp := List.find?_some hu
  simp only [decide_eq_true_eq] at hp
  exact ⟨List.mem_of_find?_eq_some hu,hp.2⟩

theorem authorize_ok {P : Platform} {name : String} {authorization : Option String} {t : Nat}
    {d : DB} {a : User} (h : authorize P name authorization t d = .ok a) :
    authenticate P authorization t d = .ok a ∧ name ∈ permissionNames d a.id := by
  unfold authorize at h
  split at h
  · cases h
  split at h
  · rename_i u hu hn
    cases h
    exact ⟨hu,hn⟩
  · cases h

theorem exec_admin {P : Platform} {o : Nat → Reading} {d : DB} {n : Nat} {s : List Mail}
    {q : Request} {r : AdminRoute} {a : User} (hq : q.route = .admin r)
    (ha : authorize P r.permission q.authorization (o n).now d = .ok a) :
    (q.endpoint P).exec Write.apply o ⟨d,d,[],n,s⟩ =
      r.endpoint.exec Write.apply o ⟨d,d,[],n+1,s⟩ := by
  obtain ⟨m,hm,h1⟩ := requirePermission_exec P o d d n s r.permission q.authorization
  cases h1 a ha
  unfold Request.endpoint
  simp only [hq]
  rw [exec_bind,hm,ha]
  rfl

theorem exec_tenant {P : Platform} {o : Nat → Reading} {d : DB} {n : Nat} {s : List Mail}
    {q : Request} {r : TenantRoute} {a : User} (hq : q.route = .tenant r)
    (ha : authenticate P q.authorization (o n).now d = .ok a) :
    (q.endpoint P).exec Write.apply o ⟨d,d,[],n,s⟩ =
      (r.endpoint P a).exec Write.apply o ⟨d,d,[],n+1,s⟩ := by
  obtain ⟨m,hm,h1⟩ := getCurrentUser_exec P o d d n s q.authorization
  cases h1 a ha
  unfold Request.endpoint
  simp only [hq]
  rw [exec_bind,hm,ha]
  rfl

theorem handle_auth {P : Platform} {o : Readings} {w : World DB Mail} {q : Request} {r : AuthRoute}
    (hq : q.route = .auth r) :
    let x := (r.endpoint P q.xTenantId).exec Write.apply o.read
      ⟨w.db,w.db,[],endpointStart P w q,w.sent⟩
    ((handle P o w q).1.isSuccess = false ∧
        (handle P o w q).2 = ⟨w.db,endpointStart P w q,w.sent⟩) ∨
      handle P o w q = (respond q.route.statusCode x.1,⟨x.2.db,x.2.taken,x.2.sent⟩) := by
  rw [handle_eq]
  cases admission P q.authorization q.xTenantId (o.read w.taken).now w.db with
  | raised e => exact .inl ⟨rfl,rfl⟩
  | fault f => exact .inl ⟨rfl,rfl⟩
  | ok verdict =>
    cases verdict with
    | error e => exact .inl ⟨rfl,rfl⟩
    | ok context =>
      refine .inr ?_
      simp only [serve,Request.endpoint,hq]

section TenantRequests
variable {P : Platform} {o : Readings} {w : World DB Mail} {q : Request} {r : TenantRoute}

theorem handle_tenant {a : User} (hq : q.route = .tenant r)
    (hadm : Admits P q (o.read w.taken).now w.db) (ha : ActsAs P o w q a) :
    let x := (r.endpoint P a).exec Write.apply o.read
      ⟨w.db,w.db,[],endpointStart P w q + 1,w.sent⟩
    handle P o w q = (respond q.route.statusCode x.1,⟨x.2.db,x.2.taken,x.2.sent⟩) := by
  obtain ⟨context,hadm⟩ := hadm
  rw [ActsAs] at ha
  rw [handle_eq]
  simp only [hadm,serve,exec_tenant hq ha]

/-- A tenant request that the middleware or `get_current_user` turns away is refused and
changes nothing. -/
theorem handle_tenant_refused (hq : q.route = .tenant r)
    (h : ¬ (Admits P q (o.read w.taken).now w.db ∧ ∃ a, ActsAs P o w q a)) :
    (handle P o w q).1.isSuccess = false ∧ (handle P o w q).2.db = w.db := by
  rw [handle_eq]
  cases hadm : admission P q.authorization q.xTenantId (o.read w.taken).now w.db with
  | raised e => exact ⟨rfl,rfl⟩
  | fault f => exact ⟨rfl,rfl⟩
  | ok verdict =>
    cases verdict with
    | error e => exact ⟨rfl,rfl⟩
    | ok context =>
      obtain ⟨m,hm,-⟩ := getCurrentUser_exec P o.read w.db w.db (endpointStart P w q) w.sent
        q.authorization
      simp only [serve,Request.endpoint,hq]
      rw [exec_bind,hm]
      cases ha : authenticate P q.authorization (o.read (endpointStart P w q)).now w.db with
      | error e => exact ⟨rfl,rfl⟩
      | ok a => exact absurd ⟨⟨context,hadm⟩,a,ha⟩ h

theorem handle_tenant_success (hq : q.route = .tenant r)
    (hs : (handle P o w q).1.isSuccess = true) :
    Admits P q (o.read w.taken).now w.db ∧ ∃ a, ActsAs P o w q a := by
  by_contra hno
  rw [(handle_tenant_refused hq hno).1] at hs
  cases hs

end TenantRequests

end TenantAuth
