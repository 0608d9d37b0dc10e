import TenantAuth.Transact.Interruption
import TenantAuth.Registration
set_option autoImplicit false

namespace TenantAuth
open Transact

section Steps
variable {S : Mail → Prop} {P : Platform}

@[simp] theorem emits_now : now.Emits S := emits_reading _
@[simp] theorem emits_uuid4 : uuid4.Emits S := emits_reading _

@[simp] theorem emits_scalar {α : Type} (table : DB → List α) (p : α → Bool) :
    (scalar table p).Emits S := emits_select _

@[simp] theorem emits_refreshRow {α : Type} (table : DB → List α) (p : α → Bool) :
    (refreshRow table p).Emits S :=
  Prog.Emits.bind (emits_scalar _ _) fun r => by cases r <;> simp

@[simp] theorem emits_log (action : String) (tenantId userId : Option UUID)
    (details : Option (List (String × Detail))) :
    (AuditLogger.log action tenantId userId details).Emits S :=
  Prog.Emits.bind (emits_reading _) fun _ =>
    Prog.Emits.bind (emits_reading _) fun _ =>
      Prog.Emits.bind (emits_add _) fun _ => emits_flush

@[simp] theorem emits_appError {α : Type} (e : AppError) : (e.raise : App α).Emits S := trivial

@[simp] theorem emits_appErrorIf (e : AppError) (p : Prop) [Decidable p] : (e.raiseIf p).Emits S :=
  emits_raiseIf p _

@[simp] theorem emits_decodeToken (token : String) (k : Option TokenType) :
    (decodeToken P token k).Emits S :=
  Prog.Emits.bind (emits_reading _) fun t => by
    cases decodeAt P token k t with
    | error e => exact emits_raise _
    | ok i => exact emits_pure i

@[simp] theorem emits_setUser (u : User) (p : UserPatch) : (setUser u p).Emits S :=
  Prog.Emits.bind (emits_reading _) fun _ => by by_cases hp : p.diff u = {} <;> simp [hp]

@[simp] theorem emits_getMembership (t u : UUID) :
    (TenantService.getMembership t u).Emits S := emits_scalar _ _

@[simp] theorem emits_requireTenantAdmin (t : UUID) (user : User) :
    (requireTenantAdmin t user).Emits S := by
  refine Prog.Emits.bind (emits_scalar _ _) fun m => ?_
  cases m with
  | none => exact emits_raise _
  | some m =>
    refine Prog.Emits.bind (emits_refreshRow _ _) fun _ => ?_
    exact Prog.Emits.bind (emits_appErrorIf _ _) fun _ => emits_pure _

theorem emits_tenant (r : TenantRoute) (a : User) : (r.endpoint P a).Emits S := by
  cases r <;>
    simp only [TenantRoute.endpoint,TenantRouter.createTenant,TenantRouter.listMyTenants,
      TenantRouter.getTenant,TenantRouter.updateTenant,TenantRouter.deleteTenant,
      TenantRouter.listMembers,TenantRouter.inviteMember,TenantRouter.acceptInvitation,
      TenantRouter.updateMemberRole,TenantRouter.removeMember,TenantService.createTenant,
      TenantService.addTenant,TenantService.updateTenant,TenantService.deleteTenant,
      TenantService.inviteMember,TenantService.acceptInvitation,TenantService.updateMemberRole,
      TenantService.removeMember,TenantService.listMembers,TenantService.listUserTenants,
      TenantService.getTenant,TenantService.pendingInvitation,
      TenantService.setTenant,TenantService.setMember,TenantSchemaService.createSchema,
      TenantSchemaService.runMigrationsForSchema] <;>
    repeat' first
      | refine Prog.Emits.bind ?_ fun _ => ?_
      | split
      | simp

theorem emits_admin (r : AdminRoute) : r.endpoint.Emits S := by
  cases r <;>
    simp only [AdminRoute.endpoint,AdminRouter.listRoles,AdminRouter.getRolePermissions,
      AdminRouter.assignPermissionToRole,AdminRouter.removePermissionFromRole,
      AdminRouter.listPermissions,AdminRouter.listUsers,AdminRouter.getUser,AdminRouter.updateUser,
      AdminRouter.deleteUser,AdminRouter.assignRoleToUser,
      AdminRouter.getUserPermissions,AuthService.userById] <;>
    repeat' first
      | refine Prog.Emits.bind ?_ fun _ => ?_
      | split
      | simp

@[simp] theorem emits_getCurrentUser (authorization : Option String) :
    (getCurrentUser P authorization).Emits S := by
  unfold getCurrentUser
  cases P.httpBearer authorization with
  | none => exact emits_raise _
  | some credentials =>
    refine Prog.Emits.bind (emits_appErrorIf _ _) fun _ => ?_
    refine Prog.Emits.bind (emits_decodeToken _ _) fun _ => ?_
    exact Prog.Emits.bind (emits_scalar _ _) fun user => by cases user <;> simp

@[simp] theorem emits_requirePermission (name : String) (authorization : Option String) :
    (requirePermission P name authorization).Emits S := by
  refine Prog.Emits.bind (emits_getCurrentUser _) fun _ => ?_
  refine Prog.Emits.bind (emits_select _) fun _ => ?_
  exact Prog.Emits.bind (emits_appErrorIf _ _) fun _ => emits_pure _

@[simp] theorem emits_requireScope (u : UUID) (x : Option UUID) :
    (AuthService.requireScope u x).Emits S := by
  cases x with
  | none => exact emits_pure _
  | some t => exact Prog.Emits.bind (emits_scalar _ _) fun _ => emits_appErrorIf _ _

@[simp] theorem emits_issueTokenPair (u : UUID) (x : Option UUID) :
    (issueTokenPair P u x).Emits S := by
  refine Prog.Emits.bind (Prog.Emits.bind emits_now fun _ => emits_pure _) fun _ => ?_
  refine Prog.Emits.bind (Prog.Emits.bind emits_now fun _ => emits_pure _) fun _ => ?_
  refine Prog.Emits.bind emits_uuid4 fun _ => ?_
  refine Prog.Emits.bind (emits_add _) fun _ => ?_
  exact Prog.Emits.bind emits_flush fun _ => emits_pure _

@[simp] theorem emits_hashPassword (password : String) : (hashPassword P password).Emits S :=
  Prog.Emits.bind (emits_reading _) fun salt => by
    cases P.hashpw password salt with
    | none => exact emits_raise _
    | some hash => exact emits_pure hash

theorem emits_sendEmail {m : Mail} (h : S m) : (sendEmail m).Emits S :=
  Prog.Emits.bind (emits_reading _) fun b => by
    cases b with
    | false => exact emits_raise _
    | true => exact ⟨h,trivial⟩

theorem emits_auth {x : Option String} {r : AuthRoute} (hreg : ∀ payload, r ≠ .register payload)
    (hs : ∀ m : Mail, m.subject = "Password Reset" → S m) : (r.endpoint P x).Emits S := by
  cases r with
  | register payload => exact absurd rfl (hreg payload)
  | forgotPassword email =>
    refine Prog.Emits.bind (Prog.Emits.bind (emits_scalar _ _) fun user => ?_) fun _ => emits_pure _
    cases user with
    | none => exact emits_pure _
    | some user =>
      refine Prog.Emits.bind (Prog.Emits.bind emits_now fun _ => emits_pure _) fun _ => ?_
      refine Prog.Emits.bind emits_uuid4 fun _ => ?_
      refine Prog.Emits.bind (emits_add _) fun _ => ?_
      exact Prog.Emits.bind emits_commit fun _ => emits_sendEmail (hs _ rfl)
  | login payload | logout token | refresh token | verifyEmail token | resetPassword token p =>
    simp only [AuthRoute.endpoint,AuthRouter.login,AuthRouter.logout,AuthRouter.refresh,
      AuthRouter.verifyEmail,AuthRouter.resetPassword,AuthService.login,AuthService.logout,
      AuthService.refresh,AuthService.verifyEmail,AuthService.resetPassword,
      AuthService.userByEmail,AuthService.userById,AuthService.liveRefreshToken,
      AuthService.unusedToken]
    repeat' first
      | refine Prog.Emits.bind ?_ fun _ => ?_
      | split
      | simp

end Steps

section Requests
variable {P : Platform} {o : Readings} {w : World DB Mail} {q : Request}

theorem AuthService.register_sent (P : Platform) (o : Nat → Reading) (d : DB) (n : Nat)
    (s : List Mail) (payload : RegisterRequest) :
    let r := (register P payload).exec Write.apply o ⟨d,d,[],n,s⟩
    r.2.sent = s ∨ d.users.find? (fun u => u.email = P.lower payload.email) = none ∧
      ∃ hash, r.2.sent = s ++ [verificationMail P (newUser P o n payload hash) (o (n+3)).now] := by
  unfold register userByEmail
  simp only [exec_scalar_bind,flushAll_nil,exec_appErrorIf_bind,exec_hashPassword_bind]
  cases hu : d.users.find? _ with
  | some u => exact .inl rfl
  | none =>
    simp only [Option.isSome_none,Bool.false_eq_true,if_false]
    cases hp : P.hashpw payload.password (o n).salt with
    | none => exact .inl rfl
    | some hash =>
      simp only [exec_uuid4_bind,exec_now_bind,exec_add_bind,exec_commit_bind,List.nil_append]
      cases h1 : flushAll Write.apply [.insertUser _] d with
      | error f => exact .inl rfl
      | ok d1 =>
        obtain ⟨hv,hd⟩ := flushAll_single.mp h1
        have hid : (newUser P o n payload hash).id ∉ d.users.map User.id := by
          simp only [Write.violation,firstViolation_eq_none,List.forall_mem_cons] at hv
          exact vacant_iff.mp hv.2.2.2.1
        have hfind : d1.users.find? (fun u => u.id = (o (n+1)).uuid) =
            some (newUser P o n payload hash) := by
          rw [hd]
          exact find_append_key hid
        simp only [exec_refreshRow_bind,hfind,exec_createVerificationToken_bind,exec_uuid4_bind,
          exec_add_bind,exec_commit_bind,List.nil_append]
        cases flushAll Write.apply [.insertVerificationToken _] d1 with
        | error f => exact .inl rfl
        | ok d2 =>
          cases hsent : (o (n+5)).delivered with
          | true =>
            simp only [exec_sendEmail_bind hsent]
            exact .inr ⟨trivial,hash,rfl⟩
          | false =>
            simp only [exec_sendEmail_failed hsent]
            exact .inl trivial

/-- Whatever a request sends beside password resets is sent by `register`, to an email that was
free before. -/
theorem handle_sent : ∃ ms, (handle P o w q).2.sent = w.sent ++ ms ∧ ∀ m ∈ ms,
    m.subject = "Password Reset" ∨ ∃ payload, q.route = .auth (.register payload) ∧
      m.recipient = P.lower payload.email ∧
      w.db.users.find? (fun u => u.email = P.lower payload.email) = none := by
  by_cases hreg : ∃ payload, q.route = .auth (.register payload)
  · obtain ⟨payload,hq⟩ := hreg
    rcases handle_auth (P := P) (o := o) (w := w) hq with ⟨-,he⟩ | he
    · exact ⟨[],by simp [he]⟩
    · simp only [he,AuthRoute.endpoint,AuthRouter.register,exec_bind_pure]
      rcases AuthService.register_sent P o.read w.db (endpointStart P w q) w.sent payload with
        hs | ⟨hfree,hash,hs⟩
      · exact ⟨[],by simp [hs]⟩
      · refine ⟨_,hs,fun m hm => .inr ⟨payload,hq,?_,hfree⟩⟩
        rw [List.mem_singleton.mp hm]
        rfl
  · have hemits : (q.endpoint P).Emits fun m => m.subject = "Password Reset" := by
      unfold Request.endpoint
      split
      · rename_i r hr
        exact emits_auth (fun payload h => hreg ⟨payload,h ▸ hr⟩) fun _ h => h
      · exact Prog.Emits.bind (emits_getCurrentUser _) fun _ => emits_pure _
      · exact Prog.Emits.bind (emits_getCurrentUser _) fun a => emits_tenant _ a
      · exact Prog.Emits.bind (emits_requirePermission _ _) fun _ => emits_admin _
    rw [handle_eq]
    split
    · obtain ⟨ms,hms,hs⟩ := hemits.exec
        ⟨w.db,w.db,[],endpointStart P w q,w.sent⟩
      exact ⟨ms,hms,fun m hm => .inl (hs m hm)⟩
    all_goals exact ⟨[],by simp⟩

end Requests

end TenantAuth
