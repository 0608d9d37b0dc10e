import TenantAuth.Seed
import TenantAuth.Queues
set_option autoImplicit false

/-! The operations of `AuthService` and `TenantService` as calls of their own, each in
its own session, and what is left of a call that raises. -/

namespace TenantAuth
open Transact

inductive Call where
  | register (payload : RegisterRequest)
  | login (payload : LoginRequest) (tenantId : Option UUID)
  | logout (refreshToken : String)
  | refresh (refreshToken : String)
  | verifyEmail (token : String)
  | forgotPassword (email : String)
  | resetPassword (token newPassword : String)
  | createTenant (name slug : String) (ownerId : UUID)
  | getTenant (tenantId : UUID)
  | getMembership (tenantId userId : UUID)
  | listUserTenants (userId : UUID)
  | updateTenant (tenantId : UUID) (name : Option String) (isActive : Option Bool)
  | deleteTenant (tenantId : UUID)
  | listMembers (tenantId : UUID)
  | inviteMember (tenantId : UUID) (email : String) (roleId : UUID)
  | acceptInvitation (token : String) (userId : UUID)
  | updateMemberRole (tenantId userId roleId : UUID)
  | removeMember (tenantId userId : UUID)
  deriving DecidableEq, Repr

abbrev Call.Result : Call → Type
  | .register _ => User
  | .login _ _ | .refresh _ => TokenData
  | .logout _ | .verifyEmail _ | .forgotPassword _ | .resetPassword _ _ => Unit
  | .createTenant _ _ _ | .updateTenant _ _ _ => Tenant
  | .getTenant _ => Option Tenant
  | .getMembership _ _ => Option TenantMember
  | .listUserTenants _ => List Tenant
  | .listMembers _ => List TenantService.MemberView
  | .inviteMember _ _ _ => IssuedInvitation
  | .acceptInvitation _ _ | .updateMemberRole _ _ _ => TenantMember
  | .deleteTenant _ | .removeMember _ _ => Unit

def Call.prog (P : Platform) : (c : Call) → App c.Result
  | .register payload => AuthService.register P payload
  | .login payload tenantId => AuthService.login P payload tenantId
  | .logout token => AuthService.logout P token
  | .refresh token => AuthService.refresh P token
  | .verifyEmail token => AuthService.verifyEmail P token
  | .forgotPassword email => AuthService.forgotPassword P email
  | .resetPassword token newPassword => AuthService.resetPassword P token newPassword
  | .createTenant name slug ownerId => TenantService.createTenant P name slug ownerId
  | .getTenant t => TenantService.getTenant t
  | .getMembership t u => TenantService.getMembership t u
  | .listUserTenants u => TenantService.listUserTenants u
  | .updateTenant t name isActive => TenantService.updateTenant t name isActive
  | .deleteTenant t => TenantService.deleteTenant t
  | .listMembers t => TenantService.listMembers t
  | .inviteMember t email roleId => TenantService.inviteMember P t email roleId
  | .acceptInvitation token u => TenantService.acceptInvitation P token u
  | .updateMemberRole t u roleId => TenantService.updateMemberRole t u roleId
  | .removeMember t u => TenantService.removeMember t u

def call (P : Platform) (o : Nat → Reading) (w : World DB Mail) (c : Call) :
    Outcome Exc Fault c.Result × World DB Mail :=
  serve Write.apply o (c.prog P) w

section Writes
variable {P : Platform}

def Call.MayWrite : Call → Write → Prop
  | .register _, .insertUser _ | .register _, .insertVerificationToken _ => True
  | .login _ _, .insertRefreshToken _ | .logout _, .revokeRefreshToken _ _ => True
  | .refresh _, .insertRefreshToken _ | .refresh _, .revokeRefreshToken _ _ => True
  | .verifyEmail _, .updateUser _ _ _ | .verifyEmail _, .useVerificationToken _ _ => True
  | .forgotPassword _, .insertResetToken _ => True
  | .resetPassword _ _, .updateUser _ _ _ | .resetPassword _ _, .useResetToken _ _ => True
  | .createTenant _ _ _, .insertTenant _ | .createTenant _ _ _, .insertMember _
  | .createTenant _ _ _, .createSchema _ => True
  | .updateTenant _ _ _, .updateTenant _ _ _ | .deleteTenant _, .updateTenant _ _ _ => True
  | .inviteMember _ _ _, .insertInvitation _ => True
  | .acceptInvitation _ _, .acceptInvitation _ _
  | .acceptInvitation _ _, .insertMember _ => True
  | .updateMemberRole _ _ _, .updateMember _ _ | .removeMember _ _, .updateMember _ _ => True
  | _, _ => False

theorem Call.writes {S : Write → Prop} (c : Call) (h : ∀ w, c.MayWrite w → S w) :
    (c.prog P).Writes S := by
  cases c with
  | register payload =>
    exact AuthService.writes_register (fun _ => h _ trivial) (fun _ => h _ trivial) payload
  | login payload x => exact AuthService.writes_login (fun _ => h _ trivial) payload x
  | logout token => exact AuthService.writes_logout (fun _ _ => h _ trivial) token
  | refresh token =>
    exact AuthService.writes_refresh (fun _ => h _ trivial) (fun _ _ => h _ trivial) token
  | verifyEmail token =>
    exact AuthService.writes_verifyEmail (fun _ _ _ => h _ trivial) (fun _ _ => h _ trivial) token
  | forgotPassword email => exact AuthService.writes_forgotPassword (fun _ => h _ trivial) email
  | resetPassword token password =>
    exact AuthService.writes_resetPassword (fun _ _ _ => h _ trivial) (fun _ _ => h _ trivial)
      token password
  | createTenant name slug u =>
    exact TenantService.writes_createTenant (fun _ => h _ trivial) (fun _ => h _ trivial)
      (fun _ => h _ trivial) name slug u
  | updateTenant t name isActive =>
    exact TenantService.writes_updateTenant fun _ _ _ _ => h _ trivial
  | deleteTenant t => exact TenantService.writes_deleteTenant fun _ => h _ trivial
  | inviteMember t email roleId =>
    exact TenantService.writes_inviteMember (fun _ => h _ trivial) t email roleId
  | acceptInvitation token u =>
    exact TenantService.writes_acceptInvitation (fun _ _ => h _ trivial) (fun _ _ => h _ trivial)
      token u
  | updateMemberRole t u roleId =>
    exact TenantService.writes_updateMemberRole fun _ _ _ => h _ trivial
  | removeMember t u => exact TenantService.writes_removeMember fun _ _ _ => h _ trivial
  | getTenant | getMembership | listUserTenants | listMembers => exact writes_select _ _

theorem call_rel {S : Write → Prop} {R : DB → DB → Prop} (hk : Keeps Write.apply S R)
    (o : Nat → Reading) (w : World DB Mail) {c : Call} (h : ∀ v, c.MayWrite v → S v) :
    R w.db (call P o w c).2.db :=
  (Call.writes c h).exec_rel hk (c := ⟨w.db,w.db,[],w.taken,w.sent⟩) (List.forall_mem_nil _)
    (hk.refl _)

end Writes

section Atomicity
variable (P : Platform)

theorem quiet_now : now.Quiet := quiet_reading _
theorem quiet_uuid4 : uuid4.Quiet := quiet_reading _

theorem quiet_decodeToken (token : String) (type : Option TokenType) :
    (decodeToken P token type).Quiet :=
  Prog.Quiet.bind quiet_now fun t => by
    cases decodeAt P token type t with
    | error e => exact quiet_appError e
    | ok i => exact quiet_pure i

theorem quiet_hashPassword (password : String) : (hashPassword P password).Quiet :=
  Prog.Quiet.bind (quiet_reading _) fun salt => by
    cases P.hashpw password salt with
    | none => exact quiet_raise _
    | some hash => exact quiet_pure hash

theorem quiet_setUser (u : User) (p : UserPatch) : (setUser u p).Quiet :=
  Prog.Quiet.bind quiet_now fun t => by
    by_cases h : p.diff u = {} <;> simp [h]

theorem quiet_requireScope (u : UUID) (x : Option UUID) :
    (AuthService.requireScope u x).Quiet := by
  cases x with
  | none => exact quiet_pure _
  | some t => exact Prog.Quiet.bind (quiet_scalar _ _) fun _ => quiet_appErrorIf _ _

theorem quiet_issueTokenPair (u : UUID) (x : Option UUID) : (issueTokenPair P u x).Quiet :=
  Prog.Quiet.bind (Prog.Quiet.bind quiet_now fun _ => quiet_pure _) fun _ =>
    Prog.Quiet.bind (Prog.Quiet.bind quiet_now fun _ => quiet_pure _) fun _ =>
      Prog.Quiet.bind quiet_uuid4 fun _ =>
        Prog.Quiet.bind (quiet_add _) fun _ =>
          Prog.Quiet.bind quiet_flush fun _ => quiet_pure _

theorem quiet_setTenant (t : Tenant) (p : TenantPatch) : (TenantService.setTenant t p).Quiet :=
  Prog.Quiet.bind quiet_now fun _ => by
    by_cases h : p.diff t = {} <;> simp [h]

theorem quiet_setMember (m : TenantMember) (p : TenantMemberPatch) :
    (TenantService.setMember m p).Quiet := by
  unfold TenantService.setMember
  by_cases h : p.diff m = {} <;> simp [h]

theorem quiet_createSchema (t : UUID) : (TenantSchemaService.createSchema t).Quiet :=
  Prog.Quiet.bind (quiet_add _) fun _ => Prog.Quiet.bind quiet_flush fun _ => quiet_pure _

theorem quiet_addTenant (name slug : String) (ownerId : UUID) :
    (TenantService.addTenant P name slug ownerId).Quiet :=
  Prog.Quiet.bind quiet_uuid4 fun _ =>
    Prog.Quiet.bind quiet_now fun _ =>
      Prog.Quiet.bind (quiet_add _) fun _ =>
        Prog.Quiet.bind quiet_flush fun _ =>
          Prog.Quiet.bind (quiet_scalar _ _) fun role => by
            cases role with
            | none => exact quiet_appError _
            | some role =>
              exact Prog.Quiet.bind quiet_uuid4 fun _ =>
                Prog.Quiet.bind quiet_now fun _ =>
                  Prog.Quiet.bind (quiet_add _) fun _ => quiet_pure _

theorem never_refreshRow {α : Type} (table : DB → List α) (p : α → Bool) :
    (refreshRow table p).Never Exc.IsApp :=
  Prog.Never.bind (never_select _) fun r => by
    cases r with
    | none => exact (never_raise _).mpr id
    | some r => exact never_pure r

theorem never_sendEmail (m : Mail) : (sendEmail m).Never Exc.IsApp :=
  Prog.Never.bind (never_reading _) fun b => by
    cases b with
    | true => exact never_emit m
    | false => exact (never_raise _).mpr id

theorem never_runMigrations (t : UUID) :
    (TenantSchemaService.runMigrationsForSchema t).Never Exc.IsApp :=
  Prog.Never.bind (never_reading _) fun b => by
    cases b with
    | true => exact never_pure _
    | false => exact (never_raise _).mpr id

theorem early_commit_bind {β : Type} {f : Unit → App β} (h : ∀ a, (f a).Never Exc.IsApp) :
    (commit >>= f).Early Exc.IsApp :=
  Prog.Early.bind early_commit h

theorem AuthService.early_register (payload : RegisterRequest) :
    (AuthService.register P payload).Early Exc.IsApp := by
  refine Prog.Quiet.early_bind (quiet_scalar _ _) fun existing => ?_
  refine Prog.Quiet.early_bind (quiet_appErrorIf _ _) fun _ => ?_
  refine Prog.Quiet.early_bind (quiet_hashPassword P _) fun hash => ?_
  refine Prog.Quiet.early_bind quiet_uuid4 fun id => ?_
  refine Prog.Quiet.early_bind quiet_now fun created => ?_
  refine Prog.Quiet.early_bind (quiet_add _) fun _ => ?_
  refine early_commit_bind fun _ => ?_
  -- From here on the user is committed: only the mail server can fail the call.
  refine Prog.Never.bind (never_refreshRow _ _) fun user => ?_
  refine Prog.Never.bind (Prog.Never.bind (never_reading _) fun _ => never_pure _) fun token => ?_
  refine Prog.Never.bind (never_reading _) fun tokenId => ?_
  refine Prog.Never.bind (never_add _) fun _ => ?_
  refine Prog.Never.bind never_commit fun _ => ?_
  exact Prog.Never.bind (never_sendEmail _) fun _ => never_pure _

theorem AuthService.early_login (payload : LoginRequest) (x : Option UUID) :
    (AuthService.login P payload x).Early Exc.IsApp := by
  refine Prog.Quiet.early_bind (quiet_scalar _ _) fun user => ?_
  cases user with
  | none => exact early_raise _
  | some user =>
    refine Prog.Quiet.early_bind (quiet_appErrorIf _ _) fun _ => ?_
    refine Prog.Quiet.early_bind (quiet_appErrorIf _ _) fun _ => ?_
    refine Prog.Quiet.early_bind (quiet_requireScope _ _) fun _ => ?_
    refine Prog.Quiet.early_bind (quiet_issueTokenPair P _ _) fun tokens => ?_
    exact early_commit_bind fun _ => never_pure _

theorem AuthService.early_logout (token : String) :
    (AuthService.logout P token).Early Exc.IsApp := by
  refine Prog.Quiet.early_bind (quiet_decodeToken P _ _) fun i => ?_
  refine Prog.Quiet.early_bind (quiet_scalar _ _) fun r => ?_
  cases r with
  | none => exact early_raise _
  | some r =>
    refine Prog.Quiet.early_bind quiet_now fun t => ?_
    exact Prog.Quiet.early_bind (quiet_add _) fun _ => early_commit

theorem AuthService.early_refresh (token : String) :
    (AuthService.refresh P token).Early Exc.IsApp := by
  refine Prog.Quiet.early_bind (quiet_decodeToken P _ _) fun i => ?_
  refine Prog.Quiet.early_bind (quiet_scalar _ _) fun r => ?_
  cases r with
  | none => exact early_raise _
  | some r =>
    refine Prog.Quiet.early_bind quiet_now fun t => ?_
    refine Prog.Quiet.early_bind (quiet_appErrorIf _ _) fun _ => ?_
    refine Prog.Quiet.early_bind (quiet_requireScope _ _) fun _ => ?_
    refine Prog.Quiet.early_bind quiet_now fun t => ?_
    refine Prog.Quiet.early_bind (quiet_add _) fun _ => ?_
    refine Prog.Quiet.early_bind quiet_flush fun _ => ?_
    refine Prog.Quiet.early_bind (quiet_issueTokenPair P _ _) fun tokens => ?_
    exact early_commit_bind fun _ => never_pure _

theorem AuthService.early_verifyEmail (token : String) :
    (AuthService.verifyEmail P token).Early Exc.IsApp := by
  refine Prog.Quiet.early_bind (quiet_decodeToken P _ _) fun i => ?_
  refine Prog.Quiet.early_bind (quiet_scalar _ _) fun r => ?_
  cases r with
  | none => exact early_raise _
  | some r =>
    refine Prog.Quiet.early_bind quiet_now fun t => ?_
    refine Prog.Quiet.early_bind (quiet_appErrorIf _ _) fun _ => ?_
    refine Prog.Quiet.early_bind (quiet_scalar _ _) fun user => ?_
    cases user with
    | none => exact early_raise _
    | some user =>
      refine Prog.Quiet.early_bind (quiet_appErrorIf _ _) fun _ => ?_
      refine Prog.Quiet.early_bind (quiet_setUser _ _) fun _ => ?_
      refine Prog.Quiet.early_bind quiet_now fun t => ?_
      exact Prog.Quiet.early_bind (quiet_add _) fun _ => early_commit

theorem AuthService.early_forgotPassword (email : String) :
    (AuthService.forgotPassword P email).Early Exc.IsApp := by
  refine Prog.Quiet.early_bind (quiet_scalar _ _) fun user => ?_
  cases user with
  | none => exact early_pure _
  | some user =>
    refine Prog.Quiet.early_bind (Prog.Quiet.bind quiet_now fun _ => quiet_pure _) fun t => ?_
    refine Prog.Quiet.early_bind quiet_uuid4 fun id => ?_
    refine Prog.Quiet.early_bind (quiet_add _) fun _ => ?_
    exact early_commit_bind fun _ => never_sendEmail _

theorem AuthService.early_resetPassword (token newPassword : String) :
    (AuthService.resetPassword P token newPassword).Early Exc.IsApp := by
  refine Prog.Quiet.early_bind (quiet_decodeToken P _ _) fun i => ?_
  refine Prog.Quiet.early_bind (quiet_scalar _ _) fun r => ?_
  cases r with
  | none => exact early_raise _
  | some r =>
    refine Prog.Quiet.early_bind quiet_now fun t => ?_
    refine Prog.Quiet.early_bind (quiet_appErrorIf _ _) fun _ => ?_
    refine Prog.Quiet.early_bind (quiet_scalar _ _) fun user => ?_
    cases user with
    | none => exact early_raise _
    | some user =>
      refine Prog.Quiet.early_bind (quiet_hashPassword P _) fun hash => ?_
      refine Prog.Quiet.early_bind (quiet_setUser _ _) fun _ => ?_
      refine Prog.Quiet.early_bind quiet_now fun t => ?_
      exact Prog.Quiet.early_bind (quiet_add _) fun _ => early_commit

theorem TenantService.early_createTenant (name slug : String) (ownerId : UUID) :
    (TenantService.createTenant P name slug ownerId).Early Exc.IsApp := by
  refine Prog.Quiet.early_bind (quiet_addTenant P _ _ _) fun id => ?_
  cases P.settings.multiTenantMode with
  | schema =>
    refine Prog.Quiet.early_bind (quiet_createSchema _) fun _ => ?_
    refine early_commit_bind fun _ => ?_
    exact Prog.Never.bind (never_runMigrations _) fun _ => never_refreshRow _ _
  | row => exact early_commit_bind fun _ => never_refreshRow _ _

theorem TenantService.early_updateTenant (t : UUID) (name : Option String)
    (isActive : Option Bool) : (TenantService.updateTenant t name isActive).Early Exc.IsApp := by
  refine Prog.Quiet.early_bind (quiet_scalar _ _) fun tenant => ?_
  cases tenant with
  | none => exact early_raise _
  | some tenant =>
    refine Prog.Quiet.early_bind (quiet_setTenant _ _) fun _ => ?_
    exact early_commit_bind fun _ => never_refreshRow _ _

theorem TenantService.early_deleteTenant (t : UUID) :
    (TenantService.deleteTenant t).Early Exc.IsApp := by
  refine Prog.Quiet.early_bind (quiet_scalar _ _) fun tenant => ?_
  cases tenant with
  | none => exact early_raise _
  | some tenant => exact Prog.Quiet.early_bind (quiet_setTenant _ _) fun _ => early_commit

theorem TenantService.early_inviteMember (t : UUID) (email : String) (roleId : UUID) :
    (TenantService.inviteMember P t email roleId).Early Exc.IsApp := by
  refine Prog.Quiet.early_bind (quiet_scalar _ _) fun role => ?_
  cases role with
  | none => exact early_raise _
  | some role =>
    refine Prog.Quiet.early_bind (quiet_reading _) fun token => ?_
    refine Prog.Quiet.early_bind quiet_now fun t => ?_
    refine Prog.Quiet.early_bind quiet_uuid4 fun id => ?_
    refine Prog.Quiet.early_bind (quiet_add _) fun _ => ?_
    refine early_commit_bind fun _ => ?_
    exact Prog.Never.bind (never_refreshRow _ _) fun _ => never_pure _

theorem TenantService.early_acceptInvitation (token : String) (u : UUID) :
    (TenantService.acceptInvitation P token u).Early Exc.IsApp := by
  refine Prog.Quiet.early_bind (quiet_scalar _ _) fun invitation => ?_
  cases invitation with
  | none => exact early_raise _
  | some invitation =>
    refine Prog.Quiet.early_bind quiet_now fun t => ?_
    refine Prog.Quiet.early_bind (quiet_appErrorIf _ _) fun _ => ?_
    refine Prog.Quiet.early_bind (quiet_scalar _ _) fun user => ?_
    refine Prog.Quiet.early_bind (quiet_appErrorIf _ _) fun _ => ?_
    refine Prog.Quiet.early_bind quiet_now fun t => ?_
    -- The invitation is marked here and flushed by the next query, ahead of ALREADY_MEMBER.
    refine Prog.Quiet.early_bind (quiet_add _) fun _ => ?_
    refine Prog.Quiet.early_bind (quiet_scalar _ _) fun existing => ?_
    refine Prog.Quiet.early_bind (quiet_appErrorIf _ _) fun _ => ?_
    refine Prog.Quiet.early_bind quiet_uuid4 fun id => ?_
    refine Prog.Quiet.early_bind quiet_now fun t => ?_
    refine Prog.Quiet.early_bind (quiet_add _) fun _ => ?_
    exact early_commit_bind fun _ => never_refreshRow _ _

theorem TenantService.early_updateMemberRole (t u roleId : UUID) :
    (TenantService.updateMemberRole t u roleId).Early Exc.IsApp := by
  refine Prog.Quiet.early_bind (quiet_scalar _ _) fun m => ?_
  cases m with
  | none => exact early_raise _
  | some m =>
    refine Prog.Quiet.early_bind (quiet_scalar _ _) fun role => ?_
    cases role with
    | none => exact early_raise _
    | some role =>
      refine Prog.Quiet.early_bind (quiet_setMember _ _) fun _ => ?_
      exact early_commit_bind fun _ => never_refreshRow _ _

theorem TenantService.early_removeMember (t u : UUID) :
    (TenantService.removeMember t u).Early Exc.IsApp := by
  refine Prog.Quiet.early_bind (quiet_scalar _ _) fun m => ?_
  cases m with
  | none => exact early_raise _
  | some m => exact Prog.Quiet.early_bind (quiet_setMember _ _) fun _ => early_commit

/-- Every operation raises its AppErrors before it commits anything. -/
theorem Call.early (c : Call) : (c.prog P).Early Exc.IsApp := by
  cases c with
  | register payload => exact AuthService.early_register P payload
  | login payload x => exact AuthService.early_login P payload x
  | logout token => exact AuthService.early_logout P token
  | refresh token => exact AuthService.early_refresh P token
  | verifyEmail token => exact AuthService.early_verifyEmail P token
  | forgotPassword email => exact AuthService.early_forgotPassword P email
  | resetPassword token password => exact AuthService.early_resetPassword P token password
  | createTenant name slug u => exact TenantService.early_createTenant P name slug u
  | getTenant t => exact early_select _
  | getMembership t u => exact early_select _
  | listUserTenants u => exact early_select _
  | updateTenant t name isActive => exact TenantService.early_updateTenant t name isActive
  | deleteTenant t => exact TenantService.early_deleteTenant t
  | listMembers t => exact early_select _
  | inviteMember t email roleId => exact TenantService.early_inviteMember P t email roleId
  | acceptInvitation token u => exact TenantService.early_acceptInvitation P token u
  | updateMemberRole t u roleId => exact TenantService.early_updateMemberRole t u roleId
  | removeMember t u => exact TenantService.early_removeMember t u

end Atomicity

/-- A call that ends in an AppError leaves every committed table as it was. -/
theorem call_appError {P : Platform} {o : Nat → Reading} {w : World DB Mail} {c : Call} {e : AppError}
    (h : (call P o w c).1 = .raised (.app e)) : (call P o w c).2.db = w.db :=
  (Call.early P c).serve_db h trivial

/-- The owner accepts an invitation of the tenant that he is a member of already. -/
theorem call_appError_alreadyMember :
    let w := after (plainPlatform {}) (Seed.readings 0) Seed.twoTenants
      [Seed.request 1 (.tenant (.inviteMember 1002 "owner@example.com" Seed.tenantMember))]
    (call (plainPlatform {}) (Seed.readings 0) w
      (.acceptInvitation "sssssssssssssssssssssssss" 1)).2.db = w.db := by
  apply call_appError (e := TenantService.alreadyMember)
  change (serve Write.apply _ (TenantService.acceptInvitation _ _ _) _).1 =
    (.raised (.app _) : Outcome Exc Fault TenantMember)
  decide +kernel

end TenantAuth
