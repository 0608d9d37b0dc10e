import TenantAuth.Serving
import TenantAuth.Attribution
set_option autoImplicit false

namespace TenantAuth.Schema
open Transact Relational

section Writes
variable {P : Platform}

theorem made_logged {action : String} {t u : Option UUID} {details : Option (List (String × Detail))}
    {b : Body} (h : varchar 255 action = true) :
    (AuditLogger.log action t u details >>= fun _ => (pure b : App Body)).Writes Made := by
  refine Prog.Writes.bind ?_ fun _ => writes_pure _ _
  refine Prog.Writes.bind writes_uuid4 fun _ => ?_
  refine Prog.Writes.bind writes_now fun _ => ?_
  exact Prog.Writes.bind ((writes_add _ _).mpr ⟨h,rfl⟩) fun _ => writes_flush _

open AuthService in
theorem made_register (payload : RegisterRequest) : (register P payload).Writes Made := by
  refine Prog.Writes.bind (writes_scalar _ _) fun _ => ?_
  refine Prog.Writes.bind (writes_appErrorIf _ _) fun _ => ?_
  refine Prog.Writes.bind (writes_hashPassword _) fun _ => ?_
  refine Prog.Writes.bind writes_uuid4 fun _ => ?_
  refine Prog.Writes.bind writes_now fun _ => ?_
  refine Prog.Writes.bind ((writes_add _ _).mpr rfl) fun _ => ?_
  refine Prog.Writes.bind (writes_commit _) fun _ => ?_
  refine Prog.Writes.bind (writes_refreshRow _ _) fun _ => ?_
  refine Prog.Writes.bind (Prog.Writes.bind writes_now fun _ => writes_pure _ _) fun _ => ?_
  refine Prog.Writes.bind writes_uuid4 fun _ => ?_
  refine Prog.Writes.bind ((writes_add _ _).mpr trivial) fun _ => ?_
  refine Prog.Writes.bind (writes_commit _) fun _ => ?_
  exact Prog.Writes.bind (writes_sendEmail _) fun _ => writes_pure _ _

open AuthService in
theorem made_auth (r : AuthRoute) (xTenantId : Option String) :
    (r.endpoint P xTenantId).Writes Made := by
  cases r with
  | register payload => exact Prog.Writes.bind (made_register _) fun _ => writes_pure _ _
  | login payload =>
    simp only [AuthRoute.endpoint,AuthRouter.login]
    cases AuthRouter.loginTenantId P xTenantId with
    | error e => exact writes_appError _
    | ok x =>
      exact Prog.Writes.bind (writes_login (fun _ => trivial) _ _) fun _ => writes_pure _ _
  | logout token =>
    exact Prog.Writes.bind (writes_logout (fun _ _ => trivial) _) fun _ => writes_pure _ _
  | refresh token =>
    exact Prog.Writes.bind (writes_refresh (fun _ => trivial) (fun _ _ => trivial) _) fun _ =>
      writes_pure _ _
  | verifyEmail token =>
    exact Prog.Writes.bind (writes_verifyEmail (fun _ _ _ => trivial) (fun _ _ => trivial) _)
      fun _ => writes_pure _ _
  | forgotPassword email =>
    exact Prog.Writes.bind (writes_forgotPassword (fun _ => trivial) _) fun _ => writes_pure _ _
  | resetPassword token newPassword =>
    exact Prog.Writes.bind (writes_resetPassword (fun _ _ _ => trivial) (fun _ _ => trivial) _ _)
      fun _ => writes_pure _ _

open TenantService in
theorem made_createTenant (name slug : String) (u : UUID) :
    (createTenant P name slug u).Writes Made := by
  refine Prog.Writes.bind ?_ fun t => ?_
  · refine Prog.Writes.bind writes_uuid4 fun _ => ?_
    refine Prog.Writes.bind writes_now fun _ => ?_
    refine Prog.Writes.bind ((writes_add _ _).mpr rfl) fun _ => ?_
    refine Prog.Writes.bind (writes_flush _) fun _ => ?_
    refine Prog.Writes.bind (writes_scalar _ _) fun role => ?_
    cases role with
    | none => exact writes_appError _
    | some role =>
      refine Prog.Writes.bind writes_uuid4 fun _ => ?_
      refine Prog.Writes.bind writes_now fun _ => ?_
      exact Prog.Writes.bind ((writes_add _ _).mpr trivial) fun _ => writes_pure _ _
  · cases P.settings.multiTenantMode with
    | schema =>
      refine Prog.Writes.bind (Prog.Writes.bind ((writes_add _ _).mpr trivial) fun _ =>
        Prog.Writes.bind (writes_flush _) fun _ => writes_pure _ _) fun _ => ?_
      refine Prog.Writes.bind (writes_commit _) fun _ => ?_
      refine Prog.Writes.bind (Prog.Writes.bind (writes_reading _ _) fun b => ?_) fun _ =>
        writes_refreshRow _ _
      cases b <;> simp
    | row => exact Prog.Writes.bind (writes_commit _) fun _ => writes_refreshRow _ _

open TenantService in
theorem made_tenant (r : TenantRoute) (user : User) : (r.endpoint P user).Writes Made := by
  cases r with
  | createTenant name slug =>
    exact Prog.Writes.bind (made_createTenant _ _ _) fun _ => made_logged (by decide)
  | listMyTenants => exact Prog.Writes.bind (writes_select _ _) fun _ => writes_pure _ _
  | getTenant t =>
    refine writes_found (writes_appError _) fun _ _ => ?_
    exact writes_found (writes_appError _) fun _ _ => writes_pure _ _
  | updateTenant t name isActive =>
    refine Prog.Writes.bind (writes_requireTenantAdmin _ _) fun _ => ?_
    exact Prog.Writes.bind (writes_updateTenant fun _ _ _ _ => trivial) fun _ =>
      made_logged (by decide)
  | deleteTenant t =>
    refine Prog.Writes.bind (writes_requireTenantAdmin _ _) fun _ => ?_
    exact Prog.Writes.bind (writes_deleteTenant fun _ => trivial) fun _ => made_logged (by decide)
  | listMembers t =>
    refine writes_found (writes_appError _) fun _ _ => ?_
    exact Prog.Writes.bind (writes_select _ _) fun _ => writes_pure _ _
  | inviteMember t email roleId =>
    refine Prog.Writes.bind (writes_requireTenantAdmin _ _) fun _ => ?_
    exact Prog.Writes.bind (writes_inviteMember (fun _ => trivial) _ _ _) fun _ =>
      made_logged (by decide)
  | acceptInvitation t token =>
    exact Prog.Writes.bind (writes_acceptInvitation (fun _ _ => trivial) (fun _ _ => trivial) _ _)
      fun _ => made_logged (by decide)
  | updateMemberRole t u roleId =>
    refine Prog.Writes.bind (writes_requireTenantAdmin _ _) fun _ => ?_
    exact Prog.Writes.bind (writes_updateMemberRole fun _ _ _ => trivial) fun _ =>
      made_logged (by decide)
  | removeMember t u =>
    refine Prog.Writes.bind (writes_requireTenantAdmin _ _) fun _ => ?_
    exact Prog.Writes.bind (writes_removeMember fun _ _ _ => trivial) fun _ =>
      made_logged (by decide)

theorem made_admin (r : AdminRoute) : r.endpoint.Writes Made := by
  refine r.mayWrite.mono fun w hw => ?_
  cases w with
  | insertUser _ | insertTenant _ | insertAuditLog _ => cases r <;> exact hw.elim
  | _ => trivial

theorem made_request (q : Request) : (q.endpoint P).Writes Made := by
  unfold Request.endpoint
  split
  · exact made_auth _ _
  · exact Prog.Writes.bind (writes_getCurrentUser _) fun _ => writes_pure _ _
  · exact Prog.Writes.bind (writes_getCurrentUser _) fun user => made_tenant _ user
  · refine Prog.Writes.bind (Prog.Writes.bind (writes_getCurrentUser _) fun _ => ?_) fun _ => ?_
    · refine Prog.Writes.bind (writes_select _ _) fun _ => ?_
      exact Prog.Writes.bind (writes_appErrorIf _ _) fun _ => writes_pure _ _
    · exact made_admin _

end Writes

section Runs
variable {P : Platform} {o : Readings}
  {s₀ : System DB Write Fault Reading Exc Mail Body Request}
  {s₀' : System Server Write Refusal Reading Exc Mail Body Request}

/-- Runs of the model in which the texts and digests fit their columns as they are, no user is
deleted twice, and none while a tenant is created. -/
abbrev ModelRun (P : Platform) (o : Readings) :=
  Reach Write.apply Write.waitsFor o.read (Request.endpoint P)
    (fun s m => Minds Write.apply Storable id s m ∧ Separate s.running m = true) fun _ => True

abbrev ServerRun (P : Platform) (o : Readings) :=
  Served send Write.waitsFor o.read (fun q : Request => (q.endpoint P).over decode)
    fun s m => Minds Write.apply Storable decode s m ∧ Separate s.running m = true

/-- Any requests in any such interleaving: every run of the model is one of the server, with the
same answers and mails. And whatever the server's clock shows, and whatever a deletion has loaded of
the members and tokens of its user, in every run of the server the tables keep to their constraints,
and the model has run alongside and can make just the moves that the server can make. -/
theorem tables_serve (h0 : s₀.sessions = []) (h : s₀.Mirrors Represents decode s₀') :
    (∀ s, ModelRun P o s₀ s → ∃ s', ServerRun P o s₀' s' ∧ s.Mirrors Represents decode s') ∧
    ∀ s', ServerRun P o s₀' s' → s'.world.db.tables.Sound ∧
      ∃ s, ModelRun P o s₀ s ∧ s.Mirrors Represents decode s' ∧
        ∀ t m, Minds Write.apply Storable decode s' m → Option.Rel (System.Mirrors Represents decode)
          (s.move Write.apply Write.waitsFor o.read (Request.endpoint P) m)
          (s'.move (send t) Write.waitsFor o.read (fun q => (q.endpoint P).over decode) m) := by
  refine ⟨fun s hrun => hrun.served (C := fun l m => Separate l m = true) implements (.alone 0)
    made_request (.start h0) h,fun s' hrun => ?_⟩
  obtain ⟨s,hreach,hs⟩ := hrun.reach (C := fun l m => Separate l m = true) implements made_request
    (.start h0) h fun _ => trivial
  obtain ⟨x,hx,hsound⟩ := hs.world.db
  refine ⟨hsound,s,hreach,hs,fun t m hm => ?_⟩
  exact hs.move implements (hreach.labelled (.start h0) made_request)
    ((hs.minds implements).mp hm)

end Runs

section Guest
open Seed

/-- The seeds, two users and an administrator's role in the tables. -/
def stored : Server :=
  ⟨encode ⟨fun _ => 0,fun _ => 0,fun _ => 0,fun _ => 0⟩ (world [⟨1,superAdmin⟩]).db,[]⟩

theorem represents_stored : Represents stored (world [⟨1,superAdmin⟩]).db := by
  have hwf := (deployed_world (by decide) (by decide) (by decide) : Deployed
    (world [⟨1,superAdmin⟩]).db).wf
  have hfits : Fits (world [⟨1,superAdmin⟩]).db :=
    { users := by decide +kernel, roles := by decide +kernel, tenants := by decide +kernel
      invitations := by decide +kernel, refreshTokens := by decide +kernel
      resetTokens := by decide +kernel, verificationTokens := by decide +kernel
      permissions := by decide +kernel, auditLogs := by decide +kernel }
  exact ⟨_,rfl,sound_encode.mpr ⟨hfits,hwf⟩⟩

def leaving : Option (System DB Write Fault Reading Exc Mail Body Request) :=
  System.play Write.apply Write.waitsFor (readings 0).read (Request.endpoint (plainPlatform {}))
    (fun s m => decide (Minds Write.apply Storable id s m) && Separate s.running m) (fun _ => true)
    ⟨world [⟨1,superAdmin⟩],[]⟩
    ([.arrive login,.arrive (request 1 (.admin (.deleteUser 2)))] ++ List.replicate 5 (.run 0) ++
      List.replicate 7 (.run 1) ++ [.run 0])

theorem tables_serve_leaving :
    ∃ s s', leaving = some s ∧ s.sessions.map (fun x => x.2.succeeded) = [false,true] ∧
      ServerRun (plainPlatform {}) (readings 0) ⟨⟨stored,0,[]⟩,[]⟩ s' ∧
      s.Mirrors Represents decode s' ∧ s'.world.db.tables.Sound := by
  have hrun : leaving.map (fun s => s.sessions.map fun x => x.2.succeeded) =
      some [false,true] := by decide +kernel
  obtain ⟨s,hs,hview⟩ := Option.map_eq_some_iff.mp hrun
  have hreach : ModelRun (plainPlatform {}) (readings 0) ⟨world [⟨1,superAdmin⟩],[]⟩ s :=
    System.play_reach (fun _ _ hm => by simpa using hm) (fun _ _ => trivial) (.start trivial) hs
  obtain ⟨hserve,hkeep⟩ := tables_serve (P := plainPlatform {}) (o := readings 0) rfl
    (⟨⟨represents_stored,rfl,rfl⟩,.nil⟩ : System.Mirrors Represents decode
      ⟨world [⟨1,superAdmin⟩],[]⟩ ⟨⟨stored,0,[]⟩,[]⟩)
  obtain ⟨s',hserved,hmirror⟩ := hserve s hreach
  exact ⟨s,s',hs,hview,hserved,hmirror,(hkeep s' hserved).1⟩

end Guest

end TenantAuth.Schema
