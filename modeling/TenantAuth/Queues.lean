import TenantAuth.Routers
set_option autoImplicit false

namespace TenantAuth
open Transact

section Steps
variable {S : Write → Prop}

theorem writes_now : now.Writes S := writes_reading _ _
theorem writes_uuid4 : uuid4.Writes S := writes_reading _ _

theorem writes_scalar {α : Type} (table : DB → List α) (p : α → Bool) :
    (scalar table p).Writes S := writes_select _ _

theorem writes_appError {α : Type} (e : AppError) : (e.raise : App α).Writes S := trivial

theorem writes_appErrorIf (e : AppError) (p : Prop) [Decidable p] : (e.raiseIf p).Writes S :=
  writes_raiseIf _ p _

theorem writes_refreshRow {α : Type} (table : DB → List α) (p : α → Bool) :
    (refreshRow table p).Writes S :=
  Prog.Writes.bind (writes_scalar _ _) fun r => by cases r <;> simp

theorem writes_found {α β : Type} {table : DB → List α} {p : α → Bool} {f : Option α → App β}
    (hnone : (f none).Writes S) (hsome : ∀ r, p r = true → (f (some r)).Writes S) :
    (scalar table p >>= f).Writes S := fun d => by
  change (f ((table d).find? p)).Writes S
  cases hr : (table d).find? p with
  | none => exact hnone
  | some r => exact hsome r (List.find?_some hr)

theorem writesOn_found {α β γ : Type} {A : App γ → Prop} {J : DB → Prop} {table : DB → List α}
    {p : α → Bool} {f : Option α → App β} {g : β → App γ} (ha : A ((scalar table p >>= f) >>= g))
    (hnone : (f none >>= g).WritesOn A J S)
    (hsome : ∀ d r, J d → (table d).find? p = some r → (f (some r) >>= g).WritesOn A J S) :
    ((scalar table p >>= f) >>= g).WritesOn A J S := fun d hd => by
  change (f ((table d).find? p) >>= g).WritesOn A J S
  cases hr : (table d).find? p with
  | none => exact hnone
  | some r => exact hsome d r (hd ha) hr

theorem writes_log (h : ∀ r, S (.insertAuditLog r)) (action : String)
    (tenantId userId : Option UUID) (details : Option (List (String × Detail))) :
    (AuditLogger.log action tenantId userId details).Writes S := by
  refine Prog.Writes.bind writes_uuid4 fun _ => ?_
  refine Prog.Writes.bind writes_now fun _ => ?_
  exact Prog.Writes.bind ((writes_add _ _).mpr (h _)) fun _ => writes_flush _

end Steps

namespace AuthService
variable {S : Write → Prop} {P : Platform}

theorem writes_decodeToken (token : String) (k : Option TokenType) :
    (decodeToken P token k).Writes S :=
  Prog.Writes.bind writes_now fun t => by
    cases decodeAt P token k t with
    | error e => exact writes_appError e
    | ok i => exact writes_pure _ i

theorem writes_hashPassword (password : String) : (hashPassword P password).Writes S :=
  Prog.Writes.bind (writes_reading _ _) fun salt => by
    cases P.hashpw password salt with
    | none => exact writes_raise _ _
    | some hash => exact writes_pure _ hash

theorem writes_setUser (h : ∀ id p t, S (.updateUser id p t)) (u : User) (p : UserPatch) :
    (setUser u p).Writes S :=
  Prog.Writes.bind writes_now fun _ => by
    by_cases hp : p.diff u = {} <;> simp [hp,h]

theorem writes_sendEmail (m : Mail) : (sendEmail m).Writes S :=
  Prog.Writes.bind (writes_reading _ _) fun b => by cases b <;> simp

theorem writes_requireScope (u : UUID) (x : Option UUID) : (requireScope u x).Writes S := by
  cases x with
  | none => exact writes_pure _ _
  | some t => exact Prog.Writes.bind (writes_scalar _ _) fun _ => writes_appErrorIf _ _

theorem writes_issueTokenPair (h : ∀ r, S (.insertRefreshToken r)) (u : UUID) (x : Option UUID) :
    (issueTokenPair P u x).Writes S := by
  refine Prog.Writes.bind (Prog.Writes.bind writes_now fun _ => writes_pure _ _) fun _ => ?_
  refine Prog.Writes.bind (Prog.Writes.bind writes_now fun _ => writes_pure _ _) fun _ => ?_
  refine Prog.Writes.bind writes_uuid4 fun _ => ?_
  refine Prog.Writes.bind ((writes_add _ _).mpr (h _)) fun _ => ?_
  exact Prog.Writes.bind (writes_flush _) fun _ => writes_pure _ _

theorem writes_register (hu : ∀ r, S (.insertUser r)) (ht : ∀ r, S (.insertVerificationToken r))
    (payload : RegisterRequest) : (register P payload).Writes S := by
  refine Prog.Writes.bind (writes_scalar _ _) fun _ => ?_
  refine Prog.Writes.bind (writes_appErrorIf _ _) fun _ => ?_
  refine Prog.Writes.bind (writes_hashPassword _) fun _ => ?_
  refine Prog.Writes.bind writes_uuid4 fun _ => ?_
  refine Prog.Writes.bind writes_now fun _ => ?_
  refine Prog.Writes.bind ((writes_add _ _).mpr (hu _)) fun _ => ?_
  refine Prog.Writes.bind (writes_commit _) fun _ => ?_
  refine Prog.Writes.bind (writes_refreshRow _ _) fun _ => ?_
  refine Prog.Writes.bind (Prog.Writes.bind writes_now fun _ => writes_pure _ _) fun _ => ?_
  refine Prog.Writes.bind writes_uuid4 fun _ => ?_
  refine Prog.Writes.bind ((writes_add _ _).mpr (ht _)) fun _ => ?_
  refine Prog.Writes.bind (writes_commit _) fun _ => ?_
  exact Prog.Writes.bind (writes_sendEmail _) fun _ => writes_pure _ _

theorem writes_login (h : ∀ r, S (.insertRefreshToken r)) (payload : LoginRequest)
    (x : Option UUID) : (login P payload x).Writes S := by
  refine Prog.Writes.bind (writes_scalar _ _) fun user => ?_
  cases user with
  | none => exact writes_appError _
  | some user =>
    refine Prog.Writes.bind (writes_appErrorIf _ _) fun _ => ?_
    refine Prog.Writes.bind (writes_appErrorIf _ _) fun _ => ?_
    refine Prog.Writes.bind (writes_requireScope _ _) fun _ => ?_
    refine Prog.Writes.bind (writes_issueTokenPair h _ _) fun _ => ?_
    exact Prog.Writes.bind (writes_commit _) fun _ => writes_pure _ _

theorem writes_logout (h : ∀ id t, S (.revokeRefreshToken id t)) (token : String) :
    (logout P token).Writes S := by
  refine Prog.Writes.bind (writes_decodeToken _ _) fun _ => ?_
  refine Prog.Writes.bind (writes_scalar _ _) fun r => ?_
  cases r with
  | none => exact writes_appError _
  | some r =>
    refine Prog.Writes.bind writes_now fun _ => ?_
    exact Prog.Writes.bind ((writes_add _ _).mpr (h _ _)) fun _ => writes_commit _

theorem writes_refresh (hi : ∀ r, S (.insertRefreshToken r))
    (hr : ∀ id t, S (.revokeRefreshToken id t)) (token : String) : (refresh P token).Writes S := by
  refine Prog.Writes.bind (writes_decodeToken _ _) fun _ => ?_
  refine Prog.Writes.bind (writes_scalar _ _) fun r => ?_
  cases r with
  | none => exact writes_appError _
  | some r =>
    refine Prog.Writes.bind writes_now fun _ => ?_
    refine Prog.Writes.bind (writes_appErrorIf _ _) fun _ => ?_
    refine Prog.Writes.bind (writes_requireScope _ _) fun _ => ?_
    refine Prog.Writes.bind writes_now fun _ => ?_
    refine Prog.Writes.bind ((writes_add _ _).mpr (hr _ _)) fun _ => ?_
    refine Prog.Writes.bind (writes_flush _) fun _ => ?_
    refine Prog.Writes.bind (writes_issueTokenPair hi _ _) fun _ => ?_
    exact Prog.Writes.bind (writes_commit _) fun _ => writes_pure _ _

theorem writes_verifyEmail (hu : ∀ id p t, S (.updateUser id p t))
    (ht : ∀ id t, S (.useVerificationToken id t)) (token : String) :
    (verifyEmail P token).Writes S := by
  refine Prog.Writes.bind (writes_decodeToken _ _) fun _ => ?_
  refine Prog.Writes.bind (writes_scalar _ _) fun r => ?_
  cases r with
  | none => exact writes_appError _
  | some r =>
    refine Prog.Writes.bind writes_now fun _ => ?_
    refine Prog.Writes.bind (writes_appErrorIf _ _) fun _ => ?_
    refine Prog.Writes.bind (writes_scalar _ _) fun user => ?_
    cases user with
    | none => exact writes_appError _
    | some user =>
      refine Prog.Writes.bind (writes_appErrorIf _ _) fun _ => ?_
      refine Prog.Writes.bind (writes_setUser hu _ _) fun _ => ?_
      refine Prog.Writes.bind writes_now fun _ => ?_
      exact Prog.Writes.bind ((writes_add _ _).mpr (ht _ _)) fun _ => writes_commit _

theorem writes_forgotPassword (h : ∀ r, S (.insertResetToken r)) (email : String) :
    (forgotPassword P email).Writes S := by
  refine Prog.Writes.bind (writes_scalar _ _) fun user => ?_
  cases user with
  | none => exact writes_pure _ _
  | some user =>
    refine Prog.Writes.bind (Prog.Writes.bind writes_now fun _ => writes_pure _ _) fun _ => ?_
    refine Prog.Writes.bind writes_uuid4 fun _ => ?_
    refine Prog.Writes.bind ((writes_add _ _).mpr (h _)) fun _ => ?_
    exact Prog.Writes.bind (writes_commit _) fun _ => writes_sendEmail _

theorem writes_resetPassword (hu : ∀ id p t, S (.updateUser id p t))
    (ht : ∀ id t, S (.useResetToken id t)) (token newPassword : String) :
    (resetPassword P token newPassword).Writes S := by
  refine Prog.Writes.bind (writes_decodeToken _ _) fun _ => ?_
  refine Prog.Writes.bind (writes_scalar _ _) fun r => ?_
  cases r with
  | none => exact writes_appError _
  | some r =>
    refine Prog.Writes.bind writes_now fun _ => ?_
    refine Prog.Writes.bind (writes_appErrorIf _ _) fun _ => ?_
    refine Prog.Writes.bind (writes_scalar _ _) fun user => ?_
    cases user with
    | none => exact writes_appError _
    | some user =>
      refine Prog.Writes.bind (writes_hashPassword _) fun _ => ?_
      refine Prog.Writes.bind (writes_setUser hu _ _) fun _ => ?_
      refine Prog.Writes.bind writes_now fun _ => ?_
      exact Prog.Writes.bind ((writes_add _ _).mpr (ht _ _)) fun _ => writes_commit _

end AuthService

namespace TenantService
variable {S : Write → Prop} {P : Platform}

theorem writes_setTenant {t : Tenant} {p : TenantPatch}
    (h : ∀ now, S (.updateTenant t.id (p.diff t) now)) : (setTenant t p).Writes S :=
  Prog.Writes.bind writes_now fun _ => by
    by_cases hp : p.diff t = {} <;> simp [hp,h]

theorem writes_setMember {m : TenantMember} {p : TenantMemberPatch}
    (h : S (.updateMember m.id (p.diff m))) : (setMember m p).Writes S := by
  unfold setMember
  by_cases hp : p.diff m = {} <;> simp [hp,h]

theorem writes_addTenant (ht : ∀ r, S (.insertTenant r)) (hm : ∀ r, S (.insertMember r))
    (name slug : String) (u : UUID) : (addTenant P name slug u).Writes S := by
  refine Prog.Writes.bind writes_uuid4 fun _ => ?_
  refine Prog.Writes.bind writes_now fun _ => ?_
  refine Prog.Writes.bind ((writes_add _ _).mpr (ht _)) fun _ => ?_
  refine Prog.Writes.bind (writes_flush _) fun _ => ?_
  refine Prog.Writes.bind (writes_scalar _ _) fun role => ?_
  cases role with
  | none => exact writes_appError _
  | some role =>
    refine Prog.Writes.bind writes_uuid4 fun _ => ?_
    refine Prog.Writes.bind writes_now fun _ => ?_
    exact Prog.Writes.bind ((writes_add _ _).mpr (hm _)) fun _ => writes_pure _ _

theorem writes_createTenant (ht : ∀ r, S (.insertTenant r)) (hm : ∀ r, S (.insertMember r))
    (hs : ∀ s, S (.createSchema s)) (name slug : String) (u : UUID) :
    (createTenant P name slug u).Writes S := by
  refine Prog.Writes.bind (writes_addTenant ht hm _ _ _) fun t => ?_
  cases P.settings.multiTenantMode with
  | schema =>
    refine Prog.Writes.bind (Prog.Writes.bind ((writes_add _ _).mpr (hs _)) fun _ =>
      Prog.Writes.bind (writes_flush _) fun _ => writes_pure _ _) fun _ => ?_
    refine Prog.Writes.bind (writes_commit _) fun _ => ?_
    refine Prog.Writes.bind (Prog.Writes.bind (writes_reading _ _) fun b => ?_) fun _ =>
      writes_refreshRow _ _
    cases b <;> simp
  | row => exact Prog.Writes.bind (writes_commit _) fun _ => writes_refreshRow _ _

theorem writes_updateTenant {t : UUID} {name : Option String} {isActive : Option Bool}
    (h : ∀ r : Tenant, r.id = t → r.isActive = true → ∀ now,
      S (.updateTenant t (TenantPatch.diff ⟨name.map strip,isActive⟩ r) now)) :
    (updateTenant t name isActive).Writes S := by
  refine writes_found (writes_appError _) fun r hr => ?_
  obtain ⟨rfl,ha⟩ : r.id = t ∧ r.isActive = true := by simpa using hr
  refine Prog.Writes.bind (writes_setTenant (h r rfl ha)) fun _ => ?_
  exact Prog.Writes.bind (writes_commit _) fun _ => writes_refreshRow _ _

theorem writes_deleteTenant {t : UUID}
    (h : ∀ now, S (.updateTenant t { isActive := some false } now)) :
    (deleteTenant t).Writes S := by
  refine writes_found (writes_appError _) fun r hr => ?_
  obtain ⟨rfl,ha⟩ : r.id = t ∧ r.isActive = true := by simpa using hr
  refine Prog.Writes.bind (writes_setTenant fun now => ?_) fun _ => writes_commit _
  simpa [TenantPatch.diff,changed,ha] using h now

theorem writes_inviteMember (h : ∀ r, S (.insertInvitation r)) (t : UUID) (email : String)
    (roleId : UUID) : (inviteMember P t email roleId).Writes S := by
  refine Prog.Writes.bind (writes_scalar _ _) fun role => ?_
  cases role with
  | none => exact writes_appError _
  | some role =>
    refine Prog.Writes.bind (writes_reading _ _) fun _ => ?_
    refine Prog.Writes.bind writes_now fun _ => ?_
    refine Prog.Writes.bind writes_uuid4 fun _ => ?_
    refine Prog.Writes.bind ((writes_add _ _).mpr (h _)) fun _ => ?_
    refine Prog.Writes.bind (writes_commit _) fun _ => ?_
    exact Prog.Writes.bind (writes_refreshRow _ _) fun _ => writes_pure _ _

theorem writes_acceptInvitation (hi : ∀ id now, S (.acceptInvitation id now))
    (hm : ∀ r, r.isActive = true → S (.insertMember r)) (token : String) (u : UUID) :
    (acceptInvitation P token u).Writes S := by
  refine Prog.Writes.bind (writes_scalar _ _) fun i => ?_
  cases i with
  | none => exact writes_appError _
  | some i =>
    refine Prog.Writes.bind writes_now fun _ => ?_
    refine Prog.Writes.bind (writes_appErrorIf _ _) fun _ => ?_
    refine Prog.Writes.bind (writes_scalar _ _) fun _ => ?_
    refine Prog.Writes.bind (writes_appErrorIf _ _) fun _ => ?_
    refine Prog.Writes.bind writes_now fun _ => ?_
    refine Prog.Writes.bind ((writes_add _ _).mpr (hi _ _)) fun _ => ?_
    refine Prog.Writes.bind (writes_scalar _ _) fun _ => ?_
    refine Prog.Writes.bind (writes_appErrorIf _ _) fun _ => ?_
    refine Prog.Writes.bind writes_uuid4 fun _ => ?_
    refine Prog.Writes.bind writes_now fun _ => ?_
    refine Prog.Writes.bind ((writes_add _ _).mpr (hm _ rfl)) fun _ => ?_
    exact Prog.Writes.bind (writes_commit _) fun _ => writes_refreshRow _ _

theorem writes_updateMemberRole {t u roleId : UUID}
    (h : ∀ m : TenantMember, m.tenantId = t → m.userId = u →
      S (.updateMember m.id (TenantMemberPatch.diff { roleId := some roleId } m))) :
    (updateMemberRole t u roleId).Writes S := by
  refine writes_found (writes_appError _) fun m hm => ?_
  have hkey : m.tenantId = t ∧ m.userId = u ∧ m.isActive = true := by simpa using hm
  refine Prog.Writes.bind (writes_scalar _ _) fun role => ?_
  cases role with
  | none => exact writes_appError _
  | some role =>
    refine Prog.Writes.bind (writes_setMember (h m hkey.1 hkey.2.1)) fun _ => ?_
    exact Prog.Writes.bind (writes_commit _) fun _ => writes_refreshRow _ _

theorem writes_removeMember {t u : UUID}
    (h : ∀ m : TenantMember, m.tenantId = t → m.userId = u →
      S (.updateMember m.id { isActive := some false })) : (removeMember t u).Writes S := by
  refine writes_found (writes_appError _) fun m hm => ?_
  have hkey : m.tenantId = t ∧ m.userId = u ∧ m.isActive = true := by simpa using hm
  refine Prog.Writes.bind (writes_setMember ?_) fun _ => writes_commit _
  have hs := h m hkey.1 hkey.2.1
  simpa [TenantMemberPatch.diff,changed,hkey.2.2] using hs

end TenantService

section Routes
variable {S : Write → Prop} {P : Platform}

theorem writes_getCurrentUser (authorization : Option String) :
    (getCurrentUser P authorization).Writes S := by
  unfold getCurrentUser
  cases P.httpBearer authorization with
  | none => exact writes_appError _
  | some credentials =>
    refine Prog.Writes.bind (writes_appErrorIf _ _) fun _ => ?_
    refine Prog.Writes.bind (AuthService.writes_decodeToken _ _) fun _ => ?_
    refine Prog.Writes.bind (writes_scalar _ _) fun user => ?_
    cases user with
    | none => exact writes_appError _
    | some user => exact writes_pure _ _

theorem writes_requireTenantAdmin (t : UUID) (user : User) :
    (requireTenantAdmin t user).Writes S := by
  refine Prog.Writes.bind (writes_scalar _ _) fun m => ?_
  cases m with
  | none => exact writes_appError _
  | some m =>
    refine Prog.Writes.bind (writes_refreshRow _ _) fun _ => ?_
    exact Prog.Writes.bind (writes_appErrorIf _ _) fun _ => writes_pure _ _

theorem writes_logged (h : ∀ r, S (.insertAuditLog r)) {action : String}
    {tenantId userId : Option UUID} {details : Option (List (String × Detail))} {b : Body} :
    (AuditLogger.log action tenantId userId details >>= fun _ => (pure b : App Body)).Writes S :=
  Prog.Writes.bind (writes_log h _ _ _ _) fun _ => writes_pure _ _

end Routes

end TenantAuth
