import TenantAuth.Transact.Delta
import TenantAuth.Transact.Interruption
import TenantAuth.Checks
import TenantAuth.LostUpdates
set_option autoImplicit false

namespace TenantAuth
open Transact
open Relational (cut)

def Names (P : Platform) (token : String) (u : UUID) : Prop :=
  ∃ c, P.jwtVerify token = some c ∧ c.sub = some u

section Routes
variable (P : Platform)

def AuthRoute.MayWrite : AuthRoute → Write → Prop
  | .register payload, .insertUser u => u.email = P.lower payload.email ∧ u.isVerified = false
  | .register _, .insertVerificationToken r => r.usedAt = none
  | .login _, .insertRefreshToken r => r.revokedAt = none
  | .logout _, .revokeRefreshToken _ _ | .refresh _, .revokeRefreshToken _ _ => True
  | .refresh token, .insertRefreshToken r => r.revokedAt = none ∧ Names P token r.userId
  | .verifyEmail token, .updateUser id p _ => Names P token id ∧ p = { isVerified := some true }
  | .verifyEmail _, .useVerificationToken _ _ => True
  | .forgotPassword _, .insertResetToken r => r.usedAt = none
  | .resetPassword token newPassword, .updateUser id p _ => Names P token id ∧
    ∃ salt hash, P.hashpw newPassword salt = some hash ∧ p = { passwordHash := some hash }
  | .resetPassword _ _, .useResetToken _ _ => True
  | _, _ => False

def TenantRoute.Inserts : TenantRoute → Write → Prop
  | .createTenant name slug, .insertTenant t =>
    t.name = strip name ∧ t.slug = P.lower (strip slug) ∧ t.isActive = true
  | .inviteMember t email roleId, .insertInvitation i => i.tenantId = t ∧
    i.email = P.lower (strip email) ∧ i.roleId = roleId ∧ i.acceptedAt = none
  | _, .insertMember m => m.isActive = true
  | _, _ => True

def AdminRoute.MayWrite : AdminRoute → Write → Prop
  | .assignPermissionToRole roleId permissionId, .insertRolePermission r
  | .removePermissionFromRole roleId permissionId, .deleteRolePermission r =>
    r = ⟨roleId,permissionId⟩
  | .updateUser userId payload, .updateUser id p _ => id = userId ∧ p.passwordHash = none ∧
    p.isVerified = none ∧ (∀ x ∈ p.firstName, payload.firstName = some x) ∧
    (∀ x ∈ p.lastName, payload.lastName = some x) ∧ ∀ x ∈ p.isActive, payload.isActive = some x
  | .deleteUser userId, .deleteUser id => id = userId
  | .assignRoleToUser userId roleId, .insertUserRole r => r = ⟨userId,roleId⟩
  | _, _ => False

def Route.MayWrite : Route → Write → Prop
  | .auth r, w => r.MayWrite P w
  | .me, _ => False
  | .tenant r, w => r.Queues w ∧ r.Inserts P w
  | .admin r, w => r.MayWrite w

end Routes

section Writes
variable {P : Platform} {S : Write → Prop}

theorem writes_setUser_diff {u : User} {p : UserPatch}
    (h : p.diff u ≠ {} → ∀ t, S (.updateUser u.id (p.diff u) t)) : (setUser u p).Writes S := by
  refine Prog.Writes.bind writes_now fun t => ?_
  by_cases hp : p.diff u = {}
  · simp [hp]
  · simpa [hp] using h hp t

theorem writes_unless {α : Type} {e : AppError} {p : Prop} [Decidable p] {f : Unit → App α}
    (h : ¬ p → (f ()).Writes S) : (e.raiseIf p >>= f).Writes S := by
  by_cases hp : p
  · rw [AppError.raiseIf,Transact.raiseIf,if_pos hp]
    trivial
  · rw [AppError.raiseIf,Transact.raiseIf,if_neg hp]
    exact h hp

theorem writes_decoded {α : Type} {token : String} {k : Option TokenType}
    {f : TokenPayload → App α} (h : ∀ i, Names P token i.subject → (f i).Writes S) :
    (decodeToken P token k >>= f).Writes S := by
  rw [decodeToken,bind_assoc_prog]
  refine Prog.Writes.bind writes_now fun t => ?_
  cases hi : decodeAt P token k t with
  | error e => trivial
  | ok i => exact h i (decodeAt_sub hi)

theorem writes_hashed {α : Type} {password : String} {f : String → App α}
    (h : ∀ salt hash, P.hashpw password salt = some hash → (f hash).Writes S) :
    (hashPassword P password >>= f).Writes S := by
  rw [hashPassword,bind_assoc_prog]
  refine Prog.Writes.bind (writes_reading _ _) fun salt => ?_
  cases hh : P.hashpw password salt with
  | none => trivial
  | some hash => exact h salt hash hh

theorem writes_issuedPair {u : UUID} {x : Option UUID}
    (h : ∀ r : RefreshToken, r.userId = u → r.revokedAt = none → S (.insertRefreshToken r)) :
    (issueTokenPair P u x).Writes S := by
  refine Prog.Writes.bind (Prog.Writes.bind writes_now fun _ => writes_pure _ _) fun _ => ?_
  refine Prog.Writes.bind (Prog.Writes.bind writes_now fun _ => writes_pure _ _) fun _ => ?_
  refine Prog.Writes.bind writes_uuid4 fun _ => ?_
  refine Prog.Writes.bind ((writes_add _ _).mpr (h _ rfl rfl)) fun _ => ?_
  exact Prog.Writes.bind (writes_flush _) fun _ => writes_pure _ _

open AuthService in
theorem AuthRoute.mayWrite (r : AuthRoute) (xTenantId : Option String) :
    (r.endpoint P xTenantId).Writes (r.MayWrite P) := by
  cases r with
  | register payload =>
    refine Prog.Writes.bind ?_ fun _ => writes_pure _ _
    refine Prog.Writes.bind (writes_scalar _ _) fun _ => ?_
    refine Prog.Writes.bind (writes_appErrorIf _ _) fun _ => ?_
    refine Prog.Writes.bind (writes_hashPassword _) fun _ => ?_
    refine Prog.Writes.bind writes_uuid4 fun _ => ?_
    refine Prog.Writes.bind writes_now fun _ => ?_
    refine Prog.Writes.bind ((writes_add _ _).mpr ⟨rfl,rfl⟩) fun _ => ?_
    refine Prog.Writes.bind (writes_commit _) fun _ => ?_
    refine Prog.Writes.bind (writes_refreshRow _ _) fun _ => ?_
    refine Prog.Writes.bind (Prog.Writes.bind writes_now fun _ => writes_pure _ _) fun _ => ?_
    refine Prog.Writes.bind writes_uuid4 fun _ => ?_
    refine Prog.Writes.bind ((writes_add _ _).mpr rfl) fun _ => ?_
    refine Prog.Writes.bind (writes_commit _) fun _ => ?_
    exact Prog.Writes.bind (writes_sendEmail _) fun _ => writes_pure _ _
  | login payload =>
    simp only [AuthRoute.endpoint,AuthRouter.login]
    cases AuthRouter.loginTenantId P xTenantId with
    | error e => exact writes_appError _
    | ok x =>
      refine Prog.Writes.bind (Prog.Writes.bind (writes_scalar _ _) fun user => ?_) fun _ =>
        writes_pure _ _
      cases user with
      | none => exact writes_appError _
      | some user =>
        refine Prog.Writes.bind (writes_appErrorIf _ _) fun _ => ?_
        refine Prog.Writes.bind (writes_appErrorIf _ _) fun _ => ?_
        refine Prog.Writes.bind (writes_requireScope _ _) fun _ => ?_
        refine Prog.Writes.bind (writes_issuedPair fun _ _ h => h) fun _ => ?_
        exact Prog.Writes.bind (writes_commit _) fun _ => writes_pure _ _
  | logout token =>
    exact Prog.Writes.bind (writes_logout (fun _ _ => trivial) _) fun _ => writes_pure _ _
  | refresh token =>
    refine Prog.Writes.bind (writes_decoded fun i hi => ?_) fun _ => writes_pure _ _
    refine Prog.Writes.bind (writes_scalar _ _) fun r => ?_
    cases r with
    | none => exact writes_appError _
    | some r =>
      refine Prog.Writes.bind writes_now fun _ => ?_
      refine Prog.Writes.bind (writes_appErrorIf _ _) fun _ => ?_
      refine Prog.Writes.bind (writes_requireScope _ _) fun _ => ?_
      refine Prog.Writes.bind writes_now fun _ => ?_
      refine Prog.Writes.bind ((writes_add _ _).mpr trivial) fun _ => ?_
      refine Prog.Writes.bind (writes_flush _) fun _ => ?_
      refine Prog.Writes.bind (writes_issuedPair fun r hu h => ⟨h,hu ▸ hi⟩) fun _ => ?_
      exact Prog.Writes.bind (writes_commit _) fun _ => writes_pure _ _
  | verifyEmail token =>
    refine Prog.Writes.bind (writes_decoded fun i hi => ?_) fun _ => writes_pure _ _
    refine Prog.Writes.bind (writes_scalar _ _) fun r => ?_
    cases r with
    | none => exact writes_appError _
    | some r =>
      refine Prog.Writes.bind writes_now fun _ => ?_
      refine Prog.Writes.bind (writes_appErrorIf _ _) fun _ => ?_
      refine writes_found (writes_appError _) fun user hu => ?_
      have hid : user.id = i.subject := by simpa using hu
      refine writes_unless fun hver => ?_
      refine Prog.Writes.bind (writes_setUser_diff fun _ t => ⟨hid ▸ hi,?_⟩) fun _ => ?_
      · simp [UserPatch.diff,changed,Bool.eq_false_iff.mpr hver]
      refine Prog.Writes.bind writes_now fun _ => ?_
      exact Prog.Writes.bind ((writes_add _ _).mpr trivial) fun _ => writes_commit _
  | forgotPassword email =>
    refine Prog.Writes.bind (Prog.Writes.bind (writes_scalar _ _) fun user => ?_) fun _ =>
      writes_pure _ _
    cases user with
    | none => exact writes_pure _ _
    | some user =>
      refine Prog.Writes.bind (Prog.Writes.bind writes_now fun _ => writes_pure _ _) fun _ => ?_
      refine Prog.Writes.bind writes_uuid4 fun _ => ?_
      refine Prog.Writes.bind ((writes_add _ _).mpr rfl) fun _ => ?_
      exact Prog.Writes.bind (writes_commit _) fun _ => writes_sendEmail _
  | resetPassword token newPassword =>
    refine Prog.Writes.bind (writes_decoded fun i hi => ?_) fun _ => writes_pure _ _
    refine Prog.Writes.bind (writes_scalar _ _) fun r => ?_
    cases r with
    | none => exact writes_appError _
    | some r =>
      refine Prog.Writes.bind writes_now fun _ => ?_
      refine Prog.Writes.bind (writes_appErrorIf _ _) fun _ => ?_
      refine writes_found (writes_appError _) fun user hu => ?_
      have hid : user.id = i.subject := by simpa using hu
      refine writes_hashed fun salt hash hhash => ?_
      refine Prog.Writes.bind (writes_setUser_diff fun hne t => ⟨hid ▸ hi,salt,hash,hhash,?_⟩)
        fun _ => ?_
      · simp only [UserPatch.diff,changed] at hne ⊢
        split at hne <;> simp_all
      refine Prog.Writes.bind writes_now fun _ => ?_
      exact Prog.Writes.bind ((writes_add _ _).mpr trivial) fun _ => writes_commit _

open TenantService in
theorem TenantRoute.inserts (r : TenantRoute) (user : User) :
    (r.endpoint P user).Writes (r.Inserts P) := by
  cases r with
  | createTenant name slug =>
    refine Prog.Writes.bind (Prog.Writes.bind ?_ fun t => ?_) fun _ => writes_logged fun _ => trivial
    · refine Prog.Writes.bind writes_uuid4 fun _ => ?_
      refine Prog.Writes.bind writes_now fun _ => ?_
      refine Prog.Writes.bind ((writes_add _ _).mpr ⟨rfl,rfl,rfl⟩) fun _ => ?_
      refine Prog.Writes.bind (writes_flush _) fun _ => ?_
      refine Prog.Writes.bind (writes_scalar _ _) fun role => ?_
      cases role with
      | none => exact writes_appError _
      | some role =>
        refine Prog.Writes.bind writes_uuid4 fun _ => ?_
        refine Prog.Writes.bind writes_now fun _ => ?_
        exact Prog.Writes.bind ((writes_add _ _).mpr rfl) fun _ => writes_pure _ _
    · cases P.settings.multiTenantMode with
      | schema =>
        refine Prog.Writes.bind (Prog.Writes.bind ((writes_add _ _).mpr trivial) fun _ =>
          Prog.Writes.bind (writes_flush _) fun _ => writes_pure _ _) fun _ => ?_
        refine Prog.Writes.bind (writes_commit _) fun _ => ?_
        refine Prog.Writes.bind (Prog.Writes.bind (writes_reading _ _) fun b => ?_) fun _ =>
          writes_refreshRow _ _
        cases b <;> simp
      | row => exact Prog.Writes.bind (writes_commit _) fun _ => writes_refreshRow _ _
  | inviteMember t email roleId =>
    refine Prog.Writes.bind (writes_requireTenantAdmin _ _) fun _ => ?_
    refine Prog.Writes.bind (Prog.Writes.bind (writes_scalar _ _) fun role => ?_) fun _ =>
      writes_logged fun _ => trivial
    cases role with
    | none => exact writes_appError _
    | some role =>
      refine Prog.Writes.bind (writes_reading _ _) fun _ => ?_
      refine Prog.Writes.bind writes_now fun _ => ?_
      refine Prog.Writes.bind writes_uuid4 fun _ => ?_
      refine Prog.Writes.bind ((writes_add _ _).mpr ⟨rfl,rfl,rfl,rfl⟩) fun _ => ?_
      refine Prog.Writes.bind (writes_commit _) fun _ => ?_
      exact Prog.Writes.bind (writes_refreshRow _ _) fun _ => writes_pure _ _
  | acceptInvitation t token =>
    refine Prog.Writes.bind (writes_acceptInvitation (fun _ _ => trivial) (fun _ h => h) _ _)
      fun _ => ?_
    exact writes_logged fun _ => trivial
  | _ =>
    -- The other routes insert no row that is asked about here.
    refine (TenantRoute.writes _ user).mono fun w hw => ?_
    cases w with
    | insertMember _ => exact hw.elim
    | _ => trivial

theorem AdminRoute.mayWrite (r : AdminRoute) : r.endpoint.Writes r.MayWrite := by
  cases r with
  | listRoles | getRolePermissions _ | listPermissions | listUsers | getUserPermissions _ =>
    exact Prog.Writes.bind (writes_select _ _) fun _ => writes_pure _ _
  | getUser userId => exact writes_found (writes_appError _) fun _ _ => writes_pure _ _
  | assignPermissionToRole _ _ | assignRoleToUser _ _ =>
    refine Prog.Writes.bind (writes_scalar _ _) fun _ => ?_
    refine Prog.Writes.bind (writes_appErrorIf _ _) fun _ => ?_
    refine Prog.Writes.bind ((writes_add _ _).mpr rfl) fun _ => ?_
    exact Prog.Writes.bind (writes_commit _) fun _ => writes_pure _ _
  | removePermissionFromRole _ _ =>
    refine Prog.Writes.bind ((writes_add _ _).mpr rfl) fun _ => ?_
    exact Prog.Writes.bind (writes_commit _) fun _ => writes_pure _ _
  | removeRoleFromUser _ _ => exact writes_appError _
  | updateUser userId payload =>
    refine writes_found (writes_appError _) fun user hu => ?_
    have hid : user.id = userId := by simpa using hu
    refine Prog.Writes.bind (writes_setUser_diff fun _ t => ?_) fun _ => ?_
    · refine ⟨hid,by simp [UserPatch.diff,UserUpdateRequest.patch,changed],
        by simp [UserPatch.diff,UserUpdateRequest.patch,changed],fun x hx => ?_,fun x hx => ?_,
        fun x hx => ?_⟩
      · exact (changed_mem hx).1
      · exact (changed_mem hx).1
      · exact (changed_mem hx).1
    refine Prog.Writes.bind (writes_commit _) fun _ => ?_
    exact Prog.Writes.bind (writes_refreshRow _ _) fun _ => writes_pure _ _
  | deleteUser userId =>
    refine writes_found (writes_appError _) fun user hu => ?_
    have hid : user.id = userId := by simpa using hu
    refine Prog.Writes.bind ((writes_add _ _).mpr hid) fun _ => ?_
    exact Prog.Writes.bind (writes_commit _) fun _ => writes_pure _ _

theorem Request.mayWrite (q : Request) : (q.endpoint P).Writes (q.route.MayWrite P) := by
  unfold Request.endpoint
  split
  · rename_i r hr
    rw [hr]
    exact r.mayWrite _
  · exact Prog.Writes.bind (writes_getCurrentUser _) fun _ => writes_pure _ _
  · rename_i r hr
    rw [hr]
    exact Prog.Writes.bind (writes_getCurrentUser _) fun user => (r.writes user).and (r.inserts user)
  · rename_i r hr
    rw [hr]
    refine Prog.Writes.bind (Prog.Writes.bind (writes_getCurrentUser _) fun _ => ?_) fun _ =>
      r.mayWrite
    refine Prog.Writes.bind (writes_select _ _) fun _ => ?_
    exact Prog.Writes.bind (writes_appErrorIf _ _) fun _ => writes_pure _ _

end Writes

section Changes
variable (P : Platform) (A : Route → Prop)

/-- What routes in `A` make of a user. -/
structure User.Edited (u u' : User) : Prop where
  id : u'.id = u.id
  email : u'.email = u.email
  createdAt : u'.createdAt = u.createdAt
  passwordHash : u'.passwordHash = u.passwordHash ∨ ∃ token newPassword salt,
    A (.auth (.resetPassword token newPassword)) ∧ Names P token u.id ∧
      P.hashpw newPassword salt = some u'.passwordHash
  isVerified : u'.isVerified = u.isVerified ∨ u'.isVerified = true ∧
    ∃ token, A (.auth (.verifyEmail token)) ∧ Names P token u.id
  firstName : u'.firstName = u.firstName ∨ ∃ payload, A (.admin (.updateUser u.id payload)) ∧
    ∃ s, payload.firstName = some (some s) ∧ u'.firstName = cut 100 s
  lastName : u'.lastName = u.lastName ∨ ∃ payload, A (.admin (.updateUser u.id payload)) ∧
    ∃ s, payload.lastName = some (some s) ∧ u'.lastName = cut 100 s
  isActive : u'.isActive = u.isActive ∨ ∃ payload, A (.admin (.updateUser u.id payload)) ∧
    payload.isActive = some (some u'.isActive)

structure Tenant.Edited (t t' : Tenant) : Prop where
  id : t'.id = t.id
  slug : t'.slug = t.slug
  ownerId : t'.ownerId = t.ownerId
  createdAt : t'.createdAt = t.createdAt
  name : t'.name = t.name ∨
    ∃ n isActive, A (.tenant (.updateTenant t.id (some n) isActive)) ∧ t'.name = strip n
  isActive : t'.isActive = t.isActive ∨ t'.isActive = false ∧
    ((∃ name, A (.tenant (.updateTenant t.id name (some false)))) ∨
      A (.tenant (.deleteTenant t.id)))

structure TenantMember.Edited (m m' : TenantMember) : Prop where
  id : m'.id = m.id
  tenantId : m'.tenantId = m.tenantId
  userId : m'.userId = m.userId
  joinedAt : m'.joinedAt = m.joinedAt
  roleId : m'.roleId = m.roleId ∨ ∃ t u, A (.tenant (.updateMemberRole t u m'.roleId))
  isActive : m'.isActive = m.isActive ∨ m'.isActive = false ∧ ∃ t u, A (.tenant (.removeMember t u))

structure TenantInvitation.Edited (i i' : TenantInvitation) : Prop where
  same : { i' with acceptedAt := i.acceptedAt } = i
  acceptedAt : i'.acceptedAt = i.acceptedAt ∨ i'.acceptedAt.isSome = true ∧
    ∃ t token, A (.tenant (.acceptInvitation t token))

structure RefreshToken.Edited (r r' : RefreshToken) : Prop where
  same : { r' with revokedAt := r.revokedAt } = r
  revokedAt : r'.revokedAt = r.revokedAt ∨ r'.revokedAt.isSome = true ∧
    ∃ token, A (.auth (.logout token)) ∨ A (.auth (.refresh token))

/-- What routes for which `U` holds make of a verification or reset token. -/
structure OneTimeToken.Edited (U : Prop) (r r' : OneTimeToken) : Prop where
  same : { r' with usedAt := r.usedAt } = r
  usedAt : r'.usedAt = r.usedAt ∨ r'.usedAt.isSome = true ∧ U

/-- From `d` to `d'` nothing has changed that routes in `A` do not change. -/
structure Changes (d d' : DB) : Prop where
  users : Delta (User.Edited P A)
    (fun u => u.isVerified = false ∧ ∃ payload, A (.auth (.register payload)) ∧
      u.email = P.lower payload.email)
    (fun u => A (.admin (.deleteUser u.id))) d.users d'.users
  tenants : Delta (Tenant.Edited A)
    (fun t => t.isActive = true ∧ ∃ name slug, A (.tenant (.createTenant name slug)) ∧
      t.name = strip name ∧ t.slug = P.lower (strip slug))
    (fun _ => False) d.tenants d'.tenants
  members : Delta (TenantMember.Edited A)
    (fun m => m.isActive = true ∧ ((∃ name slug, A (.tenant (.createTenant name slug))) ∨
      ∃ t token, A (.tenant (.acceptInvitation t token))))
    (fun m => A (.admin (.deleteUser m.userId))) d.members d'.members
  invitations : Delta (TenantInvitation.Edited A)
    (fun i => i.acceptedAt = none ∧ ∃ email, A (.tenant (.inviteMember i.tenantId email i.roleId)) ∧
      i.email = P.lower (strip email))
    (fun _ => False) d.invitations d'.invitations
  refreshTokens : Delta (RefreshToken.Edited A)
    (fun r => r.revokedAt = none ∧ ((∃ payload, A (.auth (.login payload))) ∨
      ∃ token, A (.auth (.refresh token)) ∧ Names P token r.userId))
    (fun r => A (.admin (.deleteUser r.userId))) d.refreshTokens d'.refreshTokens
  verificationTokens : Delta (OneTimeToken.Edited (∃ token, A (.auth (.verifyEmail token))))
    (fun r => r.usedAt = none ∧ ∃ payload, A (.auth (.register payload)))
    (fun r => A (.admin (.deleteUser r.userId))) d.verificationTokens d'.verificationTokens
  resetTokens : Delta
    (OneTimeToken.Edited (∃ token newPassword, A (.auth (.resetPassword token newPassword))))
    (fun r => r.usedAt = none ∧ ∃ email, A (.auth (.forgotPassword email)))
    (fun r => A (.admin (.deleteUser r.userId))) d.resetTokens d'.resetTokens
  rolePermissions : Delta Eq
    (fun r => A (.admin (.assignPermissionToRole r.roleId r.permissionId)))
    (fun r => A (.admin (.removePermissionFromRole r.roleId r.permissionId)))
    d.rolePermissions d'.rolePermissions
  userRoles : Delta Eq (fun r => A (.admin (.assignRoleToUser r.userId r.roleId)))
    (fun r => A (.admin (.deleteUser r.userId))) d.userRoles d'.userRoles
  auditLogs : Delta Eq (fun _ => ∃ r, A (.tenant r)) (fun _ => False) d.auditLogs d'.auditLogs
  schemas : Delta Eq (fun _ => ∃ name slug, A (.tenant (.createTenant name slug)))
    (fun _ => False) d.schemas d'.schemas
  roles : d'.roles = d.roles
  permissions : d'.permissions = d.permissions

end Changes

section Laws
variable {P : Platform} {A B : Route → Prop} {U V : Prop}

theorem User.Edited.refl (u : User) : u.Edited P A u :=
  ⟨rfl,rfl,rfl,.inl rfl,.inl rfl,.inl rfl,.inl rfl,.inl rfl⟩

theorem User.Edited.trans {a b c : User} (h1 : a.Edited P A b) (h2 : b.Edited P A c) :
    a.Edited P A c := by
  have hid := h1.id
  refine ⟨h2.id.trans h1.id,h2.email.trans h1.email,h2.createdAt.trans h1.createdAt,?_,?_,?_,?_,?_⟩
  · rcases h2.passwordHash with h | h
    · exact h ▸ h1.passwordHash
    · exact .inr (hid ▸ h)
  · rcases h2.isVerified with h | h
    · exact h ▸ h1.isVerified
    · exact .inr (hid ▸ h)
  · rcases h2.firstName with h | h
    · exact h ▸ h1.firstName
    · exact .inr (hid ▸ h)
  · rcases h2.lastName with h | h
    · exact h ▸ h1.lastName
    · exact .inr (hid ▸ h)
  · rcases h2.isActive with h | h
    · exact h ▸ h1.isActive
    · exact .inr (hid ▸ h)

theorem User.Edited.mono (hA : ∀ r, A r → B r) {u u' : User} (h : u.Edited P A u') :
    u.Edited P B u' := by
  refine ⟨h.id,h.email,h.createdAt,h.passwordHash.imp_right ?_,h.isVerified.imp_right ?_,
    h.firstName.imp_right ?_,h.lastName.imp_right ?_,h.isActive.imp_right ?_⟩
  · rintro ⟨token,newPassword,salt,ha,hrest⟩
    exact ⟨token,newPassword,salt,hA _ ha,hrest⟩
  · rintro ⟨hv,token,ha,hn⟩
    exact ⟨hv,token,hA _ ha,hn⟩
  · exact fun ⟨payload,ha,hp⟩ => ⟨payload,hA _ ha,hp⟩
  · exact fun ⟨payload,ha,hp⟩ => ⟨payload,hA _ ha,hp⟩
  · exact fun ⟨payload,ha,hp⟩ => ⟨payload,hA _ ha,hp⟩

theorem Tenant.Edited.refl (t : Tenant) : t.Edited A t := ⟨rfl,rfl,rfl,rfl,.inl rfl,.inl rfl⟩

theorem Tenant.Edited.trans {a b c : Tenant} (h1 : a.Edited A b) (h2 : b.Edited A c) :
    a.Edited A c := by
  refine ⟨h2.id.trans h1.id,h2.slug.trans h1.slug,h2.ownerId.trans h1.ownerId,
    h2.createdAt.trans h1.createdAt,?_,?_⟩
  · rcases h2.name with h | h
    · exact h ▸ h1.name
    · exact .inr (h1.id ▸ h)
  · rcases h2.isActive with h | h
    · exact h ▸ h1.isActive
    · exact .inr (h1.id ▸ h)

theorem Tenant.Edited.mono (hA : ∀ r, A r → B r) {t t' : Tenant} (h : t.Edited A t') :
    t.Edited B t' := by
  refine ⟨h.id,h.slug,h.ownerId,h.createdAt,h.name.imp_right ?_,h.isActive.imp_right ?_⟩
  · exact fun ⟨n,isActive,ha,hn⟩ => ⟨n,isActive,hA _ ha,hn⟩
  · exact fun ⟨hoff,ha⟩ => ⟨hoff,ha.imp (fun ⟨name,ha⟩ => ⟨name,hA _ ha⟩) (hA _)⟩

theorem TenantMember.Edited.refl (m : TenantMember) : m.Edited A m :=
  ⟨rfl,rfl,rfl,rfl,.inl rfl,.inl rfl⟩

theorem TenantMember.Edited.trans {a b c : TenantMember} (h1 : a.Edited A b)
    (h2 : b.Edited A c) : a.Edited A c := by
  refine ⟨h2.id.trans h1.id,h2.tenantId.trans h1.tenantId,h2.userId.trans h1.userId,
    h2.joinedAt.trans h1.joinedAt,?_,?_⟩
  · rcases h2.roleId with h | h
    · exact h ▸ h1.roleId
    · exact .inr h
  · rcases h2.isActive with h | h
    · exact h ▸ h1.isActive
    · exact .inr h

theorem TenantMember.Edited.mono (hA : ∀ r, A r → B r) {m m' : TenantMember}
    (h : m.Edited A m') : m.Edited B m' := by
  refine ⟨h.id,h.tenantId,h.userId,h.joinedAt,h.roleId.imp_right ?_,h.isActive.imp_right ?_⟩
  · exact fun ⟨t,u,ha⟩ => ⟨t,u,hA _ ha⟩
  · exact fun ⟨hoff,t,u,ha⟩ => ⟨hoff,t,u,hA _ ha⟩

theorem TenantInvitation.Edited.refl (i : TenantInvitation) : i.Edited A i := ⟨rfl,.inl rfl⟩

theorem TenantInvitation.Edited.trans {a b c : TenantInvitation} (h1 : a.Edited A b)
    (h2 : b.Edited A c) : a.Edited A c := by
  refine ⟨?_,?_⟩
  · rw [← h1.same,← h2.same]
  · rcases h2.acceptedAt with h | h
    · exact h ▸ h1.acceptedAt
    · exact .inr h

theorem TenantInvitation.Edited.mono (hA : ∀ r, A r → B r) {i i' : TenantInvitation}
    (h : i.Edited A i') : i.Edited B i' :=
  ⟨h.same,h.acceptedAt.imp_right fun ⟨hs,t,token,ha⟩ => ⟨hs,t,token,hA _ ha⟩⟩

theorem RefreshToken.Edited.refl (r : RefreshToken) : r.Edited A r := ⟨rfl,.inl rfl⟩

theorem RefreshToken.Edited.trans {a b c : RefreshToken} (h1 : a.Edited A b)
    (h2 : b.Edited A c) : a.Edited A c := by
  refine ⟨?_,?_⟩
  · rw [← h1.same,← h2.same]
  · rcases h2.revokedAt with h | h
    · exact h ▸ h1.revokedAt
    · exact .inr h

theorem RefreshToken.Edited.mono (hA : ∀ r, A r → B r) {r r' : RefreshToken}
    (h : r.Edited A r') : r.Edited B r' :=
  ⟨h.same,h.revokedAt.imp_right fun ⟨hs,token,ha⟩ => ⟨hs,token,ha.imp (hA _) (hA _)⟩⟩

theorem OneTimeToken.Edited.refl (r : OneTimeToken) : r.Edited U r := ⟨rfl,.inl rfl⟩

theorem OneTimeToken.Edited.trans {a b c : OneTimeToken} (h1 : a.Edited U b)
    (h2 : b.Edited U c) : a.Edited U c := by
  refine ⟨?_,?_⟩
  · rw [← h1.same,← h2.same]
  · rcases h2.usedAt with h | h
    · exact h ▸ h1.usedAt
    · exact .inr h

theorem OneTimeToken.Edited.mono (hU : U → V) {r r' : OneTimeToken} (h : r.Edited U r') :
    r.Edited V r' := ⟨h.same,h.usedAt.imp_right (And.imp_right hU)⟩

theorem Changes.refl (d : DB) : Changes P A d d where
  users := .refl .refl _
  tenants := .refl .refl _
  members := .refl .refl _
  invitations := .refl .refl _
  refreshTokens := .refl .refl _
  verificationTokens := .refl .refl _
  resetTokens := .refl .refl _
  rolePermissions := .refl .refl _
  userRoles := .refl .refl _
  auditLogs := .refl .refl _
  schemas := .refl .refl _
  roles := rfl
  permissions := rfl

theorem Changes.trans {a b c : DB} (h1 : Changes P A a b) (h2 : Changes P A b c) :
    Changes P A a c where
  users := h1.users.trans .trans h2.users
  tenants := h1.tenants.trans .trans h2.tenants
  members := h1.members.trans .trans h2.members
  invitations := h1.invitations.trans .trans h2.invitations
  refreshTokens := h1.refreshTokens.trans .trans h2.refreshTokens
  verificationTokens := h1.verificationTokens.trans .trans h2.verificationTokens
  resetTokens := h1.resetTokens.trans .trans h2.resetTokens
  rolePermissions := h1.rolePermissions.trans .trans h2.rolePermissions
  userRoles := h1.userRoles.trans .trans h2.userRoles
  auditLogs := h1.auditLogs.trans .trans h2.auditLogs
  schemas := h1.schemas.trans .trans h2.schemas
  roles := h2.roles.trans h1.roles
  permissions := h2.permissions.trans h1.permissions

theorem Changes.mono (hA : ∀ r, A r → B r) {d d' : DB} (h : Changes P A d d') :
    Changes P B d d' where
  users := h.users.mono (.mono hA) (fun ⟨hv,payload,ha,he⟩ => ⟨hv,payload,hA _ ha,he⟩) (hA _)
  tenants := h.tenants.mono (.mono hA)
    (fun ⟨hact,name,slug,ha,he⟩ => ⟨hact,name,slug,hA _ ha,he⟩) id
  members := h.members.mono (.mono hA) (fun ⟨hact,ha⟩ => ⟨hact,ha.imp
    (fun ⟨name,slug,ha⟩ => ⟨name,slug,hA _ ha⟩) (fun ⟨t,token,ha⟩ => ⟨t,token,hA _ ha⟩)⟩) (hA _)
  invitations := h.invitations.mono (.mono hA)
    (fun ⟨hnone,email,ha,he⟩ => ⟨hnone,email,hA _ ha,he⟩) id
  refreshTokens := h.refreshTokens.mono (.mono hA) (fun ⟨hnone,ha⟩ => ⟨hnone,ha.imp
    (fun ⟨payload,ha⟩ => ⟨payload,hA _ ha⟩) (fun ⟨token,ha,hn⟩ => ⟨token,hA _ ha,hn⟩)⟩) (hA _)
  verificationTokens := h.verificationTokens.mono (.mono fun ⟨token,ha⟩ => ⟨token,hA _ ha⟩)
    (fun ⟨hnone,payload,ha⟩ => ⟨hnone,payload,hA _ ha⟩) (hA _)
  resetTokens := h.resetTokens.mono
    (.mono fun ⟨token,newPassword,ha⟩ => ⟨token,newPassword,hA _ ha⟩)
    (fun ⟨hnone,email,ha⟩ => ⟨hnone,email,hA _ ha⟩) (hA _)
  rolePermissions := h.rolePermissions.mono id (hA _) (hA _)
  userRoles := h.userRoles.mono id (hA _) (hA _)
  auditLogs := h.auditLogs.mono id (fun ⟨r,ha⟩ => ⟨r,hA _ ha⟩) id
  schemas := h.schemas.mono id (fun ⟨name,slug,ha⟩ => ⟨name,slug,hA _ ha⟩) id
  roles := h.roles
  permissions := h.permissions

end Laws

section Steps
variable {P : Platform} {A : Route → Prop} {d : DB}

theorem AuthRoute.MayWrite.changes {r : AuthRoute} {w : Write} (hw : r.MayWrite P w)
    (ha : A (.auth r)) : Changes P A d (w.effect d) := by
  cases w with
  | insertUser u =>
    cases r with
    | register payload =>
      exact { Changes.refl d with users := .append .refl ⟨hw.2,payload,ha,hw.1⟩ }
    | _ => exact hw.elim
  | updateUser id p now =>
    cases r with
    | verifyEmail token =>
      obtain ⟨hn,rfl⟩ := hw
      refine { Changes.refl d with users := .update .refl fun u hu => ?_ }
      exact ⟨rfl,rfl,rfl,.inl rfl,.inr ⟨rfl,token,ha,hu ▸ hn⟩,.inl rfl,.inl rfl,.inl rfl⟩
    | resetPassword token newPassword =>
      obtain ⟨hn,salt,hash,hh,rfl⟩ := hw
      refine { Changes.refl d with users := .update .refl fun u hu => ?_ }
      exact ⟨rfl,rfl,rfl,.inr ⟨token,newPassword,salt,ha,hu ▸ hn,hh⟩,.inl rfl,.inl rfl,.inl rfl,
        .inl rfl⟩
    | _ => exact hw.elim
  | insertRefreshToken x =>
    cases r with
    | login payload =>
      exact { Changes.refl d with refreshTokens := .append .refl ⟨hw,.inl ⟨payload,ha⟩⟩ }
    | refresh token =>
      exact { Changes.refl d with refreshTokens := .append .refl ⟨hw.1,.inr ⟨token,ha,hw.2⟩⟩ }
    | _ => exact hw.elim
  | revokeRefreshToken id now =>
    cases r with
    | logout token =>
      refine { Changes.refl d with refreshTokens := .update .refl fun x _ => ?_ }
      exact ⟨rfl,.inr ⟨rfl,token,.inl ha⟩⟩
    | refresh token =>
      refine { Changes.refl d with refreshTokens := .update .refl fun x _ => ?_ }
      exact ⟨rfl,.inr ⟨rfl,token,.inr ha⟩⟩
    | _ => exact hw.elim
  | insertVerificationToken x =>
    cases r with
    | register payload =>
      exact { Changes.refl d with verificationTokens := .append .refl ⟨hw,payload,ha⟩ }
    | _ => exact hw.elim
  | useVerificationToken id now =>
    cases r with
    | verifyEmail token =>
      refine { Changes.refl d with verificationTokens := .update .refl fun x _ => ?_ }
      exact ⟨rfl,.inr ⟨rfl,token,ha⟩⟩
    | _ => exact hw.elim
  | insertResetToken x =>
    cases r with
    | forgotPassword email =>
      exact { Changes.refl d with resetTokens := .append .refl ⟨hw,email,ha⟩ }
    | _ => exact hw.elim
  | useResetToken id now =>
    cases r with
    | resetPassword token newPassword =>
      refine { Changes.refl d with resetTokens := .update .refl fun x _ => ?_ }
      exact ⟨rfl,.inr ⟨rfl,token,newPassword,ha⟩⟩
    | _ => exact hw.elim
  | _ => cases r <;> exact hw.elim

theorem TenantRoute.Queues.asked {r : TenantRoute} {w : Write} (hw : r.Queues w)
    (hi : r.Inserts P w) (ha : A (.tenant r)) : Changes P A d (w.effect d) := by
  cases w with
  | insertTenant t =>
    cases r with
    | createTenant name slug =>
      exact { Changes.refl d with tenants := .append .refl ⟨hi.2.2,name,slug,ha,hi.1,hi.2.1⟩ }
    | _ => exact hw.elim
  | insertMember m =>
    cases r with
    | createTenant name slug =>
      exact { Changes.refl d with members := .append .refl ⟨hi,.inl ⟨name,slug,ha⟩⟩ }
    | acceptInvitation t token =>
      exact { Changes.refl d with members := .append .refl ⟨hi,.inr ⟨t,token,ha⟩⟩ }
    | _ => exact hw.elim
  | insertInvitation i =>
    cases r with
    | inviteMember t email roleId =>
      obtain ⟨rfl,he,rfl,hnone⟩ := hi
      exact { Changes.refl d with invitations := .append .refl ⟨hnone,email,ha,he⟩ }
    | _ => exact hw.elim
  | updateTenant id p now =>
    cases r with
    | updateTenant t name isActive =>
      obtain ⟨rfl,hname,hactive⟩ := hw
      refine { Changes.refl d with tenants := .update .refl fun x hx => ?_ }
      subst hx
      refine ⟨rfl,rfl,rfl,rfl,?_,?_⟩
      · cases hp : p.name with
        | none => exact .inl (by simp [TenantPatch.apply,hp])
        | some n =>
          obtain ⟨n',rfl,rfl⟩ := hname n hp
          exact .inr ⟨n',isActive,ha,by simp [TenantPatch.apply,hp]⟩
      · rcases hactive with hp | ⟨hp,rfl⟩
        · exact .inl (by simp [TenantPatch.apply,hp])
        · exact .inr ⟨by simp [TenantPatch.apply,hp],.inl ⟨name,ha⟩⟩
    | deleteTenant t =>
      obtain ⟨rfl,rfl⟩ := hw
      refine { Changes.refl d with tenants := .update .refl fun x hx => ?_ }
      exact ⟨rfl,rfl,rfl,rfl,.inl rfl,.inr ⟨rfl,.inr (hx ▸ ha)⟩⟩
    | _ => exact hw.elim
  | updateMember id p =>
    cases r with
    | updateMemberRole t u roleId =>
      obtain ⟨hactive,hrole⟩ := hw
      refine { Changes.refl d with members := .update .refl fun m _ => ?_ }
      refine ⟨rfl,rfl,rfl,rfl,?_,.inl (by simp [TenantMemberPatch.apply,hactive])⟩
      cases hp : p.roleId with
      | none => exact .inl (by simp [TenantMemberPatch.apply,hp])
      | some x =>
        have hx : x = roleId := hrole x hp
        exact .inr ⟨t,u,by simpa [TenantMemberPatch.apply,hp,hx] using ha⟩
    | removeMember t u =>
      cases hw
      refine { Changes.refl d with members := .update .refl fun m _ => ?_ }
      exact ⟨rfl,rfl,rfl,rfl,.inl rfl,.inr ⟨rfl,t,u,ha⟩⟩
    | _ => exact hw.elim
  | acceptInvitation id now =>
    cases r with
    | acceptInvitation t token =>
      refine { Changes.refl d with invitations := .update .refl fun i _ => ?_ }
      exact ⟨rfl,.inr ⟨rfl,t,token,ha⟩⟩
    | _ => exact hw.elim
  | insertAuditLog a => exact { Changes.refl d with auditLogs := .append (fun _ => rfl) ⟨r,ha⟩ }
  | createSchema name =>
    cases r with
    | createTenant name' slug =>
      refine { Changes.refl d with schemas := ?_ }
      simp only [Write.effect]
      split
      · exact .refl (fun _ => rfl) _
      · exact .append (fun _ => rfl) ⟨name',slug,ha⟩
    | _ => exact hw.elim
  | _ => cases r <;> exact hw.elim

theorem AdminRoute.MayWrite.changes {r : AdminRoute} {w : Write} (hw : r.MayWrite w)
    (ha : A (.admin r)) : Changes P A d (w.effect d) := by
  cases w with
  | updateUser id p now =>
    cases r with
    | updateUser userId payload =>
      obtain ⟨rfl,hpw,hver,hfirst,hlast,hactive⟩ := hw
      refine { Changes.refl d with users := .update .refl fun u hu => ?_ }
      subst hu
      have hcol : ∀ {α : Type} {c c' : Option (Option α)} {a : α} {f : α → α},
          (∀ x ∈ c, c' = some x) → (c.join.map f).getD a = a ∨
            ∃ x, c' = some (some x) ∧ (c.join.map f).getD a = f x := by
        intro α c c' a f h
        rcases c with _ | _ | x
        · exact .inl rfl
        · exact .inl rfl
        · exact .inr ⟨x,h _ rfl,rfl⟩
      refine ⟨rfl,rfl,rfl,.inl (by simp [UserPatch.apply,hpw]),
        .inl (by simp [UserPatch.apply,hver]),?_,?_,?_⟩
      · exact (hcol hfirst).imp_right fun h => ⟨payload,ha,h⟩
      · exact (hcol hlast).imp_right fun h => ⟨payload,ha,h⟩
      · have hcol' := hcol (a := u.isActive) (f := id) hactive
        rw [Option.map_id_apply] at hcol'
        exact hcol'.imp_right fun ⟨x,hx,he⟩ => ⟨payload,ha,hx.trans (congrArg (some ∘ some) he.symm)⟩
    | _ => exact hw.elim
  | deleteUser id =>
    cases r with
    | deleteUser userId =>
      cases hw
      exact { Changes.refl d with
        users := .delete .refl fun _ h => h ▸ ha
        members := .delete .refl fun _ h => h ▸ ha
        refreshTokens := .delete .refl fun _ h => h ▸ ha
        verificationTokens := .delete .refl fun _ h => h ▸ ha
        resetTokens := .delete .refl fun _ h => h ▸ ha
        userRoles := .delete (fun _ => rfl) fun _ h => h ▸ ha }
    | _ => exact hw.elim
  | insertRolePermission x =>
    cases r with
    | assignPermissionToRole roleId permissionId =>
      cases hw
      exact { Changes.refl d with rolePermissions := .append (fun _ => rfl) ha }
    | _ => exact hw.elim
  | deleteRolePermission x =>
    cases r with
    | removePermissionFromRole roleId permissionId =>
      cases hw
      refine { Changes.refl d with rolePermissions := .delete (fun _ => rfl) fun x hx => ?_ }
      cases hx
      exact ha
    | _ => exact hw.elim
  | insertUserRole x =>
    cases r with
    | assignRoleToUser userId roleId =>
      cases hw
      exact { Changes.refl d with userRoles := .append (fun _ => rfl) ha }
    | _ => exact hw.elim
  | _ => cases r <;> exact hw.elim

theorem Route.MayWrite.changes {r : Route} {w : Write} (hw : r.MayWrite P w) (ha : A r) :
    Changes P A d (w.effect d) := by
  cases r with
  | auth r => exact AuthRoute.MayWrite.changes hw ha
  | me => exact hw.elim
  | tenant r => exact hw.1.asked hw.2 ha
  | admin r => exact AdminRoute.MayWrite.changes hw ha

end Steps

section Runs
variable {P : Platform} {o : Readings}
  {s₀ s : System DB Write Fault Reading Exc Mail Body Request}

def Asked (A : Request → Prop) (r : Route) : Prop := ∃ q, A q ∧ q.route = r

theorem keeps_changes (A : Request → Prop) :
    Keeps Write.apply (fun w => ∃ q, A q ∧ q.route.MayWrite P w) (Changes P (Asked A)) where
  refl := .refl
  trans := .trans
  write := by
    rintro w d d' ⟨q,hq,hw⟩ ha
    exact (Write.apply_eq_ok.mp ha).2 ▸ hw.changes ⟨q,hq,rfl⟩

end Runs

section Owner
open Seed

end Owner

end TenantAuth
