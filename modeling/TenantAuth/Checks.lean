import TenantAuth.Transact.Guarding
import TenantAuth.Concurrency
import TenantAuth.Seed
set_option autoImplicit false

namespace TenantAuth
open Transact

section Tokens
variable (P : Platform) (since : Nat)

/-- The token decodes to the user at an instant from `since` on. -/
def DecodesSince (token : String) (k : TokenType) (u : UUID) : Prop :=
  ∃ t i, since ≤ t ∧ decodeAt P token (some k) t = .ok i ∧ i.subject = u

/-- The header carries an access token of the user. -/
def SpeaksFor (authorization : Option String) (u : UUID) : Prop :=
  ∃ credentials, P.httpBearer authorization = some credentials ∧ credentials.isBearer = true ∧
    DecodesSince P since credentials.credentials .access u

end Tokens

def TenantRoute.administers : TenantRoute → Option UUID
  | .updateTenant t _ _ | .deleteTenant t | .inviteMember t _ _ | .updateMemberRole t _ _
  | .removeMember t _ => some t
  | .createTenant _ _ | .listMyTenants | .getTenant _ | .listMembers _ | .acceptInvitation _ _ => none

def TenantRoute.shows : TenantRoute → Option UUID
  | .getTenant t | .listMembers t => some t
  | _ => none

def TenantRoute.ofActive : TenantRoute → Option UUID
  | .getTenant t | .updateTenant t _ _ | .deleteTenant t => some t
  | _ => none

def TenantRoute.target : TenantRoute → Option (UUID × UUID)
  | .updateMemberRole t u _ | .removeMember t u => some (t,u)
  | _ => none

def TenantRoute.grants : TenantRoute → Option UUID
  | .inviteMember _ _ roleId | .updateMemberRole _ _ roleId => some roleId
  | _ => none

def AdminRoute.names : AdminRoute → Option UUID
  | .getUser u | .updateUser u _ | .deleteUser u => some u
  | _ => none

section Requests
variable (P : Platform) (since : Nat) (q : Request)

/-- The conditions that a request checks before it does anything, on what a query finds and, where a
check compares it with another row, on what another query finds. -/
inductive Request.Asks : (DB → DB → Prop) → Prop
  | user (hq : ∀ r, q.route ≠ .auth r) :
    Asks fun d _ => ∃ a ∈ d.users, SpeaksFor P since q.authorization a.id ∧ a.isActive = true
  | permission {r : AdminRoute} (hq : q.route = .admin r) :
    Asks fun d _ => ∃ u, SpeaksFor P since q.authorization u ∧ r.permission ∈ permissionNames d u
  | named {r : AdminRoute} {u : UUID} (hq : q.route = .admin r) (hu : r.names = some u) :
    Asks fun d _ => ∃ a ∈ d.users, a.id = u
  | newPermission {roleId permissionId : UUID}
      (hq : q.route = .admin (.assignPermissionToRole roleId permissionId)) :
    Asks fun d _ => ⟨roleId,permissionId⟩ ∉ d.rolePermissions
  | newRole {userId roleId : UUID} (hq : q.route = .admin (.assignRoleToUser userId roleId)) :
    Asks fun d _ => ⟨userId,roleId⟩ ∉ d.userRoles
  | admin {r : TenantRoute} {t : UUID} (hq : q.route = .tenant r) (ht : r.administers = some t) :
    Asks fun d _ => ∃ u, SpeaksFor P since q.authorization u ∧ IsTenantAdmin d t u
  | member {r : TenantRoute} {t : UUID} (hq : q.route = .tenant r) (ht : r.shows = some t) :
    Asks fun d _ => ∃ u, SpeaksFor P since q.authorization u ∧ (membershipOf d t u).isSome
  | active {r : TenantRoute} {t : UUID} (hq : q.route = .tenant r) (ht : r.ofActive = some t) :
    Asks fun d _ => (activeTenant d t).isSome
  | target {r : TenantRoute} {t u : UUID} (hq : q.route = .tenant r) (ht : r.target = some (t,u)) :
    Asks fun d _ => (membershipOf d t u).isSome
  | role {r : TenantRoute} {roleId : UUID} (hq : q.route = .tenant r)
      (hr : r.grants = some roleId) : Asks fun d _ => ∃ role ∈ d.roles, role.id = roleId
  | seeded {name slug : String} (hq : q.route = .tenant (.createTenant name slug)) :
    Asks fun d _ => ∃ role ∈ d.roles, role.name = "tenant_admin"
  | invited {t : UUID} {token : String} (hq : q.route = .tenant (.acceptInvitation t token)) :
    Asks fun d d' => ∃ i ∈ d.invitations, i.tokenHash = P.sha256 token ∧ i.acceptedAt = none ∧
      since ≤ i.expiresAt ∧ ∃ a ∈ d'.users, SpeaksFor P since q.authorization a.id ∧
        P.lower a.email = P.lower i.email
  | newcomer {t : UUID} {token : String} (hq : q.route = .tenant (.acceptInvitation t token)) :
    Asks fun d d' => ∃ i ∈ d.invitations, i.tokenHash = P.sha256 token ∧ i.acceptedAt = none ∧
      ∃ u, SpeaksFor P since q.authorization u ∧ membershipOf d' i.tenantId u = none
  | free {payload : RegisterRequest} (hq : q.route = .auth (.register payload)) :
    Asks fun d _ => ∀ u ∈ d.users, u.email ≠ P.lower payload.email
  | password {payload : LoginRequest} (hq : q.route = .auth (.login payload)) :
    Asks fun d d' => ∃ u ∈ d.users, u.email = P.lower payload.email ∧
      verifyPassword P payload.password u.passwordHash = true ∧ u.isActive = true ∧
      ∃ x, AuthRouter.loginTenantId P q.xTenantId = .ok x ∧ ∀ t ∈ x, (membershipOf d' t u.id).isSome
  | logout {token : String} (hq : q.route = .auth (.logout token)) :
    Asks fun d _ => ∃ x ∈ d.refreshTokens, x.tokenHash = hashToken P token ∧
      DecodesSince P since token .refresh x.userId ∧ x.revokedAt = none
  | refresh {token : String} (hq : q.route = .auth (.refresh token)) :
    Asks fun d d' => ∃ x ∈ d.refreshTokens, x.tokenHash = hashToken P token ∧
      DecodesSince P since token .refresh x.userId ∧ x.revokedAt = none ∧ since < x.expiresAt ∧
      ∀ t ∈ x.tenantId, (membershipOf d' t x.userId).isSome
  | verification {token : String} (hq : q.route = .auth (.verifyEmail token)) :
    Asks fun d d' => ∃ x ∈ d.verificationTokens, x.tokenHash = hashToken P token ∧
      DecodesSince P since token .verify x.userId ∧ x.usedAt = none ∧ since < x.expiresAt ∧
      ∃ u ∈ d'.users, u.id = x.userId ∧ u.isVerified = false
  | reset {token newPassword : String} (hq : q.route = .auth (.resetPassword token newPassword)) :
    Asks fun d d' => ∃ x ∈ d.resetTokens, x.tokenHash = hashToken P token ∧
      DecodesSince P since token .reset x.userId ∧ x.usedAt = none ∧ since < x.expiresAt ∧
      ∃ u ∈ d'.users, u.id = x.userId

end Requests

section Steps
variable {α β : Type} {P : Platform} {since : Nat} {J : DB → Prop} {ws : List Write}

abbrev Since (since : Nat) (x : Reading) : Prop := since ≤ x.now

@[simp] theorem passes_scalar {table : DB → List α} {p : α → Bool}
    {Q : Option α → List Write → Prop} :
    (scalar table p).Passes Write.apply (Since since) J Q ws ↔
      ∀ d v, J d → flushAll Write.apply ws d = .ok v → Q ((table v).find? p) ws := Iff.rfl

@[simp] theorem passes_appError {e : AppError} {Q : α → List Write → Prop} :
    (e.raise : App α).Passes Write.apply (Since since) J Q ws ↔ True := Iff.rfl

@[simp] theorem passes_appErrorIf {e : AppError} {p : Prop} [Decidable p]
    {Q : Unit → List Write → Prop} :
    (e.raiseIf p).Passes Write.apply (Since since) J Q ws ↔ (¬ p → Q () ws) := passes_raiseIf

@[simp] theorem passes_now {Q : Nat → List Write → Prop} :
    now.Passes Write.apply (Since since) J Q ws ↔
      ∀ x : Reading, since ≤ x.now → Q x.now ws := Iff.rfl

@[simp] theorem passes_decodeToken {token : String} {k : Option TokenType}
    {Q : TokenPayload → List Write → Prop} :
    (decodeToken P token k).Passes Write.apply (Since since) J Q ws ↔
      ∀ (x : Reading) (i : TokenPayload), since ≤ x.now → decodeAt P token k x.now = .ok i →
        Q i ws := by
  unfold decodeToken
  simp only [passes_bind,passes_now]
  refine forall_congr' fun x => ?_
  cases decodeAt P token k x.now with
  | error e => simp
  | ok i => simp

/-- A first look: what it finds stands in the table. -/
theorem barred_look {table : DB → List α} {p : α → Bool} {f : Option α → App β}
    (hnone : (f none).Barred Write.apply (Since since) J [])
    (hsome : ∀ d r, J d → r ∈ table d → p r = true →
      (f (some r)).Barred Write.apply (Since since) J []) :
    (scalar table p >>= f).Barred Write.apply (Since since) J [] := by
  refine passes_bind.mpr (passes_scalar.mpr fun d v hd hf => ?_)
  cases hf
  cases hr : (table d).find? p with
  | none => exact hnone
  | some r => exact hsome d r hd (List.mem_of_find?_eq_some hr) (List.find?_some hr)

theorem barred_found {table : DB → List α} {p : α → Bool} {f : Option α → App β}
    (hnone : (f none).Barred Write.apply (Since since) J [])
    (hno : ∀ d, J d → ∀ r ∈ table d, p r = false) :
    (scalar table p >>= f).Barred Write.apply (Since since) J [] :=
  barred_look hnone fun d r hd hr hp => absurd (hno d hd r hr) (by simp [hp])

theorem barred_appError {e : AppError} :
    (e.raise : App α).Barred Write.apply (Since since) J ws := trivial

theorem barred_appErrorIf {e : AppError} {p : Prop} [Decidable p] {f : Unit → App β}
    (h : ¬ p → (f ()).Barred Write.apply (Since since) J ws) :
    (e.raiseIf p >>= f).Barred Write.apply (Since since) J ws :=
  passes_bind.mpr (passes_appErrorIf.mpr h)

theorem barred_now {f : Nat → App β}
    (h : ∀ t, since ≤ t → (f t).Barred Write.apply (Since since) J ws) :
    (now >>= f).Barred Write.apply (Since since) J ws :=
  passes_bind.mpr (passes_now.mpr fun x hx => h x.now hx)

theorem barred_decoded {token : String} {k : TokenType} {f : TokenPayload → App β}
    (h : ∀ i, DecodesSince P since token k i.subject →
      (f i).Barred Write.apply (Since since) J []) :
    (decodeToken P token (some k) >>= f).Barred Write.apply (Since since) J [] := by
  simp only [Prog.Barred,passes_bind,passes_decodeToken]
  exact fun x i hx hi => h i ⟨x.now,i,hx,hi,rfl⟩

theorem passes_getCurrentUser {authorization : Option String} {Q : User → List Write → Prop}
    (h : ∀ d a, J d → a ∈ d.users → a.isActive = true → SpeaksFor P since authorization a.id →
      Q a []) :
    (getCurrentUser P authorization).Passes Write.apply (Since since) J Q [] := by
  unfold getCurrentUser
  cases hc : P.httpBearer authorization with
  | none => trivial
  | some credentials =>
    simp only [passes_bind,passes_appErrorIf,passes_decodeToken,passes_scalar]
    intro hscheme x i hx hi d v hd hf
    cases hf
    cases ha : d.users.find? _ with
    | none => trivial
    | some a =>
      have hp := List.find?_some ha
      simp only [decide_eq_true_eq] at hp
      exact h d a hd (List.mem_of_find?_eq_some ha) hp.2
        ⟨credentials,hc,by simpa using hscheme,x.now,i,hx,hi,hp.1.symm⟩

theorem passes_requireTenantAdmin {t : UUID} {user : User} {Q : TenantMember → List Write → Prop}
    (h : ∀ d d' m role, J d → J d' → membershipOf d t user.id = some m →
      roleOf d' m.roleId = some role → (role.name = "tenant_admin" ∨ role.name = "super_admin") →
      Q m []) :
    (requireTenantAdmin t user).Passes Write.apply (Since since) J Q [] := by
  unfold requireTenantAdmin TenantService.getMembership refreshRow
  simp only [passes_bind,passes_scalar]
  intro d v hd hf
  cases hf
  cases hm : d.members.find? _ with
  | none => trivial
  | some m =>
    simp only [passes_bind,passes_scalar]
    intro d' v' hd' hf'
    cases hf'
    cases hr : d'.roles.find? _ with
    | none => trivial
    | some role =>
      simp only [passes_pure,passes_appErrorIf]
      intro hname
      exact h d d' m role hd hd' hm hr (by tauto)

theorem barred_getMembership {t u : UUID} {f : Option TenantMember → App β}
    (hnone : (f none).Barred Write.apply (Since since) J [])
    (h : ∀ d, J d → ¬ (membershipOf d t u).isSome) :
    (TenantService.getMembership t u >>= f).Barred Write.apply (Since since) J [] :=
  barred_found hnone fun d hd m hm => Bool.eq_false_iff.mpr <|
    List.find?_eq_none.mp (Option.not_isSome_iff_eq_none.mp (h d hd)) m hm

theorem barred_getTenant {t : UUID} {f : Option Tenant → App β}
    (hnone : (f none).Barred Write.apply (Since since) J [])
    (h : ∀ d, J d → ¬ (activeTenant d t).isSome) :
    (TenantService.getTenant t >>= f).Barred Write.apply (Since since) J [] :=
  barred_found hnone fun d hd r hr => Bool.eq_false_iff.mpr <|
    List.find?_eq_none.mp (Option.not_isSome_iff_eq_none.mp (h d hd)) r hr

theorem barred_scope {u : UUID} {x : Option UUID} {f : Unit → App β}
    (h : ∀ d, J d → ¬ ∀ t ∈ x, (membershipOf d t u).isSome)
    (hJ : x = none → (f ()).Barred Write.apply (Since since) J []) :
    (AuthService.requireScope u x >>= f).Barred Write.apply (Since since) J [] := by
  cases x with
  | none => exact hJ rfl
  | some t =>
    refine Prog.Barred.bind (barred_found ?_ fun d hd m hm => ?_) _
    · exact passes_appErrorIf.mpr fun hno => hno rfl
    · refine Bool.eq_false_iff.mpr fun hp => h d hd fun t' ht' => ?_
      cases ht'
      exact List.find?_isSome.mpr ⟨m,hm,hp⟩

theorem barred_administered {t : UUID} {user : User} {f : TenantMember → App β}
    (h : ∀ m, (f m).Barred Write.apply (Since since) J []) :
    (requireTenantAdmin t user >>= f).Barred Write.apply (Since since) J [] :=
  (passes_requireTenantAdmin (Q := fun _ ws => ws = []) fun _ _ _ _ _ _ _ _ _ => rfl).barred
    fun m _ hws => hws ▸ h m

theorem barred_authenticated {authorization : Option String} {f : User → App β}
    (h : ∀ d a, J d → a ∈ d.users → a.isActive = true → SpeaksFor P since authorization a.id →
      (f a).Barred Write.apply (Since since) J []) :
    (getCurrentUser P authorization >>= f).Barred Write.apply (Since since) J [] :=
  passes_bind.mpr (passes_getCurrentUser h)

theorem barred_permitted {name : String} {authorization : Option String} {f : User → App β}
    (h : ∀ a, (f a).Barred Write.apply (Since since) J []) :
    (requirePermission P name authorization >>= f).Barred Write.apply (Since since) J [] := by
  have hpass : (requirePermission P name authorization).Passes Write.apply (Since since) J
      (fun _ ws => ws = []) [] := by
    refine passes_bind.mpr (passes_getCurrentUser fun _ a _ _ _ _ => ?_)
    simp only [passes_bind,passes_select,passes_appErrorIf,passes_pure]
    intros
    trivial
  exact hpass.barred fun a _ hws => hws ▸ h a

end Steps

section Routes
variable {P : Platform} {since : Nat} {q : Request} {J : DB → Prop} {G : DB → DB → Prop}

theorem barred_user (hq : ∀ r, q.route ≠ .auth r)
    (h : ∀ d, J d → ¬ ∃ a ∈ d.users, SpeaksFor P since q.authorization a.id ∧ a.isActive = true) :
    (q.endpoint P).Barred Write.apply (Since since) J [] := by
  have hcur : ∀ d a, J d → a ∈ d.users → a.isActive = true →
      SpeaksFor P since q.authorization a.id → False :=
    fun d a hd ha hactive hs => h d hd ⟨a,ha,hs,hactive⟩
  unfold Request.endpoint
  split
  · rename_i r hr
    exact absurd hr (hq r)
  · exact barred_authenticated fun d a hd ha hactive hs => (hcur d a hd ha hactive hs).elim
  · exact barred_authenticated fun d a hd ha hactive hs => (hcur d a hd ha hactive hs).elim
  · refine Prog.Barred.bind ?_ _
    exact barred_authenticated fun d a hd ha hactive hs => (hcur d a hd ha hactive hs).elim

theorem barred_permission {r : AdminRoute} (hq : q.route = .admin r)
    (h : ∀ d, J d → ¬ ∃ u, SpeaksFor P since q.authorization u ∧
      r.permission ∈ permissionNames d u) :
    (q.endpoint P).Barred Write.apply (Since since) J [] := by
  simp only [Request.endpoint,hq]
  refine Prog.Barred.bind (barred_authenticated fun _ a _ _ _ hs => ?_) _
  simp only [Prog.Barred,passes_bind,passes_select,passes_appErrorIf,passes_pure]
  intro d v hd hf hfound
  cases hf
  refine h d hd ⟨a.id,hs,?_⟩
  obtain ⟨p,hp⟩ := Option.ne_none_iff_exists'.mp hfound
  have hname := List.find?_some hp
  exact List.mem_map.mpr ⟨p,List.mem_of_find?_eq_some hp,by simpa using hname⟩

theorem barred_named {r : AdminRoute} {u : UUID} (hq : q.route = .admin r)
    (hu : r.names = some u) (h : ∀ d, J d → ¬ ∃ a ∈ d.users, a.id = u) :
    (q.endpoint P).Barred Write.apply (Since since) J [] := by
  simp only [Request.endpoint,hq]
  refine barred_permitted fun _ => ?_
  have hno : ∀ d, J d → ∀ a ∈ d.users, decide (a.id = u) = false :=
    fun d hd a ha => decide_eq_false fun he => h d hd ⟨a,ha,he⟩
  cases r with
  | getUser _ | updateUser _ _ | deleteUser _ =>
    cases hu
    exact barred_found barred_appError hno
  | _ => cases hu

theorem barred_newPermission {roleId permissionId : UUID}
    (hq : q.route = .admin (.assignPermissionToRole roleId permissionId))
    (h : ∀ d, J d → ¬ ⟨roleId,permissionId⟩ ∉ d.rolePermissions) :
    (q.endpoint P).Barred Write.apply (Since since) J [] := by
  simp only [Request.endpoint,hq]
  refine barred_permitted fun _ => passes_bind.mpr (passes_scalar.mpr fun d v hd hf => ?_)
  cases hf
  refine barred_appErrorIf fun hno => (hno ?_).elim
  exact List.find?_isSome.mpr ⟨_,not_not.mp (h d hd),by simp⟩

theorem barred_newRole {userId roleId : UUID}
    (hq : q.route = .admin (.assignRoleToUser userId roleId))
    (h : ∀ d, J d → ¬ ⟨userId,roleId⟩ ∉ d.userRoles) :
    (q.endpoint P).Barred Write.apply (Since since) J [] := by
  simp only [Request.endpoint,hq]
  refine barred_permitted fun _ => passes_bind.mpr (passes_scalar.mpr fun d v hd hf => ?_)
  cases hf
  refine barred_appErrorIf fun hno => (hno ?_).elim
  exact List.find?_isSome.mpr ⟨_,not_not.mp (h d hd),by simp⟩

theorem barred_admin {r : TenantRoute} {t : UUID} (hq : q.route = .tenant r)
    (ht : r.administers = some t) (hroles : ∀ d d', J d → J d' → d.roles = d'.roles)
    (h : ∀ d, J d → ¬ ∃ u, SpeaksFor P since q.authorization u ∧ IsTenantAdmin d t u) :
    (q.endpoint P).Barred Write.apply (Since since) J [] := by
  simp only [Request.endpoint,hq]
  refine barred_authenticated fun _ a _ _ _ hs => ?_
  have hadmin : (requireTenantAdmin t a).Barred Write.apply (Since since) J [] := by
    refine passes_requireTenantAdmin fun d d' m role hd hd' hm hrole hname => ?_
    have hp := List.find?_some hm
    have hid := List.find?_some hrole
    simp only [decide_eq_true_eq] at hp hid
    refine h d hd ⟨a.id,hs,m,List.mem_of_find?_eq_some hm,hp.1,hp.2.1,hp.2.2,role,?_,hid,hname⟩
    rw [hroles d d' hd hd']
    exact List.mem_of_find?_eq_some hrole
  cases r with
  | updateTenant _ _ _ | deleteTenant _ | inviteMember _ _ _ | updateMemberRole _ _ _
  | removeMember _ _ =>
    cases ht
    exact hadmin.bind _
  | _ => cases ht

theorem barred_member {r : TenantRoute} {t : UUID} (hq : q.route = .tenant r)
    (ht : r.shows = some t)
    (h : ∀ d, J d → ¬ ∃ u, SpeaksFor P since q.authorization u ∧ (membershipOf d t u).isSome) :
    (q.endpoint P).Barred Write.apply (Since since) J [] := by
  simp only [Request.endpoint,hq]
  refine barred_authenticated fun _ a _ _ _ hs => ?_
  have hno : ∀ d, J d → ¬ (membershipOf d t a.id).isSome := fun d hd hm => h d hd ⟨a.id,hs,hm⟩
  cases r with
  | getTenant _ | listMembers _ =>
    cases ht
    exact barred_getMembership barred_appError hno
  | _ => cases ht

theorem barred_active {r : TenantRoute} {t : UUID} (hq : q.route = .tenant r)
    (ht : r.ofActive = some t) (h : ∀ d, J d → ¬ (activeTenant d t).isSome) :
    (q.endpoint P).Barred Write.apply (Since since) J [] := by
  simp only [Request.endpoint,hq]
  refine barred_authenticated fun _ a _ _ _ _ => ?_
  cases r with
  | getTenant _ =>
    cases ht
    exact barred_look barred_appError fun _ _ _ _ _ => barred_getTenant barred_appError h
  | updateTenant _ _ _ | deleteTenant _ =>
    cases ht
    exact barred_administered fun _ => Prog.Barred.bind (barred_getTenant barred_appError h) _
  | _ => cases ht

theorem barred_target {r : TenantRoute} {t u : UUID} (hq : q.route = .tenant r)
    (ht : r.target = some (t,u)) (h : ∀ d, J d → ¬ (membershipOf d t u).isSome) :
    (q.endpoint P).Barred Write.apply (Since since) J [] := by
  simp only [Request.endpoint,hq]
  refine barred_authenticated fun _ a _ _ _ _ => ?_
  cases r with
  | updateMemberRole _ _ _ | removeMember _ _ =>
    cases ht
    exact barred_administered fun _ => Prog.Barred.bind (barred_getMembership barred_appError h) _
  | _ => cases ht

theorem barred_role {r : TenantRoute} {roleId : UUID} (hq : q.route = .tenant r)
    (hr : r.grants = some roleId) (h : ∀ d, J d → ¬ ∃ role ∈ d.roles, role.id = roleId) :
    (q.endpoint P).Barred Write.apply (Since since) J [] := by
  simp only [Request.endpoint,hq]
  refine barred_authenticated fun _ a _ _ _ _ => ?_
  have hno : ∀ d, J d → ∀ role ∈ d.roles, decide (role.id = roleId) = false :=
    fun d hd role hrole => decide_eq_false fun he => h d hd ⟨role,hrole,he⟩
  cases r with
  | inviteMember _ _ _ =>
    cases hr
    exact barred_administered fun _ => Prog.Barred.bind (barred_found barred_appError hno) _
  | updateMemberRole _ _ _ =>
    cases hr
    refine barred_administered fun _ => Prog.Barred.bind ?_ _
    exact barred_look barred_appError fun _ _ _ _ _ => barred_found barred_appError hno
  | _ => cases hr

/-- The row of the tenant is sent before the role is looked for, and not committed. -/
theorem barred_seeded {name slug : String} (hq : q.route = .tenant (.createTenant name slug))
    (h : ∀ d, J d → ¬ ∃ role ∈ d.roles, role.name = "tenant_admin") :
    (q.endpoint P).Barred Write.apply (Since since) J [] := by
  simp only [Request.endpoint,hq]
  refine barred_authenticated fun _ a _ _ _ _ => Prog.Barred.bind (Prog.Barred.bind ?_ _) _
  unfold TenantService.addTenant
  simp only [Prog.Barred,uuid4,passes_bind,passes_reading,passes_now,passes_add,passes_flush,
    passes_scalar]
  intro _ _ _ _ d v hd hf
  obtain ⟨-,rfl⟩ := flushAll_single.mp hf
  have hnone : d.roles.find? (fun role => decide (role.name = "tenant_admin")) = none :=
    List.find?_eq_none.mpr fun role hrole hp => h d hd ⟨role,hrole,of_decide_eq_true hp⟩
  simp only [Write.effect,hnone]
  trivial

theorem barred_invited {t : UUID} {token : String}
    (hq : q.route = .tenant (.acceptInvitation t token))
    (h : ∀ d d', J d → J d' → ¬ ∃ i ∈ d.invitations, i.tokenHash = P.sha256 token ∧
      i.acceptedAt = none ∧ since ≤ i.expiresAt ∧ ∃ a ∈ d'.users,
        SpeaksFor P since q.authorization a.id ∧ P.lower a.email = P.lower i.email) :
    (q.endpoint P).Barred Write.apply (Since since) J [] := by
  simp only [Request.endpoint,hq]
  refine barred_authenticated fun _ a _ _ _ hs => Prog.Barred.bind ?_ _
  refine barred_look barred_appError fun d i hd hi hp => barred_now fun now hnow => ?_
  simp only [decide_eq_true_eq] at hp
  refine barred_appErrorIf fun hlive => passes_bind.mpr (passes_scalar.mpr fun d' v hd' hf => ?_)
  cases hf
  refine barred_appErrorIf fun haddr => ?_
  obtain ⟨u,hu,he⟩ := (Option.any_eq_true _ _).mp (not_not.mp haddr)
  have hid := List.find?_some hu
  simp only [decide_eq_true_eq] at hid he
  refine (h d d' hd hd' ⟨i,hi,hp.1,hp.2,hnow.trans (Nat.not_lt.mp hlive),u,
    List.mem_of_find?_eq_some hu,hid ▸ hs,he⟩).elim

theorem barred_newcomer {t : UUID} {token : String}
    (hq : q.route = .tenant (.acceptInvitation t token))
    (h : ∀ d d', J d → J d' → ¬ ∃ i ∈ d.invitations, i.tokenHash = P.sha256 token ∧
      i.acceptedAt = none ∧ ∃ u, SpeaksFor P since q.authorization u ∧
        membershipOf d' i.tenantId u = none) :
    (q.endpoint P).Barred Write.apply (Since since) J [] := by
  simp only [Request.endpoint,hq]
  refine barred_authenticated fun _ a _ _ _ hs => Prog.Barred.bind ?_ _
  refine barred_look barred_appError fun d i hd hi hp => barred_now fun now hnow => ?_
  simp only [decide_eq_true_eq] at hp
  refine barred_appErrorIf fun _ => passes_bind.mpr (passes_scalar.mpr fun _ _ _ hf => ?_)
  cases hf
  refine barred_appErrorIf fun _ => barred_now fun _ _ => ?_
  -- The query for the membership sends the mark on the invitation first.
  refine passes_bind.mpr fun d' v hd' hf => ?_
  obtain ⟨-,rfl⟩ := flushAll_single.mp hf
  refine barred_appErrorIf fun hno => ?_
  refine (h d d' hd hd' ⟨i,hi,hp.1,hp.2,a.id,hs,?_⟩).elim
  exact Option.not_isSome_iff_eq_none.mp hno

theorem barred_free {payload : RegisterRequest} (hq : q.route = .auth (.register payload))
    (h : ∀ d, J d → ¬ ∀ u ∈ d.users, u.email ≠ P.lower payload.email) :
    (q.endpoint P).Barred Write.apply (Since since) J [] := by
  simp only [Request.endpoint,hq]
  refine Prog.Barred.bind (passes_bind.mpr (passes_scalar.mpr fun d v hd hf => ?_)) _
  cases hf
  refine barred_appErrorIf fun hfree => (h d hd fun u hu he => hfree ?_).elim
  exact List.find?_isSome.mpr ⟨u,hu,by simpa using he⟩

theorem barred_password {payload : LoginRequest} (hq : q.route = .auth (.login payload))
    (h : ∀ d d', J d → J d' → ¬ ∃ u ∈ d.users, u.email = P.lower payload.email ∧
      verifyPassword P payload.password u.passwordHash = true ∧ u.isActive = true ∧
      ∃ x, AuthRouter.loginTenantId P q.xTenantId = .ok x ∧
        ∀ t ∈ x, (membershipOf d' t u.id).isSome) :
    (q.endpoint P).Barred Write.apply (Since since) J [] := by
  simp only [Request.endpoint,hq,AuthRoute.endpoint,AuthRouter.login]
  cases hx : AuthRouter.loginTenantId P q.xTenantId with
  | error e => exact barred_appError
  | ok x =>
    refine Prog.Barred.bind (barred_look barred_appError fun d u hd hu hemail => ?_) _
    simp only [decide_eq_true_eq] at hemail
    refine barred_appErrorIf fun hpw => barred_appErrorIf fun hactive => ?_
    have hno : ∀ d', J d' → ¬ ∀ t ∈ x, (membershipOf d' t u.id).isSome := fun d' hd' hscope =>
      h d d' hd hd' ⟨u,hu,hemail,by simpa using hpw,by simpa using hactive,x,hx,hscope⟩
    refine barred_scope hno fun hnone => (hno d hd ?_).elim
    simp [hnone]

theorem barred_logout {token : String} (hq : q.route = .auth (.logout token))
    (h : ∀ d, J d → ¬ ∃ x ∈ d.refreshTokens, x.tokenHash = hashToken P token ∧
      DecodesSince P since token .refresh x.userId ∧ x.revokedAt = none) :
    (q.endpoint P).Barred Write.apply (Since since) J [] := by
  simp only [Request.endpoint,hq]
  refine Prog.Barred.bind (barred_decoded fun i hi => ?_) _
  exact barred_found barred_appError fun d hd x hx =>
    decide_eq_false fun hp => h d hd ⟨x,hx,hp.1,hp.2.1 ▸ hi,hp.2.2⟩

theorem barred_refresh {token : String} (hq : q.route = .auth (.refresh token))
    (h : ∀ d d', J d → J d' → ¬ ∃ x ∈ d.refreshTokens, x.tokenHash = hashToken P token ∧
      DecodesSince P since token .refresh x.userId ∧ x.revokedAt = none ∧ since < x.expiresAt ∧
      ∀ t ∈ x.tenantId, (membershipOf d' t x.userId).isSome) :
    (q.endpoint P).Barred Write.apply (Since since) J [] := by
  simp only [Request.endpoint,hq]
  refine Prog.Barred.bind (barred_decoded fun i hi => ?_) _
  refine barred_look barred_appError fun d x hd hx hp => barred_now fun now hnow => ?_
  simp only [decide_eq_true_eq] at hp
  refine barred_appErrorIf fun hlive => ?_
  have hno : ∀ d', J d' → ¬ ∀ t ∈ x.tenantId, (membershipOf d' t i.subject).isSome := by
    intro d' hd' hscope
    exact h d d' hd hd' ⟨x,hx,hp.1,hp.2.1 ▸ hi,hp.2.2,
      Nat.lt_of_le_of_lt hnow (Nat.not_le.mp hlive),hp.2.1 ▸ hscope⟩
  refine barred_scope hno fun hnone => (hno d hd ?_).elim
  simp [hnone]

theorem barred_verification {token : String} (hq : q.route = .auth (.verifyEmail token))
    (h : ∀ d d', J d → J d' → ¬ ∃ x ∈ d.verificationTokens, x.tokenHash = hashToken P token ∧
      DecodesSince P since token .verify x.userId ∧ x.usedAt = none ∧ since < x.expiresAt ∧
      ∃ u ∈ d'.users, u.id = x.userId ∧ u.isVerified = false) :
    (q.endpoint P).Barred Write.apply (Since since) J [] := by
  simp only [Request.endpoint,hq]
  refine Prog.Barred.bind (barred_decoded fun i hi => ?_) _
  refine barred_look barred_appError fun d x hd hx hp => barred_now fun now hnow => ?_
  simp only [decide_eq_true_eq] at hp
  refine barred_appErrorIf fun hlive => barred_look barred_appError fun d' u hd' hu hid => ?_
  simp only [decide_eq_true_eq] at hid
  refine barred_appErrorIf fun hnew => (h d d' hd hd' ⟨x,hx,hp.1,hp.2.1 ▸ hi,hp.2.2,
    Nat.lt_of_le_of_lt hnow (Nat.not_le.mp hlive),u,hu,hid.trans hp.2.1.symm,?_⟩).elim
  simpa using hnew

theorem barred_reset {token newPassword : String}
    (hq : q.route = .auth (.resetPassword token newPassword))
    (h : ∀ d d', J d → J d' → ¬ ∃ x ∈ d.resetTokens, x.tokenHash = hashToken P token ∧
      DecodesSince P since token .reset x.userId ∧ x.usedAt = none ∧ since < x.expiresAt ∧
      ∃ u ∈ d'.users, u.id = x.userId) :
    (q.endpoint P).Barred Write.apply (Since since) J [] := by
  simp only [Request.endpoint,hq]
  refine Prog.Barred.bind (barred_decoded fun i hi => ?_) _
  refine barred_look barred_appError fun d x hd hx hp => barred_now fun now hnow => ?_
  simp only [decide_eq_true_eq] at hp
  refine barred_appErrorIf fun hlive => barred_found barred_appError fun d' hd' u hu =>
    decide_eq_false fun hid => ?_
  exact h d d' hd hd' ⟨x,hx,hp.1,hp.2.1 ▸ hi,hp.2.2,
    Nat.lt_of_le_of_lt hnow (Nat.not_le.mp hlive),u,hu,hid.trans hp.2.1.symm⟩

/-- While a check of it fails, an endpoint does not get past its checks. -/
theorem Request.Asks.barred (hG : q.Asks P since G)
    (hroles : ∀ d d', J d → J d' → d.roles = d'.roles) (h : ∀ d d', J d → J d' → ¬ G d d') :
    (q.endpoint P).Barred Write.apply (Since since) J [] := by
  have hone : ∀ d, J d → ¬ G d d := fun d hd => h d d hd hd
  cases hG with
  | user hq => exact barred_user hq hone
  | permission hq => exact barred_permission hq hone
  | named hq hu => exact barred_named hq hu hone
  | newPermission hq => exact barred_newPermission hq hone
  | newRole hq => exact barred_newRole hq hone
  | admin hq ht => exact barred_admin hq ht hroles hone
  | member hq ht => exact barred_member hq ht hone
  | active hq ht => exact barred_active hq ht hone
  | target hq ht => exact barred_target hq ht hone
  | role hq hr => exact barred_role hq hr hone
  | seeded hq => exact barred_seeded hq hone
  | invited hq => exact barred_invited hq h
  | newcomer hq => exact barred_newcomer hq h
  | free hq => exact barred_free hq hone
  | password hq => exact barred_password hq h
  | logout hq => exact barred_logout hq hone
  | refresh hq => exact barred_refresh hq h
  | verification hq => exact barred_verification hq h
  | reset hq => exact barred_reset hq h

end Routes

section Runs
variable {P : Platform} {o : Readings} {q : Request} {G : DB → DB → Prop} {S : DB → Prop} {k : Nat}
  {s s' : System DB Write Fault Reading Exc Mail Body Request}

theorem keeps_roles (roles : List Role) :
    Keeps Write.apply (fun _ => True) fun d d' => d.roles = roles → d'.roles = roles := by
  refine .ofInv fun {w _ _} _ ha h => ?_
  have hframe : .roles ∉ w.touches := by cases w <;> simp [Write.touches]
  have hsame : SameIn .roles _ _ := (keeps_frame .roles).write hframe ha
  exact Eq.trans hsame h

/-- With any requests beside it and in every interleaving, a request that at none of its own steps
sees a state, or two states, of which a check of it holds commits nothing, sends nothing and does
not succeed. -/
theorem guards_hold (hG : q.Asks P (o.read s.world.taken).now G)
    (hS : ∀ d d', S d → S d' → ¬ G d d')
    (hk : s.sessions[k]? = some (q,.running (q.endpoint P) [] []))
    (h : Reach Write.apply Write.waitsFor o.read (Request.endpoint P)
      (fun s m => m = .run k → S s.world.db) (fun _ => True) s s') :
    (∃ x, s'.sessions[k]? = some (q,x) ∧ x.succeeded = false) ∧
    ∀ s'', S s'.world.db →
      s'.move Write.apply Write.waitsFor o.read (Request.endpoint P) (.run k) = some s'' →
      s''.world.db = s'.world.db ∧ s''.world.sent = s'.world.sent := by
  have hrun := h.kept (keeps_roles s.world.db.roles) rfl
  have hbarred : (q.endpoint P).Barred Write.apply (Since (o.read s.world.taken).now)
      (fun d => d.roles = s.world.db.roles ∧ S d) [] :=
    hG.barred (fun d d' hd hd' => hd.1.trans hd'.1.symm) fun d d' hd hd' => hS d d' hd.2 hd'.2
  obtain ⟨htaken,x,hx,hxb⟩ :=
    hrun.barred hk hbarred (fun n hn => o.now_le hn) fun hc hroles => ⟨hroles,hc rfl⟩
  refine ⟨⟨x,hx,hxb.succeeded⟩,fun s'' hsees hm => ?_⟩
  exact System.move_barred hx hxb (o.now_le htaken) ⟨hrun.inv,hsees⟩ hm

end Runs

section Owner
open Seed

def Seed.reactivating : Request := request 1 (.tenant (.updateTenant 1002 none (some true)))

def Seed.deleted : System DB Write Fault Reading Exc Mail Body Request where
  world :=
    after (plainPlatform {}) (readings 0) twoTenants [request 1 (.tenant (.deleteTenant 1002))]
  sessions := [(reactivating,.running (reactivating.endpoint (plainPlatform {})) [] [])]

/-- The owner wants a tenant active that has been deleted, while another one is created. -/
theorem guards_hold_deleted :
    ∃ s', deleted.play Write.apply Write.waitsFor (readings 0).read
        (Request.endpoint (plainPlatform {}))
        (fun s m => m ≠ .run 0 ∨ (activeTenant s.world.db 1002).isNone) (fun _ => true)
        ([.run 0,.arrive (request 1 (.tenant (.createTenant "C" "c"))),.run 0] ++
          List.replicate 9 (.run 1) ++ List.replicate 2 (.run 0)) = some s' ∧
      (∃ x, s'.sessions[0]? = some (reactivating,x) ∧ x.succeeded = false) ∧
      ∀ s'', ¬ (activeTenant s'.world.db 1002).isSome →
        s'.move Write.apply Write.waitsFor (readings 0).read (Request.endpoint (plainPlatform {}))
          (.run 0) = some s'' →
        s''.world.db = s'.world.db ∧ s''.world.sent = s'.world.sent := by
  obtain ⟨s',hs⟩ := Option.isSome_iff_exists.mp (by decide +kernel :
    (deleted.play Write.apply Write.waitsFor (readings 0).read (Request.endpoint (plainPlatform {}))
      (fun s m => m ≠ .run 0 ∨ (activeTenant s.world.db 1002).isNone) (fun _ => true)
      ([.run 0,.arrive (request 1 (.tenant (.createTenant "C" "c"))),.run 0] ++
        List.replicate 9 (.run 1) ++ List.replicate 2 (.run 0))).isSome = true)
  refine ⟨s',hs,guards_hold (S := fun d => ¬ (activeTenant d 1002).isSome) (.active rfl rfl)
    (fun _ _ hd _ => hd) rfl (System.play_reach (fun s m hc hm => ?_) (fun _ _ => trivial)
      (.start trivial) hs)⟩
  have hnone := (of_decide_eq_true hc).resolve_left fun hne => hne hm
  simpa using hnone

end Owner

end TenantAuth
