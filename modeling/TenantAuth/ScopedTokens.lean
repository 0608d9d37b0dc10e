import TenantAuth.Issuance
import TenantAuth.TenantIsolation
set_option autoImplicit false

namespace TenantAuth
open Transact

/-- The access token of a pair that a login or a refresh has issued. -/
def IssuedAccessToken (P : Platform) (o : Readings) (u : UUID) (x : Option UUID)
    (token : String) : Prop :=
  ∃ w q tokens, Issues P o w q tokens ∧ tokens.accessToken = token ∧ tokens.IsFor P u x

/-- The token stands in the Authorization header. -/
def Carries (P : Platform) (q : Request) (token : String) : Prop :=
  ∃ c, P.httpBearer q.authorization = some c ∧ c.credentials = token

def decodeErrors : List AppError := [tokenExpired,invalidToken,invalidTokenType,missingSubject]

/-- The answers to a tenant request that gets no further than the path tenant's members. -/
def refusals : List Response :=
  unhandledException :: (decodeErrors ++
    [tenantContextMismatch,authenticationRequired,contextTenantNotFound,
      AuthService.tenantAccessDenied,authenticatedUserNotFound,forbiddenNotMember]).map
        buildErrorResponse

/-- How the middleware turns away a token of `u` for the tenant `a`: for the header, the tenant, or
the membership. -/
def scopeRefusal (P : Platform) (xTenantId : Option String) (a u : UUID) (d : DB) :
    Option Response :=
  match parseTenantId P xTenantId with
  | .error _ => some unhandledException
  | .ok header =>
    if header.any (· ≠ a) then some (buildErrorResponse tenantContextMismatch)
    else if (activeTenant d a).isNone then some (buildErrorResponse contextTenantNotFound)
    else if (membershipOf d a u).isNone then
      some (buildErrorResponse AuthService.tenantAccessDenied)
    else none

section Tokens
variable {P : Platform} {o : Readings} {u : UUID} {x : Option UUID} {token : String}

theorem IssuedAccessToken.encoded (h : IssuedAccessToken P o u x token) :
    ∃ expiresAt, token = P.jwtEncode (sessionClaims .access u x expiresAt) := by
  obtain ⟨w,q,tokens,hi,rfl,hu⟩ := h
  rcases hi.checked with ⟨payload,y,a,-,-,rfl⟩ | ⟨token,i,r,-,-,rfl⟩
  · obtain ⟨rfl,rfl⟩ := pairAt_isFor.mp hu
    exact ⟨_,rfl⟩
  · obtain ⟨rfl,rfl⟩ := pairAt_isFor.mp hu
    exact ⟨_,rfl⟩

theorem decodeAt_access {e t : Nat} :
    decodeAt P (P.jwtEncode (sessionClaims .access u x e)) (some .access) t =
      if seconds e*1000000 ≤ t then .error tokenExpired else .ok ⟨u,.access,x⟩ := by
  simp [decodeAt,P.jwtVerify_encode,sessionClaims]

theorem decodeAt_error {k : Option TokenType} {t : Nat} {e : AppError}
    (h : decodeAt P token k t = .error e) : e ∈ decodeErrors := by
  unfold decodeAt at h
  cases hv : P.jwtVerify token with
  | none =>
    simp only [hv,Except.error.injEq] at h
    simp [← h,decodeErrors]
  | some c =>
    by_cases he : c.exp*1000000 ≤ t
    · simp only [hv,he,if_true,Except.error.injEq] at h
      simp [← h,decodeErrors]
    cases hk : k.any (c.type.getD .access ≠ ·) with
    | true =>
      simp only [hv,he,hk,if_true,if_false,Except.error.injEq] at h
      simp [← h,decodeErrors]
    | false =>
      simp only [hv,he,hk,Bool.false_eq_true,if_false] at h
      cases hs : c.sub with
      | none =>
        simp only [hs,Except.error.injEq] at h
        simp [← h,decodeErrors]
      | some s => simp [hs] at h

theorem bearerToken_bearer (h : Compact token) :
    bearerToken (some ("Bearer " ++ token)) = some token := by
  have ht : ("Bearer " ++ token).toList =
      'B' :: 'e' :: 'a' :: 'r' :: 'e' :: 'r' :: ' ' :: token.toList := by simp
  simp [bearerToken,ht,lowerHeader,strip_compact h]

end Tokens

section Requests
variable {P : Platform} {o : Readings} {w : World DB Mail} {q : Request} {u : UUID}
  {x : Option UUID} {token : String} {r : TenantRoute} {b : UUID}

theorem Carries.actsAs {a : User} (hc : Carries P q token) (hi : IssuedAccessToken P o u x token)
    (ha : ActsAs P o w q a) : a.id = u := by
  obtain ⟨c,hb,rfl⟩ := hc
  obtain ⟨e,he⟩ := hi.encoded
  simp only [ActsAs,authenticate,hb,he,decodeAt_access] at ha
  split at ha
  · cases ha
  split at ha
  · cases ha
  rename_i payload hp
  split at hp
  · cases hp
  cases hp
  split at ha
  · cases ha
  rename_i a' hf
  cases ha
  have hp := List.find?_some hf
  simp only [decide_eq_true_eq] at hp
  exact hp.1

theorem contextAt_error {u y z : Option UUID} {d : DB} {e : AppError}
    (h : contextAt u y z d = .error e) :
    e ∈ [tenantContextMismatch,authenticationRequired,contextTenantNotFound,
      AuthService.tenantAccessDenied] := by
  unfold contextAt at h
  split at h
  · cases h; simp
  split at h
  · cases h
  · cases h; simp
  split at h
  · cases h; simp
  split at h
  · cases h; simp
  · cases h

theorem authenticate_error {authorization : Option String} {t : Nat} {d : DB} {e : AppError}
    (h : authenticate P authorization t d = .error e) :
    e ∈ authenticationRequired :: authenticatedUserNotFound :: decodeErrors := by
  unfold authenticate at h
  split at h
  · cases h; simp
  split at h
  · cases h; simp
  split at h
  · rename_i hd
    cases h
    simp [decodeAt_error hd]
  split at h
  · cases h; simp
  · cases h

theorem admission_error {authorization xTenantId : Option String} {t : Nat} {d : DB}
    {e : AppError} (h : admission P authorization xTenantId t d = .ok (.error e)) :
    e ∈ decodeErrors ∨ e ∈ [tenantContextMismatch,authenticationRequired,contextTenantNotFound,
      AuthService.tenantAccessDenied] := by
  unfold admission at h
  split at h
  · cases h
  split at h
  · exact .inr (contextAt_error (Outcome.ok.inj h))
  split at h
  · exact .inr (contextAt_error (Outcome.ok.inj h))
  rename_i hd
  split at h
  · cases h
    exact .inl (decodeAt_error hd)
  · exact .inr (contextAt_error (Outcome.ok.inj h))

theorem handle_tenant_refusal (hq : q.route = .tenant r)
    (h : ¬ (Admits P q (o.read w.taken).now w.db ∧ ∃ a, ActsAs P o w q a)) :
    (handle P o w q).1 ∈ refusals := by
  have hmem : ∀ {e : AppError}, e ∈ decodeErrors ++
      [tenantContextMismatch,authenticationRequired,contextTenantNotFound,
        AuthService.tenantAccessDenied,authenticatedUserNotFound,forbiddenNotMember] →
      buildErrorResponse e ∈ refusals :=
    fun he => List.mem_cons_of_mem _ (List.mem_map_of_mem he)
  rw [handle_eq]
  cases hadm : admission P q.authorization q.xTenantId (o.read w.taken).now w.db with
  | raised e => exact List.mem_cons_self
  | fault f => exact List.mem_cons_self
  | ok verdict =>
    cases verdict with
    | error e =>
      rcases admission_error hadm with he | he
      · exact hmem (List.mem_append_left _ he)
      · exact hmem (List.mem_append_right _
          (List.mem_append_left [authenticatedUserNotFound,forbiddenNotMember] he))
    | ok context =>
      obtain ⟨m,hm,-⟩ := getCurrentUser_exec P o.read w.db w.db (endpointStart P w q) w.sent
        q.authorization
      simp only [serve,Request.endpoint,hq]
      rw [exec_bind,hm]
      cases ha : authenticate P q.authorization (o.read (endpointStart P w q)).now w.db with
      | ok a => exact absurd ⟨⟨context,hadm⟩,a,ha⟩ h
      | error e =>
        rcases List.mem_cons.mp (authenticate_error ha) with rfl | he
        · exact hmem (List.mem_append_right _ (by simp))
        rcases List.mem_cons.mp he with rfl | he
        · exact hmem (List.mem_append_right _ (by simp))
        · exact hmem (List.mem_append_left _ he)

theorem endpoint_notMember {a : User} {n : Nat} {d : DB} {s : List Mail}
    (hp : r.path = some b) (hr : ∀ token, r ≠ .acceptInvitation b token)
    (hm : membershipOf d b a.id = none) :
    (r.endpoint P a).exec Write.apply o.read ⟨d,d,[],n,s⟩ =
      (.raised (.app forbiddenNotMember),⟨d,d,[],n,s⟩) := by
  have hadmin : adminMembership d b a.id = .raised (.app forbiddenNotMember) := by
    simp [adminMembership,hm]
  cases r with
  | createTenant | listMyTenants => cases hp
  | acceptInvitation t token =>
    cases hp
    exact absurd rfl (hr token)
  | getTenant t =>
    cases hp
    simp only [TenantRoute.endpoint,TenantRouter.getTenant,TenantService.exec_getMembership_bind,
      flushAll_nil,hm]
    rfl
  | listMembers t =>
    cases hp
    simp only [TenantRoute.endpoint,TenantRouter.listMembers,TenantService.exec_getMembership_bind,
      flushAll_nil,hm]
    rfl
  | updateTenant t | deleteTenant t | inviteMember t | updateMemberRole t | removeMember t =>
    cases hp
    simp only [TenantRoute.endpoint,TenantRouter.updateTenant,TenantRouter.deleteTenant,
      TenantRouter.inviteMember,TenantRouter.updateMemberRole,TenantRouter.removeMember]
    rw [exec_bind,requireTenantAdmin_exec,hadmin]

theorem notMember_refused (hq : q.route = .tenant r) (hp : r.path = some b)
    (hr : ∀ token, r ≠ .acceptInvitation b token)
    (hm : ∀ a, ActsAs P o w q a → membershipOf w.db b a.id = none) :
    (handle P o w q).1 ∈ refusals ∧ (handle P o w q).2.db = w.db := by
  by_cases hgo : Admits P q (o.read w.taken).now w.db ∧ ∃ a, ActsAs P o w q a
  · obtain ⟨hadm,a,ha⟩ := hgo
    rw [handle_tenant hq hadm ha,endpoint_notMember hp hr (hm a ha)]
    exact ⟨List.mem_cons_of_mem _ (List.mem_map_of_mem (by simp)),rfl⟩
  · exact ⟨handle_tenant_refusal hq hgo,(handle_tenant_refused hq hgo).2⟩

theorem scoped_refused (hi : IssuedAccessToken P o u x token) (hc : Carries P q token)
    (hq : q.route = .tenant r) (hp : r.path = some b)
    (hr : ∀ token, r ≠ .acceptInvitation b token) (hm : membershipOf w.db b u = none) :
    (handle P o w q).1 ∈ refusals ∧ (handle P o w q).2.db = w.db :=
  notMember_refused hq hp hr fun _ ha => hc.actsAs hi ha ▸ hm

section Scope
variable {a : UUID} {refusal : Response} {now : Nat} {authorization xTenantId : Option String}
  {d : DB}

theorem scopeRefusal_eq_none (h : scopeRefusal P xTenantId a u d = none) :
    (∃ header, parseTenantId P xTenantId = .ok header ∧ ∀ x ∈ header, x = a) ∧
      (activeTenant d a).isSome ∧ (membershipOf d a u).isSome := by
  unfold scopeRefusal at h
  cases hh : parseTenantId P xTenantId with
  | error e => simp [hh] at h
  | ok header =>
    simp only [hh] at h
    split at h
    · cases h
    rename_i hmatch
    split at h
    · cases h
    rename_i ht
    split at h
    · cases h
    rename_i hm
    refine ⟨⟨header,rfl,fun x hx => ?_⟩,by simpa [Option.isSome_iff_ne_none] using ht,
      by simpa [Option.isSome_iff_ne_none] using hm⟩
    by_contra hne
    exact hmatch (by simp [Option.mem_def.mp hx,hne])

theorem admission_scoped (hi : IssuedAccessToken P o u (some a) token)
    (hb : bearerToken authorization = some token)
    (hlive : decodeAt P token (some .access) now ≠ .error tokenExpired)
    (hr : scopeRefusal P xTenantId a u d = some refusal) :
    (∃ e, admission P authorization xTenantId now d = .raised e ∧ refusal = unhandledException) ∨
      ∃ e, admission P authorization xTenantId now d = .ok (.error e) ∧
        refusal = buildErrorResponse e := by
  obtain ⟨e,rfl⟩ := hi.encoded
  rw [decodeAt_access] at hlive
  have hearly : ¬ seconds e*1000000 ≤ now := fun h => hlive (by rw [if_pos h])
  unfold scopeRefusal at hr
  unfold admission
  cases hh : parseTenantId P xTenantId with
  | error e =>
    simp only [hh,Option.some.injEq] at hr
    exact .inl ⟨_,rfl,hr.symm⟩
  | ok header =>
    right
    simp only [hh] at hr
    simp only [hb,decodeAt_access,hearly,if_false,contextAt]
    have hscope : (some a <|> header) = some a := by simp
    rw [hscope]
    cases hother : header.any (· ≠ a) with
    | true =>
      obtain ⟨x,rfl,hne⟩ := (Option.any_eq_true _ _).mp hother
      have hne : a ≠ x := fun h => by simp [h] at hne
      simp only [hother,if_true,Option.some.injEq] at hr
      exact ⟨tenantContextMismatch,by simp [hne],hr.symm⟩
    | false =>
      have hsame : ¬ ((some a).isSome = true ∧ header.isSome = true ∧ some a ≠ header) := by
        rintro ⟨-,hsome,hne⟩
        obtain ⟨x,rfl⟩ := Option.isSome_iff_exists.mp hsome
        have hx : x = a := by simpa using hother
        exact hne (hx ▸ rfl)
      simp only [hother,Bool.false_eq_true,if_false] at hr
      rw [if_neg hsame]
      cases ht : activeTenant d a with
      | none =>
        simp only [ht,Option.isNone_none,if_true,Option.some.injEq] at hr
        exact ⟨contextTenantNotFound,by simp only [ht],hr.symm⟩
      | some tenant =>
        cases hm : membershipOf d a u with
        | none =>
          exact ⟨AuthService.tenantAccessDenied,by simp only [ht,hm],
            by simpa [ht,hm] using hr.symm⟩
        | some m => simp [ht,hm] at hr

theorem scoped_stopped (hi : IssuedAccessToken P o u (some a) token) (hc : Carries P q token)
    (hb : bearerToken q.authorization = some token)
    (hr : scopeRefusal P q.xTenantId a u w.db = some refusal) :
    ¬ (Admits P q (o.read w.taken).now w.db ∧ ∃ v, ActsAs P o w q v) := by
  rintro ⟨⟨context,hadm⟩,v,hv⟩
  by_cases hlive : decodeAt P token (some .access) (o.read w.taken).now = .error tokenExpired
  · -- The user is looked up with the same token, and no earlier.
    obtain ⟨c,hcred,rfl⟩ := hc
    obtain ⟨e,he⟩ := hi.encoded
    rw [he,decodeAt_access] at hlive
    have hexp : seconds e*1000000 ≤ (o.read (endpointStart P w q)).now := by
      split at hlive
      · rename_i hexp
        exact hexp.trans (o.now_le (Nat.le_add_right _ _))
      · cases hlive
    simp only [ActsAs,authenticate,hcred,he,decodeAt_access,hexp,if_true] at hv
    split at hv <;> cases hv
  · rcases admission_scoped hi hb hlive hr with ⟨e,he,-⟩ | ⟨e,he,-⟩ <;> simp [he] at hadm

theorem scoped_answered (hi : IssuedAccessToken P o u (some a) token) (hc : Carries P q token)
    (hb : bearerToken q.authorization = some token) (hq : q.route = .tenant r)
    (hr : scopeRefusal P q.xTenantId a u w.db = some refusal) :
    (handle P o w q).1 = refusal ∨
      decodeAt P token (some .access) (o.read w.taken).now = .error tokenExpired ∧
        (handle P o w q).1 ∈ refusals := by
  by_cases hlive : decodeAt P token (some .access) (o.read w.taken).now = .error tokenExpired
  · exact .inr ⟨hlive,handle_tenant_refusal hq (scoped_stopped hi hc hb hr)⟩
  · refine .inl ?_
    rw [handle_eq]
    rcases admission_scoped hi hb hlive hr with ⟨e,he,rfl⟩ | ⟨e,he,rfl⟩ <;> simp only [he]

end Scope

/-- A tenant route goes by the memberships of the tenant `b` of its path, whatever the tenant
`a` of the token: without one, nothing of `b` is shown; without an admin's, nothing of `b`
is changed but by joining with an invitation. The middleware asks for a membership of `a`
and for a header that does not contradict it, and answers itself otherwise. -/
theorem scoped_token_elsewhere {a : UUID} (hw : Reachable P o w)
    (hi : IssuedAccessToken P o u (some a) token) (hc : Carries P q token)
    (hq : q.route = .tenant r) (hp : r.path = some b) :
    (membershipOf w.db b u = none → (∀ token, r ≠ .acceptInvitation b token) →
      (handle P o w q).1 ∈ refusals ∧ (handle P o w q).2.db = w.db) ∧
    (tenantRows b (handle P o w q).2.db ≠ tenantRows b w.db →
      IsTenantAdmin w.db b u ∨
        ∃ token inv v, r = .acceptInvitation b token ∧ inv.tenantId = b ∧ v.id = u ∧
          Joins P w.db (handle P o w q).2.db v (o.read (endpointStart P w q + 1)).now inv) ∧
    (bearerToken q.authorization = some token →
      ((handle P o w q).1.isSuccess = true →
        (∃ header, parseTenantId P q.xTenantId = .ok header ∧ ∀ x ∈ header, x = a) ∧
          (activeTenant w.db a).isSome ∧ (membershipOf w.db a u).isSome) ∧
      ∀ refusal, scopeRefusal P q.xTenantId a u w.db = some refusal →
        (handle P o w q).2.db = w.db ∧ (handle P o w q).1.isSuccess = false ∧
          ((handle P o w q).1 = refusal ∨
            decodeAt P token (some .access) (o.read w.taken).now = .error tokenExpired ∧
              (handle P o w q).1 ∈ refusals)) := by
  refine ⟨fun hm hr => scoped_refused hi hc hq hp hr hm,fun hne => ?_,
    fun hb => ⟨fun hs => ?_,fun refusal hr => ?_⟩⟩
  · obtain ⟨v,hv,hright⟩ := handle_tenantRows hw.wf hq hne
    have hvu := hc.actsAs hi hv
    rcases hright with ⟨-,hadmin⟩ | ⟨path,token',inv,rfl,hinv,hjoin⟩ | ⟨name,slug,rfl,-⟩
    · exact .inl (hvu ▸ hadmin)
    · cases hp
      exact .inr ⟨token',inv,v,rfl,hinv,hvu,hjoin⟩
    · cases hp
  · cases hr : scopeRefusal P q.xTenantId a u w.db with
    | none => exact scopeRefusal_eq_none hr
    | some refusal => exact absurd (handle_tenant_success hq hs) (scoped_stopped hi hc hb hr)
  · obtain ⟨hfail,hdb⟩ := handle_tenant_refused hq (scoped_stopped hi hc hb hr)
    exact ⟨hdb,hfail,scoped_answered hi hc hb hq hr⟩

end Requests

section Owner

def Seed.scopedLogin : Request :=
  { authorization := Seed.bearer (plainPlatform {}) 1 none 0
    xTenantId := some "000000000000000000000000000003ea"
    route := .auth (.login ⟨"owner@example.com","pw"⟩) }

def Seed.scopedRequest (r : TenantRoute) : Request :=
  { authorization := Seed.bearer (plainPlatform {}) 1 (some 1002) 0, route := .tenant r }

theorem Seed.scopedLogin_issued :
    IssuedAccessToken (plainPlatform {}) (Seed.readings 0) 1 (some 1002)
      (accessTokenAt (plainPlatform {}) 1 (some 1002) 0) :=
  ⟨Seed.twoTenants,Seed.scopedLogin,pairAt (plainPlatform {}) (Seed.readings 0).read 0 1 (some 1002),
    ⟨.inl ⟨_,rfl⟩,by decide +kernel⟩,rfl,pairAt_isFor.mpr ⟨rfl,rfl⟩⟩

theorem Seed.scopedRequest_carries (r : TenantRoute) :
    Carries (plainPlatform {}) (Seed.scopedRequest r)
      (accessTokenAt (plainPlatform {}) 1 (some 1002) 0) :=
  ⟨_,(plainPlatform {}).httpBearer_bearer _ ((plainPlatform {}).jwtEncode_compact _),rfl⟩

end Owner

def Seed.contradicting : Request :=
  { Seed.scopedRequest (.updateTenant 1010 (some "C") none) with
    xTenantId := some "000000000000000000000000000003f2" }

/-- With the token for 1002 nothing is seen of a tenant 7, and 1010 is not renamed under a header
that names it. -/
theorem scoped_token_elsewhere_stranger :
    (handle (plainPlatform {}) (Seed.readings 0) Seed.twoTenants
      (Seed.scopedRequest (.getTenant 7))).1 ∈ refusals ∧
    (handle (plainPlatform {}) (Seed.readings 0) Seed.twoTenants Seed.contradicting).2.db =
      Seed.twoTenants.db ∧
    (handle (plainPlatform {}) (Seed.readings 0) Seed.twoTenants Seed.contradicting).1 =
      buildErrorResponse tenantContextMismatch := by
  obtain ⟨hstranger,-,-⟩ := scoped_token_elsewhere Seed.reachable_twoTenants Seed.scopedLogin_issued
    (Seed.scopedRequest_carries (.getTenant 7)) rfl rfl
  obtain ⟨-,-,hscope⟩ := scoped_token_elsewhere (q := Seed.contradicting) Seed.reachable_twoTenants
    Seed.scopedLogin_issued (Seed.scopedRequest_carries (.updateTenant 1010 (some "C") none)) rfl rfl
  obtain ⟨hdb,-,hanswer⟩ := (hscope (by decide +kernel)).2
    (buildErrorResponse tenantContextMismatch) (by decide +kernel)
  have hlive : decodeAt (plainPlatform {}) (accessTokenAt (plainPlatform {}) 1 (some 1002) 0)
      (some .access) ((Seed.readings 0).read Seed.twoTenants.taken).now ≠ .error tokenExpired := by
    decide +kernel
  exact ⟨(hstranger (by decide +kernel) (by simp)).1,hdb,
    hanswer.resolve_right fun hexp => hlive hexp.1⟩

/-- With the token for 1002 its user renames 1010. -/
theorem scoped_token_elsewhere_fails :
    ¬ ∀ (P : Platform) (o : Readings) (w : World DB Mail) (q : Request) (r : TenantRoute)
      (token : String) (u a b : UUID), Reachable P o w → IssuedAccessToken P o u (some a) token →
      Carries P q token → q.route = .tenant r → r.path = some b → b ≠ a →
      (handle P o w q).1.isSuccess = false ∧
        tenantRows b (handle P o w q).2.db = tenantRows b w.db := by
  intro h
  obtain ⟨hs,-⟩ := h (plainPlatform {}) (Seed.readings 0) Seed.twoTenants
    (Seed.scopedRequest (.updateTenant 1010 (some "C") none)) _ _ 1 1002 1010
    Seed.reachable_twoTenants Seed.scopedLogin_issued (Seed.scopedRequest_carries _) rfl rfl
    (by decide)
  revert hs
  decide +kernel

end TenantAuth
