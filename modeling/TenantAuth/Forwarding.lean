import TenantAuth.ScopedTokens
set_option autoImplicit false

namespace TenantAuth
open Transact

/-- The claims that `TokenService` puts into its tokens. -/
inductive MintedClaims : Claims → Prop
  | access (u : UUID) (x : Option UUID) (e : Nat) : MintedClaims (sessionClaims .access u x e)
  | refresh (u : UUID) (x : Option UUID) (e : Nat) : MintedClaims (sessionClaims .refresh u x e)
  | verify (u : UUID) (email : String) (e : Nat) :
    MintedClaims ⟨some u,some .verify,seconds e,none,some email⟩
  | reset (u : UUID) (email : String) (e : Nat) :
    MintedClaims ⟨some u,some .reset,seconds e,none,some email⟩

/-- The verdict of the middleware on a request: handed on with a context or without one,
or answered with an error. -/
def verdict (P : Platform) (o : Readings) (w : World DB Mail) (q : Request) :
    Outcome Exc Fault (Except AppError (Option TenantContext)) :=
  (serve Write.apply o.read (tenantContextMiddleware P q.authorization q.xTenantId) w).1

section Headers
variable (P : Platform)

/-- The bearer token is an access token of `u` with the tenant claim `x` that is not yet
expired at `t`. -/
def Bears (authorization : Option String) (u : UUID) (x : Option UUID) (t : Nat) : Prop :=
  ∃ token e, bearerToken authorization = some token ∧
    P.jwtVerify token = some (sessionClaims .access u x e) ∧ t < seconds e*1000000

/-- The value of X-Tenant-ID is not blank, and `t` is the UUID it spells. -/
def HeaderNames (xTenantId : Option String) (t : UUID) : Prop :=
  ∃ value, xTenantId = some value ∧ strip value ≠ "" ∧ P.parseUuid value = some t

/-- X-Tenant-ID is absent, blank, or a UUID. -/
def WellFormed (xTenantId : Option String) : Prop :=
  ∀ value ∈ xTenantId, strip value = "" ∨ (P.parseUuid value).isSome

/-- The headers let `u` ask for the tenant `t`: his token and X-Tenant-ID name at least one
tenant, and none but `t`. -/
def AsksFor (q : Request) (now : Nat) (u t : UUID) : Prop :=
  ∃ x, Bears P q.authorization u x now ∧ (t ∈ x ∨ HeaderNames P q.xTenantId t) ∧
    ∀ t', t' ∈ x ∨ HeaderNames P q.xTenantId t' → t' = t

variable {P}

theorem parseTenantId_names {xTenantId : Option String} {header : Option UUID}
    (h : parseTenantId P xTenantId = .ok header) (t : UUID) :
    HeaderNames P xTenantId t ↔ header = some t := by
  unfold parseTenantId at h
  unfold HeaderNames
  cases xTenantId with
  | none => cases h; simp
  | some value =>
    simp only [Option.some.injEq,exists_eq_left']
    by_cases hb : strip value = ""
    · simp only [hb,if_true,Except.ok.injEq] at h
      simp [hb,← h]
    · cases hp : P.parseUuid value with
      | none => simp [hb,hp] at h
      | some t' =>
        simp only [hb,hp,if_false,Except.ok.injEq] at h
        simp [hb,← h]

theorem parseTenantId_wellFormed {xTenantId : Option String} :
    (∃ header, parseTenantId P xTenantId = .ok header) ↔ WellFormed P xTenantId := by
  unfold parseTenantId WellFormed
  cases xTenantId with
  | none => simp
  | some value =>
    by_cases hb : strip value = ""
    · simp [hb]
    · cases hp : P.parseUuid value <;> simp [hb,hp]

theorem parseTenantId_malformed {xTenantId : Option String} (h : ¬ WellFormed P xTenantId) :
    parseTenantId P xTenantId = .error invalidTenantId := by
  unfold WellFormed at h
  unfold parseTenantId
  cases xTenantId with
  | none => simp at h
  | some value =>
    simp only [Option.mem_def,Option.some.injEq,forall_eq',not_or] at h
    cases hp : P.parseUuid value with
    | none => simp [h.1,hp]
    | some t => simp [hp] at h

/-- What decodes as an access token: claims that verify, are not expired, and have that type
or none. -/
theorem decodeAt_ok {token : String} {t : Nat} {payload : TokenPayload} :
    decodeAt P token (some .access) t = .ok payload ↔
      ∃ c, P.jwtVerify token = some c ∧ t < c.exp*1000000 ∧ c.type.getD .access = .access ∧
        c.sub = some payload.subject ∧ payload = ⟨payload.subject,.access,c.tenantId⟩ := by
  unfold decodeAt
  cases P.jwtVerify token with
  | none => simp
  | some c =>
    obtain ⟨sub,k,x⟩ := payload
    simp only [Option.some.injEq,exists_eq_left',Option.any_some,ne_eq,TokenPayload.mk.injEq,
      true_and]
    by_cases he : c.exp*1000000 ≤ t
    · rw [if_pos he]
      simp only [reduceCtorEq,false_iff,not_and]
      omega
    · rw [if_neg he]
      by_cases hk : c.type.getD .access = .access
      · cases hs : c.sub with
        | none => simp [hk]
        | some s => simp [hk,Nat.lt_of_not_le he,eq_comm (a := k),eq_comm (a := x)]
      · simp [hk]

theorem decodeAt_minted {token : String} {t : Nat} {payload : TokenPayload}
    (hm : ∀ c, P.jwtVerify token = some c → MintedClaims c) :
    decodeAt P token (some .access) t = .ok payload ↔ payload.tokenType = .access ∧
      ∃ e, P.jwtVerify token = some (sessionClaims .access payload.subject payload.tenantId e) ∧
        t < seconds e*1000000 := by
  obtain ⟨sub,k,x⟩ := payload
  rw [decodeAt_ok]
  constructor
  · rintro ⟨c,hv,ht,hk,hs,hp⟩
    cases hm c hv with
    | access u y e =>
      simp only [TokenPayload.mk.injEq,true_and] at hp
      obtain ⟨rfl,rfl⟩ := hp
      obtain rfl : u = sub := Option.some.inj hs
      exact ⟨rfl,e,hv,ht⟩
    | refresh | verify | reset => simp [sessionClaims] at hk
  · rintro ⟨hk,e,hv,ht⟩
    simp only at hk
    subst hk
    exact ⟨_,hv,ht,rfl,rfl,rfl⟩

/-- A string that verifies under the JWT secret was minted by `TokenService`. -/
def MintedOnly (P : Platform) (authorization : Option String) : Prop :=
  ∀ token c, bearerToken authorization = some token → P.jwtVerify token = some c → MintedClaims c

theorem bears_iff {authorization : Option String} {token : String} {u : UUID} {x : Option UUID}
    {t : Nat} (hm : MintedOnly P authorization) (hb : bearerToken authorization = some token) :
    Bears P authorization u x t ↔ decodeAt P token (some .access) t = .ok ⟨u,.access,x⟩ := by
  rw [decodeAt_minted fun c => hm token c hb]
  unfold Bears
  constructor
  · rintro ⟨token',e,hb',hv,ht⟩
    obtain rfl : token = token' := Option.some.inj (hb.symm.trans hb')
    exact ⟨rfl,e,hv,ht⟩
  · rintro ⟨-,e,hv,ht⟩
    exact ⟨token,e,hb,hv,ht⟩

theorem Bears.unique {authorization : Option String} {u u' : UUID} {x x' : Option UUID} {t t' : Nat}
    (h : Bears P authorization u x t) (h' : Bears P authorization u' x' t') : u = u' ∧ x = x' := by
  obtain ⟨token,e,hb,hv,-⟩ := h
  obtain ⟨token',e',hb',hv',-⟩ := h'
  obtain rfl := Option.some.inj (hb.symm.trans hb')
  have hclaims := Option.some.inj (hv.symm.trans hv')
  simp only [sessionClaims,Claims.mk.injEq,Option.some.injEq] at hclaims
  exact ⟨hclaims.1,hclaims.2.2.2.1⟩

theorem HeaderNames.unique {xTenantId : Option String} {t t' : UUID}
    (h : HeaderNames P xTenantId t) (h' : HeaderNames P xTenantId t') : t' = t := by
  obtain ⟨value,hv,-,hp⟩ := h
  obtain ⟨value',hv',-,hp'⟩ := h'
  obtain rfl := Option.some.inj (hv.symm.trans hv')
  exact Option.some.inj (hp'.symm.trans hp)

theorem HeaderNames.wellFormed {xTenantId : Option String} {t : UUID}
    (h : HeaderNames P xTenantId t) : WellFormed P xTenantId := by
  obtain ⟨value,rfl,-,hp⟩ := h
  rintro _ ⟨⟩
  exact .inr (by rw [hp]; rfl)

theorem bears_encoded {u : UUID} {x : Option UUID} {e t : Nat} (h : t < seconds e*1000000) :
    Bears P (some ("Bearer " ++ P.jwtEncode (sessionClaims .access u x e))) u x t :=
  ⟨_,e,bearerToken_bearer (P.jwtEncode_compact _),P.jwtVerify_encode _,h⟩

theorem mintedOnly_encoded (u : UUID) (x : Option UUID) (e : Nat) :
    MintedOnly P (some ("Bearer " ++ P.jwtEncode (sessionClaims .access u x e))) := by
  intro token c hb hv
  obtain rfl := Option.some.inj ((bearerToken_bearer (P.jwtEncode_compact _)).symm.trans hb)
  obtain rfl := Option.some.inj ((P.jwtVerify_encode _).symm.trans hv)
  exact .access _ _ _

end Headers

section Contexts
variable {P : Platform} {d : DB}

structure TenantContext.IsFor (c : TenantContext) (d : DB) (t u : UUID) : Prop where
  tenant : c.tenant ∈ d.tenants ∧ c.tenant.id = t ∧ c.tenant.isActive = true
  member : c.tenantMember ∈ d.members ∧ c.tenantMember.tenantId = t ∧
    c.tenantMember.userId = u ∧ c.tenantMember.isActive = true

def TenantActive (d : DB) (t : UUID) : Prop :=
  ∃ tenant ∈ d.tenants, tenant.id = t ∧ tenant.isActive = true

def ActiveMember (d : DB) (t u : UUID) : Prop :=
  ∃ m ∈ d.members, m.tenantId = t ∧ m.userId = u ∧ m.isActive = true

theorem activeTenant_isSome {t : UUID} : (activeTenant d t).isSome ↔ TenantActive d t := by
  simp [activeTenant,TenantActive,List.find?_isSome]

theorem membershipOf_isSome {t u : UUID} : (membershipOf d t u).isSome ↔ ActiveMember d t u := by
  simp [membershipOf,ActiveMember,List.find?_isSome]

theorem contextAt_none {u x header : Option UUID} :
    contextAt u x header d = .ok none ↔ x = none ∧ header = none := by
  unfold contextAt
  cases x with
  | none =>
    cases header with
    | none => simp
    | some t =>
      cases u with
      | none => simp
      | some u => cases ht : activeTenant d t <;> cases hu : membershipOf d t u <;> simp [ht,hu]
  | some t =>
    by_cases hne : header.isSome ∧ some t ≠ header
    · simp [hne]
    · cases u with
      | none => simp [hne]
      | some u => cases ht : activeTenant d t <;> cases hu : membershipOf d t u <;> simp [hne,ht,hu]

/-- A context is given for the one tenant that is named, to a user who has its rows. -/
theorem contextAt_some {u x header : Option UUID} {c : TenantContext} :
    contextAt u x header d = .ok (some c) ↔ ∃ v t, u = some v ∧ (t ∈ x ∨ t ∈ header) ∧
      (∀ t', t' ∈ x ∨ t' ∈ header → t' = t) ∧ activeTenant d t = some c.tenant ∧
        membershipOf d t v = some c.tenantMember := by
  obtain ⟨tenant,member⟩ := c
  unfold contextAt
  split
  · rename_i hne
    obtain ⟨hx,hh,hne⟩ := hne
    obtain ⟨a,rfl⟩ := Option.isSome_iff_exists.mp hx
    obtain ⟨b,rfl⟩ := Option.isSome_iff_exists.mp hh
    simp only [reduceCtorEq,false_iff]
    rintro ⟨v,t,-,-,honly,-⟩
    exact hne (congrArg some ((honly a (.inl rfl)).trans (honly b (.inr rfl)).symm))
  · rename_i hagree
    cases hs : (x <|> header) with
    | none => cases x <;> cases header <;> simp at hs ⊢
    | some t =>
      have hnames : (t ∈ x ∨ t ∈ header) ∧ ∀ t', t' ∈ x ∨ t' ∈ header → t' = t := by
        cases x with
        | none =>
          obtain rfl : header = some t := by simpa using hs
          simp
        | some a =>
          obtain rfl : a = t := by simpa using hs
          cases header with
          | none => simp
          | some b =>
            obtain rfl : a = b := by simpa using hagree
            simp [eq_comm]
      cases u with
      | none => simp
      | some v =>
        constructor
        · intro h
          cases ht : activeTenant d t with
          | none => simp [ht] at h
          | some tenant' =>
            cases hv : membershipOf d t v with
            | none => simp [ht,hv] at h
            | some m =>
              simp only [ht,hv,Except.ok.injEq,Option.some.injEq,TenantContext.mk.injEq] at h
              obtain ⟨rfl,rfl⟩ := h
              exact ⟨v,t,rfl,hnames.1,hnames.2,ht,hv⟩
        · rintro ⟨v',t',hv',hin,-,ht,hm⟩
          obtain rfl : v = v' := Option.some.inj hv'
          obtain rfl := hnames.2 t' hin
          simp [ht,hm]

end Contexts

def Seed.naming : Request :=
  { authorization := Seed.bearer (plainPlatform {}) 1 none 0
    xTenantId := some "000000000000000000000000000003ea"
    route := .tenant .listMyTenants }

theorem Seed.naming_header :
    parseTenantId (plainPlatform {}) Seed.naming.xTenantId = .ok (some 1002) := by
  decide +kernel

section Verdicts
variable {P : Platform} {o : Readings} {w : World DB Mail} {q : Request}

theorem verdict_eq (P : Platform) (o : Readings) (w : World DB Mail) (q : Request) :
    verdict P o w q = admission P q.authorization q.xTenantId (o.read w.taken).now w.db := by
  unfold verdict serve
  rw [tenantContextMiddleware_exec]

/-- Besides its verdict the middleware only takes readings. -/
theorem serve_middleware (P : Platform) (o : Readings) (w : World DB Mail) (q : Request) :
    serve Write.apply o.read (tenantContextMiddleware P q.authorization q.xTenantId) w =
      (verdict P o w q,⟨w.db,endpointStart P w q,w.sent⟩) := by
  rw [verdict_eq,serve,tenantContextMiddleware_exec]
  rfl

/-- A malformed X-Tenant-ID is raised, and nothing else is. -/
theorem verdict_raised (hx : ¬ WellFormed P q.xTenantId) :
    verdict P o w q = .raised (.app invalidTenantId) := by
  rw [verdict_eq]
  unfold admission
  rw [parseTenantId_malformed hx]

theorem verdict_ok (hx : WellFormed P q.xTenantId) : ∃ v, verdict P o w q = .ok v := by
  obtain ⟨header,hh⟩ := parseTenantId_wellFormed.mpr hx
  rw [verdict_eq]
  unfold admission
  rw [hh]
  cases bearerToken q.authorization with
  | none => exact ⟨_,rfl⟩
  | some token =>
    cases hd : decodeAt P token (some .access) (o.read w.taken).now with
    | ok payload => exact ⟨_,by simp only [hd]; rfl⟩
    | error e =>
      simp only [hd]
      split <;> exact ⟨_,rfl⟩

theorem verdict_context {header : Option UUID} (hh : parseTenantId P q.xTenantId = .ok header)
    (hm : MintedOnly P q.authorization) {c : TenantContext} :
    verdict P o w q = .ok (.ok (some c)) ↔
      ∃ u x, Bears P q.authorization u x (o.read w.taken).now ∧
        contextAt (some u) x header w.db = .ok (some c) := by
  have hnone : contextAt none none header w.db ≠ .ok (some c) := by
    rw [Ne,contextAt_some]
    simp
  rw [verdict_eq]
  unfold admission
  rw [hh]
  cases hb : bearerToken q.authorization with
  | none => simp [Bears,hb,hnone]
  | some token =>
    simp only [bears_iff hm hb]
    cases hd : decodeAt P token (some .access) (o.read w.taken).now with
    | ok payload =>
      obtain ⟨sub,k,x⟩ := payload
      have hk : k = .access := ((decodeAt_minted fun c => hm token c hb).mp hd).1
      subst hk
      simp
    | error e =>
      by_cases hs : header.isSome
      · simp [hs]
      · simp [hs,hnone]

theorem verdict_none {header : Option UUID} (hh : parseTenantId P q.xTenantId = .ok header)
    (hm : MintedOnly P q.authorization) :
    verdict P o w q = .ok (.ok none) ↔
      header = none ∧ ∀ u t, ¬ Bears P q.authorization u (some t) (o.read w.taken).now := by
  rw [verdict_eq]
  unfold admission
  rw [hh]
  cases hb : bearerToken q.authorization with
  | none => simp [Bears,hb,contextAt_none]
  | some token =>
    simp only [bears_iff hm hb]
    cases hd : decodeAt P token (some .access) (o.read w.taken).now with
    | ok payload =>
      obtain ⟨sub,k,x⟩ := payload
      have hk : k = .access := ((decodeAt_minted fun c => hm token c hb).mp hd).1
      subst hk
      simp only [Outcome.ok.injEq,contextAt_none,Except.ok.injEq,TokenPayload.mk.injEq,true_and]
      constructor
      · rintro ⟨rfl,rfl⟩
        exact ⟨rfl,by simp⟩
      · rintro ⟨rfl,h⟩
        refine ⟨?_,rfl⟩
        cases x with
        | none => rfl
        | some t => exact absurd ⟨rfl,rfl⟩ (h sub t)
    | error e =>
      by_cases hs : header.isSome
      · simp only [hs,if_true]
        simp [Option.isSome_iff_ne_none.mp hs]
      · simp [hs,contextAt_none]

theorem verdict_refused {e : AppError} (h : verdict P o w q = .ok (.error e)) :
    400 ≤ e.statusCode ∧ e.statusCode < 500 := by
  have hall : ∀ e ∈ decodeErrors ++ [tenantContextMismatch,authenticationRequired,
      contextTenantNotFound,AuthService.tenantAccessDenied],
      400 ≤ e.statusCode ∧ e.statusCode < 500 := by decide
  rw [verdict_eq] at h
  exact hall e (List.mem_append.mpr (admission_error h))

theorem verdict_some (hx : WellFormed P q.xTenantId) (hm : MintedOnly P q.authorization)
    {c : TenantContext} (h : verdict P o w q = .ok (.ok (some c))) :
    ∃ u, AsksFor P q (o.read w.taken).now u c.tenant.id ∧ c.IsFor w.db c.tenant.id u := by
  obtain ⟨header,hh⟩ := parseTenantId_wellFormed.mpr hx
  obtain ⟨u,x,hb,hc⟩ := (verdict_context hh hm).mp h
  obtain ⟨v,t,hv,hin,honly,ht,hmem⟩ := contextAt_some.mp hc
  obtain rfl := Option.some.inj hv
  obtain ⟨ht1,rfl,ht3⟩ := TenantService.activeTenant_mem ht
  have hnames := parseTenantId_names hh
  refine ⟨u,⟨x,hb,?_,?_⟩,⟨ht1,rfl,ht3⟩,TenantService.membershipOf_mem hmem⟩
  · simpa only [hnames,Option.mem_def] using hin
  · simpa only [hnames,Option.mem_def] using honly

theorem verdict_asked (hx : WellFormed P q.xTenantId) (hm : MintedOnly P q.authorization)
    {u t : UUID} (ha : AsksFor P q (o.read w.taken).now u t) (ht : TenantActive w.db t)
    (hu : ActiveMember w.db t u) :
    ∃ c, verdict P o w q = .ok (.ok (some c)) ∧ c.IsFor w.db t u := by
  obtain ⟨header,hh⟩ := parseTenantId_wellFormed.mpr hx
  obtain ⟨x,hb,hin,honly⟩ := ha
  obtain ⟨tenant,ht⟩ := Option.isSome_iff_exists.mp (activeTenant_isSome.mpr ht)
  obtain ⟨m,hu⟩ := Option.isSome_iff_exists.mp (membershipOf_isSome.mpr hu)
  simp only [parseTenantId_names hh] at hin honly
  have hc : contextAt (some u) x header w.db = .ok (some ⟨tenant,m⟩) :=
    contextAt_some.mpr ⟨u,t,rfl,hin,honly,ht,hu⟩
  exact ⟨_,(verdict_context hh hm).mpr ⟨u,x,hb,hc⟩,TenantService.activeTenant_mem ht,
    TenantService.membershipOf_mem hu⟩

theorem TenantContext.IsFor.active {c : TenantContext} {d : DB} {t u : UUID} (h : c.IsFor d t u) :
    TenantActive d t ∧ ActiveMember d t u :=
  ⟨⟨_,h.tenant⟩,⟨_,h.member⟩⟩

/-- The middleware hands a request on with the context `t` just when it bears an access token
of an active member of the active tenant `t` and neither header names another tenant; without
a context when neither names a tenant. It answers every other request itself. -/
theorem context_decided (hx : WellFormed P q.xTenantId) (hm : MintedOnly P q.authorization) :
    let now := (o.read w.taken).now
    (∀ t, (∃ c, verdict P o w q = .ok (.ok (some c)) ∧ c.tenant.id = t) ↔
      ∃ u, AsksFor P q now u t ∧ TenantActive w.db t ∧ ActiveMember w.db t u) ∧
    (∀ c, verdict P o w q = .ok (.ok (some c)) →
      ∃ u, AsksFor P q now u c.tenant.id ∧ c.IsFor w.db c.tenant.id u) ∧
    (verdict P o w q = .ok (.ok none) ↔
      (∀ t, ¬ HeaderNames P q.xTenantId t) ∧ ∀ u t, ¬ Bears P q.authorization u (some t) now) ∧
    ((∀ context, verdict P o w q ≠ .ok (.ok context)) →
      ∃ e, verdict P o w q = .ok (.error e) ∧ 400 ≤ e.statusCode ∧ e.statusCode < 500 ∧
        handle P o w q = (buildErrorResponse e,⟨w.db,endpointStart P w q,w.sent⟩)) := by
  refine ⟨fun t => ⟨?_,?_⟩,fun c => verdict_some hx hm,?_,fun hno => ?_⟩
  · rintro ⟨c,hc,rfl⟩
    obtain ⟨u,ha,hfor⟩ := verdict_some hx hm hc
    exact ⟨u,ha,hfor.active⟩
  · rintro ⟨u,ha,ht,hu⟩
    obtain ⟨c,hc,hfor⟩ := verdict_asked hx hm ha ht hu
    exact ⟨c,hc,hfor.tenant.2.1⟩
  · obtain ⟨header,hh⟩ := parseTenantId_wellFormed.mpr hx
    rw [verdict_none hh hm]
    simp only [parseTenantId_names hh]
    refine and_congr_left fun _ => ?_
    cases header <;> simp
  · obtain ⟨v,hv⟩ := verdict_ok (o := o) (w := w) hx
    cases v with
    | ok context => exact absurd hv (hno context)
    | error e =>
      have hadm := hv
      rw [verdict_eq] at hadm
      refine ⟨e,hv,(verdict_refused hv).1,(verdict_refused hv).2,?_⟩
      rw [handle_eq,hadm]

/-- The owner of 1002 names it in X-Tenant-ID. -/
theorem context_decided_owner :
    ∃ c, verdict (plainPlatform {}) (Seed.readings 0) Seed.twoTenants Seed.naming = .ok (.ok (some c)) ∧
      c.tenant.id = 1002 := by
  have hnames := parseTenantId_names Seed.naming_header
  have hasks : AsksFor (plainPlatform {}) Seed.naming 0 1 1002 :=
    ⟨none,bears_encoded (by decide +kernel),.inr ((hnames 1002).mpr rfl),fun t' ht =>
      ht.elim nofun fun ht => (Option.some.inj ((hnames t').mp ht)).symm⟩
  refine ((context_decided (parseTenantId_wellFormed.mp ⟨_,Seed.naming_header⟩)
    (mintedOnly_encoded 1 none _)).1 1002).mpr ⟨1,hasks,?_,?_⟩
  · unfold TenantActive
    decide +kernel
  · unfold ActiveMember
    decide +kernel

/-- The middleware hands the request on, or answers it with a client error of its own. -/
def Answers (P : Platform) (o : Readings) (w : World DB Mail) (q : Request) : Prop :=
  match verdict P o w q with
  | .ok (.ok _) => True
  | .ok (.error e) => 400 ≤ e.statusCode ∧ e.statusCode < 500
  | .raised _ | .fault _ => False

/-- It does so unless X-Tenant-ID is neither blank nor a UUID: that header is parsed outside
the try block. -/
theorem answers_iff : Answers P o w q ↔ WellFormed P q.xTenantId := by
  unfold Answers
  constructor
  · intro h
    by_contra hx
    rw [verdict_raised hx] at h
    exact h
  · intro hx
    obtain ⟨v,hv⟩ := verdict_ok (o := o) (w := w) hx
    cases v with
    | ok context => simp [hv]
    | error e => simpa [hv] using verdict_refused hv

theorem answers_fails :
    ¬ ∀ (P : Platform) (o : Readings) (w : World DB Mail) (q : Request), Answers P o w q := by
  intro h
  let q : Request := { xTenantId := some "x", route := .auth (.login ⟨"guest@example.com","pw"⟩) }
  have hq := h (plainPlatform {}) (Seed.readings 0) (Seed.world []) q
  have hx : ¬ WellFormed (plainPlatform {}) q.xTenantId := fun hx => by
    have := hx "x" rfl
    revert this
    decide +kernel
  unfold Answers at hq
  rwa [verdict_raised hx] at hq

end Verdicts

end TenantAuth
