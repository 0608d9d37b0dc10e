import TenantAuth.Forwarding
import TenantAuth.RateLimit
set_option autoImplicit false

/-! The tenant scope where it is issued and where it is accepted. `login` and `refresh` go by
the membership alone, the middleware also by the tenant; and the middleware wants a token
before it lets X-Tenant-ID through to `login`. -/

namespace TenantAuth
open Transact

/-- `login` or `refresh`, served alone from `w`, returns the pair and leaves `w'`. -/
def Grants (P : Platform) (o : Readings) (w : World DB Mail) (tokens : TokenData)
    (w' : World DB Mail) : Prop :=
  ∃ p : App TokenData, ((∃ payload x, p = AuthService.login P payload x) ∨
      ∃ token, p = AuthService.refresh P token) ∧
    (serve Write.apply o.read p w).1 = .ok tokens ∧ w' = (serve Write.apply o.read p w).2

/-- The access token of the pair is for `u`, with the claim `x`, and not expired at `t`. -/
def TokenData.LiveFor (P : Platform) (tokens : TokenData) (u : UUID) (x : Option UUID) (t : Nat) :
    Prop :=
  ∃ e, P.jwtVerify tokens.accessToken = some (sessionClaims .access u x e) ∧ t < seconds e*1000000

/-- The request bears the access token of the pair, and no other tenant than `t` in X-Tenant-ID. -/
structure Uses (P : Platform) (q : Request) (tokens : TokenData) (t : UUID) : Prop where
  bearer : q.authorization = some ("Bearer " ++ tokens.accessToken)
  header : q.xTenantId = none ∨ HeaderNames P q.xTenantId t

def Seed.scopedUse : Request :=
  { authorization := some ("Bearer " ++ (pairAt (plainPlatform {}) (Seed.readings 0).read 0 1
      (some 1002)).accessToken)
    route := .tenant .listMyTenants }

theorem Seed.scopedUse_uses : Uses (plainPlatform {}) Seed.scopedUse
    (pairAt (plainPlatform {}) (Seed.readings 0).read 0 1 (some 1002)) 1002 := ⟨rfl,.inl rfl⟩

section Issuing
variable {P : Platform} {o : Readings} {w w' later : World DB Mail} {q : Request}
  {tokens : TokenData} {u t : UUID}

theorem TokenData.LiveFor.isFor {x : Option UUID} {n : Nat} (h : tokens.LiveFor P u x n) :
    tokens.IsFor P u x := by
  obtain ⟨e,hv,-⟩ := h
  exact ⟨e,hv⟩

/-- A pair with a tenant is granted to an active member, and tenants and members stay as
they are. -/
theorem Grants.member (hg : Grants P o w tokens w') (hu : tokens.IsFor P u (some t)) :
    ActiveMember w.db t u ∧ Compact tokens.accessToken ∧ SameIn .tenants w.db w'.db ∧
      SameIn .members w.db w'.db := by
  obtain ⟨p,hp,hok,rfl⟩ := hg
  unfold serve at hok ⊢
  simp only at hok ⊢
  rcases hp with ⟨payload,x,rfl⟩ | ⟨token,rfl⟩
  · rcases AuthService.login_cases P o.read w.db w.taken w.sent payload x with
      ⟨hno,-⟩ | ⟨a,hc,hr,hf⟩
    · simp [hok] at hno
    · obtain rfl := Outcome.ok.inj (hok.symm.trans hr)
      obtain ⟨rfl,rfl⟩ := pairAt_isFor.mp hu
      exact ⟨membershipOf_isSome.mp (hc.scope t rfl),P.jwtEncode_compact _,
        flushAll_frame (by simp [Write.touches]) hf,flushAll_frame (by simp [Write.touches]) hf⟩
  · rcases AuthService.refresh_cases P o.read w.db w.taken w.sent token with
      ⟨hno,-⟩ | ⟨i,r,hc,hr,hf⟩
    · simp [hok] at hno
    · obtain rfl := Outcome.ok.inj (hok.symm.trans hr)
      obtain ⟨rfl,hx⟩ := pairAt_isFor.mp hu
      exact ⟨membershipOf_isSome.mp (hc.scope t hx),P.jwtEncode_compact _,
        flushAll_frame (by simp [AuthService.rotation,Write.touches]) hf,
        flushAll_frame (by simp [AuthService.rotation,Write.touches]) hf⟩

theorem Uses.asksFor {n : Nat} (h : Uses P q tokens t) (hc : Compact tokens.accessToken)
    (hl : tokens.LiveFor P u (some t) n) : WellFormed P q.xTenantId ∧
      MintedOnly P q.authorization ∧ AsksFor P q n u t := by
  obtain ⟨e,hv,hlt⟩ := hl
  have hb : bearerToken q.authorization = some tokens.accessToken := by
    rw [h.bearer,bearerToken_bearer hc]
  refine ⟨?_,fun token c hb' hv' => ?_,some t,⟨_,e,hb,hv,hlt⟩,.inl rfl,?_⟩
  · rcases h.header with hn | hn
    · rw [hn]
      nofun
    · exact hn.wellFormed
  · obtain rfl := Option.some.inj (hb.symm.trans hb')
    obtain rfl := Option.some.inj (hv.symm.trans hv')
    exact .access u (some t) e
  · rintro t' (ht | ht)
    · exact (Option.some.inj ht).symm
    · rcases h.header with hn | hn
      · rw [hn] at ht
        obtain ⟨value,hx,-⟩ := ht
        cases hx
      · exact hn.unique ht

/-- While a pair with the tenant `t` is not expired, the middleware gives its bearer the
context of `t` just when the tenant was active as the pair was issued. -/
theorem scope_accepted_iff (hg : Grants P o w tokens w') (hq : Uses P q tokens t)
    (hdb : later.db = w'.db) (hl : tokens.LiveFor P u (some t) (o.read later.taken).now) :
    (∃ c, verdict P o later q = .ok (.ok (some c)) ∧ c.IsFor later.db t u) ↔
      TenantActive w.db t := by
  obtain ⟨hmember,hc,hts,hms⟩ := hg.member hl.isFor
  obtain ⟨hx,hm,hasks⟩ := hq.asksFor hc hl
  simp only [SameIn] at hts hms
  have htenant : TenantActive later.db t ↔ TenantActive w.db t := by
    simp only [TenantActive,hdb,hts]
  have hmember' : ActiveMember later.db t u := by
    simpa only [ActiveMember,hdb,hms] using hmember
  constructor
  · rintro ⟨c,-,hfor⟩
    exact htenant.mp hfor.active.1
  · intro ht
    exact verdict_asked hx hm hasks (htenant.mpr ht) hmember'

/-- The owner logs in to 1002 and uses the pair at once. -/
theorem scope_accepted_iff_owner :
    ∃ c, verdict (plainPlatform {}) (Seed.readings 0)
      (serve Write.apply (Seed.readings 0).read (AuthService.login (plainPlatform {})
        ⟨"owner@example.com","pw"⟩ (some 1002)) Seed.twoTenants).2 Seed.scopedUse =
          .ok (.ok (some c)) ∧
      c.IsFor (serve Write.apply (Seed.readings 0).read (AuthService.login (plainPlatform {})
        ⟨"owner@example.com","pw"⟩ (some 1002)) Seed.twoTenants).2.db 1002 1 := by
  refine (scope_accepted_iff (w := Seed.twoTenants) (t := 1002) ⟨_,.inl ⟨_,_,rfl⟩,?_,rfl⟩
    Seed.scopedUse_uses rfl ⟨_,(plainPlatform {}).jwtVerify_encode _,?_⟩).mpr ?_
  · decide +kernel
  · decide +kernel
  · unfold TenantActive
    decide +kernel

/-- The tenant is deactivated; a refresh still grants its scope, and the middleware does
not know the tenant. -/
theorem scope_accepted_fails :
    ¬ ∀ (P : Platform) (o : Readings) (w w' later : World DB Mail) (q : Request)
      (tokens : TokenData) (u t : UUID), Reachable P o w → Grants P o w tokens w' →
      Uses P q tokens t → later.db = w'.db →
      tokens.LiveFor P u (some t) (o.read later.taken).now →
      ∃ c, verdict P o later q = .ok (.ok (some c)) ∧ c.IsFor later.db t u := by
  intro h
  let P := plainPlatform {}
  let w := after P (Seed.readings 0) Seed.twoTenants
    [Seed.scopedLogin,Seed.request 1 (.tenant (.deleteTenant 1002))]
  let p := AuthService.refresh P (refreshTokenAt P 1 (some 1002) 0)
  let later := (serve Write.apply (Seed.readings 0).read p w).2
  obtain ⟨c,hc,-⟩ := h P (Seed.readings 0) w later later Seed.scopedUse
    (pairAt P (Seed.readings 0).read 0 1 (some 1002)) 1 1002
    (Seed.reachable_twoTenants.after _) ⟨p,.inr ⟨_,rfl⟩,by decide +kernel,rfl⟩
    Seed.scopedUse_uses rfl ⟨_,P.jwtVerify_encode _,by decide +kernel⟩
  have hrefused : verdict P (Seed.readings 0) later Seed.scopedUse =
      .ok (.error contextTenantNotFound) := by decide +kernel
  rw [hrefused] at hc
  cases hc

end Issuing

def Seed.headerLogin : Request :=
  { xTenantId := some "000000000000000000000000000003ea"
    route := .auth (.login ⟨"owner@example.com","pw"⟩) }

section Stack
variable {P : Platform} {o : Readings} {w : World DB Mail} {q : Request} {t : UUID}

theorem verdict_anonymous (ha : q.authorization = none) (hx : HeaderNames P q.xTenantId t) :
    verdict P o w q = .ok (.error authenticationRequired) := by
  obtain ⟨value,hvalue,hb,hp⟩ := hx
  rw [verdict_eq]
  simp [admission,parseTenantId,hvalue,hb,hp,ha,bearerToken,contextAt]

/-- A login with X-Tenant-ID and no token is not granted whatever the user, the password, the
memberships and the room in the bucket: it is answered 401 before any of them is looked at. -/
theorem scoped_login_unreachable {m : RateLimitMiddleware} {buckets : Buckets} {caller : Caller}
    {payload : LoginRequest} {xTenantId : Option String} (hx : HeaderNames P xTenantId t) :
    let q : Request := { xTenantId := xTenantId, route := .auth (.login payload) }
    let r := stack P o m buckets caller w q
    (¬ ∃ tokens u, r.1 = .success 200 (.tokens tokens) ∧ tokens.IsFor P u (some t)) ∧
      r = (buildErrorResponse authenticationRequired,buckets,
        ⟨w.db,endpointStart P w q,w.sent⟩) := by
  intro q r
  have hr : r = (buildErrorResponse authenticationRequired,buckets,
      ⟨w.db,endpointStart P w q,w.sent⟩) := by
    simp only [r,stack,serve_middleware,verdict_anonymous (q := q) rfl hx]
  refine ⟨?_,hr⟩
  rintro ⟨tokens,u,hs,-⟩
  rw [hr] at hs
  cases hs

theorem scoped_login_unreachable_owner :
    ¬ ∃ tokens u, (stack (plainPlatform {}) (Seed.readings 0) {} noBuckets ⟨"10.0.0.1",0,0⟩
      Seed.twoTenants Seed.headerLogin).1 = .success 200 (.tokens tokens) ∧
        tokens.IsFor (plainPlatform {}) u (some 1002) :=
  (scoped_login_unreachable ⟨_,rfl,by decide +kernel,by decide +kernel⟩).1

/-- The owner of 1002, with his password and room for five more requests. -/
theorem scoped_login_fails :
    ¬ ∀ (P : Platform) (o : Readings) (w : World DB Mail) (m : RateLimitMiddleware)
      (buckets : Buckets) (caller : Caller) (u : User) (t : UUID) (q : Request) (password : String),
      Reachable P o w → u ∈ w.db.users → u.isActive = true →
      verifyPassword P password u.passwordHash = true → TenantActive w.db t →
      ActiveMember w.db t u.id → q.route = .auth (.login ⟨u.email,password⟩) →
      q.authorization = none → HeaderNames P q.xTenantId t →
      (m.dispatch buckets q.route.router caller.ip caller.created caller.now).1 = true →
      ∃ tokens, (stack P o m buckets caller w q).1 = .success 200 (.tokens tokens) ∧
        tokens.IsFor P u.id (some t) := by
  intro h
  obtain ⟨tokens,hs,-⟩ := h (plainPlatform {}) (Seed.readings 0) Seed.twoTenants {} noBuckets
    ⟨"10.0.0.1",0,0⟩ Seed.owner 1002 Seed.headerLogin "pw" Seed.reachable_twoTenants
    (by decide +kernel) rfl (by decide +kernel) (by unfold TenantActive; decide +kernel)
    (by unfold ActiveMember; decide +kernel) rfl rfl ⟨_,rfl,by decide +kernel,by decide +kernel⟩
    (by decide +kernel)
  have hrefused : (stack (plainPlatform {}) (Seed.readings 0) {} noBuckets ⟨"10.0.0.1",0,0⟩
      Seed.twoTenants Seed.headerLogin).1 = buildErrorResponse authenticationRequired := by
    decide +kernel
  rw [hrefused] at hs
  cases hs

end Stack

end TenantAuth
