import TenantAuth.Lasting
import TenantAuth.Issuance
import TenantAuth.Admissibility
import TenantAuth.Sessions
import TenantAuth.ScopedTokens
set_option autoImplicit false

namespace TenantAuth
open Transact

/-- The instant from which on a token has expired. -/
def deadline (P : Platform) (token : String) : Nat :=
  match P.jwtVerify token with
  | some c => c.exp*1000000
  | none => 0

section Rows
variable {P : Platform} {o : Nat → Reading} {n : Nat} {d d' : DB} {q : Request} {ws : List Write}
  {token : String}

def Request.IsIssuing (q : Request) : Prop :=
  (∃ payload, q.route = .auth (.login payload)) ∨ ∃ token, q.route = .auth (.refresh token)

theorem RequestCommit.issues {r : RefreshToken} (hc : RequestCommit P o n d q ws)
    (hr : .insertRefreshToken r ∈ ws) : q.IsIssuing ∧ ∃ m u x, r = issuedAt P o m u x := by
  cases hc with
  | idle => cases hr
  | tenant _ _ h =>
    have ht := h.touches _ hr
    simp [Write.touches] at ht
  | admin _ _ h =>
    cases h with
    | nothing => cases hr
    | updateUser h => exact absurd (userWrites_touches _ _ _ _ hr) (by simp [Write.touches])
    | _ => cases List.mem_singleton.mp hr
  | auth hq h =>
    cases h with
    | nothing => cases hr
    | login _ h =>
      cases List.mem_singleton.mp hr
      exact ⟨.inl ⟨_,hq⟩,_,_,_,rfl⟩
    | refresh h =>
      rcases List.mem_cons.mp hr with hr | hr
      · cases hr
      · cases List.mem_singleton.mp hr
        exact ⟨.inr ⟨_,hq⟩,_,_,_,rfl⟩
    | logout h | forgotPassword h => cases List.mem_singleton.mp hr
    | verifyEmail h | resetPassword h =>
      rcases List.mem_append.mp hr with hr | hr
      · exact absurd (userWrites_touches _ _ _ _ hr) (by simp [Write.touches])
      · cases List.mem_singleton.mp hr
    | register h => cases h <;> simp at hr

/-- What a row says of its token is what the token says. -/
def RefreshToken.Minted (P : Platform) (r : RefreshToken) : Prop :=
  r.tokenHash = hashToken P (P.jwtEncode (sessionClaims .refresh r.userId r.tenantId r.expiresAt))

theorem keeps_sessions :
    Keeps Write.apply (fun v => ∀ r, v = .insertRefreshToken r → r.Minted P)
      fun d d' => Sessions P d → Sessions P d' := by
  refine .ofInv fun {v d d'} hv ha h => ?_
  obtain ⟨hviol,rfl⟩ := Write.apply_eq_ok.mp ha
  cases v with
  | insertRefreshToken r => exact h.insert (hv r rfl) hviol
  | revokeRefreshToken id t => exact h.revoke
  | deleteUser id =>
    have hsub : delete RefreshToken.userId id d.refreshTokens ⊆ d.refreshTokens :=
      (delete_sublist _ id _).subset
    exact ⟨nodup_delete h.key,fun r hr => h.minted r (hsub hr)⟩
  | _ => exact h.congr rfl

theorem Reachable.sessions {o : Readings} {w : World DB Mail} (h : Reachable P o w) :
    Sessions P w.db := by
  induction h with
  | start h => exact ⟨h.wf.refreshTokenKey,by simp [h.refreshTokens]⟩
  | @serve w h q ih =>
    obtain ⟨ws,hc,hf⟩ := handle_commits P o w q
    refine flushAll_rel keeps_sessions (fun v hv r hr => ?_) hf ih
    obtain ⟨-,m,u,x,rfl⟩ := hc.issues (hr ▸ hv)
    rfl

/-- Before its deadline a token of a live row passes the checks of `logout` and `refresh`. The
row that is found may be another of the same token: it says the same. -/
theorem Sessions.presented {r : RefreshToken} {t : Nat} (h : Sessions P d)
    (hr : r ∈ d.refreshTokens) (hl : r.revokedAt = none) (hh : r.tokenHash = hashToken P token)
    (ht : t < deadline P token) :
    ∃ r', AuthService.Presented P d token t ⟨r.userId,.refresh,r.tenantId⟩ r' ∧
      r'.tenantId = r.tenantId ∧ deadline P token ≤ r'.expiresAt := by
  have hclaims := h.row hr hh
  have hdecoded : decodeAt P token (some .refresh) t = .ok ⟨r.userId,.refresh,r.tenantId⟩ := by
    have hexp : ¬ seconds r.expiresAt*1000000 ≤ t := by
      simpa [deadline,hclaims,sessionClaims] using ht
    simp [decodeAt,hclaims,sessionClaims,hexp]
  have hsome : (d.refreshTokens.find? fun r' => r'.tokenHash = hashToken P token ∧
      r'.userId = r.userId ∧ r'.revokedAt = none).isSome := by
    rw [List.find?_isSome]
    exact ⟨r,hr,by simp [hh,hl]⟩
  obtain ⟨r',hr'⟩ := Option.isSome_iff_exists.mp hsome
  have hfound := List.find?_some hr'
  simp only [decide_eq_true_eq] at hfound
  have hclaims' := h.row (List.mem_of_find?_eq_some hr') hfound.1
  have hsame := Option.some.inj (hclaims'.symm.trans hclaims)
  simp only [sessionClaims,Claims.mk.injEq] at hsame
  refine ⟨r',⟨hdecoded,hr'⟩,hsame.2.2.2.1,?_⟩
  simp only [deadline,hclaims',sessionClaims]
  exact seconds_le r'.expiresAt

theorem decode_deadline {c : Claims} {t : Nat} (hc : P.jwtVerify token = some c)
    (ht : deadline P token ≤ t) (k : Option TokenType) :
    decodeAt P token k t = .error tokenExpired := by
  simp only [deadline,hc] at ht
  simp [decodeAt,hc,ht]

theorem before_deadline {t : Nat} {k : Option TokenType} {i : TokenPayload}
    (h : decodeAt P token k t = .ok i) : t < deadline P token := by
  cases hc : P.jwtVerify token with
  | none => simp [decodeAt,hc] at h
  | some c =>
    by_contra ht
    rw [decode_deadline hc (Nat.le_of_not_lt ht)] at h
    cases h

/-- What passes the checks of `refresh` is refreshed: the row of the old token is still there, so
the new one is stored beside it. -/
theorem AuthService.refresh_checked {i : TokenPayload} {r : RefreshToken} (hw : d.Wf)
    (hfresh : FreshKeys o n d) (h : RefreshChecked P o n d token i r) (s : List Mail) :
    ((refresh P token).exec Write.apply o ⟨d,d,[],n,s⟩).1 =
      .ok (pairAt P o (n+3) i.subject r.tenantId) := by
  have hmem := List.mem_of_find?_eq_some h.presented.row
  have hfound := List.find?_some h.presented.row
  simp only [decide_eq_true_eq] at hfound
  have hrevoke : (Write.revokeRefreshToken r.id (o (n+2)).now).violation d = none :=
    firstViolation_found hmem
  have hkeys : ((Write.revokeRefreshToken r.id (o (n+2)).now).effect d).refreshTokens.map
      RefreshToken.id = d.refreshTokens.map RefreshToken.id := by
    apply map_update
    exact fun _ => rfl
  have hinsert : (Write.insertRefreshToken (issuedAt P o (n+3) i.subject r.tenantId)).violation
      ((Write.revokeRefreshToken r.id (o (n+2)).now).effect d) = none := by
    have huser : i.subject ∈ d.users.map User.id :=
      hfound.2.1 ▸ hw.refreshTokenUser (List.mem_map_of_mem hmem)
    have htenant := h.scope.present hw
    refine insertRefreshToken_violation huser htenant ?_
    rw [hkeys]
    exact hfresh.refreshTokens (Nat.le_add_right n 5)
  unfold refresh liveRefreshToken
  simp only [exec_decodeToken_bind,h.presented.decoded,exec_scalar_bind,flushAll_nil,
    h.presented.row,exec_now_bind,exec_appErrorIf_bind,Nat.not_le.mpr h.unexpired,if_false,
    exec_requireScope_bind,h.scope,if_true,exec_add_bind,exec_flush_bind,List.nil_append]
  rw [flushAll_single.mpr ⟨hrevoke,rfl⟩]
  simp only [exec_issueTokenPair_bind,List.nil_append]
  rw [flushAll_single.mpr ⟨hinsert,rfl⟩]
  rfl

end Rows

section Grants
variable {P : Platform} {o : Readings} {w : World DB Mail} {q : Request} {tokens : TokenData}
  {u : UUID} {x : Option UUID}

/-- A request for a pair is refused and changes nothing, or it gets what `issue_token_pair` returns,
and leaves its row behind, and at most one other row revoked. -/
theorem issuance_cases (hq : q.IsIssuing) :
    ((handle P o w q).1.isSuccess = false ∧ (handle P o w q).2.db = w.db) ∨
      ∃ m u x ws, w.taken ≤ m ∧
        (handle P o w q).1 = .success 200 (.tokens (pairAt P o.read m u x)) ∧
        (∀ v ∈ ws, ∃ id t, v = .revokeRefreshToken id t) ∧
        flushAll Write.apply (ws ++ [.insertRefreshToken (issuedAt P o.read m u x)]) w.db =
          .ok (handle P o w q).2.db := by
  rcases hq with ⟨payload,hq⟩ | ⟨token,hq⟩
  · rcases handle_auth (P := P) (o := o) (w := w) hq with ⟨hno,he⟩ | he
    · exact .inl ⟨hno,by rw [he]⟩
    rw [he,hq]
    simp only [AuthRoute.endpoint,AuthRouter.login]
    cases hx : AuthRouter.loginTenantId P q.xTenantId with
    | error e => exact .inl ⟨rfl,rfl⟩
    | ok x =>
      simp only []
      rcases AuthService.login_cases P o.read w.db (endpointStart P w q) w.sent payload x with
        ⟨hno,hd⟩ | ⟨u,-,hr,hf⟩
      · refine .inl ⟨?_,?_⟩
        · rw [respond_isSuccess,(exec_bind_pure ..).2,hno]
        · rw [(exec_bind_pure ..).1,hd]
      · refine .inr ⟨endpointStart P w q,u.id,x,[],Nat.le_add_right _ _,?_,by simp,?_⟩
        · rw [(exec_bind_pure_ok ..).mpr ⟨_,hr,rfl⟩]
          rfl
        · rw [(exec_bind_pure ..).1]
          exact hf
  · rcases handle_auth (P := P) (o := o) (w := w) hq with ⟨hno,he⟩ | he
    · exact .inl ⟨hno,by rw [he]⟩
    rw [he,hq]
    simp only [AuthRoute.endpoint,AuthRouter.refresh]
    rcases AuthService.refresh_cases P o.read w.db (endpointStart P w q) w.sent token with
      ⟨hno,hd⟩ | ⟨i,r,-,hr,hf⟩
    · refine .inl ⟨?_,?_⟩
      · rw [respond_isSuccess,(exec_bind_pure ..).2,hno]
      · rw [(exec_bind_pure ..).1,hd]
    · refine .inr ⟨endpointStart P w q + 3,i.subject,r.tenantId,[.revokeRefreshToken r.id
        (o.read (endpointStart P w q + 2)).now],
        (Nat.le_add_right _ _).trans (Nat.le_add_right _ _),?_,?_,?_⟩
      · rw [(exec_bind_pure_ok ..).mpr ⟨_,hr,rfl⟩]
        rfl
      · intro v hv
        exact ⟨_,_,List.mem_singleton.mp hv⟩
      · rw [(exec_bind_pure ..).1]
        exact hf

theorem Issues.stored (h : Issues P o w q tokens) :
    ∃ m u x, w.taken ≤ m ∧ tokens = pairAt P o.read m u x ∧
      issuedAt P o.read m u x ∈ (handle P o w q).2.db.refreshTokens := by
  obtain ⟨hroute,hresp⟩ := h
  rcases issuance_cases (P := P) (o := o) (w := w) hroute with
    ⟨hno,-⟩ | ⟨m,u,x,ws,hm,hpair,-,hf⟩
  · rw [hresp] at hno
    cases hno
  rw [hresp] at hpair
  simp only [Response.success.injEq,Body.tokens.injEq,true_and] at hpair
  refine ⟨m,u,x,hm,hpair,?_⟩
  obtain ⟨d,-,hlast⟩ := flushAll_append_iff.mp hf
  rw [(flushAll_single.mp hlast).2]
  exact List.mem_append_right _ (List.mem_singleton_self _)

theorem authenticate_access {d : DB} (hw : d.Wf) {e t : Nat} {a : User} :
    let token := P.jwtEncode (sessionClaims .access u x e)
    authenticate P (some ("Bearer " ++ token)) t d = .ok a ↔
      a ∈ d.users ∧ a.id = u ∧ a.isActive = true ∧ t < deadline P token := by
  have hscheme : (⟨"Bearer",P.jwtEncode (sessionClaims .access u x e)⟩ :
      HTTPAuthorizationCredentials).isBearer = true := by
    simp [HTTPAuthorizationCredentials.isBearer,lowerHeader]
  have hdead : deadline P (P.jwtEncode (sessionClaims .access u x e)) = seconds e*1000000 := by
    simp [deadline,P.jwtVerify_encode,sessionClaims]
  simp only [authenticate,P.httpBearer_bearer _ (P.jwtEncode_compact _),hscheme,
    Bool.true_eq_false,if_false,decodeAt_access,hdead]
  by_cases ht : seconds e*1000000 ≤ t
  · simp only [ht,if_true]
    constructor
    · intro h
      cases h
    · rintro ⟨-,-,-,hlt⟩
      omega
  simp only [ht,if_false]
  constructor
  · intro h
    split at h
    · cases h
    rename_i b hf
    cases h
    have hp := List.find?_some hf
    simp only [decide_eq_true_eq] at hp
    exact ⟨List.mem_of_find?_eq_some hf,hp.1,hp.2,by omega⟩
  · rintro ⟨ha,hid,hact,-⟩
    have hf : d.users.find? (fun a => a.id = u ∧ a.isActive) = some a := by
      refine find_eq_some_of_unique ha (by simp [hid,hact]) fun b hb hp => ?_
      simp only [decide_eq_true_eq] at hp
      exact eq_of_key hw.userKey hb ha (hp.1.trans hid.symm)
    simp only [hf]

theorem handle_auth_admitted {r : AuthRoute} (hq : q.route = .auth r)
    (hadm : Admits P q (o.read w.taken).now w.db) :
    let c := (r.endpoint P q.xTenantId).exec Write.apply o.read
      ⟨w.db,w.db,[],endpointStart P w q,w.sent⟩
    handle P o w q = (respond q.route.statusCode c.1,⟨c.2.db,c.2.taken,c.2.sent⟩) := by
  obtain ⟨context,hadm⟩ := hadm
  rw [handle_eq]
  simp only [hadm,serve,Request.endpoint,hq]

/-- Whoever presents the token of a live row within its tenant, before its deadline, gets a pair
for the row's user and tenant. -/
theorem refresh_granted {r : RefreshToken} {token : String} (h : Sessions P w.db) (hw : w.db.Wf)
    (hr : r ∈ w.db.refreshTokens) (hl : r.revokedAt = none) (hh : r.tokenHash = hashToken P token)
    (hq : q.route = .auth (.refresh token)) (hadm : Admits P q (o.read w.taken).now w.db)
    (hfresh : FreshKeys o.read w.taken w.db) (hscope : AuthService.InScope w.db r.userId r.tenantId)
    (ht : (o.read (endpointStart P w q + 1)).now < deadline P token) :
    ∃ tokens, Issues P o w q tokens ∧ tokens.IsFor P r.userId r.tenantId := by
  have hnow := o.now_le (Nat.le_add_right (endpointStart P w q) 1)
  obtain ⟨r',hp,htenant,hdead⟩ := h.presented hr hl hh (Nat.lt_of_le_of_lt hnow ht)
  have hc : AuthService.RefreshChecked P o.read (endpointStart P w q) w.db token
      ⟨r.userId,.refresh,r.tenantId⟩ r' :=
    ⟨hp,Nat.lt_of_lt_of_le ht hdead,htenant ▸ hscope⟩
  have hlater : FreshKeys o.read (endpointStart P w q) w.db := hfresh.mono (Nat.le_add_right _ _)
  have hok := AuthService.refresh_checked hw hlater hc w.sent
  have hbody : ((AuthRoute.refresh token).endpoint P q.xTenantId |>.exec Write.apply o.read
      ⟨w.db,w.db,[],endpointStart P w q,w.sent⟩).1 = .ok (.tokens _) :=
    (exec_bind_pure_ok ..).mpr ⟨_,hok,rfl⟩
  refine ⟨pairAt P o.read (endpointStart P w q + 3) r.userId r'.tenantId,⟨.inr ⟨token,hq⟩,?_⟩,
    pairAt_isFor.mpr ⟨rfl,htenant⟩⟩
  rw [handle_auth_admitted hq hadm,hq,hbody]
  rfl

theorem refresh_refused {r : RefreshToken} {token : String} (h : Sessions P w.db)
    (hr : r ∈ w.db.refreshTokens) (hh : r.tokenHash = hashToken P token)
    (hq : q.route = .auth (.refresh token))
    (hno : deadline P token ≤ (o.read (endpointStart P w q)).now ∨
      ¬ AuthService.InScope w.db r.userId r.tenantId) :
    (handle P o w q).1.isSuccess = false ∧ (handle P o w q).2.db = w.db := by
  have hclaims := h.row hr hh
  rcases hno with ht | hscope
  · exact expired_refused hq rfl (decode_deadline hclaims ht _)
  rcases handle_auth (P := P) (o := o) (w := w) hq with ⟨hs,he⟩ | he
  · exact ⟨hs,by rw [he]⟩
  rw [he,respond_isSuccess]
  simp only [AuthRoute.endpoint,AuthRouter.refresh,exec_bind_pure]
  rcases AuthService.refresh_cases P o.read w.db (endpointStart P w q) w.sent token with
    he | ⟨i,r',hc,-⟩
  · exact he
  have hfound := List.find?_some hc.presented.row
  simp only [decide_eq_true_eq] at hfound
  have hclaims' := h.row (List.mem_of_find?_eq_some hc.presented.row) hfound.1
  have hsame := Option.some.inj (hclaims'.symm.trans hclaims)
  simp only [sessionClaims,Claims.mk.injEq,Option.some.injEq] at hsame
  have hin := hc.scope
  rw [← hfound.2.1,hsame.1,hsame.2.2.2.1] at hin
  exact absurd hin hscope

theorem deadline_sessionClaims (k : TokenType) (e : Nat) :
    e < deadline P (P.jwtEncode (sessionClaims k u x e)) + 1000000 := by
  simp only [deadline,P.jwtVerify_encode,sessionClaims]
  exact lt_seconds e

/-- A granted session lasts. Whatever is requested behind the grant, but for the use of its refresh
token and the deletion of its user: before the deadline the refresh token is exchanged for a pair of
the same user and tenant, as long as the user belongs to the tenant, and after it not; and the
access token stands for the user, as long as the account is active, just until its own deadline.
Both deadlines are less than a second short of their lifetimes. -/
theorem session_endures {qs : List Request} (hr : Reachable P o w) (hi : Issues P o w q tokens)
    (hu : tokens.IsFor P u x) (hqs : LeavesAlone qs .refresh tokens.refreshToken u) :
    let later := after P o w (q :: qs)
    (∀ q', q'.route = .auth (.refresh tokens.refreshToken) →
      (Admits P q' (o.read later.taken).now later.db → FreshKeys o.read later.taken later.db →
        AuthService.InScope later.db u x →
        (o.read (endpointStart P later q' + 1)).now < deadline P tokens.refreshToken →
        ∃ tokens', Issues P o later q' tokens' ∧ tokens'.IsFor P u x) ∧
      (deadline P tokens.refreshToken ≤ (o.read (endpointStart P later q')).now ∨
          ¬ AuthService.InScope later.db u x →
        (handle P o later q').1.isSuccess = false ∧ (handle P o later q').2.db = later.db)) ∧
    (∀ t a, authenticate P (some ("Bearer " ++ tokens.accessToken)) t later.db = .ok a ↔
      a ∈ later.db.users ∧ a.id = u ∧ a.isActive = true ∧ t < deadline P tokens.accessToken) ∧
    (o.read w.taken).now + lifetime P .access < deadline P tokens.accessToken + 1000000 ∧
    (o.read w.taken).now + lifetime P .refresh < deadline P tokens.refreshToken + 1000000 := by
  obtain ⟨m,u',x',hm,rfl,hrow⟩ := hi.stored
  obtain ⟨rfl,rfl⟩ := pairAt_isFor.mp hu
  have hlater : Reachable P o (after P o w (q :: qs)) := hr.after _
  have hlast : issuedAt P o.read m u' x' ∈ (after P o w (q :: qs)).db.refreshTokens :=
    refreshToken_lasts (w := (handle P o w q).2) (handle_wf hr.wf q) hrow rfl hqs
  refine ⟨fun q' hq' => ⟨fun hadm hfresh hscope ht => ?_,fun hno => ?_⟩,fun t a => ?_,?_,?_⟩
  · exact refresh_granted hlater.sessions hlater.wf hlast rfl rfl hq' hadm hfresh hscope ht
  · exact refresh_refused hlater.sessions hlast rfl hq' hno
  · exact authenticate_access hlater.wf
  · have hlong := deadline_sessionClaims (P := P) (u := u') (x := x') .access
      ((o.read m).now + timedeltaMinutes P.settings.jwtAccessExpireMinutes)
    have hnow := o.now_le hm
    simp only [lifetime,pairAt,accessTokenAt]
    omega
  · have hlong := deadline_sessionClaims (P := P) (u := u') (x := x') .refresh
      ((o.read (m+1)).now + timedeltaDays P.settings.jwtRefreshExpireDays)
    have hnow : (o.read w.taken).now ≤ (o.read (m+1)).now := o.now_le (Nat.le_succ_of_le hm)
    simp only [lifetime,pairAt,refreshTokenAt]
    omega

/-- The guest logs in; the owner creates a tenant; the guest refreshes. -/
theorem session_endures_guest :
    let later := after (plainPlatform {}) (Seed.readings 1000) (Seed.world [])
      [Seed.login,Seed.request 1 (.tenant (.createTenant "A" "a"))]
    ∃ tokens, Issues (plainPlatform {}) (Seed.readings 1000) later
        { route := .auth (.refresh (refreshTokenAt (plainPlatform {}) 2 none 1000)) } tokens ∧
      tokens.IsFor (plainPlatform {}) 2 none := by
  have hissues : Issues (plainPlatform {}) (Seed.readings 1000) (Seed.world []) Seed.login
      (pairAt (plainPlatform {}) (Seed.readings 1000).read 0 2 none) :=
    ⟨.inl ⟨_,rfl⟩,by decide +kernel⟩
  have halone : LeavesAlone [Seed.request 1 (.tenant (.createTenant "A" "a"))] .refresh
      (pairAt (plainPlatform {}) (Seed.readings 1000).read 0 2 none).refreshToken 2 := by
    intro q hq
    rw [List.mem_singleton.mp hq]
    exact ⟨nofun,nofun⟩
  have hend := (session_endures (.start (Seed.deployed_world (by simp) (by simp) (by simp)))
    hissues (pairAt_isFor.mpr ⟨rfl,rfl⟩) halone).1
    { route := .auth (.refresh (refreshTokenAt (plainPlatform {}) 2 none 1000)) } rfl
  exact hend.1 ⟨none,by decide +kernel⟩ (Seed.freshKeys (by decide +kernel)) nofun
    (by decide +kernel)

end Grants

end TenantAuth
