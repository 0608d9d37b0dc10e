import TenantAuth.Revocation
set_option autoImplicit false

namespace TenantAuth
open Transact

def live (d : DB) (u : UUID) (x : Option UUID) : Nat :=
  d.refreshTokens.countP fun r => r.userId = u ∧ r.tenantId = x ∧ r.revokedAt = none

section Rows
variable {P : Platform} {d d' : DB} {token : String} {u : UUID} {x : Option UUID}

/-- The token of a row is the one that its claims say. -/
theorem Sessions.row (h : Sessions P d) {r : RefreshToken} (hr : r ∈ d.refreshTokens)
    (hh : r.tokenHash = hashToken P token) :
    P.jwtVerify token = some (sessionClaims .refresh r.userId r.tenantId r.expiresAt) := by
  rw [h.minted r hr] at hh
  rw [← P.sha256_injective hh,P.jwtVerify_encode]

theorem live_congr (hr : SameIn .refreshTokens d d') : live d' u x = live d u x := by
  simp only [SameIn] at hr
  simp only [live,hr]

theorem live_insert (r : RefreshToken) (hr : r.revokedAt = none) :
    live ((Write.insertRefreshToken r).effect d) u x =
      live d u x + if r.userId = u ∧ r.tenantId = x then 1 else 0 := by
  simp [live,Write.effect,List.countP_append,List.countP_cons,hr]

theorem live_revoke (h : Sessions P d) {r : RefreshToken} (hr : r ∈ d.refreshTokens)
    (hl : r.revokedAt = none) (t : Nat) :
    live ((Write.revokeRefreshToken r.id t).effect d) u x +
      (if r.userId = u ∧ r.tenantId = x then 1 else 0) = live d u x := by
  have hcount := countP_update h.key hr (fun r => { r with revokedAt := some t })
    fun r => r.userId = u ∧ r.tenantId = x ∧ r.revokedAt = none
  simpa [live,Write.effect,hl] using hcount

end Rows

section Calls
variable {P : Platform} {o : Nat → Reading} {w : World DB Mail}

theorem Sessions.call (h : Sessions P w.db) (c : Call) :
    Sessions P (call P o w c).2.db := by
  obtain ⟨ws,hc,hf⟩ := call_commits P o w c
  cases hc with
  | login _ =>
    obtain ⟨hv,he⟩ := flushAll_single.mp hf
    exact he ▸ h.insert rfl hv
  | logout _ =>
    obtain ⟨-,he⟩ := flushAll_single.mp hf
    exact he ▸ h.revoke
  | refresh _ =>
    obtain ⟨-,hf'⟩ := flushAll_cons.mp hf
    obtain ⟨hv,he⟩ := flushAll_single.mp hf'
    exact he ▸ h.revoke.insert rfl hv
  | other hs => exact h.congr (flushAll_frame hs hf)

theorem Sessions.callAll {cs : List Call} (h : Sessions P w.db) :
    Sessions P (callAll P o w cs).db := by
  induction cs generalizing w with
  | nil => exact h
  | cons c cs ih => exact ih (h.call c)

def Call.logsIn (P : Platform) (u : UUID) (x : Option UUID) (d : DB) : Call → Bool
  | .login payload x' => x' = x ∧
    (d.users.find? fun v => v.email = P.lower payload.email).any fun v => v.id = u
  | _ => false

def Call.logsOut (P : Platform) (u : UUID) (x : Option UUID) (_ : DB) : Call → Bool
  | .logout token => (P.jwtVerify token).any fun i => i.sub = some u ∧ i.tenantId = x
  | _ => false

def success (P : Platform) (o : Nat → Reading) (kind : DB → Call → Bool) (w : World DB Mail)
    (c : Call) : Nat :=
  if kind w.db c ∧ (call P o w c).1.isOk then 1 else 0

def successes (P : Platform) (o : Nat → Reading) (kind : DB → Call → Bool) :
    World DB Mail → List Call → Nat
  | _, [] => 0
  | w, c :: cs => success P o kind w c + successes P o kind (call P o w c).2 cs

theorem Presented.live {token : String} {t : Nat} {i : TokenPayload} {r : RefreshToken}
    (h : Sessions P w.db) (hp : AuthService.Presented P w.db token t i r) :
    r ∈ w.db.refreshTokens ∧ r.revokedAt = none ∧ r.userId = i.subject ∧
      P.jwtVerify token = some (sessionClaims .refresh r.userId r.tenantId r.expiresAt) := by
  have hr := List.mem_of_find?_eq_some hp.row
  have hl := List.find?_some hp.row
  simp only [decide_eq_true_eq] at hl
  exact ⟨hr,hl.2.2,hl.2.1,h.row hr hl.1⟩

theorem success_failed {k : DB → Call → Bool} {c : Call}
    (hno : (call P o w c).1.isOk = false) : success P o k w c = 0 := by
  simp [success,hno]

theorem success_ok {k : DB → Call → Bool} {c : Call} (hok : (call P o w c).1.isOk = true) :
    success P o k w c = if k w.db c then 1 else 0 := by
  simp [success,hok]

theorem success_other {k : DB → Call → Bool} {c : Call} (hk : k w.db c = false) :
    success P o k w c = 0 := by
  simp [success,hk]

/-- A call adds the session that it opens and takes away the one that it closes. -/
theorem live_call (h : Sessions P w.db) (c : Call) (u : UUID) (x : Option UUID) :
    live (call P o w c).2.db u x + success P o (Call.logsOut P u x) w c =
      live w.db u x + success P o (Call.logsIn P u x) w c := by
  cases c with
  | login payload x' =>
    rw [success_other (k := Call.logsOut P u x) rfl]
    rcases AuthService.login_cases P o w.db w.taken w.sent payload x' with
      ⟨hno,hd⟩ | ⟨v,hl,hr,hf⟩
    · rw [success_failed (c := .login payload x') hno,call_db,Call.prog,hd]
    · have hok : (call P o w (.login payload x')).1.isOk = true := congrArg Outcome.isOk hr
      have hkind : Call.logsIn P u x w.db (.login payload x') = decide (v.id = u ∧ x' = x) := by
        simp [Call.logsIn,hl.user,and_comm]
      rw [success_ok hok,hkind,call_db,Call.prog,(flushAll_single.mp hf).2,live_insert _ rfl]
      by_cases hv : v.id = u ∧ x' = x <;> simp [issuedAt,hv]
  | logout token =>
    rw [success_other (k := Call.logsIn P u x) rfl]
    rcases AuthService.logout_cases P o w.db w.taken w.sent token with
      ⟨hno,hd⟩ | ⟨i,r,hp,hr,hf⟩
    · rw [success_failed (c := .logout token) hno,call_db,Call.prog,hd]
    · have hok : (call P o w (.logout token)).1.isOk = true := congrArg Outcome.isOk hr
      obtain ⟨hmem,hrev,-,hverify⟩ := Presented.live h hp
      have hkind : Call.logsOut P u x w.db (.logout token) =
          decide (r.userId = u ∧ r.tenantId = x) := by
        simp [Call.logsOut,hverify,sessionClaims]
      rw [success_ok hok,hkind,call_db,Call.prog,(flushAll_single.mp hf).2]
      simpa using live_revoke h hmem hrev _
  | refresh token =>
    rw [success_other (k := Call.logsIn P u x) rfl,
      success_other (k := Call.logsOut P u x) rfl]
    rcases AuthService.refresh_cases P o w.db w.taken w.sent token with
      ⟨-,hd⟩ | ⟨i,r,hc,-,hf⟩
    · rw [call_db,Call.prog,hd]
    · -- The row that goes and the row that comes are of one user and one tenant.
      obtain ⟨hmem,hrev,huser,-⟩ := Presented.live h hc.presented
      obtain ⟨-,hf'⟩ := flushAll_cons.mp hf
      have hgone := live_revoke (u := u) (x := x) h hmem hrev (o (w.taken+2)).now
      rw [call_db,Call.prog,(flushAll_single.mp hf').2,live_insert _ rfl]
      simp only [issuedAt,← huser]
      omega
  | _ =>
    rw [success_other (k := Call.logsIn P u x) rfl,
      success_other (k := Call.logsOut P u x) rfl]
    obtain ⟨ws,hc,hf⟩ := call_commits P o w _
    cases hc with
    | other hs => rw [live_congr (flushAll_frame hs hf)]

end Calls

section Runs
variable {P : Platform} {o : Nat → Reading} {w : World DB Mail}

theorem live_callAll (h : Sessions P w.db) (cs : List Call) (u : UUID) (x : Option UUID) :
    live (callAll P o w cs).db u x + successes P o (Call.logsOut P u x) w cs =
      live w.db u x + successes P o (Call.logsIn P u x) w cs := by
  induction cs generalizing w with
  | nil => rfl
  | cons c cs ih =>
    have hstep := live_call (o := o) h c u x
    have hrest := ih (h.call (o := o) c)
    simp only [callAll,List.foldl_cons,successes] at hrest ⊢
    omega

theorem live_refreshes (h : Sessions P w.db) (tokens : List String) (u : UUID) (x : Option UUID) :
    live (callAll P o w (tokens.map .refresh)).db u x = live w.db u x := by
  induction tokens generalizing w with
  | nil => rfl
  | cons token tokens ih =>
    have hstep := live_call (o := o) h (.refresh token) u x
    rw [success_other (k := Call.logsIn P u x) rfl,
      success_other (k := Call.logsOut P u x) rfl] at hstep
    exact (ih (h.call _)).trans hstep

/-- The live sessions of a user with a tenant option are his logins with it less the logouts of
his tokens with it, after any run from an empty table; no number of refreshes changes them. -/
theorem sessions_conserved (hw : w.db.refreshTokens = []) (cs : List Call) (u : UUID)
    (x : Option UUID) :
    (live (callAll P o w cs).db u x : ℤ) =
        successes P o (Call.logsIn P u x) w cs - successes P o (Call.logsOut P u x) w cs ∧
      ∀ tokens : List String,
        live (callAll P o w (cs ++ tokens.map .refresh)).db u x =
          live (callAll P o w cs).db u x := by
  have hstart : Sessions P w.db := by
    constructor <;> simp [hw]
  have hzero : live w.db u x = 0 := by
    simp [live,hw]
  refine ⟨?_,fun tokens => ?_⟩
  · have hrun := live_callAll (o := o) hstart cs u x
    omega
  · rw [callAll_append]
    exact live_refreshes hstart.callAll tokens u x

/-- The guest logs in twice within a second, refreshes one of the equal tokens, and logs out. -/
theorem sessions_conserved_guest :
    let token := refreshTokenAt (plainPlatform {}) 2 none 1000
    (live (callAll (plainPlatform {}) (Seed.readings 1000) (Seed.world [])
      [.login ⟨"guest@example.com","pw"⟩ none,.login ⟨"guest@example.com","pw"⟩ none,
        .refresh token,.logout token]).db 2 none : ℤ) = 1 :=
  (sessions_conserved rfl _ 2 none).1.trans (by decide +kernel)

end Runs

section Chains
variable (P : Platform) (o : Nat → Reading) (w : World DB Mail) (u : UUID) (x : Option UUID)

/-- The call `c` behind the calls `cs` returned the pair, at the end of a chain of refreshes that
begins with a login of the user `u` with the tenant option `x`. -/
inductive Chain : List Call → Call → TokenData → Prop
  | login {cs : List Call} {payload : LoginRequest} {v : User} {tokens : TokenData}
      (hv : (callAll P o w cs).db.users.find? (fun v => v.email = P.lower payload.email) = some v)
      (hu : v.id = u)
      (h : (call P o (callAll P o w cs) (.login payload x)).1 = .ok tokens) :
    Chain cs (.login payload x) tokens
  | refresh {cs cs' : List Call} {c : Call} {tokens tokens' : TokenData} (hc : Chain cs c tokens)
      (h : (call P o (callAll P o w (cs ++ c :: cs')) (.refresh tokens.refreshToken)).1 =
        .ok tokens') :
    Chain (cs ++ c :: cs') (.refresh tokens.refreshToken) tokens'

/-- At every instant the token decodes to the user and the tenant, or has expired. -/
def DecodesTo (token : String) (k : TokenType) : Prop :=
  ∀ t, decodeAt P token (some k) t = .ok ⟨u,k,x⟩ ∨ decodeAt P token (some k) t = .error tokenExpired

/-- The pair is what `issue_token_pair` makes for the user and the tenant, its row is stored now,
and the tenant, if there is one, admitted the user before. -/
structure IssuedFor (d d' : DB) (tokens : TokenData) : Prop where
  pair : ∃ n, tokens = pairAt P o n u x
  row : ∃ r ∈ d'.refreshTokens, r.tokenHash = hashToken P tokens.refreshToken
  scope : AuthService.InScope d u x

end Chains

section ChainRuns
variable {P : Platform} {o : Nat → Reading} {w : World DB Mail} {u : UUID} {x : Option UUID}
  {cs : List Call} {c : Call} {tokens : TokenData}

theorem decodes_session (k : TokenType) (expiresAt : Nat) :
    DecodesTo P u x (P.jwtEncode (sessionClaims k u x expiresAt)) k := by
  intro t
  unfold decodeAt
  rw [P.jwtVerify_encode]
  by_cases ht : seconds expiresAt*1000000 ≤ t
  · exact .inr (by simp [sessionClaims,ht])
  · exact .inl (by simp [sessionClaims,ht])

theorem IssuedFor.row_of {d d' e : DB} (hi : IssuedFor P o u x d d' tokens) (h : Sessions P e)
    {r : RefreshToken} (hr : r ∈ e.refreshTokens)
    (hh : r.tokenHash = hashToken P tokens.refreshToken) : r.userId = u ∧ r.tenantId = x := by
  obtain ⟨n,rfl⟩ := hi.pair
  have hclaims := h.row hr hh
  rw [pairAt,refreshTokenAt,P.jwtVerify_encode] at hclaims
  simp only [sessionClaims,Option.some.injEq,Claims.mk.injEq] at hclaims
  exact ⟨hclaims.1.symm,hclaims.2.2.2.1.symm⟩

theorem callAll_snoc : callAll P o w (cs ++ [c]) = (call P o (callAll P o w cs) c).2 := by
  rw [callAll_append]
  rfl

theorem Chain.issuedFor (hstart : Sessions P w.db) (h : Chain P o w u x cs c tokens) :
    IssuedFor P o u x (callAll P o w cs).db (callAll P o w (cs ++ [c])).db tokens := by
  induction h with
  | @login cs payload v tokens hv hu h =>
    rw [callAll_snoc,call_db,Call.prog]
    rcases AuthService.login_cases P o (callAll P o w cs).db (callAll P o w cs).taken
      (callAll P o w cs).sent payload x with ⟨hno,-⟩ | ⟨v',hl,hr,hf⟩
    · have hok := congrArg Outcome.isOk h
      exact absurd (hno.symm.trans hok) (by simp)
    · have hv' : v' = v := Option.some.inj (hl.user.symm.trans hv)
      have htokens : tokens = pairAt P o (callAll P o w cs).taken v'.id x :=
        Outcome.ok.inj (h.symm.trans hr)
      rw [hv',hu] at htokens hf
      refine ⟨⟨_,htokens⟩,⟨issuedAt P o (callAll P o w cs).taken u x,?_,?_⟩,?_⟩
      · rw [(flushAll_single.mp hf).2]
        exact List.mem_append_right _ (List.mem_singleton_self _)
      · rw [htokens]
        rfl
      · have hscope := hl.scope
        rwa [hv',hu] at hscope
  | @refresh cs cs' c tokens tokens' hc h ih =>
    rw [callAll_snoc,call_db,Call.prog]
    generalize hw' : callAll P o w (cs ++ c :: cs') = w' at h
    rcases AuthService.refresh_cases P o w'.db w'.taken w'.sent tokens.refreshToken with
      ⟨hno,-⟩ | ⟨i,r,hl,hr,hf⟩
    · have hok := congrArg Outcome.isOk h
      exact absurd (hno.symm.trans hok) (by simp)
    · have hsessions : Sessions P w'.db := hw' ▸ hstart.callAll
      obtain ⟨hmem,-,huser,-⟩ := Presented.live hsessions hl.presented
      -- The user comes from the claims, the tenant from the row: both are those of the pair.
      have hfound := List.find?_some hl.presented.row
      simp only [decide_eq_true_eq] at hfound
      obtain ⟨hru,hrx⟩ := ih.row_of hsessions hmem hfound.1
      have hi : i.subject = u := huser.symm.trans hru
      have htokens : tokens' = pairAt P o (w'.taken+3) i.subject r.tenantId :=
        Outcome.ok.inj (h.symm.trans hr)
      obtain ⟨-,hf'⟩ := flushAll_cons.mp hf
      rw [hi,hrx] at htokens hf'
      refine ⟨⟨_,htokens⟩,⟨issuedAt P o (w'.taken+3) u x,?_,?_⟩,?_⟩
      · rw [(flushAll_single.mp hf').2]
        exact List.mem_append_right _ (List.mem_singleton_self _)
      · rw [htokens]
        rfl
      · have hscope := hl.scope
        rwa [hi,hrx] at hscope

/-- Refresh chains change neither user nor tenant: both tokens of a pair at the end of one decode
to those of its login, so does its row in every later state, and the user was an active member of
the tenant when the pair was issued. -/
theorem refresh_chain (hw : w.db.refreshTokens = []) (h : Chain P o w u x cs c tokens) :
    DecodesTo P u x tokens.accessToken .access ∧ DecodesTo P u x tokens.refreshToken .refresh ∧
      (∃ r ∈ (callAll P o w (cs ++ [c])).db.refreshTokens,
        r.tokenHash = hashToken P tokens.refreshToken) ∧
      (∀ cs', ∀ r ∈ (callAll P o w (cs ++ c :: cs')).db.refreshTokens,
        r.tokenHash = hashToken P tokens.refreshToken → r.userId = u ∧ r.tenantId = x) ∧
      ∀ t ∈ x, ∃ m ∈ (callAll P o w cs).db.members, m.tenantId = t ∧ m.userId = u ∧
        m.isActive = true := by
  have hstart : Sessions P w.db := by
    constructor <;> simp [hw]
  have hi := h.issuedFor hstart
  refine ⟨?_,?_,hi.row,fun cs' r hr hh => hi.row_of hstart.callAll hr hh,fun t ht => ?_⟩
  · obtain ⟨n,rfl⟩ := hi.pair
    exact decodes_session _ _
  · obtain ⟨n,rfl⟩ := hi.pair
    exact decodes_session _ _
  · obtain ⟨m,hm⟩ := Option.isSome_iff_exists.mp (hi.scope t ht)
    obtain ⟨hmem,hmt,hmu,hact⟩ := TenantService.membershipOf_mem hm
    exact ⟨m,hmem,hmt,hmu,hact⟩

/-- The owner logs in to his tenant 1000 and refreshes once. -/
theorem refresh_chain_owner :
    DecodesTo (plainPlatform {}) 1 (some 1000)
      (pairAt (plainPlatform {}) (Seed.readings 1000).read 10 1 (some 1000)).refreshToken
      .refresh := by
  have hlogin : (call (plainPlatform {}) (Seed.readings 1000) (callAll (plainPlatform {})
      (Seed.readings 1000) (Seed.world []) [.createTenant "A" "a" 1])
        (.login ⟨"owner@example.com","pw"⟩ (some 1000))).1 =
          .ok (pairAt (plainPlatform {}) (Seed.readings 1000).read 4 1 (some 1000)) := by
    change (serve Write.apply _ (AuthService.login _ _ _) _).1 =
      (.ok _ : Outcome Exc Fault TokenData)
    decide +kernel
  have hrefresh : (call (plainPlatform {}) (Seed.readings 1000) (callAll (plainPlatform {})
      (Seed.readings 1000) (Seed.world []) ([.createTenant "A" "a" 1] ++
        .login ⟨"owner@example.com","pw"⟩ (some 1000) :: []))
        (.refresh (refreshTokenAt (plainPlatform {}) 1 (some 1000) 5000))).1 =
          .ok (pairAt (plainPlatform {}) (Seed.readings 1000).read 10 1 (some 1000)) := by
    change (serve Write.apply _ (AuthService.refresh _ _) _).1 =
      (.ok _ : Outcome Exc Fault TokenData)
    decide +kernel
  have hchain := Chain.refresh (.login (v := Seed.owner) (by decide +kernel) rfl hlogin) hrefresh
  exact (refresh_chain rfl hchain).2.1

end ChainRuns

end TenantAuth
