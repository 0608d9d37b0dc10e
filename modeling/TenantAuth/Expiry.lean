import TenantAuth.Credentials
import TenantAuth.DoubleSpend
set_option autoImplicit false

/-! When a token expires. The deadline stands in its claims, in whole seconds, and in its row, in
microseconds; `decode_token` goes by the one and the services by the other. -/

namespace TenantAuth
open Transact

/-- What a row of the three token tables keeps for the check of its expiry. -/
structure StoredExpiry where
  tokenHash : String
  expiresAt : Nat
  deriving DecidableEq, Repr

def StoredExpiry.ofRefresh (r : RefreshToken) : StoredExpiry := ⟨r.tokenHash,r.expiresAt⟩
def StoredExpiry.ofOneTime (r : OneTimeToken) : StoredExpiry := ⟨r.tokenHash,r.expiresAt⟩

def storedExpiries : TokenType → DB → List StoredExpiry
  | .refresh, d => d.refreshTokens.map .ofRefresh
  | k, d => (oneTimeTokens k d).map .ofOneTime

def lifetime (P : Platform) : TokenType → Nat
  | .access => timedeltaMinutes P.settings.jwtAccessExpireMinutes
  | .refresh => timedeltaDays P.settings.jwtRefreshExpireDays
  | .verify => oneTimeLifetime .verify
  | .reset => oneTimeLifetime .reset

/-- The kind of token that a route mints and stores, and at which reading of its endpoint. -/
def AuthRoute.mints : AuthRoute → Option (TokenType × Nat)
  | .login _ => some (.refresh,1)
  | .refresh _ => some (.refresh,4)
  | .register _ => some (.verify,3)
  | .forgotPassword _ => some (.reset,0)
  | .logout _ | .verifyEmail _ | .resetPassword _ _ => none

/-- One of the requests, served from `w` on, reached at the instant `t` the point where its route
mints a token of the kind. -/
def MintedAt (P : Platform) (o : Readings) (w : World DB Mail) (qs : List Request) (k : TokenType)
    (t : Nat) : Prop :=
  ∃ qs₁ q qs₂ r i, qs = qs₁ ++ q :: qs₂ ∧ q.route = .auth r ∧ r.mints = some (k,i) ∧
    t = (o.read (endpointStart P (after P o w qs₁) q + i)).now

/-- The row is that of a token minted at `t`: its hash is that of claims which hold the row's
expiry in whole seconds. -/
structure StoredExpiry.Stamps (P : Platform) (k : TokenType) (t : Nat) (x : StoredExpiry) :
    Prop where
  claims : ∃ c, x.tokenHash = hashToken P (P.jwtEncode c) ∧ c.type = some k ∧ c.sub.isSome ∧
    c.exp = seconds x.expiresAt
  expiresAt : x.expiresAt = t + lifetime P k

section Deadlines

theorem seconds_le (e : Nat) : seconds e*1000000 ≤ e := Nat.div_mul_le_self e 1000000

theorem lt_seconds (e : Nat) : e < seconds e*1000000 + 1000000 := by
  unfold seconds
  omega

variable {P : Platform} {k : TokenType} {t : Nat} {x : StoredExpiry} {token : String}

theorem StoredExpiry.Stamps.verify (h : x.Stamps P k t) (hh : hashToken P token = x.tokenHash) :
    ∃ c, P.jwtVerify token = some c ∧ c.type = some k ∧ c.sub.isSome ∧
      c.exp = seconds x.expiresAt := by
  obtain ⟨c,hc,hk,hs,he⟩ := h.claims
  have htoken : token = P.jwtEncode c := P.sha256_injective (hh.trans hc)
  exact ⟨c,htoken ▸ P.jwtVerify_encode c,hk,hs,he⟩

theorem StoredExpiry.Stamps.decode_expired (h : x.Stamps P k t)
    (hh : hashToken P token = x.tokenHash) {n : Nat} (hn : seconds x.expiresAt*1000000 ≤ n)
    (expected : Option TokenType) : decodeAt P token expected n = .error tokenExpired := by
  obtain ⟨c,hc,-,-,he⟩ := h.verify hh
  simp [decodeAt,hc,he,hn]

/-- Before the last whole second of its row a token is not refused for its expiry, and is accepted as
one of its kind. -/
theorem StoredExpiry.Stamps.decode_unexpired (h : x.Stamps P k t)
    (hh : hashToken P token = x.tokenHash) {n : Nat} (hn : n < seconds x.expiresAt*1000000) :
    (∀ expected, decodeAt P token expected n ≠ .error tokenExpired) ∧
      ∃ i, decodeAt P token (some k) n = .ok i ∧ i.tokenType = k := by
  obtain ⟨c,hc,hk,hs,he⟩ := h.verify hh
  obtain ⟨u,hu⟩ := Option.isSome_iff_exists.mp hs
  have hlive : ¬ c.exp*1000000 ≤ n := by
    rw [he]
    omega
  constructor
  · intro expected
    simp only [decodeAt,hc,hlive,if_false,hk,hu,Option.getD_some]
    split <;> simp [invalidTokenType,tokenExpired]
  · exact ⟨⟨u,k,c.tenantId⟩,by simp [decodeAt,hc,hlive,hk,hu],rfl⟩

end Deadlines

section Rows
variable {d d' : DB} {x : StoredExpiry}

theorem Write.effect_refreshExpiry {w : Write} (h : x ∈ storedExpiries .refresh (w.effect d)) :
    x ∈ storedExpiries .refresh d ∨ ∃ r, w = .insertRefreshToken r ∧ x = .ofRefresh r := by
  cases w with
  | insertRefreshToken r =>
    rw [storedExpiries,Write.effect,List.map_append] at h
    rcases List.mem_append.mp h with h | h
    · exact .inl h
    · exact .inr ⟨r,rfl,List.mem_singleton.mp h⟩
  | revokeRefreshToken id t =>
    have hcolumn : storedExpiries .refresh ((Write.revokeRefreshToken id t).effect d) =
        storedExpiries .refresh d :=
      map_update RefreshToken.id id (f := fun r => { r with revokedAt := some t })
        (g := StoredExpiry.ofRefresh) (fun _ => rfl) _
    exact .inl (hcolumn ▸ h)
  | deleteUser id =>
    obtain ⟨r,hr,hx⟩ := List.mem_map.mp h
    exact .inl (List.mem_map.mpr ⟨r,(mem_delete.mp hr).1,hx⟩)
  | _ => exact .inl h

theorem flushAll_refreshExpiry {ws : List Write} (hf : flushAll Write.apply ws d = .ok d')
    (h : x ∈ storedExpiries .refresh d') :
    x ∈ storedExpiries .refresh d ∨ ∃ r, .insertRefreshToken r ∈ ws ∧ x = .ofRefresh r := by
  rcases flushAll_origin (storedExpiries .refresh)
    (fun w x => ∃ r, w = .insertRefreshToken r ∧ x = .ofRefresh r)
    (fun ha hx => Write.effect_refreshExpiry ((Write.apply_eq_ok.mp ha).2 ▸ hx)) hf h with
    h | ⟨w,hw,r,rfl,hx⟩
  · exact .inl h
  · exact .inr ⟨r,hw,hx⟩

end Rows

section Steps
variable {P : Platform} {o : Readings} {w : World DB Mail} {q : Request} {x : StoredExpiry}

theorem issuedAt_stamps (o : Nat → Reading) (n : Nat) (u : UUID) (t : Option UUID) :
    (StoredExpiry.ofRefresh (issuedAt P o n u t)).Stamps P .refresh (o (n+1)).now :=
  ⟨⟨_,rfl,rfl,rfl,rfl⟩,rfl⟩

theorem refresh_minted {n : Nat} {ws : List Write} {r : RefreshToken}
    (hc : RequestCommit P o.read n w.db q ws) (hr : .insertRefreshToken r ∈ ws) :
    ∃ route i, q.route = .auth route ∧ route.mints = some (.refresh,i) ∧
      (StoredExpiry.ofRefresh r).Stamps P .refresh (o.read (n+i)).now := by
  cases hc with
  | idle => cases hr
  | tenant _ _ h =>
    have ht := h.touches _ hr
    simp [Write.touches] at ht
  | admin _ _ h =>
    cases h with
    | nothing => cases hr
    | updateUser h => exact absurd (userWrites_touches _ _ _ _ hr) (by simp [Write.touches])
    | _ => cases List.mem_singleton.mp hr
  | auth hq h =>
    cases h with
    | nothing => cases hr
    | login _ h =>
      cases List.mem_singleton.mp hr
      exact ⟨_,1,hq,rfl,issuedAt_stamps _ _ _ _⟩
    | refresh h =>
      rcases List.mem_cons.mp hr with hr | hr
      · cases hr
      · cases List.mem_singleton.mp hr
        exact ⟨_,4,hq,rfl,issuedAt_stamps _ _ _ _⟩
    | logout h | forgotPassword h => cases List.mem_singleton.mp hr
    | verifyEmail h | resetPassword h =>
      rcases List.mem_append.mp hr with hr | hr
      · exact absurd (userWrites_touches _ _ _ _ hr) (by simp [Write.touches])
      · cases List.mem_singleton.mp hr
    | register h => cases h <;> simp at hr

theorem refreshExpiry_handle (h : x ∈ storedExpiries .refresh (handle P o w q).2.db) :
    x ∈ storedExpiries .refresh w.db ∨ ∃ route i, q.route = .auth route ∧
      route.mints = some (.refresh,i) ∧
      x.Stamps P .refresh (o.read (endpointStart P w q + i)).now := by
  obtain ⟨ws,hc,hf⟩ := handle_commits P o w q
  rcases flushAll_refreshExpiry hf h with h | ⟨r,hr,rfl⟩
  · exact .inl h
  · exact .inr (refresh_minted hc hr)

end Steps

section Runs
variable {P : Platform} {o : Readings} {w : World DB Mail} {qs : List Request} {k : TokenType}
  {x : StoredExpiry}

theorem MintedAt.append {t : Nat} (h : MintedAt P o w qs k t) (qs' : List Request) :
    MintedAt P o w (qs ++ qs') k t := by
  obtain ⟨qs₁,q,qs₂,r,i,rfl,hrest⟩ := h
  exact ⟨qs₁,q,qs₂ ++ qs',r,i,by simp,hrest⟩

theorem Minted.mintedAt {u : User} {t : Nat} (h : Minted P o w qs k u t) :
    MintedAt P o w qs k t := by
  obtain ⟨qs₁,q,qs₂,hqs,hm⟩ := h
  cases hm with
  | register hq hnew hu hrow => exact ⟨qs₁,q,qs₂,_,3,hqs,hq,rfl,rfl⟩
  | forgotPassword hq hu hrow => exact ⟨qs₁,q,qs₂,_,0,hqs,hq,rfl,rfl⟩

theorem refresh_stamped (hw : Deployed w.db) (h : x ∈ storedExpiries .refresh (after P o w qs).db) :
    ∃ t, MintedAt P o w qs .refresh t ∧ x.Stamps P .refresh t := by
  induction qs using List.reverseRecOn with
  | nil =>
    rw [after,List.foldl_nil,storedExpiries,hw.refreshTokens] at h
    cases h
  | append_singleton qs q ih =>
    rw [after_append] at h
    rcases refreshExpiry_handle h with h | ⟨r,i,hq,hi,hs⟩
    · obtain ⟨t,ht,hs⟩ := ih h
      exact ⟨t,ht.append [q],hs⟩
    · exact ⟨_,⟨qs,q,[],r,i,rfl,hq,hi,rfl⟩,hs⟩

/-- Every stored row is that of a token which a request of the run has minted. -/
theorem stored_stamped (hw : Deployed w.db) (h : x ∈ storedExpiries k (after P o w qs).db) :
    ∃ t, MintedAt P o w qs k t ∧ x.Stamps P k t := by
  have honeTime : ∀ k, lifetime P k = oneTimeLifetime k →
      x ∈ (oneTimeTokens k (after P o w qs).db).map .ofOneTime →
      ∃ t, MintedAt P o w qs k t ∧ x.Stamps P k t := by
    intro k hk h
    obtain ⟨r,hr,rfl⟩ := List.mem_map.mp h
    obtain ⟨u,t,hm,-,hh,he⟩ := Traced.after hw k r hr
    refine ⟨t,hm.mintedAt,⟨_,hh,rfl,rfl,?_⟩,?_⟩
    · exact congrArg seconds he.symm
    · exact he.trans (by rw [hk])
  cases k with
  | access => cases h
  | refresh => exact refresh_stamped hw h
  | verify => exact honeTime .verify rfl h
  | reset => exact honeTime .reset rfl h

theorem expired_refused {w : World DB Mail} {q : Request} {r : AuthRoute} {token : String}
    (hq : q.route = .auth r) (hr : r.token = some (k,token))
    (h : decodeAt P token (some k) (o.read (endpointStart P w q)).now = .error tokenExpired) :
    (handle P o w q).1.isSuccess = false ∧ (handle P o w q).2.db = w.db := by
  rcases handle_auth hq with ⟨hno,he⟩ | he
  · exact ⟨hno,by rw [he]⟩
  rw [he,respond_isSuccess]
  have hno : ∀ i, decodeAt P token (some k) (o.read (endpointStart P w q)).now ≠ .ok i := by
    simp [h]
  cases r <;> simp only [AuthRoute.token,reduceCtorEq,Option.some.injEq,Prod.mk.injEq] at hr
  case logout token' =>
    obtain ⟨rfl,rfl⟩ := hr
    simp only [AuthRoute.endpoint,AuthRouter.logout,exec_bind_pure]
    rcases AuthService.logout_cases P o.read w.db (endpointStart P w q) w.sent token' with
      he | ⟨i,row,hp,-⟩
    · exact he
    · exact absurd hp.decoded (hno i)
  case refresh token' =>
    obtain ⟨rfl,rfl⟩ := hr
    simp only [AuthRoute.endpoint,AuthRouter.refresh,exec_bind_pure]
    rcases AuthService.refresh_cases P o.read w.db (endpointStart P w q) w.sent token' with
      he | ⟨i,row,hc,-⟩
    · exact he
    · exact absurd hc.presented.decoded (hno i)
  case verifyEmail token' =>
    obtain ⟨rfl,rfl⟩ := hr
    simp only [AuthRoute.endpoint,AuthRouter.verifyEmail,exec_bind_pure]
    rcases AuthService.verifyEmail_cases P o.read w.db (endpointStart P w q) w.sent token' with
      he | ⟨row,u,⟨⟨i,hi,-⟩,-⟩,-⟩
    · exact he
    · exact absurd hi (hno i)
  case resetPassword token' newPassword =>
    obtain ⟨rfl,rfl⟩ := hr
    simp only [AuthRoute.endpoint,AuthRouter.resetPassword,exec_bind_pure]
    rcases AuthService.resetPassword_cases P o.read w.db (endpointStart P w q) w.sent token'
      newPassword with he | ⟨row,u,hash,⟨⟨i,hi,-⟩,-⟩,-⟩
    · exact he
    · exact absurd hi (hno i)

/-- In every run from a deployment, `decode_token` accepts the expiry of a stored refresh,
verification or reset token just before the last whole second of its row; so where it accepts,
the check of the row does not refuse, from the end of the lifetime on the token is refused, and
until a second before it neither check refuses it. -/
theorem expiry_checks_agree {token : String} (hw : Deployed w.db)
    (hx : x ∈ storedExpiries k (after P o w qs).db) (hh : hashToken P token = x.tokenHash) :
    ∃ m, MintedAt P o w qs k m ∧ x.expiresAt = m + lifetime P k ∧
      (∀ n expected, decodeAt P token expected n ≠ .error tokenExpired ↔
        n < seconds x.expiresAt*1000000) ∧
      (∀ n expected i, decodeAt P token expected n = .ok i → ¬ x.expiresAt ≤ n) ∧
      (∀ n, m + lifetime P k ≤ n →
        (∀ expected, decodeAt P token expected n = .error tokenExpired) ∧ x.expiresAt ≤ n) ∧
      (∀ n, n + 1000000 ≤ m + lifetime P k →
        (∃ i, decodeAt P token (some k) n = .ok i ∧ i.tokenType = k) ∧ ¬ x.expiresAt ≤ n) ∧
      ∀ (o' : Readings) (w' : World DB Mail) (q : Request) (r : AuthRoute), q.route = .auth r →
        r.token = some (k,token) → m + lifetime P k ≤ (o'.read (endpointStart P w' q)).now →
        (handle P o' w' q).1.isSuccess = false ∧ (handle P o' w' q).2.db = w'.db := by
  obtain ⟨m,hm,hs⟩ := stored_stamped hw hx
  have hle := seconds_le x.expiresAt
  have hlt := lt_seconds x.expiresAt
  have he := hs.expiresAt
  have hagree : ∀ n expected, decodeAt P token expected n ≠ .error tokenExpired ↔
      n < seconds x.expiresAt*1000000 := by
    intro n expected
    rcases Nat.lt_or_ge n (seconds x.expiresAt*1000000) with hn | hn
    · exact iff_of_true ((hs.decode_unexpired hh hn).1 expected) hn
    · exact iff_of_false (fun h => h (hs.decode_expired hh hn expected)) (by omega)
  refine ⟨m,hm,he,hagree,?_,?_,?_,?_⟩
  · intro n expected i hi
    have hn := (hagree n expected).mp (by simp [hi])
    omega
  · intro n hn
    exact ⟨hs.decode_expired hh (by omega),by omega⟩
  · intro n hn
    exact ⟨(hs.decode_unexpired hh (by omega)).2,by omega⟩
  · intro o' w' q r hq hr hn
    exact expired_refused hq hr (hs.decode_expired hh (by omega) _)

/-- The guest logs in at an odd half second: his token is good until the whole second before. -/
theorem expiry_checks_agree_login :
    let token := refreshTokenAt (plainPlatform {}) 2 none 1500000
    ∀ n, decodeAt (plainPlatform {}) token none n ≠ .error tokenExpired ↔ n < 604801*1000000 := by
  intro token
  have hrow : StoredExpiry.mk token 604801500000 ∈ storedExpiries .refresh
      (after (plainPlatform {}) (Seed.readings 1500000) (Seed.world []) [Seed.login]).db := by
    decide +kernel
  have hhash : hashToken (plainPlatform {}) token =
      (StoredExpiry.mk token 604801500000).tokenHash := rfl
  obtain ⟨m,-,-,h,-⟩ := expiry_checks_agree
    (Seed.deployed_world (by simp) (by simp) (by simp)) hrow hhash
  have hs : seconds 604801500000 = 604801 := by norm_num [seconds]
  intro n
  have hn := h n none
  rwa [hs] at hn

end Runs

end TenantAuth
