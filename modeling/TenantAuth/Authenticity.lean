import TenantAuth.Endurance
set_option autoImplicit false

namespace TenantAuth
open Transact

section Minting
variable (P : Platform) (o : Readings) (w : World DB Mail)

/-- The requests, served from `w` on, end with the grant of the pair. It descends from a login of
the user with his password, and each refresh on the way presents the refresh token of the pair
before, while that is good and the user belongs to the tenant of the session. -/
inductive Descends (u : UUID) (x : Option UUID) : List Request → TokenData → Prop
  | login {qs : List Request} {q : Request} {payload : LoginRequest} {v : User}
      {tokens : TokenData} (hq : q.route = .auth (.login payload)) (hu : v.id = u)
      (hv : AuthService.LoginChecked P (after P o w qs).db payload x v)
      (h : Issues P o (after P o w qs) q tokens) : Descends u x (qs ++ [q]) tokens
  | refresh {qs qs' : List Request} {q : Request} {tokens tokens' : TokenData}
      (hd : Descends u x qs tokens)
      (hq : q.route = .auth (.refresh tokens.refreshToken))
      (hscope : AuthService.InScope (after P o w (qs ++ qs')).db u x)
      (htime : (o.read (endpointStart P (after P o w (qs ++ qs')) q)).now <
        deadline P tokens.refreshToken)
      (h : Issues P o (after P o w (qs ++ qs')) q tokens') :
    Descends u x (qs ++ qs' ++ [q]) tokens'

/-- The token was given out in a response or in a mail to one of the requests. -/
inductive GivenOut (qs : List Request) : String → Prop
  | access {qs₁ qs₂ : List Request} {q : Request} {tokens : TokenData} (hqs : qs = qs₁ ++ q :: qs₂)
      (h : Issues P o (after P o w qs₁) q tokens) : GivenOut qs tokens.accessToken
  | refresh {qs₁ qs₂ : List Request} {q : Request} {tokens : TokenData} (hqs : qs = qs₁ ++ q :: qs₂)
      (h : Issues P o (after P o w qs₁) q tokens) : GivenOut qs tokens.refreshToken
  | mailed {k : TokenType} {u : User} {t : Nat} (h : Minted P o w qs k u t) :
    GivenOut qs (oneTimeToken P k u t)

/-- Whatever bearer string of the request verifies was given out before. -/
def Unforged (qs : List Request) (q : Request) : Prop :=
  ∀ credentials, P.httpBearer q.authorization = some credentials →
    (P.jwtVerify credentials.credentials).isSome → GivenOut P o w qs credentials.credentials

end Minting

def RefreshToken.owned (r : RefreshToken) : UUID × Option UUID × String :=
  (r.userId,r.tenantId,r.tokenHash)

section Rows
variable {P : Platform} {d d' : DB} {ws : List Write} {x : UUID × Option UUID × String}

theorem flushAll_owned (hf : flushAll Write.apply ws d = .ok d')
    (hx : x ∈ d'.refreshTokens.map RefreshToken.owned) :
    x ∈ d.refreshTokens.map RefreshToken.owned ∨
      ∃ v ∈ ws, ∃ r, v = .insertRefreshToken r ∧ r.owned = x := by
  refine flushAll_origin (fun d => d.refreshTokens.map RefreshToken.owned)
    (fun v x => ∃ r, v = .insertRefreshToken r ∧ r.owned = x) (fun {v d d' x} ha hx => ?_) hf hx
  rw [(Write.apply_eq_ok.mp ha).2] at hx
  cases v with
  | insertRefreshToken r =>
    simp only [Write.effect,List.map_append,List.mem_append,List.map_cons,List.map_nil,
      List.mem_singleton] at hx
    exact hx.imp_right fun h => ⟨r,rfl,h.symm⟩
  | revokeRefreshToken id t =>
    obtain ⟨r,hr,rfl⟩ := List.mem_map.mp hx
    rcases mem_update.mp hr with ⟨a,ha,-,rfl⟩ | ⟨hr,-⟩
    · exact .inl (List.mem_map.mpr ⟨a,ha,rfl⟩)
    · exact .inl (List.mem_map_of_mem hr)
  | deleteUser id =>
    obtain ⟨r,hr,rfl⟩ := List.mem_map.mp hx
    exact .inl (List.mem_map_of_mem (mem_delete.mp hr).1)
  | _ => exact .inl hx

end Rows

section Runs
variable {P : Platform} {o : Readings} {w : World DB Mail} {q : Request} {qs : List Request}

theorem granted_owned {x : UUID × Option UUID × String}
    (hx : x ∈ (handle P o w q).2.db.refreshTokens.map RefreshToken.owned) :
    x ∈ w.db.refreshTokens.map RefreshToken.owned ∨ ∃ tokens, Issues P o w q tokens ∧
      tokens.IsFor P x.1 x.2.1 ∧ x.2.2 = hashToken P tokens.refreshToken := by
  by_cases hroute : q.IsIssuing
  · rcases issuance_cases hroute with ⟨-,hd⟩ | ⟨m,u,y,ws,-,hresp,hws,hf⟩
    · exact .inl (hd ▸ hx)
    rcases flushAll_owned hf hx with hx | ⟨v,hv,r,rfl,rfl⟩
    · exact .inl hx
    rcases List.mem_append.mp hv with hv | hv
    · obtain ⟨id,t,h⟩ := hws _ hv
      cases h
    · obtain rfl := Write.insertRefreshToken.inj (List.mem_singleton.mp hv)
      exact .inr ⟨_,⟨hroute,hresp⟩,pairAt_isFor.mpr ⟨rfl,rfl⟩,rfl⟩
  · obtain ⟨ws,hc,hf⟩ := handle_commits P o w q
    rcases flushAll_owned hf hx with hx | ⟨v,hv,r,rfl,-⟩
    · exact .inl hx
    · exact absurd (hc.issues hv).1 hroute

theorem row_granted {x : UUID × Option UUID × String} (hw : w.db.refreshTokens = [])
    (hx : x ∈ (after P o w qs).db.refreshTokens.map RefreshToken.owned) :
    ∃ qs₁ q qs₂ tokens, qs = qs₁ ++ q :: qs₂ ∧ Issues P o (after P o w qs₁) q tokens ∧
      tokens.IsFor P x.1 x.2.1 ∧ x.2.2 = hashToken P tokens.refreshToken := by
  induction qs using List.reverseRecOn with
  | nil => simp [after,hw] at hx
  | append_singleton qs q ih =>
    rw [after_append] at hx
    rcases granted_owned hx with hx | ⟨tokens,h⟩
    · obtain ⟨qs₁,q₁,qs₂,tokens,rfl,h⟩ := ih hx
      exact ⟨qs₁,q₁,qs₂ ++ [q],tokens,by simp,h⟩
    · exact ⟨qs,q,[],tokens,rfl,h⟩

/-- Every pair that is granted in a run descends from a login. -/
theorem Issues.descends {tokens : TokenData} (hw : w.db.refreshTokens = [])
    (h : Issues P o (after P o w qs) q tokens) :
    ∃ u x, tokens.IsFor P u x ∧ Descends P o w u x (qs ++ [q]) tokens := by
  -- A refresh leads back to the earlier request that stored its row.
  induction hn : qs.length using Nat.strong_induction_on generalizing qs q tokens with
  | _ n ih =>
    rcases h.checked with ⟨payload,x,v,hq,hv,htokens⟩ | ⟨token,i,r,hq,hc,htokens⟩
    · exact ⟨v.id,x,htokens ▸ pairAt_isFor.mpr ⟨rfl,rfl⟩,.login hq rfl hv h⟩
    have hfound := List.find?_some hc.presented.row
    simp only [decide_eq_true_eq] at hfound
    obtain ⟨qs₁,q₁,qs₂,tokens₁,hqs,h₁,hfor₁,hhash₁⟩ := row_granted (x := r.owned) hw
      (List.mem_map_of_mem (List.mem_of_find?_eq_some hc.presented.row))
    obtain rfl : tokens₁.refreshToken = token :=
      P.sha256_injective (hhash₁.symm.trans hfound.1)
    have hlt : qs₁.length < n := by
      rw [← hn,hqs,List.length_append,List.length_cons]
      omega
    obtain ⟨u,x,hfor,hd⟩ := ih _ hlt h₁ rfl
    obtain ⟨m,u',x',-,rfl,-⟩ := h₁.stored
    obtain ⟨hu',hx'⟩ := pairAt_isFor.mp hfor
    obtain ⟨hr1,hr2⟩ := pairAt_isFor.mp hfor₁
    have hru : i.subject = u := hfound.2.1.symm.trans (hr1.symm.trans hu')
    have hrx : r.tenantId = x := hr2.symm.trans hx'
    refine ⟨u,x,?_,?_⟩
    · rw [htokens,hru,hrx]
      exact pairAt_isFor.mpr ⟨rfl,rfl⟩
    · have hsplit : qs = (qs₁ ++ [q₁]) ++ qs₂ := by simp [hqs]
      have hscope := hc.scope
      rw [hru,hrx] at hscope
      rw [hsplit] at h hscope hc ⊢
      exact .refresh hd hq hscope (before_deadline hc.presented.decoded) h

theorem ActsAs.presents {a : User} (h : ActsAs P o w q a) :
    a ∈ w.db.users ∧ a.isActive = true ∧ ∃ credentials i,
      P.httpBearer q.authorization = some credentials ∧
      decodeAt P credentials.credentials (some .access) (o.read (endpointStart P w q)).now = .ok i ∧
      i.subject = a.id := by
  obtain ⟨ha,hact⟩ := authenticate_ok h
  refine ⟨ha,hact,?_⟩
  unfold ActsAs authenticate at h
  split at h
  · cases h
  rename_i credentials hc
  split at h
  · cases h
  split at h
  · cases h
  rename_i i hi
  split at h
  · cases h
  rename_i b hb
  cases h
  have hp := List.find?_some hb
  simp only [decide_eq_true_eq] at hp
  exact ⟨credentials,i,hc,hi,hp.1.symm⟩

theorem GivenOut.granted {token : String} {t : Nat} {i : TokenPayload}
    (h : GivenOut P o w qs token) (hi : decodeAt P token (some .access) t = .ok i) :
    ∃ qs₁ q qs₂ tokens, qs = qs₁ ++ q :: qs₂ ∧ Issues P o (after P o w qs₁) q tokens ∧
      token = tokens.accessToken := by
  cases h with
  | access hqs h => exact ⟨_,_,_,_,hqs,h,rfl⟩
  | refresh hqs h =>
    obtain ⟨m,u,x,-,rfl,-⟩ := h.stored
    simp only [decodeAt,pairAt,refreshTokenAt,P.jwtVerify_encode,sessionClaims] at hi
    split at hi
    · cases hi
    · simp at hi
  | mailed h =>
    obtain ⟨qs₁,q,qs₂,-,h⟩ := h
    cases h <;> simp only [decodeAt,oneTimeToken,createTypedToken,P.jwtVerify_encode] at hi <;>
      split at hi <;> simp at hi

/-- Nobody acts without having logged in. Where a request acts for a user, by a bearer string that is
not forged, the user is active and the string is the access token of a pair before its deadline;
and the pair descends from a login of that user with his password, over refreshes each of which was
in time and within the tenant that both tokens of the pair name. -/
theorem acting_authenticated {a : User} (hw : Deployed w.db)
    (h : ActsAs P o (after P o w qs) q a) (hforged : Unforged P o w qs q) :
    a ∈ (after P o w qs).db.users ∧ a.isActive = true ∧
      ∃ credentials qs₁ qs₂ x m, P.httpBearer q.authorization = some credentials ∧
        qs = qs₁ ++ qs₂ ∧ Descends P o w a.id x qs₁ (pairAt P o.read m a.id x) ∧
        credentials.credentials = (pairAt P o.read m a.id x).accessToken ∧
        (o.read (endpointStart P (after P o w qs) q)).now < (o.read m).now + lifetime P .access := by
  obtain ⟨ha,hact,credentials,i,hc,hi,hid⟩ := h.presents
  have hverified : (P.jwtVerify credentials.credentials).isSome := by
    cases hv : P.jwtVerify credentials.credentials with
    | none => simp [decodeAt,hv] at hi
    | some c => rfl
  obtain ⟨qs₁,q₁,qs₂,tokens,hqs,hissues,htoken⟩ := (hforged credentials hc hverified).granted hi
  obtain ⟨u,x,hfor,hd⟩ := hissues.descends hw.refreshTokens
  obtain ⟨m,u',x',-,rfl,-⟩ := hissues.stored
  obtain ⟨rfl,rfl⟩ := pairAt_isFor.mp hfor
  rw [htoken] at hi
  have hbefore := before_deadline hi
  simp only [pairAt,accessTokenAt,decodeAt_access] at hi
  obtain rfl : u' = a.id := by
    split at hi
    · cases hi
    · cases hi
      exact hid
  refine ⟨ha,hact,credentials,qs₁ ++ [q₁],qs₂,x',m,hc,by simp [hqs],hd,htoken,?_⟩
  simp only [deadline,pairAt,accessTokenAt,P.jwtVerify_encode,sessionClaims] at hbefore
  exact Nat.lt_of_lt_of_le hbefore (seconds_le _)

/-- The guest logs in, refreshes, and asks who he is. -/
theorem acting_authenticated_guest :
    let refreshing : Request :=
      { route := .auth (.refresh (refreshTokenAt (plainPlatform {}) 2 none 1000)) }
    ∃ qs₁ qs₂ x m, [Seed.login,refreshing] = qs₁ ++ qs₂ ∧
      Descends (plainPlatform {}) (Seed.readings 1000) (Seed.world []) 2 x qs₁
        (pairAt (plainPlatform {}) (Seed.readings 1000).read m 2 x) := by
  intro refreshing
  let asking : Request :=
    { authorization := Seed.bearer (plainPlatform {}) 2 none 6000, route := .me }
  have hissues : Issues (plainPlatform {}) (Seed.readings 1000)
      (after (plainPlatform {}) (Seed.readings 1000) (Seed.world []) [Seed.login]) refreshing
      (pairAt (plainPlatform {}) (Seed.readings 1000).read 6 2 none) :=
    ⟨.inr ⟨_,rfl⟩,by decide +kernel⟩
  have hbearer : (plainPlatform {}).httpBearer asking.authorization =
      some ⟨"Bearer",accessTokenAt (plainPlatform {}) 2 none 6000⟩ :=
    (plainPlatform {}).httpBearer_bearer _ ((plainPlatform {}).jwtEncode_compact _)
  have hunforged : Unforged (plainPlatform {}) (Seed.readings 1000) (Seed.world [])
      [Seed.login,refreshing] asking := by
    intro credentials hc _
    rw [hbearer] at hc
    cases hc
    have hqs : [Seed.login,refreshing] = [Seed.login] ++ refreshing :: [] := rfl
    exact .access hqs hissues
  have hacts : ActsAs (plainPlatform {}) (Seed.readings 1000)
      (after (plainPlatform {}) (Seed.readings 1000) (Seed.world []) [Seed.login,refreshing]) asking
      Seed.guest := by
    rw [ActsAs]
    decide +kernel
  obtain ⟨-,-,-,qs₁,qs₂,x,m,-,hqs,hd,-⟩ := acting_authenticated
    (Seed.deployed_world (by simp) (by simp) (by simp)) hacts hunforged
  exact ⟨qs₁,qs₂,x,m,hqs,hd⟩

end Runs

end TenantAuth
