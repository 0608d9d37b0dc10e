import TenantAuth.Calls
import TenantAuth.Footprint
set_option autoImplicit false

/-! Refresh tokens over runs of service calls. A token string is the claims of its user,
tenant and expiry second, so two tokens minted alike are one string with two rows; apart
from that, a row that was revoked once answers for its string for good. -/

namespace TenantAuth
open Transact

def callAll (P : Platform) (o : Nat → Reading) (w : World DB Mail) (cs : List Call) :
    World DB Mail :=
  cs.foldl (fun w c => (call P o w c).2) w

def Call.Consumes (token : String) (c : Call) : Prop := c = .refresh token ∨ c = .logout token

section Collisions
variable (P : Platform) (o : Nat → Reading) (w : World DB Mail)

/-- The call passes the checks in front of a new refresh token of the user `u` with tenant
`x`, minted at the instant `t`. -/
inductive Mints : Call → UUID → Option UUID → Nat → Prop
  | login {payload : LoginRequest} {x : Option UUID} {u : User}
      (h : AuthService.LoginChecked P w.db payload x u) :
    Mints (.login payload x) u.id x (o (w.taken+1)).now
  | refresh {token : String} {i : TokenPayload} {r : RefreshToken}
      (h : AuthService.RefreshChecked P o w.taken w.db token i r) :
    Mints (.refresh token) i.subject r.tenantId (o (w.taken+4)).now

/-- A token of the same user and tenant that expires in the same second is stored already. -/
def Collides (c : Call) : Prop :=
  ∃ u x t, Mints P o w c u x t ∧ ∃ r ∈ w.db.refreshTokens, r.userId = u ∧ r.tenantId = x ∧
    seconds r.expiresAt = seconds (t + timedeltaDays P.settings.jwtRefreshExpireDays)

/-- No call of the run mints a token that collides. -/
def CollisionFree : World DB Mail → List Call → Prop
  | _, [] => True
  | w, c :: cs => ¬ Collides P o w c ∧ CollisionFree (call P o w c).2 cs

end Collisions

/-- The rows of the refresh tokens: one to a key, and each stored under the hash of the token
with the row's own user, tenant and expiry. -/
structure Sessions (P : Platform) (d : DB) : Prop where
  key : (d.refreshTokens.map RefreshToken.id).Nodup
  minted : ∀ r ∈ d.refreshTokens, r.tokenHash =
    hashToken P (P.jwtEncode (sessionClaims .refresh r.userId r.tenantId r.expiresAt))

/-- The rows of the refresh tokens: one to a key and one to a hash, which is that of the
token with the row's user, tenant and expiry. -/
structure Ledger (P : Platform) (d : DB) : Prop where
  key : (d.refreshTokens.map RefreshToken.id).Nodup
  hash : (d.refreshTokens.map RefreshToken.tokenHash).Nodup
  minted : ∀ r ∈ d.refreshTokens, r.tokenHash =
    hashToken P (P.jwtEncode (sessionClaims .refresh r.userId r.tenantId r.expiresAt))

def Spent (P : Platform) (d : DB) (token : String) : Prop :=
  ∃ r ∈ d.refreshTokens, r.tokenHash = hashToken P token ∧ r.revokedAt ≠ none

section Rows
variable {P : Platform} {d d' : DB} {token : String}

theorem Sessions.congr (h : Sessions P d) (hr : SameIn .refreshTokens d d') : Sessions P d' := by
  simp only [SameIn] at hr
  exact ⟨hr ▸ h.key,hr ▸ h.minted⟩

theorem Sessions.insert {r : RefreshToken} (h : Sessions P d)
    (hm : r.tokenHash =
      hashToken P (P.jwtEncode (sessionClaims .refresh r.userId r.tenantId r.expiresAt)))
    (hv : (Write.insertRefreshToken r).violation d = none) :
    Sessions P ((Write.insertRefreshToken r).effect d) := by
  simp only [Write.violation,firstViolation_eq_none,List.forall_mem_cons,vacant_iff] at hv
  refine ⟨nodup_append_key h.key hv.1,fun r' hr' => ?_⟩
  rcases List.mem_append.mp hr' with hr' | hr'
  · exact h.minted r' hr'
  · rw [List.mem_singleton.mp hr']
    exact hm

theorem Sessions.revoke {id : UUID} {t : Nat} (h : Sessions P d) :
    Sessions P ((Write.revokeRefreshToken id t).effect d) := by
  have hkey := map_update RefreshToken.id id (f := fun r => { r with revokedAt := some t })
    (g := RefreshToken.id) (fun _ => rfl) d.refreshTokens
  refine ⟨hkey ▸ h.key,fun r' hr' => ?_⟩
  rcases mem_update.mp hr' with ⟨r,hr,-,rfl⟩ | ⟨hr,-⟩
  · exact h.minted r hr
  · exact h.minted r' hr

theorem Ledger.sessions (h : Ledger P d) : Sessions P d := ⟨h.key,h.minted⟩

theorem Ledger.congr (h : Ledger P d) (hr : SameIn .refreshTokens d d') : Ledger P d' := by
  simp only [SameIn] at hr
  exact ⟨hr ▸ h.key,hr ▸ h.hash,hr ▸ h.minted⟩

theorem Spent.congr (h : Spent P d token) (hr : SameIn .refreshTokens d d') :
    Spent P d' token := by
  simp only [SameIn] at hr
  simpa only [Spent,hr] using h

theorem Ledger.insert {r : RefreshToken} (h : Ledger P d)
    (hm : r.tokenHash =
      hashToken P (P.jwtEncode (sessionClaims .refresh r.userId r.tenantId r.expiresAt)))
    (hnew : ∀ r' ∈ d.refreshTokens, r'.userId = r.userId → r'.tenantId = r.tenantId →
      seconds r'.expiresAt ≠ seconds r.expiresAt)
    (hf : flushAll Write.apply [.insertRefreshToken r] d = .ok d') : Ledger P d' := by
  obtain ⟨hv,rfl⟩ := flushAll_single.mp hf
  -- Equal hashes are equal claims: the same user, tenant and second.
  have hfresh : r.tokenHash ∉ d.refreshTokens.map RefreshToken.tokenHash := by
    intro hk
    obtain ⟨r',hr',he⟩ := List.mem_map.mp hk
    rw [h.minted r' hr',hm] at he
    have hclaims := P.jwtEncode_injective (P.sha256_injective he)
    simp only [sessionClaims,Claims.mk.injEq,Option.some.injEq] at hclaims
    exact hnew r' hr' hclaims.1 hclaims.2.2.2.1 hclaims.2.2.1
  have hs : Sessions P ((Write.insertRefreshToken r).effect d) := h.sessions.insert hm hv
  exact ⟨hs.key,nodup_append_key h.hash hfresh,hs.minted⟩

theorem Spent.insert {r : RefreshToken} (h : Spent P d token)
    (hf : flushAll Write.apply [.insertRefreshToken r] d = .ok d') : Spent P d' token := by
  obtain ⟨-,rfl⟩ := flushAll_single.mp hf
  obtain ⟨r',hr',hrest⟩ := h
  exact ⟨r',List.mem_append_left _ hr',hrest⟩

theorem Ledger.revoke {id : UUID} {t : Nat} (h : Ledger P d)
    (hf : flushAll Write.apply [.revokeRefreshToken id t] d = .ok d') : Ledger P d' := by
  obtain ⟨-,rfl⟩ := flushAll_single.mp hf
  have hs : Sessions P ((Write.revokeRefreshToken id t).effect d) := h.sessions.revoke
  have hhash := map_update RefreshToken.id id (f := fun r => { r with revokedAt := some t })
    (g := RefreshToken.tokenHash) (fun _ => rfl) d.refreshTokens
  exact ⟨hs.key,hhash ▸ h.hash,hs.minted⟩

theorem Spent.revoke {id : UUID} {t : Nat} (h : Spent P d token)
    (hf : flushAll Write.apply [.revokeRefreshToken id t] d = .ok d') : Spent P d' token := by
  obtain ⟨-,rfl⟩ := flushAll_single.mp hf
  obtain ⟨r,hr,hh,hs⟩ := h
  exact exists_mem_update hr (fun _ => ⟨hh,by simp⟩) ⟨hh,hs⟩

theorem Spent.of_revoke {r : RefreshToken} {t : Nat} (hr : r ∈ d.refreshTokens)
    (hh : r.tokenHash = hashToken P token)
    (hf : flushAll Write.apply [.revokeRefreshToken r.id t] d = .ok d') : Spent P d' token := by
  obtain ⟨-,rfl⟩ := flushAll_single.mp hf
  exact ⟨_,mem_update.mpr (.inl ⟨r,hr,rfl,rfl⟩),hh,by simp⟩

theorem Ledger.not_presented {i : TokenPayload} {r : RefreshToken} {t : Nat} (h : Ledger P d)
    (hs : Spent P d token) : ¬ AuthService.Presented P d token t i r := by
  intro hp
  obtain ⟨r',hr',hh',hrev⟩ := hs
  have hr := List.mem_of_find?_eq_some hp.row
  have hl := List.find?_some hp.row
  simp only [decide_eq_true_eq] at hl
  rw [eq_of_key h.hash hr' hr (hh'.trans hl.1.symm)] at hrev
  exact hrev hl.2.2

end Rows

section Calls
variable {P : Platform} {o : Nat → Reading} {w : World DB Mail} {c : Call} {token : String}

/-- What a call commits, as far as the refresh tokens are concerned. -/
inductive CallCommit (P : Platform) (o : Nat → Reading) (w : World DB Mail) : Call → List Write → Prop
  | login {payload : LoginRequest} {x : Option UUID} {u : User}
      (h : AuthService.LoginChecked P w.db payload x u) :
    CallCommit P o w (.login payload x) [.insertRefreshToken (issuedAt P o w.taken u.id x)]
  | logout {token : String} {i : TokenPayload} {r : RefreshToken}
      (h : AuthService.Presented P w.db token (o w.taken).now i r) :
    CallCommit P o w (.logout token) [.revokeRefreshToken r.id (o (w.taken+1)).now]
  | refresh {token : String} {i : TokenPayload} {r : RefreshToken}
      (h : AuthService.RefreshChecked P o w.taken w.db token i r) :
    CallCommit P o w (.refresh token) (AuthService.rotation P o w.taken i r)
  | other {c : Call} {ws : List Write} (h : ∀ v ∈ ws, .refreshTokens ∉ v.touches) :
    CallCommit P o w c ws

theorem call_db : (call P o w c).2.db =
    ((c.prog P).exec Write.apply o ⟨w.db,w.db,[],w.taken,w.sent⟩).2.db := rfl

theorem CallCommit.idle : ∃ ws, CallCommit P o w c ws ∧ flushAll Write.apply ws w.db = .ok w.db :=
  ⟨[],.other (by simp),rfl⟩

theorem CallCommit.of_mayWrite (h : ∀ v, c.MayWrite v → .refreshTokens ∉ v.touches) :
    ∃ ws, CallCommit P o w c ws ∧ flushAll Write.apply ws w.db = .ok (call P o w c).2.db := by
  obtain ⟨ws,hws,hf⟩ := call_rel keeps_flushAll o w h
  exact ⟨ws,.other hws,hf⟩

theorem call_commits (P : Platform) (o : Nat → Reading) (w : World DB Mail) (c : Call) :
    ∃ ws, CallCommit P o w c ws ∧ flushAll Write.apply ws w.db = .ok (call P o w c).2.db := by
  cases c with
  | login payload x =>
    rw [call_db,Call.prog]
    rcases AuthService.login_cases P o w.db w.taken w.sent payload x with
      ⟨-,hd⟩ | ⟨u,h,-,hf⟩
    · rw [hd]
      exact CallCommit.idle
    · exact ⟨_,.login h,hf⟩
  | logout token =>
    rw [call_db,Call.prog]
    rcases AuthService.logout_cases P o w.db w.taken w.sent token with
      ⟨-,hd⟩ | ⟨i,r,h,-,hf⟩
    · rw [hd]
      exact CallCommit.idle
    · exact ⟨_,.logout h,hf⟩
  | refresh token =>
    rw [call_db,Call.prog]
    rcases AuthService.refresh_cases P o w.db w.taken w.sent token with
      ⟨-,hd⟩ | ⟨i,r,h,-,hf⟩
    · rw [hd]
      exact CallCommit.idle
    · exact ⟨_,.refresh h,hf⟩
  | _ =>
    refine CallCommit.of_mayWrite fun v hv => ?_
    cases v with
    | insertRefreshToken r => exact hv.elim
    | revokeRefreshToken id t => exact hv.elim
    | deleteUser id => exact hv.elim
    | _ => simp [Write.touches]

theorem call_consumes (hc : c.Consumes token) (hok : (call P o w c).1.isOk = true) :
    (∃ i r, AuthService.Presented P w.db token (o w.taken).now i r) ∧
      Spent P (call P o w c).2.db token := by
  have hspent : ∀ {i : TokenPayload} {r : RefreshToken} {t : Nat} {d' : DB},
      AuthService.Presented P w.db token (o w.taken).now i r →
      flushAll Write.apply [.revokeRefreshToken r.id t] w.db = .ok d' → Spent P d' token := by
    intro i r t d' hp hf
    have hh := List.find?_some hp.row
    simp only [decide_eq_true_eq] at hh
    exact Spent.of_revoke (List.mem_of_find?_eq_some hp.row) hh.1 hf
  rw [call_db]
  rcases hc with rfl | rfl
  · rcases AuthService.refresh_cases P o w.db w.taken w.sent token with
      ⟨hno,-⟩ | ⟨i,r,hr,-,hf⟩
    · exact absurd (hok.symm.trans hno) (by simp)
    · obtain ⟨hv,hf'⟩ := flushAll_cons.mp hf
      exact ⟨⟨i,r,hr.presented⟩,
        (hspent hr.presented (flushAll_single.mpr ⟨hv,rfl⟩)).insert hf'⟩
  · rcases AuthService.logout_cases P o w.db w.taken w.sent token with
      ⟨hno,-⟩ | ⟨i,r,hr,-,hf⟩
    · exact absurd (hok.symm.trans hno) (by simp)
    · exact ⟨⟨i,r,hr⟩,hspent hr hf⟩

theorem Spent.call (h : Spent P w.db token) (c : Call) : Spent P (call P o w c).2.db token := by
  obtain ⟨ws,hc,hf⟩ := call_commits P o w c
  cases hc with
  | login _ => exact h.insert hf
  | logout _ => exact h.revoke hf
  | refresh _ =>
    obtain ⟨hv,hf'⟩ := flushAll_cons.mp hf
    exact (h.revoke (flushAll_single.mpr ⟨hv,rfl⟩)).insert hf'
  | other hs => exact h.congr (flushAll_frame hs hf)

theorem Ledger.call (h : Ledger P w.db) (hn : ¬ Collides P o w c) :
    Ledger P (call P o w c).2.db := by
  obtain ⟨ws,hc,hf⟩ := call_commits P o w c
  cases hc with
  | login hl =>
    exact h.insert rfl (fun r hr hu hx ht => hn ⟨_,_,_,.login hl,r,hr,hu,hx,ht⟩) hf
  | logout _ => exact h.revoke hf
  | refresh hl =>
    obtain ⟨hv,hf'⟩ := flushAll_cons.mp hf
    refine (h.revoke (flushAll_single.mpr ⟨hv,rfl⟩)).insert rfl (fun r hr hu hx ht => ?_) hf'
    -- Revoking moves no row to another user, tenant or second.
    rcases mem_update.mp hr with ⟨r1,hr1,-,rfl⟩ | ⟨hr1,-⟩
    · exact hn ⟨_,_,_,.refresh hl,r1,hr1,hu,hx,ht⟩
    · exact hn ⟨_,_,_,.refresh hl,r,hr1,hu,hx,ht⟩
  | other hs => exact h.congr (flushAll_frame hs hf)

end Calls

section Runs
variable {P : Platform} {o : Nat → Reading} {w : World DB Mail} {token : String}

theorem callAll_append (cs cs' : List Call) :
    callAll P o w (cs ++ cs') = callAll P o (callAll P o w cs) cs' := List.foldl_append

theorem Ledger.callAll {cs : List Call} (h : Ledger P w.db) (hcs : CollisionFree P o w cs) :
    Ledger P (callAll P o w cs).db := by
  induction cs generalizing w with
  | nil => exact h
  | cons c cs ih => exact ih (h.call hcs.1) hcs.2

theorem Spent.callAll {cs : List Call} (h : Spent P w.db token) :
    Spent P (callAll P o w cs).db token := by
  induction cs generalizing w with
  | nil => exact h
  | cons c cs ih => exact ih (h.call c)

/-- In a run in which no token collides, a refresh token that one call has consumed is
consumed by no later call. -/
theorem revocation_final {cs cs' : List Call} {c c' : Call} (hw : w.db.refreshTokens = [])
    (hcs : CollisionFree P o w (cs ++ c :: cs')) (hc : c.Consumes token)
    (hc' : c'.Consumes token) (hok : (call P o (callAll P o w cs) c).1.isOk = true) :
    (call P o (callAll P o w (cs ++ c :: cs')) c').1.isOk = false := by
  have hstart : Ledger P w.db := by
    refine ⟨?_,?_,?_⟩ <;> simp [hw]
  have hledger : Ledger P (callAll P o w (cs ++ c :: cs')).db := hstart.callAll hcs
  have hspent : Spent P (callAll P o w (cs ++ c :: cs')).db token := by
    rw [callAll_append]
    exact (call_consumes hc hok).2.callAll
  cases hr : (call P o (callAll P o w (cs ++ c :: cs')) c').1.isOk with
  | false => rfl
  | true =>
    obtain ⟨i,r,hp⟩ := (call_consumes hc' hr).1
    exact absurd hp (hledger.not_presented hspent)

/-- The guest logs in and out, and then tries the token again. -/
theorem revocation_final_logout :
    let token := refreshTokenAt (plainPlatform {}) 2 none 1000
    (call (plainPlatform {}) (Seed.readings 1000) (callAll (plainPlatform {}) (Seed.readings 1000)
      (Seed.world []) [.login ⟨"guest@example.com","pw"⟩ none,.logout token])
        (.refresh token)).1.isOk = false := by
  refine @revocation_final _ _ _ _ [.login ⟨"guest@example.com","pw"⟩ none] [] _ _ rfl
    ⟨?_,?_,trivial⟩ (.inr rfl) (.inl rfl) (by decide +kernel)
  · rintro ⟨_,_,_,-,r,hr,-⟩
    cases hr
  · rintro ⟨_,_,_,h,-⟩
    cases h

/-- Two logins within a second are one token and two rows: it can be used up twice. -/
theorem revocation_final_fails :
    ¬ ∀ (P : Platform) (o : Readings) (w : World DB Mail) (cs cs' : List Call) (c c' : Call)
      (token : String), w.db.refreshTokens = [] → c.Consumes token → c'.Consumes token →
      (call P o (callAll P o w cs) c).1.isOk = true →
      (call P o (callAll P o w (cs ++ c :: cs')) c').1.isOk = false := by
  intro h
  let token := refreshTokenAt (plainPlatform {}) 2 none 1000
  have hno := h (plainPlatform {}) (Seed.readings 1000) (Seed.world [])
    [.login ⟨"guest@example.com","pw"⟩ none,.login ⟨"guest@example.com","pw"⟩ none] []
    (.logout token) (.refresh token) token rfl (.inr rfl) (.inl rfl) (by decide +kernel)
  revert hno
  decide +kernel

end Runs

end TenantAuth
