import TenantAuth.Footprint
import TenantAuth.Seed
set_option autoImplicit false

/-! To whom token pairs are issued. `login` asks for an active account, `refresh` does not:
it relies on nobody being deactivated while one of his refresh tokens is still good. -/

namespace TenantAuth
open Transact

/-- The request is a login or a refresh that is answered with the pair `tokens`. -/
def Issues (P : Platform) (o : Readings) (w : World DB Mail) (q : Request) (tokens : TokenData) :
    Prop :=
  ((∃ payload, q.route = .auth (.login payload)) ∨ ∃ token, q.route = .auth (.refresh token)) ∧
    (handle P o w q).1 = .success 200 (.tokens tokens)

def TokenData.IsFor (P : Platform) (tokens : TokenData) (u : UUID) (x : Option UUID) : Prop :=
  ∃ expiresAt, P.jwtVerify tokens.accessToken = some (sessionClaims .access u x expiresAt)

/-- The user has a refresh token that is neither revoked nor, at `t`, expired. -/
def HoldsRefreshToken (d : DB) (u : UUID) (t : Nat) : Prop :=
  ∃ r ∈ d.refreshTokens, r.userId = u ∧ r.revokedAt = none ∧ t < r.expiresAt

/-- The request sets `is_active` to false for a user who holds a refresh token. -/
def Strands (o : Readings) (w : World DB Mail) (q : Request) : Prop :=
  ∃ u payload, q.route = .admin (.updateUser u payload) ∧ payload.isActive = some (some false) ∧
    HoldsRefreshToken w.db u (o.read w.taken).now

/-- The states reached without such a request. -/
inductive ReachableUnstranded (P : Platform) (o : Readings) : World DB Mail → Prop
  | start {w : World DB Mail} (h : Deployed w.db) : ReachableUnstranded P o w
  | serve {w : World DB Mail} (h : ReachableUnstranded P o w) {q : Request}
      (hq : ¬ Strands o w q) : ReachableUnstranded P o (handle P o w q).2

def ActiveUser (d : DB) (u : UUID) : Prop := ∃ a ∈ d.users, a.id = u ∧ a.isActive = true

section Pairs
variable {P : Platform} {o : Readings} {w : World DB Mail} {q : Request} {tokens : TokenData}

theorem pairAt_isFor {n : Nat} {u u' : UUID} {x x' : Option UUID} :
    (pairAt P o.read n u x).IsFor P u' x' ↔ u = u' ∧ x = x' := by
  simp only [TokenData.IsFor,pairAt,accessTokenAt,P.jwtVerify_encode,Option.some.injEq]
  constructor
  · rintro ⟨expiresAt,h⟩
    simp only [sessionClaims,Claims.mk.injEq,Option.some.injEq] at h
    exact ⟨h.1,h.2.2.2.1⟩
  · rintro ⟨rfl,rfl⟩
    exact ⟨_,rfl⟩

theorem Issues.checked (h : Issues P o w q tokens) :
    (∃ payload x u, q.route = .auth (.login payload) ∧
      AuthService.LoginChecked P w.db payload x u ∧
      tokens = pairAt P o.read (endpointStart P w q) u.id x) ∨
    ∃ token i r, q.route = .auth (.refresh token) ∧
      AuthService.RefreshChecked P o.read (endpointStart P w q) w.db token i r ∧
      tokens = pairAt P o.read (endpointStart P w q + 3) i.subject r.tenantId := by
  obtain ⟨hroute,hresp⟩ := h
  rw [handle_eq] at hresp
  cases hadm : admission P q.authorization q.xTenantId (o.read w.taken).now w.db with
  | raised e => rw [hadm] at hresp; cases hresp
  | fault f => rw [hadm] at hresp; cases hresp
  | ok verdict =>
    cases verdict with
    | error e => rw [hadm] at hresp; cases hresp
    | ok context =>
      simp only [hadm,serve,Request.endpoint] at hresp
      replace hresp := respond_eq_success hresp
      rcases hroute with ⟨payload,hq⟩ | ⟨token,hq⟩
      · left
        simp only [hq,AuthRoute.endpoint,AuthRouter.login] at hresp
        cases hx : AuthRouter.loginTenantId P q.xTenantId with
        | error e => simp [hx] at hresp
        | ok x =>
          simp only [hx] at hresp
          obtain ⟨td,hok,htd⟩ := (exec_bind_pure_ok ..).mp hresp
          cases htd
          rcases AuthService.login_cases P o.read w.db (endpointStart P w q) w.sent payload x with
            ⟨hno,-⟩ | ⟨u,hc,hr,-⟩
          · simp [hok] at hno
          · exact ⟨payload,x,u,hq,hc,Outcome.ok.inj (hok.symm.trans hr)⟩
      · right
        simp only [hq,AuthRoute.endpoint,AuthRouter.refresh] at hresp
        obtain ⟨td,hok,htd⟩ := (exec_bind_pure_ok ..).mp hresp
        cases htd
        rcases AuthService.refresh_cases P o.read w.db (endpointStart P w q) w.sent token with
          ⟨hno,-⟩ | ⟨i,r,hc,hr,-⟩
        · simp [hok] at hno
        · exact ⟨token,i,r,hq,hc,Outcome.ok.inj (hok.symm.trans hr)⟩

end Pairs

section Holders
variable {d d' : DB}

/-- Whoever holds a refresh token is an active user. -/
def HoldersActive (d : DB) (t : Nat) : Prop := ∀ u, HoldsRefreshToken d u t → ActiveUser d u

theorem HoldsRefreshToken.of_le {u : UUID} {s t : Nat} (h : HoldsRefreshToken d u t)
    (hst : s ≤ t) : HoldsRefreshToken d u s := by
  obtain ⟨r,hr,hu,hl,ht⟩ := h
  exact ⟨r,hr,hu,hl,Nat.lt_of_le_of_lt hst ht⟩

theorem HoldersActive.mono {t : Nat} (h : HoldersActive d t) (hr : SameIn .refreshTokens d d')
    (hu : d.users ⊆ d'.users) : HoldersActive d' t := by
  simp only [SameIn] at hr
  intro u hx
  simp only [HoldsRefreshToken,hr] at hx
  obtain ⟨a,ha,hid,hact⟩ := h u hx
  exact ⟨a,hu ha,hid,hact⟩

theorem HoldersActive.congr {t : Nat} (h : HoldersActive d t) (hr : SameIn .refreshTokens d d')
    (hu : SameIn .users d d') : HoldersActive d' t := by
  simp only [SameIn] at hu
  exact h.mono hr (by simp [hu])

theorem ActiveUser.update {k u : UUID} {f : User → User} (hkey : ∀ r, (f r).id = r.id)
    (hact : k = u → ∀ r, r.isActive = true → (f r).isActive = true) (h : ActiveUser d u) :
    ActiveUser { d with users := update User.id k f d.users } u := by
  obtain ⟨a,ha,hid,ht⟩ := h
  exact exists_mem_update ha (fun hk => ⟨(hkey a).trans hid,hact (hk.symm.trans hid) a ht⟩) ⟨hid,ht⟩

theorem UserPatch.diff_isActive {u r : User} {p : UserPatch} (t : Nat)
    (hp : p.isActive ≠ some (some false)) (hr : r.isActive = true) :
    ((p.diff u).apply t r).isActive = true := by
  simp only [UserPatch.apply,UserPatch.diff,changed]
  rcases hx : p.isActive with _ | _ | _ | _
  · simpa using hr
  · simpa using hr
  · exact absurd hx hp
  · split <;> simp [hr]

theorem HoldersActive.userWrites {u : User} {p : UserPatch} {s t : Nat} (h : HoldersActive d t)
    (hp : p.isActive = some (some false) → ¬ HoldsRefreshToken d u.id t)
    (hf : flushAll Write.apply (AuthService.userWrites u p s) d = .ok d') :
    HoldersActive d' t := by
  obtain ⟨f,hform,rfl⟩ := AuthService.userWrites_flush hf
  intro v hv
  have hv' : HoldsRefreshToken d v t := hv
  rcases hform with rfl | rfl
  · exact (h v hv').update (fun _ => rfl) fun _ _ hr => hr
  · exact (h v hv').update (fun _ => rfl) fun he _ hr =>
      UserPatch.diff_isActive s (fun hx => hp hx (he ▸ hv')) hr

theorem HoldersActive.userWrites_append {u : User} {p : UserPatch} {s t : Nat} {w : Write}
    (h : HoldersActive d t) (hp : p.isActive ≠ some (some false))
    (hw : .users ∉ w.touches ∧ .refreshTokens ∉ w.touches)
    (hf : flushAll Write.apply (AuthService.userWrites u p s ++ [w]) d = .ok d') :
    HoldersActive d' t := by
  obtain ⟨d1,h1,hf⟩ := flushAll_append_iff.mp hf
  obtain ⟨-,rfl⟩ := flushAll_single.mp hf
  exact (h.userWrites (fun hx => absurd hx hp) h1).congr (Write.effect_frame _ hw.2)
    (Write.effect_frame _ hw.1)

theorem HoldersActive.insert {r : RefreshToken} {t : Nat} (h : HoldersActive d t)
    (hr : ActiveUser d r.userId)
    (hf : flushAll Write.apply [.insertRefreshToken r] d = .ok d') : HoldersActive d' t := by
  obtain ⟨-,rfl⟩ := flushAll_single.mp hf
  rintro u ⟨r',hr',hu,hl,ht⟩
  rcases List.mem_append.mp hr' with hr' | hr'
  · exact h u ⟨r',hr',hu,hl,ht⟩
  · rw [List.mem_singleton.mp hr'] at hu
    exact hu ▸ hr

theorem HoldersActive.revoke {id : UUID} {s t : Nat} (h : HoldersActive d t)
    (hf : flushAll Write.apply [.revokeRefreshToken id s] d = .ok d') : HoldersActive d' t := by
  obtain ⟨-,rfl⟩ := flushAll_single.mp hf
  rintro u ⟨r',hr',hu,hl,ht⟩
  rcases mem_update.mp hr' with ⟨r,-,-,rfl⟩ | ⟨hr,-⟩
  · cases hl
  · exact h u ⟨r',hr,hu,hl,ht⟩

theorem HoldersActive.deleteUser {id : UUID} {t : Nat} (h : HoldersActive d t)
    (hf : flushAll Write.apply [.deleteUser id] d = .ok d') : HoldersActive d' t := by
  obtain ⟨-,rfl⟩ := flushAll_single.mp hf
  rintro u ⟨r,hr,hu,hl,ht⟩
  obtain ⟨hr,hid⟩ := mem_delete.mp hr
  obtain ⟨a,ha,hau,hact⟩ := h u ⟨r,hr,hu,hl,ht⟩
  exact ⟨a,mem_delete.mpr ⟨ha,hau.trans hu.symm ▸ hid⟩,hau,hact⟩

end Holders

section Steps
variable {P : Platform} {o : Readings} {d d' : DB} {t n : Nat} {ws : List Write}

theorem HoldersActive.auth {x : Option String} {r : AuthRoute} (h : HoldersActive d t)
    (ht : t ≤ (o.read n).now) (hc : AuthCommit P o.read n d x r ws)
    (hf : flushAll Write.apply ws d = .ok d') : HoldersActive d' t := by
  cases hc with
  | nothing => exact Except.ok.inj hf ▸ h
  | register hc =>
    cases hc with
    | nothing => exact Except.ok.inj hf ▸ h
    | userOnly _ _ =>
      obtain ⟨-,rfl⟩ := flushAll_single.mp hf
      exact h.mono rfl (List.subset_append_left _ _)
    | all _ _ =>
      obtain ⟨-,hf⟩ := flushAll_cons.mp hf
      obtain ⟨-,rfl⟩ := flushAll_single.mp hf
      exact h.mono rfl (List.subset_append_left _ _)
  | login _ hc =>
    exact h.insert ⟨_,List.mem_of_find?_eq_some hc.user,rfl,hc.active⟩ hf
  | logout hc => exact h.revoke hf
  | refresh hc =>
    rename_i token i r
    have hr := List.mem_of_find?_eq_some hc.presented.row
    have hp := List.find?_some hc.presented.row
    simp only [decide_eq_true_eq] at hp
    obtain ⟨-,hu,hl⟩ := hp
    have hlt : t < r.expiresAt := Nat.lt_of_le_of_lt (ht.trans (o.now_le (by omega))) hc.unexpired
    -- The user of the presented row holds it, so he is active.
    have ha : ActiveUser d i.subject := h _ ⟨r,hr,hu,hl,hlt⟩
    obtain ⟨hv,hf'⟩ := flushAll_cons.mp hf
    refine (h.revoke (flushAll_single.mpr ⟨hv,rfl⟩)).insert ?_ hf'
    exact ha
  | verifyEmail hc => exact h.userWrites_append (by simp) (by simp [Write.touches]) hf
  | forgotPassword hc =>
    obtain ⟨-,rfl⟩ := flushAll_single.mp hf
    exact h.congr rfl rfl
  | resetPassword hc => exact h.userWrites_append (by simp) (by simp [Write.touches]) hf

theorem HoldersActive.admin {r : AdminRoute} (h : HoldersActive d t)
    (hq : ∀ u payload, r = .updateUser u payload → payload.isActive = some (some false) →
      ¬ HoldsRefreshToken d u t)
    (hc : AdminCommit o.read n d r ws) (hf : flushAll Write.apply ws d = .ok d') :
    HoldersActive d' t := by
  cases hc with
  | updateUser hu =>
    have hid := List.find?_some hu
    simp only [decide_eq_true_eq] at hid
    exact h.userWrites (fun hp => hid ▸ hq _ _ rfl hp) hf
  | deleteUser hu => exact h.deleteUser hf
  | nothing => exact Except.ok.inj hf ▸ h
  | _ =>
    exact h.congr (flushAll_frame (by simp [Write.touches]) hf)
      (flushAll_frame (by simp [Write.touches]) hf)

/-- A request that deactivates no holder of a refresh token leaves every holder active. -/
theorem HoldersActive.handle {w : World DB Mail} {q : Request}
    (h : HoldersActive w.db (o.read w.taken).now) (hq : ¬ Strands o w q) :
    HoldersActive (handle P o w q).2.db (o.read (handle P o w q).2.taken).now := by
  have hstart : (o.read w.taken).now ≤ (o.read (endpointStart P w q)).now :=
    o.now_le (Nat.le_add_right _ _)
  have hlater : (o.read w.taken).now ≤ (o.read (TenantAuth.handle P o w q).2.taken).now :=
    o.now_le (handle_taken_le P o w q)
  suffices hs : HoldersActive (TenantAuth.handle P o w q).2.db (o.read w.taken).now from
    fun u hu => hs u (hu.of_le hlater)
  obtain ⟨ws,hc,hf⟩ := handle_commits P o w q
  cases hc with
  | idle => exact Except.ok.inj hf ▸ h
  | auth _ hc => exact h.auth hstart hc hf
  | tenant _ _ hc => exact h.congr (hc.frame (by simp) hf) (hc.frame (by simp) hf)
  | admin hroute _ hc =>
    exact h.admin (fun u payload hr hp hu => hq ⟨u,payload,hroute.trans (hr ▸ rfl),hp,hu⟩) hc hf

theorem ReachableUnstranded.holdersActive {w : World DB Mail} (h : ReachableUnstranded P o w) :
    HoldersActive w.db (o.read w.taken).now := by
  induction h with
  | start h =>
    rintro u ⟨r,hr,-⟩
    rw [h.refreshTokens] at hr
    cases hr
  | serve _ hq ih => exact ih.handle hq

/-- As long as nobody is deactivated who holds a refresh token, the user of every pair that
is issued exists and is active. -/
theorem issued_active {w : World DB Mail} {q : Request} {tokens : TokenData} {u : UUID}
    {x : Option UUID} (h : ReachableUnstranded P o w) (hi : Issues P o w q tokens)
    (hu : tokens.IsFor P u x) : ActiveUser w.db u := by
  rcases hi.checked with ⟨payload,y,a,-,hc,rfl⟩ | ⟨token,i,r,-,hc,rfl⟩
  · obtain ⟨rfl,-⟩ := pairAt_isFor.mp hu
    exact ⟨a,List.mem_of_find?_eq_some hc.user,rfl,hc.active⟩
  · obtain ⟨rfl,-⟩ := pairAt_isFor.mp hu
    have hr := List.mem_of_find?_eq_some hc.presented.row
    have hp := List.find?_some hc.presented.row
    simp only [decide_eq_true_eq] at hp
    have hlt : (o.read w.taken).now < r.expiresAt :=
      Nat.lt_of_le_of_lt (o.now_le (by unfold endpointStart; omega)) hc.unexpired
    exact h.holdersActive _ ⟨r,hr,hp.2.1,hp.2.2,hlt⟩

/-- The guest logs in, the administrator deactivates himself, who has no refresh token, and the
guest refreshes. -/
theorem issued_active_refresh :
    ActiveUser (after (plainPlatform {}) (Seed.readings 0) (Seed.world [⟨1,Seed.superAdmin⟩])
      [Seed.login,Seed.request 1 (.admin (.updateUser 1 { isActive := some false }))]).db 2 := by
  have hlogin : ¬ Strands (Seed.readings 0) (Seed.world [⟨1,Seed.superAdmin⟩]) Seed.login := by
    rintro ⟨u,payload,hroute,-⟩
    cases hroute
  have hadmin : ¬ Strands (Seed.readings 0)
      (after (plainPlatform {}) (Seed.readings 0) (Seed.world [⟨1,Seed.superAdmin⟩]) [Seed.login])
      (Seed.request 1 (.admin (.updateUser 1 { isActive := some false }))) := by
    rintro ⟨u,payload,hroute,-,hholds⟩
    cases hroute
    revert hholds
    unfold HoldsRefreshToken
    decide +kernel
  have hrun := ReachableUnstranded.serve (P := plainPlatform {}) (.serve (.start
    (Seed.deployed_world (by simp) (by simp) (by simp [Seed.roles]))) hlogin) hadmin
  have hi : Issues (plainPlatform {}) (Seed.readings 0)
      (after (plainPlatform {}) (Seed.readings 0) (Seed.world [⟨1,Seed.superAdmin⟩])
        [Seed.login,Seed.request 1 (.admin (.updateUser 1 { isActive := some false }))])
      { route := .auth (.refresh (refreshTokenAt (plainPlatform {}) 2 none 0)) }
      (pairAt (plainPlatform {}) (Seed.readings 0).read 0 2 none) :=
    ⟨.inr ⟨_,rfl⟩,by decide +kernel⟩
  exact issued_active hrun hi (pairAt_isFor.mpr ⟨rfl,rfl⟩)

/-- The guest logs in, is deactivated, and refreshes. -/
theorem issued_active_fails :
    ¬ ∀ (P : Platform) (o : Readings) (w : World DB Mail) (q : Request) (tokens : TokenData)
      (u : UUID) (x : Option UUID), Reachable P o w → Issues P o w q tokens →
      tokens.IsFor P u x → ActiveUser w.db u := by
  intro h
  let q : Request :=
    { route := .auth (.refresh (refreshTokenAt (plainPlatform {}) 2 none 0)) }
  have hstart : Reachable (plainPlatform {}) (Seed.readings 0) (Seed.world [⟨1,Seed.superAdmin⟩]) :=
    .start (Seed.deployed_world (by simp) (by simp) (by simp [Seed.roles]))
  have hact := h (plainPlatform {}) (Seed.readings 0) _ q
    (pairAt (plainPlatform {}) (Seed.readings 0).read 0 2 none) 2 none
    (hstart.after [Seed.login,Seed.request 1 (.admin (.updateUser 2 { isActive := some false }))])
    ⟨.inr ⟨_,rfl⟩,by decide +kernel⟩ (pairAt_isFor.mpr ⟨rfl,rfl⟩)
  revert hact
  unfold ActiveUser
  decide +kernel

end Steps

end TenantAuth
