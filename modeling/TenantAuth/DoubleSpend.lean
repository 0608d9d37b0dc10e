import TenantAuth.Concurrency
import TenantAuth.Queues
import TenantAuth.Seed
set_option autoImplicit false

/-! Requests to `auth.py` that run at the same time. Each of them looks its token up, checks
it, and marks the row by its key at the end; nothing holds the row in between. -/

namespace TenantAuth
open Transact

/-- A request behind the tenant middleware: the X-Tenant-ID header and the route. -/
abbrev AuthRequest := Option String × AuthRoute

def AuthRequest.prog (P : Platform) (q : AuthRequest) : App Body := q.2.endpoint P q.1

/-- The token that a success of the route uses up. -/
def AuthRoute.token : AuthRoute → Option (TokenType × String)
  | .refresh token | .logout token => some (.refresh,token)
  | .verifyEmail token => some (.verify,token)
  | .resetPassword token _ => some (.reset,token)
  | .register _ | .login _ | .forgotPassword _ => none

def AuthRequest.token (q : AuthRequest) : Option (TokenType × String) := q.2.token

theorem AuthRequest.alone {P : Platform} {o : Readings} {w : World DB Mail} {q : Request}
    {r : AuthRoute} (hq : q.route = .auth r) (hadm : Admits P q (o.read w.taken).now w.db) :
    ∃ x w', RunsAlone o (AuthRequest.prog P (q.xTenantId,r)) ⟨w.db,endpointStart P w q,w.sent⟩
      x w' ∧ handle P o w q = (respond q.route.statusCode x,w') :=
  Request.alone (by simp only [Request.endpoint,AuthRequest.prog,hq]) hadm

/-- What the three tables of tokens have in common. -/
structure StoredToken where
  id : UUID
  tokenHash : String
  used : Bool
  deriving DecidableEq, Repr

def StoredToken.ofRefresh (r : RefreshToken) : StoredToken := ⟨r.id,r.tokenHash,r.revokedAt.isSome⟩
def StoredToken.ofOneTime (r : OneTimeToken) : StoredToken := ⟨r.id,r.tokenHash,r.usedAt.isSome⟩

def tokenRows : TokenType → DB → List StoredToken
  | .access, _ => []
  | .refresh, d => d.refreshTokens.map .ofRefresh
  | .verify, d => d.verificationTokens.map .ofOneTime
  | .reset, d => d.resetTokens.map .ofOneTime

/-- No two stored tokens are the same string. -/
def DistinctTokens (d : DB) : Prop :=
  ((tokenRows .refresh d).map StoredToken.tokenHash).Nodup ∧
    ((tokenRows .verify d).map StoredToken.tokenHash).Nodup ∧
    ((tokenRows .reset d).map StoredToken.tokenHash).Nodup

instance (d : DB) : Decidable (DistinctTokens d) := by unfold DistinctTokens; infer_instance

def UsedUp (P : Platform) (c : TokenType × String) (d : DB) : Prop :=
  ∃ r ∈ tokenRows c.1 d, r.tokenHash = hashToken P c.2 ∧ r.used = true

/-- Tokens stay in their tables, and used ones stay used. -/
def Ages (d d' : DB) : Prop :=
  ∀ k, ∀ r ∈ tokenRows k d, ∃ r' ∈ tokenRows k d', r'.id = r.id ∧ r'.tokenHash = r.tokenHash ∧
    (r.used = true → r'.used = true)

def Write.marks : Write → Option (TokenType × UUID)
  | .revokeRefreshToken id _ => some (.refresh,id)
  | .useVerificationToken id _ => some (.verify,id)
  | .useResetToken id _ => some (.reset,id)
  | _ => none

def Write.DeletesNobody (w : Write) : Prop := ∀ id, w ≠ .deleteUser id

section Rows
variable {P : Platform} {d d' : DB}

theorem Ages.refl (d : DB) : Ages d d := fun _ r hr => ⟨r,hr,rfl,rfl,id⟩

theorem Ages.trans {a b c : DB} (h1 : Ages a b) (h2 : Ages b c) : Ages a c := by
  intro k r hr
  obtain ⟨r1,hr1,hid1,hh1,hu1⟩ := h1 k r hr
  obtain ⟨r2,hr2,hid2,hh2,hu2⟩ := h2 k r1 hr1
  exact ⟨r2,hr2,hid2.trans hid1,hh2.trans hh1,fun hu => hu2 (hu1 hu)⟩

theorem aged_update {α : Type} {key : α → UUID} {k : UUID} {f : α → α} {g : α → StoredToken}
    (hf : ∀ a, (g (f a)).id = (g a).id ∧ (g (f a)).tokenHash = (g a).tokenHash ∧
      (g (f a)).used = true) {l : List α} {r : StoredToken} (hr : r ∈ l.map g) :
    ∃ r' ∈ (update key k f l).map g, r'.id = r.id ∧ r'.tokenHash = r.tokenHash ∧
      (r.used = true → r'.used = true) := by
  obtain ⟨a,ha,rfl⟩ := List.mem_map.mp hr
  by_cases hk : key a = k
  · obtain ⟨hid,hh,hu⟩ := hf a
    exact ⟨g (f a),List.mem_map_of_mem (mem_update.mpr (.inl ⟨a,ha,hk,rfl⟩)),hid,hh,fun _ => hu⟩
  · exact ⟨g a,List.mem_map_of_mem (mem_update.mpr (.inr ⟨ha,hk⟩)),rfl,rfl,id⟩

theorem aged_append {α : Type} {g : α → StoredToken} (a : α) {l : List α} {r : StoredToken}
    (hr : r ∈ l.map g) :
    ∃ r' ∈ (l ++ [a]).map g, r'.id = r.id ∧ r'.tokenHash = r.tokenHash ∧
      (r.used = true → r'.used = true) :=
  ⟨r,by rw [List.map_append]; exact List.mem_append_left _ hr,rfl,rfl,id⟩

theorem Write.effect_ages {w : Write} (hw : w.DeletesNobody) (d : DB) : Ages d (w.effect d) := by
  intro k r hr
  cases w with
  | deleteUser id => exact absurd rfl (hw id)
  | insertRefreshToken t =>
    cases k with
    | refresh => exact aged_append t hr
    | _ => exact ⟨r,hr,rfl,rfl,id⟩
  | insertVerificationToken t =>
    cases k with
    | verify => exact aged_append t hr
    | _ => exact ⟨r,hr,rfl,rfl,id⟩
  | insertResetToken t =>
    cases k with
    | reset => exact aged_append t hr
    | _ => exact ⟨r,hr,rfl,rfl,id⟩
  | revokeRefreshToken i t =>
    cases k with
    | refresh =>
      exact aged_update (f := fun r : RefreshToken => { r with revokedAt := some t })
        (fun _ => ⟨rfl,rfl,rfl⟩) hr
    | _ => exact ⟨r,hr,rfl,rfl,id⟩
  | useVerificationToken i t =>
    cases k with
    | verify =>
      exact aged_update (f := fun r : OneTimeToken => { r with usedAt := some t })
        (fun _ => ⟨rfl,rfl,rfl⟩) hr
    | _ => exact ⟨r,hr,rfl,rfl,id⟩
  | useResetToken i t =>
    cases k with
    | reset =>
      exact aged_update (f := fun r : OneTimeToken => { r with usedAt := some t })
        (fun _ => ⟨rfl,rfl,rfl⟩) hr
    | _ => exact ⟨r,hr,rfl,rfl,id⟩
  | _ => cases k <;> exact ⟨r,hr,rfl,rfl,id⟩

theorem keeps_ages : Keeps Write.apply Write.DeletesNobody Ages where
  refl := Ages.refl
  trans := Ages.trans
  write hw ha := (Write.apply_eq_ok.mp ha).2 ▸ Write.effect_ages hw _

theorem UsedUp.ages {c : TokenType × String} (h : UsedUp P c d) (ha : Ages d d') :
    UsedUp P c d' := by
  obtain ⟨r,hr,hh,hu⟩ := h
  obtain ⟨r',hr',-,hh',hu'⟩ := ha _ r hr
  exact ⟨r',hr',hh'.trans hh,hu' hu⟩

def Stored (k : TokenType) (id : UUID) (hash : String) (d : DB) : Prop :=
  ∃ r ∈ tokenRows k d, r.id = id ∧ r.tokenHash = hash

theorem Stored.ages {k : TokenType} {id : UUID} {hash : String} (h : Stored k id hash d)
    (ha : Ages d d') : Stored k id hash d' := by
  obtain ⟨r,hr,hid,hh⟩ := h
  obtain ⟨r',hr',hid',hh',-⟩ := ha _ r hr
  exact ⟨r',hr',hid'.trans hid,hh'.trans hh⟩

theorem Write.effect_marks {w : Write} {k : TokenType} {id : UUID} {token : String}
    (hw : w.marks = some (k,id)) (h : Stored k id (hashToken P token) d) :
    UsedUp P (k,token) (w.effect d) := by
  have hmark : ∀ {α : Type} {key : α → UUID} {f : α → α} {g : α → StoredToken} {l : List α},
      (∀ a, (g a).id = key a) →
      (∀ a, (g (f a)).tokenHash = (g a).tokenHash ∧ (g (f a)).used = true) →
      (∃ r ∈ l.map g, r.id = id ∧ r.tokenHash = hashToken P token) →
      ∃ r ∈ (update key id f l).map g, r.tokenHash = hashToken P token ∧ r.used = true := by
    rintro α key f g l hkey hf ⟨r,hr,hid,hh⟩
    obtain ⟨a,ha,rfl⟩ := List.mem_map.mp hr
    exact ⟨g (f a),List.mem_map_of_mem (mem_update.mpr (.inl ⟨a,ha,(hkey a).symm.trans hid,rfl⟩)),
      (hf a).1.trans hh,(hf a).2⟩
  cases w <;> simp only [Write.marks,Option.some.injEq,Prod.mk.injEq,reduceCtorEq] at hw
  all_goals
    obtain ⟨rfl,rfl⟩ := hw
    exact hmark (fun _ => rfl) (fun _ => ⟨rfl,rfl⟩) h

theorem flushAll_marks {ws : List Write} {m : Write} {k : TokenType} {id : UUID} {token : String}
    (hs : ∀ w ∈ ws, w.DeletesNobody) (hm : m ∈ ws) (hmark : m.marks = some (k,id))
    (h : Stored k id (hashToken P token) d) (hf : flushAll Write.apply ws d = .ok d') :
    UsedUp P (k,token) d' := by
  induction ws generalizing d with
  | nil => cases hm
  | cons w ws ih =>
    obtain ⟨-,hf⟩ := flushAll_cons.mp hf
    have hrest : ∀ v ∈ ws, v.DeletesNobody := fun v hv => hs v (List.mem_cons_of_mem _ hv)
    rcases List.mem_cons.mp hm with rfl | hm
    · exact (Write.effect_marks hmark h).ages (flushAll_rel keeps_ages hrest hf)
    · exact ih hrest hm (h.ages (Write.effect_ages (hs w List.mem_cons_self) d)) hf

end Rows

/-- What the other sessions do to the committed state, as far as tokens are concerned. -/
abbrev Rely : DB → DB → Prop := Within Ages DistinctTokens

section Assertions
variable {P : Platform} {ws : List Write} {d : DB}

theorem holds_requireScope {u : UUID} {x : Option UUID} {Q : Unit → List Write → DB → Prop}
    (hd : Rely d d) (h : ∀ d', Rely d d' → Q () ws d') :
    (AuthService.requireScope u x).Holds Write.apply Rely Q ws d := by
  cases x with
  | none => exact h d hd
  | some t =>
    simp only [AuthService.requireScope,AuthService.requireActiveTenantMembership,holds_bind,
      holds_scalar,holds_appErrorIf]
    exact fun d' v hd' _ _ => h d' hd'

end Assertions

section Lookups
variable {P : Platform} {d : DB} {token : String} {i : TokenPayload}

/-- A row that a lookup for the token has found: stored under the token's hash, not used. -/
structure Found (P : Platform) (k : TokenType) (token : String) (id : UUID) (d : DB) : Prop where
  row : Stored k id (hashToken P token) d
  unused : ∃ r ∈ tokenRows k d, r.tokenHash = hashToken P token ∧ r.used = false

theorem found_refresh {r : RefreshToken}
    (h : d.refreshTokens.find? (fun r => r.tokenHash = hashToken P token ∧
      r.userId = i.subject ∧ r.revokedAt = none) = some r) : Found P .refresh token r.id d := by
  have hp := List.find?_some h
  simp only [decide_eq_true_eq] at hp
  have hmem : StoredToken.ofRefresh r ∈ tokenRows .refresh d :=
    List.mem_map_of_mem (List.mem_of_find?_eq_some h)
  exact ⟨⟨_,hmem,rfl,hp.1⟩,_,hmem,hp.1,by simp [StoredToken.ofRefresh,hp.2.2]⟩

theorem found_oneTime {k : TokenType} {table : DB → List OneTimeToken} {r : OneTimeToken}
    (hk : tokenRows k d = (table d).map .ofOneTime)
    (h : (table d).find? (fun r => r.tokenHash = hashToken P token ∧
      r.userId = i.subject ∧ r.usedAt = none) = some r) : Found P k token r.id d := by
  have hp := List.find?_some h
  simp only [decide_eq_true_eq] at hp
  have hmem : StoredToken.ofOneTime r ∈ tokenRows k d :=
    hk ▸ List.mem_map_of_mem (List.mem_of_find?_eq_some h)
  exact ⟨⟨_,hmem,rfl,hp.1⟩,_,hmem,hp.1,by simp [StoredToken.ofOneTime,hp.2.2]⟩

theorem Found.not_usedUp {k : TokenType} {id : UUID} (h : Found P k token id d)
    (hd : ((tokenRows k d).map StoredToken.tokenHash).Nodup) : ¬ UsedUp P (k,token) d := by
  rintro ⟨r,hr,hh,hu⟩
  obtain ⟨r',hr',hh',hu'⟩ := h.unused
  rw [eq_of_key hd hr hr' (hh.trans hh'.symm),hu'] at hu
  cases hu

end Lookups

section Endpoints
variable {P : Platform} {d : DB} {token : String} {x : Option String}
  {Q : Body → List Write → DB → Prop}

/-- `Q` holds behind every commit, later than `d`, whose writes mark a row found for the
token. -/
def AfterMark (P : Platform) (k : TokenType) (token : String) (d : DB)
    (Q : Body → List Write → DB → Prop) : Prop :=
  ∀ {d1 d3 v : DB} {id : UUID} {ws : List Write} {b : Body}, Rely d d1 → Found P k token id d1 →
    Rely d1 d3 → flushAll Write.apply ws d3 = .ok v → (∀ w ∈ ws, w.DeletesNobody) →
    (∃ m ∈ ws, m.marks = some (k,id)) → Q b [] v

theorem refresh_holds
    (h : AfterMark P .refresh token d Q) :
    (AuthRequest.prog P (x,.refresh token)).Holds Write.apply Rely Q [] d := by
  unfold AuthRequest.prog AuthRoute.endpoint AuthRouter.refresh AuthService.refresh
    AuthService.liveRefreshToken
  simp only [holds_bind,holds_decodeToken,holds_scalar,flushAll_nil,Except.ok.injEq]
  rintro y i - d1 v h1 rfl
  cases hr : d1.refreshTokens.find? _ with
  | none => trivial
  | some r =>
    simp only [holds_bind,holds_now,holds_appErrorIf]
    intro _ _
    refine holds_requireScope ⟨Ages.refl _,h1.2⟩ fun d2 h2 => ?_
    simp only [holds_add,holds_flush,List.nil_append]
    intro y3
    refine holds_issueTokenPair fun r' tokens => ?_
    simp only [holds_commit,holds_pure]
    intro d3 v h3 hf _
    exact h h1 (found_refresh hr) (within_trans keeps_ages h2 h3) hf
      (by simp [Write.DeletesNobody]) ⟨_,List.mem_cons_self,rfl⟩

theorem logout_holds
    (h : AfterMark P .refresh token d Q) :
    (AuthRequest.prog P (x,.logout token)).Holds Write.apply Rely Q [] d := by
  unfold AuthRequest.prog AuthRoute.endpoint AuthRouter.logout AuthService.logout
    AuthService.liveRefreshToken
  simp only [holds_bind,holds_decodeToken,holds_scalar,flushAll_nil,Except.ok.injEq]
  rintro y i - d1 v h1 rfl
  cases hr : d1.refreshTokens.find? _ with
  | none => trivial
  | some r =>
    simp only [holds_bind,holds_now,holds_add,holds_commit,holds_pure,List.nil_append]
    intro y3 d3 v h3 hf _
    exact h h1 (found_refresh hr) h3 hf
      (by simp [Write.DeletesNobody]) ⟨_,List.mem_cons_self,rfl⟩

theorem userWrites_deletesNobody {u : User} {p : UserPatch} {t : Nat} {w : Write}
    (hw : w.DeletesNobody) : ∀ v ∈ AuthService.userWrites u p t ++ [w], v.DeletesNobody :=
  AuthService.userWrites_append_forall (by simp [Write.DeletesNobody]) hw

theorem verifyEmail_holds
    (h : AfterMark P .verify token d Q) :
    (AuthRequest.prog P (x,.verifyEmail token)).Holds Write.apply Rely Q [] d := by
  unfold AuthRequest.prog AuthRoute.endpoint AuthRouter.verifyEmail AuthService.verifyEmail
    AuthService.unusedToken AuthService.userById
  simp only [holds_bind,holds_decodeToken,holds_scalar,flushAll_nil,Except.ok.injEq]
  rintro y i - d1 v h1 rfl
  cases hr : d1.verificationTokens.find? _ with
  | none => trivial
  | some r =>
    simp only [holds_bind,holds_now,holds_appErrorIf,holds_scalar,flushAll_nil,Except.ok.injEq]
    rintro _ _ d2 v h2 rfl
    cases hu : d2.users.find? _ with
    | none => trivial
    | some u =>
      simp only [holds_bind,holds_appErrorIf]
      intro _
      refine holds_setUser fun t => ?_
      simp only [holds_now,holds_add,holds_commit,holds_pure,List.nil_append]
      intro y3 d3 v h3 hf _
      exact h h1 (found_oneTime rfl hr) (within_trans keeps_ages h2 h3) hf
        (userWrites_deletesNobody (by simp [Write.DeletesNobody]))
        ⟨_,List.mem_append_right _ (List.mem_singleton_self _),rfl⟩

theorem resetPassword_holds {newPassword : String}
    (h : AfterMark P .reset token d Q) :
    (AuthRequest.prog P (x,.resetPassword token newPassword)).Holds Write.apply Rely Q [] d := by
  unfold AuthRequest.prog AuthRoute.endpoint AuthRouter.resetPassword AuthService.resetPassword
    AuthService.unusedToken AuthService.userById
  simp only [holds_bind,holds_decodeToken,holds_scalar,flushAll_nil,Except.ok.injEq]
  rintro y i - d1 v h1 rfl
  cases hr : d1.resetTokens.find? _ with
  | none => trivial
  | some r =>
    simp only [holds_bind,holds_now,holds_appErrorIf,holds_scalar,flushAll_nil,Except.ok.injEq]
    rintro _ _ d2 v h2 rfl
    cases hu : d2.users.find? _ with
    | none => trivial
    | some u =>
      simp only [holds_bind]
      refine holds_hashPassword fun hash => ?_
      refine holds_setUser fun t => ?_
      simp only [holds_now,holds_add,holds_commit,holds_pure,List.nil_append]
      intro y3 d3 v h3 hf _
      exact h h1 (found_oneTime rfl hr) (within_trans keeps_ages h2 h3) hf
        (userWrites_deletesNobody (by simp [Write.DeletesNobody]))
        ⟨_,List.mem_append_right _ (List.mem_singleton_self _),rfl⟩

theorem token_holds {q : AuthRequest} {k : TokenType} (hq : q.token = some (k,token))
    (h : AfterMark P k token d Q) : (q.prog P).Holds Write.apply Rely Q [] d := by
  obtain ⟨x,r⟩ := q
  cases r with
  | refresh t => cases hq; exact refresh_holds h
  | logout t => cases hq; exact logout_holds h
  | verifyEmail t => cases hq; exact verifyEmail_holds h
  | resetPassword t newPassword => cases hq; exact resetPassword_holds h
  | register | login | forgotPassword => cases hq

end Endpoints

section Writes
variable (P : Platform)

theorem AuthRequest.writes (q : AuthRequest) : (q.prog P).Writes Write.DeletesNobody := by
  obtain ⟨x,r⟩ := q
  cases r with
  | register payload =>
    exact Prog.Writes.bind (AuthService.writes_register (by simp [Write.DeletesNobody])
      (by simp [Write.DeletesNobody]) _) fun _ => writes_pure _ _
  | login payload =>
    unfold AuthRequest.prog AuthRoute.endpoint AuthRouter.login
    cases AuthRouter.loginTenantId P x with
    | error e => exact writes_appError e
    | ok t =>
      exact Prog.Writes.bind (AuthService.writes_login (by simp [Write.DeletesNobody]) _ _)
        fun _ => writes_pure _ _
  | logout token =>
    exact Prog.Writes.bind (AuthService.writes_logout (by simp [Write.DeletesNobody]) _)
      fun _ => writes_pure _ _
  | refresh token =>
    exact Prog.Writes.bind (AuthService.writes_refresh (by simp [Write.DeletesNobody])
      (by simp [Write.DeletesNobody]) _) fun _ => writes_pure _ _
  | verifyEmail token =>
    exact Prog.Writes.bind (AuthService.writes_verifyEmail (by simp [Write.DeletesNobody])
      (by simp [Write.DeletesNobody]) _) fun _ => writes_pure _ _
  | forgotPassword email =>
    exact Prog.Writes.bind (AuthService.writes_forgotPassword (by simp [Write.DeletesNobody]) _)
      fun _ => writes_pure _ _
  | resetPassword token newPassword =>
    exact Prog.Writes.bind (AuthService.writes_resetPassword (by simp [Write.DeletesNobody])
      (by simp [Write.DeletesNobody]) _ _) fun _ => writes_pure _ _

end Writes

section Runs
variable {P : Platform} {o : Readings}

theorem AuthRequest.spends (P : Platform) : Spends AuthRequest.token (UsedUp P) Write.apply
    (AuthRequest.prog P) Write.DeletesNobody Ages DistinctTokens where
  keeps := keeps_ages
  writes := AuthRequest.writes P
  stable hd h := h.ages hd.1
  spends := by
    rintro q ⟨k,token⟩ d hq -
    exact token_holds hq fun _ hfound h3 hf hs ⟨m,hm,hmark⟩ =>
      flushAll_marks hs hm hmark (hfound.row.ages h3.1) hf
  once := by
    rintro q ⟨k,token⟩ d hq - hused
    refine token_holds hq fun h1 hfound _ _ _ _ => ?_
    have hused := hused.ages h1.1
    cases k with
    | refresh => exact hfound.not_usedUp h1.2.1 hused
    | verify => exact hfound.not_usedUp h1.2.2.1 hused
    | reset => exact hfound.not_usedUp h1.2.2.2 hused
    | access =>
      obtain ⟨r,hr,-⟩ := hfound.row
      cases hr

/-- In every interleaving in which no request arrives while another one with the same token is
running, and in which stored tokens are distinct, every token is used up at most once. -/
theorem no_double_spend {s₀ s : System DB Write Fault Reading Exc Mail Body AuthRequest}
    (h0 : s₀.sessions = [])
    (h : Reach Write.apply Write.waitsFor o.read (AuthRequest.prog P) (Alone AuthRequest.token)
      DistinctTokens s₀ s) :
    s.sessions.Pairwise fun x y => ∀ c, x.1.token = some c → y.1.token = some c →
      ¬ (x.2.succeeded = true ∧ y.2.succeeded = true) :=
  Reach.atMostOnce (AuthRequest.spends P) h0 h

end Runs

section Guest
open Seed

def Seed.loggedIn : System DB Write Fault Reading Exc Mail Body AuthRequest :=
  ⟨after (plainPlatform {}) (readings 1000000) (world []) [login],[]⟩

def Seed.refreshing : AuthRequest :=
  (none,.refresh (refreshTokenAt (plainPlatform {}) 2 none 1000000))

/-- Two requests with the same token, one after the other. -/
theorem no_double_spend_sequential :
    ∃ s : System DB Write Fault Reading Exc Mail Body AuthRequest,
      loggedIn.play Write.apply Write.waitsFor (readings 1000000).read
        (AuthRequest.prog (plainPlatform {})) (fun s m => Alone AuthRequest.token s m)
        (fun d => DistinctTokens d)
        (.arrive refreshing :: List.replicate 13 (.run 0) ++
          .arrive refreshing :: List.replicate 3 (.run 1)) = some s ∧
      s.sessions.Pairwise fun x y => ∀ c, x.1.token = some c → y.1.token = some c →
        ¬ (x.2.succeeded = true ∧ y.2.succeeded = true) := by
  obtain ⟨s,hs⟩ := Option.isSome_iff_exists.mp (by decide +kernel :
    (loggedIn.play Write.apply Write.waitsFor (readings 1000000).read
      (AuthRequest.prog (plainPlatform {})) (fun s m => Alone AuthRequest.token s m)
      (fun d => DistinctTokens d)
      (.arrive refreshing :: List.replicate 13 (.run 0) ++
        .arrive refreshing :: List.replicate 3 (.run 1))).isSome = true)
  exact ⟨s,hs,no_double_spend rfl (System.play_reach (fun _ _ h => of_decide_eq_true h)
    (fun _ h => of_decide_eq_true h) (.start (by decide +kernel)) hs)⟩

/-- Both look the token up before either marks it: both get a new pair. -/
theorem no_double_spend_fails :
    ¬ ∀ (P : Platform) (o : Readings)
      (s₀ s : System DB Write Fault Reading Exc Mail Body AuthRequest), s₀.sessions = [] →
      Reach Write.apply Write.waitsFor o.read (AuthRequest.prog P) (fun _ _ => True)
        DistinctTokens s₀ s →
      s.sessions.Pairwise fun x y => ∀ c, x.1.token = some c → y.1.token = some c →
        ¬ (x.2.succeeded = true ∧ y.2.succeeded = true) := by
  intro h
  let view := fun x : AuthRequest × Session DB Write Fault Reading Exc Mail Body =>
    (x.1.token,x.2.succeeded)
  have hrun : (loggedIn.play Write.apply Write.waitsFor (readings 1000000).read
      (AuthRequest.prog (plainPlatform {})) (fun _ _ => true) (fun d => DistinctTokens d)
      ([.arrive refreshing,.arrive refreshing,.run 0,.run 0,.run 1,.run 1] ++
        List.replicate 11 (.run 0) ++ List.replicate 11 (.run 1))).map
          (fun s => s.sessions.map view) =
      some [(refreshing.token,true),(refreshing.token,true)] := by decide +kernel
  obtain ⟨s,hs,hview⟩ := Option.map_eq_some_iff.mp hrun
  have hpair := h (plainPlatform {}) (readings 1000000) loggedIn s rfl
    (System.play_reach (fun _ _ _ => trivial) (fun _ h => of_decide_eq_true h)
      (.start (by decide +kernel)) hs)
  have hmap : (s.sessions.map view).Pairwise fun a b => ∀ c, a.1 = some c → b.1 = some c →
      ¬ (a.2 = true ∧ b.2 = true) := List.pairwise_map.mpr hpair
  rw [hview] at hmap
  simp [refreshing,AuthRequest.token,AuthRoute.token] at hmap

end Guest

end TenantAuth
