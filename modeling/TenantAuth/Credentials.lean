import Mathlib.Data.List.Induction
import TenantAuth.Footprint
import TenantAuth.Seed
set_option autoImplicit false

namespace TenantAuth
open Transact

def oneTimeTokens : TokenType → DB → List OneTimeToken
  | .verify, d => d.verificationTokens
  | .reset, d => d.resetTokens
  | .access, _ | .refresh, _ => []

def oneTimeLifetime : TokenType → Nat
  | .reset => timedeltaHours 1
  | .verify | .access | .refresh => timedeltaHours 24

def oneTimeToken (P : Platform) (k : TokenType) (u : User) (t : Nat) : String :=
  (createTypedToken P u.id u.email k (t + oneTimeLifetime k)).1

theorem AuthService.register_taken (P : Platform) (o : Nat → Reading) (d : DB) (n : Nat)
    (s : List Mail) (payload : RegisterRequest) :
    let r := (register P payload).exec Write.apply o ⟨d,d,[],n,s⟩
    r.2.db.verificationTokens = d.verificationTokens ∨ n+3 ≤ r.2.taken := by
  unfold register userByEmail
  simp only [exec_scalar_bind,flushAll_nil,exec_appErrorIf_bind,exec_hashPassword_bind]
  cases d.users.find? _ with
  | some u => exact .inl rfl
  | none =>
    simp only [Option.isSome_none,Bool.false_eq_true,if_false]
    cases P.hashpw payload.password (o n).salt with
    | none => exact .inl rfl
    | some hash =>
      simp only [exec_uuid4_bind,exec_now_bind,exec_add_bind,exec_commit_bind,List.nil_append]
      cases flushAll Write.apply [.insertUser _] d with
      | error f => exact .inl rfl
      | ok d1 => exact .inr (exec_taken_le Write.apply o _ ⟨d1,d1,[],n+3,s⟩)

theorem AuthService.forgotPassword_sent (P : Platform) (o : Nat → Reading) (d : DB) (n : Nat)
    (s : List Mail) (email : String) :
    let r := (forgotPassword P email).exec Write.apply o ⟨d,d,[],n,s⟩
    r.2.sent = s ∨ ∃ u, d.users.find? (fun u => u.email = P.lower email) = some u ∧
      newResetToken P o n u ∈ r.2.db.resetTokens ∧ r.2.sent = s ++ [⟨u.email,"Password Reset",
        "Your password reset token is: " ++ oneTimeToken P .reset u (o n).now⟩] := by
  unfold forgotPassword userByEmail
  simp only [exec_scalar_bind,flushAll_nil]
  cases d.users.find? _ with
  | none => exact .inl rfl
  | some u =>
    simp only [exec_createPasswordResetToken_bind,exec_uuid4_bind,exec_add_bind,
      exec_commit_bind,List.nil_append,sendEmail,exec_reading_bind]
    cases hf : flushAll Write.apply [.insertResetToken _] d with
    | error f => exact .inl rfl
    | ok d' =>
      cases hd : (o (n+1+1)).delivered with
      | false =>
        left
        simp
      | true =>
        refine .inr ⟨u,rfl,?_,?_⟩
        · simp only [exec_emit,(flushAll_single.mp hf).2]
          exact List.mem_append_right _ (List.mem_singleton_self _)
        · simp only [exec_emit]
          rfl

section Minting
variable (P : Platform) (o : Readings) (w : World DB Mail) (q : Request)

/-- The request mints a one-time token at the instant `t` and stores its row: `register` a
verification token of the user it adds, `forgot_password` a reset token of the user it finds. -/
inductive MintsOneTime : TokenType → User → Nat → Prop
  | register {payload : RegisterRequest} {u : User} (hq : q.route = .auth (.register payload))
      (hnew : u.id ∉ w.db.users.map User.id) (hu : u ∈ (handle P o w q).2.db.users)
      (hrow : AuthService.newVerificationToken P o.read (endpointStart P w q) u ∈
        (handle P o w q).2.db.verificationTokens) :
    MintsOneTime .verify u (o.read (endpointStart P w q + 3)).now
  | forgotPassword {email : String} {u : User} (hq : q.route = .auth (.forgotPassword email))
      (hu : w.db.users.find? (fun u => u.email = P.lower email) = some u)
      (hrow : AuthService.newResetToken P o.read (endpointStart P w q) u ∈
        (handle P o w q).2.db.resetTokens) :
    MintsOneTime .reset u (o.read (endpointStart P w q)).now

/-- One of the requests, served from `w` on, minted that token. -/
def Minted (qs : List Request) (k : TokenType) (u : User) (t : Nat) : Prop :=
  ∃ qs₁ q qs₂, qs = qs₁ ++ q :: qs₂ ∧ MintsOneTime P o (after P o w qs₁) q k u t

/-- Every stored row is that of a token which `log` says was minted for the row's user. -/
def Traced (log : TokenType → User → Nat → Prop) (d : DB) : Prop :=
  ∀ k, ∀ r ∈ oneTimeTokens k d, ∃ u t, log k u t ∧ r.userId = u.id ∧
    r.tokenHash = hashToken P (oneTimeToken P k u t) ∧ r.expiresAt = t + oneTimeLifetime k

end Minting

def Write.stores : TokenType → Write → Option OneTimeToken
  | .verify, .insertVerificationToken r => some r
  | .reset, .insertResetToken r => some r
  | _, _ => none

section Rows
variable {P : Platform} {d d' : DB} {k : TokenType} {ws : List Write}

/-- What a row says of its token: whose it is, its hash and its expiry. -/
def OneTimeToken.Same (r r' : OneTimeToken) : Prop :=
  r'.userId = r.userId ∧ r'.tokenHash = r.tokenHash ∧ r'.expiresAt = r.expiresAt

theorem update_usedAt_same {id : UUID} {t : Nat} {l : List OneTimeToken} {r : OneTimeToken}
    (h : r ∈ update OneTimeToken.id id (fun r => { r with usedAt := some t }) l) :
    ∃ r' ∈ l, r'.Same r := by
  rcases mem_update.mp h with ⟨r',hr',-,rfl⟩ | ⟨hr,-⟩
  · exact ⟨r',hr',rfl,rfl,rfl⟩
  · exact ⟨r,hr,rfl,rfl,rfl⟩

theorem Write.effect_oneTime {w : Write} {r : OneTimeToken} (h : r ∈ oneTimeTokens k (w.effect d)) :
    (∃ r' ∈ oneTimeTokens k d, r'.Same r) ∨ w.stores k = some r := by
  have hkeep : r ∈ oneTimeTokens k d →
      (∃ r' ∈ oneTimeTokens k d, r'.Same r) ∨ w.stores k = some r :=
    fun h => .inl ⟨r,h,rfl,rfl,rfl⟩
  cases k with
  | access => cases h
  | refresh => cases h
  | verify =>
    cases w with
    | insertVerificationToken r' =>
      rcases List.mem_append.mp h with h | h
      · exact hkeep h
      · exact .inr (congrArg some (List.mem_singleton.mp h).symm)
    | useVerificationToken id t => exact .inl (update_usedAt_same h)
    | deleteUser id => exact hkeep (mem_delete.mp h).1
    | _ => exact hkeep h
  | reset =>
    cases w with
    | insertResetToken r' =>
      rcases List.mem_append.mp h with h | h
      · exact hkeep h
      · exact .inr (congrArg some (List.mem_singleton.mp h).symm)
    | useResetToken id t => exact .inl (update_usedAt_same h)
    | deleteUser id => exact hkeep (mem_delete.mp h).1
    | _ => exact hkeep h

theorem flushAll_oneTime {r : OneTimeToken} (hf : flushAll Write.apply ws d = .ok d')
    (h : r ∈ oneTimeTokens k d') :
    (∃ r' ∈ oneTimeTokens k d, r'.Same r) ∨ ∃ w ∈ ws, ∃ r', w.stores k = some r' ∧ r'.Same r := by
  induction ws generalizing d with
  | nil =>
    cases hf
    exact .inl ⟨r,h,rfl,rfl,rfl⟩
  | cons w ws ih =>
    obtain ⟨-,hf⟩ := flushAll_cons.mp hf
    rcases ih hf with ⟨r1,hr1,hs1⟩ | ⟨v,hv,hstore⟩
    · rcases Write.effect_oneTime hr1 with ⟨r2,hr2,hs2⟩ | hw
      · exact .inl ⟨r2,hr2,hs1.1.trans hs2.1,hs1.2.1.trans hs2.2.1,hs1.2.2.trans hs2.2.2⟩
      · exact .inr ⟨w,List.mem_cons_self,r1,hw,hs1⟩
    · exact .inr ⟨v,List.mem_cons_of_mem _ hv,hstore⟩

theorem Write.stores_touches {w : Write} {r : OneTimeToken} (h : w.stores k = some r) :
    w.touches = [.verificationTokens] ∨ w.touches = [.resetTokens] := by
  cases k with
  | access | refresh => cases h
  | verify =>
    cases w with
    | insertVerificationToken r' => exact .inl rfl
    | _ => cases h
  | reset =>
    cases w with
    | insertResetToken r' => exact .inr rfl
    | _ => cases h

theorem userWrites_stores {u : User} {p : UserPatch} {t : Nat} {w : Write} {r : OneTimeToken}
    (hw : w ∈ AuthService.userWrites u p t) : w.stores k ≠ some r :=
  AuthService.userWrites_forall (S := fun w => w.stores k ≠ some r)
    (fun _ _ => by cases k <;> simp [Write.stores]) w hw

end Rows

section Steps
variable {P : Platform} {o : Readings} {w : World DB Mail} {q : Request} {k : TokenType}
  {log : TokenType → User → Nat → Prop}

theorem stores_minted {ws : List Write} {v : Write} {r : OneTimeToken}
    (hc : RequestCommit P o.read (endpointStart P w q) w.db q ws)
    (hf : flushAll Write.apply ws w.db = .ok (handle P o w q).2.db) (hv : v ∈ ws)
    (hs : v.stores k = some r) :
    ∃ u t, MintsOneTime P o w q k u t ∧ r.userId = u.id ∧
      r.tokenHash = hashToken P (oneTimeToken P k u t) ∧ r.expiresAt = t + oneTimeLifetime k := by
  cases hc with
  | idle => cases hv
  | tenant _ _ h =>
    have ht := h.touches v hv
    rcases Write.stores_touches hs with hx | hx <;> simp [hx] at ht
  | admin _ _ h =>
    cases h with
    | updateUser h => exact absurd hs (userWrites_stores hv)
    | nothing => cases hv
    | _ =>
      cases List.mem_singleton.mp hv
      cases k <;> cases hs
  | auth hq h =>
    cases h with
    | nothing => cases hv
    | login _ _ | logout _ =>
      cases List.mem_singleton.mp hv
      cases k <;> cases hs
    | refresh h =>
      rcases List.mem_cons.mp hv with rfl | hv
      · cases k <;> cases hs
      · cases List.mem_singleton.mp hv
        cases k <;> cases hs
    | verifyEmail h | resetPassword h =>
      rcases List.mem_append.mp hv with hv | hv
      · exact absurd hs (userWrites_stores hv)
      · cases List.mem_singleton.mp hv
        cases k <;> cases hs
    | forgotPassword hu =>
      cases List.mem_singleton.mp hv
      cases k with
      | access | refresh | verify => cases hs
      | reset =>
        cases hs
        refine ⟨_,_,.forgotPassword hq hu ?_,rfl,rfl,rfl⟩
        rw [(flushAll_single.mp hf).2]
        exact List.mem_append_right _ (List.mem_singleton_self _)
    | register h =>
      cases h with
      | nothing => cases hv
      | userOnly hu hp =>
        cases List.mem_singleton.mp hv
        cases k <;> cases hs
      | all hu hp =>
        rcases List.mem_cons.mp hv with rfl | hv
        · cases k <;> cases hs
        cases List.mem_singleton.mp hv
        cases k with
        | access | refresh | reset => cases hs
        | verify =>
          cases hs
          obtain ⟨hvac,hf⟩ := flushAll_cons.mp hf
          obtain ⟨-,hd⟩ := flushAll_single.mp hf
          simp only [Write.violation,firstViolation_eq_none,List.forall_mem_cons,vacant_iff] at hvac
          refine ⟨_,_,.register hq hvac.2.2.2.1 ?_ ?_,rfl,rfl,rfl⟩
          · rw [hd]
            exact List.mem_append_right _ (List.mem_singleton_self _)
          · rw [hd]
            exact List.mem_append_right _ (List.mem_singleton_self _)

theorem Traced.handle (h : Traced P log w.db) :
    Traced P (fun k u t => log k u t ∨ MintsOneTime P o w q k u t) (handle P o w q).2.db := by
  obtain ⟨ws,hc,hf⟩ := handle_commits P o w q
  intro k r hr
  rcases flushAll_oneTime hf hr with ⟨r',hr',hs⟩ | ⟨v,hv,r',hstore,hs⟩
  · obtain ⟨u,t,hlog,hu,hh,he⟩ := h k r' hr'
    exact ⟨u,t,.inl hlog,hs.1.trans hu,hs.2.1.trans hh,hs.2.2.trans he⟩
  · obtain ⟨u,t,hm,hu,hh,he⟩ := stores_minted hc hf hv hstore
    exact ⟨u,t,.inr hm,hs.1.trans hu,hs.2.1.trans hh,hs.2.2.trans he⟩

theorem MintsOneTime.le {u : User} {t : Nat} (hw : w.db.Wf) (h : MintsOneTime P o w q k u t) :
    t ≤ (o.read (handle P o w q).2.taken).now := by
  cases h with
  | forgotPassword hq hu hrow => exact o.now_le (endpointStart_le P o w q)
  | register hq hnew hu hrow =>
    refine o.now_le ?_
    have hfresh : (handle P o w q).2.db.verificationTokens ≠ w.db.verificationTokens := by
      intro he
      rw [he] at hrow
      exact hnew (hw.verificationTokenUser (List.mem_map_of_mem hrow))
    rcases handle_auth hq with ⟨-,he⟩ | he
    · exact absurd (by rw [he]) hfresh
    · simp only [he,AuthRoute.endpoint,AuthRouter.register,exec_bind_pure] at hfresh ⊢
      exact (AuthService.register_taken _ _ _ _ _ _).resolve_left hfresh

end Steps

/-- What one request can make of the row of a user that is there before and after it. -/
inductive UserBecomes (P : Platform) (o : Readings) (w : World DB Mail) (q : Request) (a : User) :
    User → Prop
  | same : UserBecomes P o w q a a
  | edited {id : UUID} {payload : UserUpdateRequest} (u : User) (t : Nat)
      (hq : q.route = .admin (.updateUser id payload)) :
    UserBecomes P o w q a ((payload.patch.diff u).apply t a)
  | verified {token : String} {row : EmailVerificationToken} {u : User} (t : Nat)
      (hq : q.route = .auth (.verifyEmail token)) (hu : u.id = a.id)
      (h : AuthService.OneTimeChecked P o.read (endpointStart P w q) DB.verificationTokens .verify
        w.db token row u) :
    UserBecomes P o w q a ((UserPatch.diff { isVerified := some true } u).apply t a)
  | reset {token newPassword hash : String} {row : PasswordResetToken} {u : User} (t : Nat)
      (hq : q.route = .auth (.resetPassword token newPassword)) (hu : u.id = a.id)
      (h : AuthService.OneTimeChecked P o.read (endpointStart P w q) DB.resetTokens .reset
        w.db token row u) :
    UserBecomes P o w q a ((UserPatch.diff { passwordHash := some hash } u).apply t a)

section Users
variable {P : Platform} {o : Readings} {w : World DB Mail} {q : Request} {a a' : User}

/-- An assignment to a user, and then writes to other tables, leave the row of a user or make it
what was assigned. -/
theorem userWrites_users {d d' : DB} {u : User} {p : UserPatch} {t : Nat} {vs : List Write}
    (hvs : ∀ v ∈ vs, .users ∉ v.touches)
    (hf : flushAll Write.apply (AuthService.userWrites u p t ++ vs) d = .ok d') :
    ∃ f : User → User, (f = id ∨ f = (p.diff u).apply t) ∧
      d'.users = update User.id u.id f d.users := by
  obtain ⟨d1,h1,hf⟩ := flushAll_append_iff.mp hf
  obtain ⟨f,hform,rfl⟩ := AuthService.userWrites_flush h1
  exact ⟨f,hform,flushAll_frame (t := .users) hvs hf⟩

theorem userWrites_row {d d' : DB} {u : User} {p : UserPatch} {t : Nat} {vs : List Write}
    (hw : d.Wf) (hvs : ∀ v ∈ vs, .users ∉ v.touches)
    (hf : flushAll Write.apply (AuthService.userWrites u p t ++ vs) d = .ok d') (ha : a ∈ d.users)
    (ha' : a' ∈ d'.users) (hid : a'.id = a.id) :
    a' = a ∨ (u.id = a.id ∧ a' = (p.diff u).apply t a) := by
  obtain ⟨f,hform,hd⟩ := userWrites_users hvs hf
  rw [hd] at ha'
  rcases mem_update.mp ha' with ⟨b,hb,hk,rfl⟩ | ⟨ha',-⟩
  · rcases hform with rfl | rfl
    · exact .inl (eq_of_key hw.userKey hb ha hid)
    · cases eq_of_key hw.userKey hb ha hid
      exact .inr ⟨hk.symm,rfl⟩
  · exact .inl (eq_of_key hw.userKey ha' ha hid)

theorem userWrites_set {d d' : DB} {u : User} {p : UserPatch} {t : Nat} {vs : List Write}
    (hw : d.Wf) (hvs : ∀ v ∈ vs, .users ∉ v.touches)
    (hf : flushAll Write.apply (AuthService.userWrites u p t ++ vs) d = .ok d') (hu : u ∈ d.users)
    (ha : a ∈ d'.users) (hid : a.id = u.id) : ∃ t', a = (p.diff u).apply t' u := by
  obtain ⟨d1,h1,h2⟩ := flushAll_append_iff.mp hf
  rw [show d'.users = d1.users from flushAll_frame (t := .users) hvs h2] at ha
  unfold AuthService.userWrites at h1
  by_cases hd : p.diff u = {}
  · rw [if_pos hd] at h1
    cases h1
    refine ⟨u.updatedAt,?_⟩
    rw [hd]
    exact eq_of_key hw.userKey ha hu hid
  · rw [if_neg hd] at h1
    rw [(flushAll_single.mp h1).2] at ha
    rcases mem_update.mp ha with ⟨b,hb,hk,rfl⟩ | ⟨-,hk⟩
    · obtain rfl := eq_of_key hw.userKey hb hu hk
      exact ⟨t,rfl⟩
    · exact absurd hid hk

theorem userWrites_others {d d' : DB} {u : User} {p : UserPatch} {t : Nat} {v : Write}
    (hv : .users ∉ v.touches)
    (hf : flushAll Write.apply (AuthService.userWrites u p t ++ [v]) d = .ok d') (ha : a ∈ d.users)
    (hid : a.id ≠ u.id) : a ∈ d'.users := by
  obtain ⟨f,-,hd⟩ := userWrites_users (by simpa using hv) hf
  rw [hd]
  exact mem_update.mpr (.inr ⟨ha,hid⟩)

theorem handle_user (hw : w.db.Wf) (ha : a ∈ w.db.users) (ha' : a' ∈ (handle P o w q).2.db.users)
    (hid : a'.id = a.id) : UserBecomes P o w q a a' := by
  obtain ⟨ws,hc,hf⟩ := handle_commits P o w q
  -- Where the table only loses rows or gets one under a new key, the row is the same.
  have hsame : a' ∈ w.db.users → UserBecomes P o w q a a' := fun h => by
    cases eq_of_key hw.userKey h ha hid
    exact .same
  have hframe : (∀ v ∈ ws, .users ∉ v.touches) → UserBecomes P o w q a a' := fun hs => by
    have hu : (handle P o w q).2.db.users = w.db.users := flushAll_frame (t := .users) hs hf
    exact hsame (hu ▸ ha')
  cases hc with
  | idle => exact hframe (by simp)
  | tenant _ _ h => exact hframe fun v hv ht => absurd (h.touches v hv _ ht) (by simp)
  | admin hq _ h =>
    cases h with
    | updateUser h =>
      rcases userWrites_row hw (List.forall_mem_nil _) (by rwa [List.append_nil]) ha ha' hid with
        rfl | ⟨-,rfl⟩
      · exact .same
      · exact .edited _ _ hq
    | deleteUser h =>
      obtain ⟨-,hd⟩ := flushAll_single.mp hf
      rw [hd] at ha'
      exact hsame (mem_delete.mp ha').1
    | _ => exact hframe (by simp [Write.touches])
  | auth hq h =>
    cases h with
    | verifyEmail h =>
      rcases userWrites_row hw (by simp [Write.touches]) hf ha ha' hid with rfl | ⟨hu,rfl⟩
      · exact .same
      · exact .verified _ hq hu h
    | resetPassword h =>
      rcases userWrites_row hw (by simp [Write.touches]) hf ha ha' hid with rfl | ⟨hu,rfl⟩
      · exact .same
      · exact .reset _ hq hu h
    | register h =>
      have hadd : ∀ u : User, u.id ∉ w.db.users.map User.id →
          (handle P o w q).2.db.users = w.db.users ++ [u] → UserBecomes P o w q a a' := by
        intro u hu hd
        rw [hd] at ha'
        rcases List.mem_append.mp ha' with ha' | ha'
        · exact hsame ha'
        · cases List.mem_singleton.mp ha'
          exact absurd (hid ▸ List.mem_map_of_mem ha) hu
      cases h with
      | nothing => exact hframe (by simp)
      | userOnly hu hp =>
        obtain ⟨hv,hd⟩ := flushAll_single.mp hf
        simp only [Write.violation,firstViolation_eq_none,List.forall_mem_cons,vacant_iff] at hv
        exact hadd _ hv.2.2.2.1 (by rw [hd]; rfl)
      | all hu hp =>
        obtain ⟨hv,hf⟩ := flushAll_cons.mp hf
        obtain ⟨-,hd⟩ := flushAll_single.mp hf
        simp only [Write.violation,firstViolation_eq_none,List.forall_mem_cons,vacant_iff] at hv
        exact hadd _ hv.2.2.2.1 (by rw [hd]; rfl)
    | _ => exact hframe (by simp [Write.touches,AuthService.rotation])

theorem UserBecomes.passwordHash (h : UserBecomes P o w q a a')
    (hne : a'.passwordHash ≠ a.passwordHash) :
    ∃ token newPassword row u, q.route = .auth (.resetPassword token newPassword) ∧
      u.id = a.id ∧ AuthService.OneTimeChecked P o.read (endpointStart P w q) DB.resetTokens .reset
        w.db token row u := by
  cases h with
  | same => exact absurd rfl hne
  | edited u t hq => exact absurd rfl hne
  | verified t hq hu h => exact absurd rfl hne
  | reset t hq hu h => exact ⟨_,_,_,_,hq,hu,h⟩

theorem UserBecomes.isVerified (h : UserBecomes P o w q a a')
    (hne : a'.isVerified ≠ a.isVerified) :
    a'.isVerified = true ∧ ∃ token row u, q.route = .auth (.verifyEmail token) ∧
      u.id = a.id ∧ AuthService.OneTimeChecked P o.read (endpointStart P w q) DB.verificationTokens
        .verify w.db token row u := by
  cases h with
  | same => exact absurd rfl hne
  | edited u t hq => exact absurd rfl hne
  | reset t hq hu h => exact absurd rfl hne
  | verified t hq hu h =>
    refine ⟨?_,_,_,_,hq,hu,h⟩
    revert hne
    simp only [UserPatch.diff,UserPatch.apply,changed]
    split <;> simp

/-- The token that `verify_email` and `reset_password` ask for, with its kind. -/
def AuthRoute.oneTime : AuthRoute → Option (TokenType × String)
  | .verifyEmail token => some (.verify,token)
  | .resetPassword token _ => some (.reset,token)
  | _ => none

/-- Where such a request succeeds or changes anything, the token has passed the checks, and
only the user it was found for is written to. -/
theorem accepted_checked {r : AuthRoute} {k : TokenType} {token : String}
    (hq : q.route = .auth r) (hr : r.oneTime = some (k,token))
    (h : (handle P o w q).1.isSuccess = true ∨ (handle P o w q).2.db ≠ w.db) :
    ∃ row u, AuthService.OneTimeChecked P o.read (endpointStart P w q) (oneTimeTokens k) k
        w.db token row u ∧
      ∀ a ∈ w.db.users, a.id ≠ u.id → a ∈ (handle P o w q).2.db.users := by
  rcases handle_auth hq with ⟨hno,he⟩ | he
  · rw [hno,he] at h
    simp at h
  rw [he] at h ⊢
  simp only [respond_isSuccess] at h ⊢
  cases r <;> simp only [AuthRoute.oneTime,reduceCtorEq,Option.some.injEq,Prod.mk.injEq] at hr
  case verifyEmail token' =>
    obtain ⟨rfl,rfl⟩ := hr
    simp only [AuthRoute.endpoint,AuthRouter.verifyEmail,exec_bind_pure] at h ⊢
    rcases AuthService.verifyEmail_cases P o.read w.db (endpointStart P w q) w.sent token' with
      ⟨hno,hd⟩ | ⟨row,u,hc,-,-,hf⟩
    · simp [hno,hd] at h
    · exact ⟨row,u,hc,fun a ha hid => userWrites_others (by simp [Write.touches]) hf ha hid⟩
  case resetPassword token' newPassword =>
    obtain ⟨rfl,rfl⟩ := hr
    simp only [AuthRoute.endpoint,AuthRouter.resetPassword,exec_bind_pure] at h ⊢
    rcases AuthService.resetPassword_cases P o.read w.db (endpointStart P w q) w.sent token'
      newPassword with ⟨hno,hd⟩ | ⟨row,u,hash,hc,-,-,hf⟩
    · simp [hno,hd] at h
    · exact ⟨row,u,hc,fun a ha hid => userWrites_others (by simp [Write.touches]) hf ha hid⟩

end Users

section Runs
variable {P : Platform} {o : Readings} {w : World DB Mail} {qs : List Request}

/-- Whatever a deployed application stores is traced to the requests it has served. -/
theorem Traced.after (hw : Deployed w.db) : Traced P (Minted P o w qs) (after P o w qs).db := by
  induction qs using List.reverseRecOn with
  | nil =>
    intro k r hr
    cases k with
    | access | refresh => cases hr
    | verify =>
      rw [oneTimeTokens,TenantAuth.after,List.foldl_nil,hw.verificationTokens] at hr
      cases hr
    | reset =>
      rw [oneTimeTokens,TenantAuth.after,List.foldl_nil,hw.resetTokens] at hr
      cases hr
  | append_singleton qs q ih =>
    rw [after_append]
    intro k r hr
    obtain ⟨u,t,hlog,hrest⟩ := ih.handle k r hr
    refine ⟨u,t,?_,hrest⟩
    rcases hlog with ⟨qs₁,q₁,qs₂,rfl,hm⟩ | hm
    · exact ⟨qs₁,q₁,qs₂ ++ [q],by simp,hm⟩
    · exact ⟨qs,q,[],rfl,hm⟩

theorem Minted.le {k : TokenType} {u : User} {t : Nat} (hw : Reachable P o w)
    (h : Minted P o w qs k u t) : t ≤ (o.read (TenantAuth.after P o w qs).taken).now := by
  obtain ⟨qs₁,q,qs₂,rfl,hm⟩ := h
  rw [after_append]
  exact (hm.le (hw.after qs₁).wf).trans (o.now_le after_taken_le)

/-- The request presents a one-time token of the kind that an earlier request minted for the
user with that key, less than its lifetime ago. -/
def Presents (P : Platform) (o : Readings) (w : World DB Mail) (qs : List Request) (q : Request)
    (k : TokenType) (id : UUID) (token : String) : Prop :=
  let now := (o.read (endpointStart P (after P o w qs) q + 1)).now
  ∃ u t, Minted P o w qs k u t ∧ u.id = id ∧ token = oneTimeToken P k u t ∧ t ≤ now ∧
    now < t + oneTimeLifetime k

variable {q : Request} {k : TokenType} {token : String}

theorem presents_checked (hw : Deployed w.db) {r : OneTimeToken} {u : User}
    (h : AuthService.OneTimeChecked P o.read (endpointStart P (after P o w qs) q)
      (oneTimeTokens k) k (after P o w qs).db token r u) : Presents P o w qs q k u.id token := by
  obtain ⟨⟨i,hdec,hrow,huser⟩,hexp⟩ := h
  have hr := List.find?_some hrow
  have hu := List.find?_some huser
  simp only [decide_eq_true_eq] at hr hu
  obtain ⟨u',t,hm,hid,hh,he⟩ := Traced.after hw k r (List.mem_of_find?_eq_some hrow)
  refine ⟨u',t,hm,?_,P.sha256_injective (hr.1.symm.trans hh),?_,he ▸ hexp⟩
  · exact hid.symm.trans (hr.2.1.trans hu.symm)
  · refine (hm.le (.start hw)).trans (o.now_le ?_)
    unfold endpointStart
    omega

theorem Presents.claims {id : UUID} (h : Presents P o w qs q k id token) :
    ∃ c, P.jwtVerify token = some c ∧ c.type = some k ∧ c.sub = some id := by
  obtain ⟨u,t,-,rfl,rfl,-⟩ := h
  exact ⟨_,P.jwtVerify_encode _,rfl,rfl⟩

/-- In every run from a deployment, a password hash changes only by a reset token that was
minted for its user within the last hour and mailed to nobody else, and a user is verified
only by the verification token of his registration within the last day, for good. What those
two routes accept is such a token, of the right kind and acting on its own user. -/
theorem credential_provenance (hw : Deployed w.db) :
    let w₁ := after P o w qs
    let x := handle P o w₁ q
    (∀ a ∈ w₁.db.users, ∀ a' ∈ x.2.db.users, a'.id = a.id →
      (a'.passwordHash ≠ a.passwordHash → ∃ token newPassword,
        q.route = .auth (.resetPassword token newPassword) ∧
          Presents P o w qs q .reset a.id token) ∧
      (a'.isVerified ≠ a.isVerified → a'.isVerified = true ∧ ∃ token,
        q.route = .auth (.verifyEmail token) ∧ Presents P o w qs q .verify a.id token)) ∧
    (∀ r k token, q.route = .auth r → r.oneTime = some (k,token) →
      x.1.isSuccess = true ∨ x.2.db ≠ w₁.db → ∃ u, Presents P o w qs q k u token ∧
        (∃ c, P.jwtVerify token = some c ∧ c.type = some k ∧ c.sub = some u) ∧
        ∀ a ∈ w₁.db.users, a.id ≠ u → a ∈ x.2.db.users) ∧
    ∀ email, q.route = .auth (.forgotPassword email) → x.2.sent = w₁.sent ∨
      ∃ u t, MintsOneTime P o w₁ q .reset u t ∧ x.2.sent = w₁.sent ++ [⟨u.email,"Password Reset",
        "Your password reset token is: " ++ oneTimeToken P .reset u t⟩] := by
  refine ⟨fun a ha a' ha' hid => ?_,fun r k token hq hr h => ?_,fun email hq => ?_⟩
  · have hbecomes := handle_user ((Reachable.start hw).after qs).wf ha ha' hid
    refine ⟨fun hne => ?_,fun hne => ?_⟩
    · obtain ⟨token,newPassword,row,u,hq,hu,hc⟩ := hbecomes.passwordHash hne
      exact ⟨token,newPassword,hq,hu ▸ presents_checked hw hc⟩
    · obtain ⟨htrue,token,row,u,hq,hu,hc⟩ := hbecomes.isVerified hne
      exact ⟨htrue,token,hq,hu ▸ presents_checked hw hc⟩
  · obtain ⟨row,u,hc,hrest⟩ := accepted_checked hq hr h
    have hp := presents_checked hw hc
    exact ⟨u.id,hp,hp.claims,hrest⟩
  · rcases handle_auth hq with ⟨-,he⟩ | he
    · exact .inl (by rw [he])
    · simp only [he,AuthRoute.endpoint,AuthRouter.forgotPassword,exec_bind_pure]
      rcases AuthService.forgotPassword_sent P o.read (after P o w qs).db
        (endpointStart P (after P o w qs) q) (after P o w qs).sent email with hs | ⟨u,hu,hrow,hs⟩
      · exact .inl hs
      · refine .inr ⟨u,_,.forgotPassword hq hu ?_,hs⟩
        rw [he]
        simpa only [AuthRoute.endpoint,AuthRouter.forgotPassword,exec_bind_pure] using hrow

/-- The guest forgets his password and sets another one with the token he was sent. -/
theorem credential_provenance_reset :
    let token := oneTimeToken (plainPlatform {}) .reset Seed.guest 0
    Presents (plainPlatform {}) (Seed.readings 0) (Seed.world [])
      [{ route := .auth (.forgotPassword "guest@example.com") }]
      { route := .auth (.resetPassword token "new") } .reset 2 token := by
  intro token
  let qs : List Request := [{ route := .auth (.forgotPassword "guest@example.com") }]
  let q : Request := { route := .auth (.resetPassword token "new") }
  have hok : (handle (plainPlatform {}) (Seed.readings 0)
      (after (plainPlatform {}) (Seed.readings 0) (Seed.world []) qs) q).1.isSuccess = true := by
    decide +kernel
  have hw : Deployed (Seed.world []).db := Seed.deployed_world (by simp) (by simp) (by simp)
  obtain ⟨u,hp,⟨c,hc,-,hu⟩,-⟩ :=
    (credential_provenance hw).2.1 _ .reset token (rfl : q.route = _) rfl (.inl hok)
  have htwo : u = 2 := by
    rw [show (plainPlatform {}).jwtVerify token = some _ from
      (plainPlatform {}).jwtVerify_encode _] at hc
    cases hc
    exact (Option.some.inj hu).symm
  exact htwo ▸ hp

end Runs

end TenantAuth
