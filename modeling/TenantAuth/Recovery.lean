import TenantAuth.Endurance
import TenantAuth.PasswordPolicy
set_option autoImplicit false

namespace TenantAuth
open Transact

/-- The user has the password hash now, and nothing else is written to the users. -/
def PasswordSet (d d' : DB) (u : UUID) (hash : String) : Prop :=
  (∃ a ∈ d.users, a.id = u ∧ ∃ t, { a with passwordHash := hash, updatedAt := t } ∈ d'.users) ∧
    ∀ a ∈ d.users, a.id ≠ u → a ∈ d'.users

section Rows
variable {P : Platform} {d d' : DB} {k : TokenType} {token : String}

theorem DB.Wf.oneTimeUser {r : OneTimeToken} (hw : d.Wf) (hr : r ∈ oneTimeTokens k d) :
    ∃ u ∈ d.users, u.id = r.userId := by
  refine List.mem_map.mp ?_
  cases k with
  | verify => exact hw.verificationTokenUser (List.mem_map_of_mem hr)
  | reset => exact hw.resetTokenUser (List.mem_map_of_mem hr)
  | _ => cases hr

/-- Before its deadline an unused token passes the checks of `verify_email` and `reset_password`.
The row that is found may be another of the same token: it says the same. -/
theorem Traced.presented {log : TokenType → User → Nat → Prop} {o : Readings} {n : Nat}
    {r : OneTimeToken} (h : Traced P log d) (hw : d.Wf) (hr : r ∈ oneTimeTokens k d)
    (hl : r.usedAt = none) (hh : r.tokenHash = hashToken P token)
    (ht : (o.read (n+1)).now < deadline P token) :
    ∃ r' u, AuthService.OneTimeChecked P o.read n (oneTimeTokens k) k d token r' u ∧
      u ∈ d.users ∧ u.id = r.userId := by
  have hclaims : ∀ r' ∈ oneTimeTokens k d, r'.tokenHash = hashToken P token →
      ∃ email, P.jwtVerify token = some ⟨some r'.userId,some k,seconds r'.expiresAt,none,email⟩ := by
    intro r' hr' hh'
    obtain ⟨u,t,-,hu,hhash,he⟩ := h k r' hr'
    have htoken : token = oneTimeToken P k u t := P.sha256_injective (hh'.symm.trans hhash)
    refine ⟨some u.email,?_⟩
    rw [htoken,oneTimeToken,createTypedToken,P.jwtVerify_encode,hu,he]
  obtain ⟨email,hc⟩ := hclaims r hr hh
  have hdead : deadline P token = seconds r.expiresAt*1000000 := by simp [deadline,hc]
  have hnow := o.now_le (Nat.le_add_right n 1)
  have hdecoded : decodeAt P token (some k) (o.read n).now = .ok ⟨r.userId,k,none⟩ := by
    have hexp : ¬ seconds r.expiresAt*1000000 ≤ (o.read n).now := by omega
    simp [decodeAt,hc,hexp]
  have hsome : ((oneTimeTokens k d).find? fun r' => r'.tokenHash = hashToken P token ∧
      r'.userId = r.userId ∧ r'.usedAt = none).isSome := by
    rw [List.find?_isSome]
    exact ⟨r,hr,by simp [hh,hl]⟩
  obtain ⟨r',hr'⟩ := Option.isSome_iff_exists.mp hsome
  have hfound := List.find?_some hr'
  simp only [decide_eq_true_eq] at hfound
  obtain ⟨email',hc'⟩ := hclaims r' (List.mem_of_find?_eq_some hr') hfound.1
  have hsame := Option.some.inj (hc'.symm.trans hc)
  simp only [Claims.mk.injEq] at hsame
  obtain ⟨u,hu,hid⟩ := hw.oneTimeUser hr
  have huser : d.users.find? (fun u => u.id = r.userId) = some u :=
    find_eq_some_of_unique hu (by simp [hid]) fun b hb hp =>
      eq_of_key hw.userKey hb hu ((by simpa using hp : b.id = r.userId).trans hid.symm)
  refine ⟨r',u,⟨⟨_,hdecoded,hr',huser⟩,?_⟩,hu,hid⟩
  have hle := seconds_le r'.expiresAt
  rw [hsame.2.2.1] at hle
  omega

theorem keeps_account (u : UUID) (email : String) :
    Keeps Write.apply (fun v => v ≠ .deleteUser u) fun d d' =>
      (u,email) ∈ accounts d → (u,email) ∈ accounts d' := by
  refine .ofInv fun {v d d'} hv ha h => ?_
  rw [(Write.apply_eq_ok.mp ha).2]
  obtain ⟨a,hmem,he⟩ := List.mem_map.mp h
  cases he
  cases v with
  | insertUser r => exact mem_accounts (List.mem_append_left _ hmem)
  | updateUser id p t =>
    by_cases hid : a.id = id
    · exact mem_accounts (u := p.apply t a) (mem_update.mpr (.inl ⟨a,hmem,hid,rfl⟩))
    · exact mem_accounts (mem_update_other hmem hid)
  | deleteUser id =>
    refine mem_accounts (mem_delete.mpr ⟨hmem,fun hid => ?_⟩)
    rw [hid] at hv
    exact hv rfl
  | _ => exact h

theorem passwordChange_set {o : Nat → Reading} {n : Nat} {r : OneTimeToken} {u : User}
    {hash : String} (hw : d.Wf) (hu : u ∈ d.users)
    (hf : flushAll Write.apply (AuthService.passwordChange o n r u hash) d = .ok d') :
    PasswordSet d d' u.id hash := by
  have hothers : ∀ a ∈ d.users, a.id ≠ u.id → a ∈ d'.users := fun a ha hid =>
    userWrites_others (by simp [Write.touches]) hf ha hid
  refine ⟨⟨u,hu,rfl,?_⟩,hothers⟩
  obtain ⟨f,hform,hd⟩ := userWrites_users (by simp [Write.touches]) hf
  obtain ⟨a,ha,hid⟩ : ∃ a ∈ d'.users, a.id = u.id := by
    rw [hd]
    exact exists_mem_update hu (fun _ => by rcases hform with rfl | rfl <;> rfl) rfl
  have hhash := passwordChange_hash hw hu hf ha hid
  obtain ⟨t,rfl⟩ := userWrites_set hw (by simp [Write.touches]) hf hu ha hid
  refine ⟨t,?_⟩
  rw [← hhash]
  exact ha

end Rows

namespace AuthService
variable {P : Platform} {o : Nat → Reading} {n : Nat} {d : DB} {s : List Mail}

theorem resetPassword_ok {token newPassword hash : String} {r : OneTimeToken} {u : User}
    (h : OneTimeChecked P o n DB.resetTokens .reset d token r u)
    (hp : P.hashpw newPassword (o (n+2)).salt = some hash) :
    ∃ d', flushAll Write.apply (passwordChange o n r u hash) d = .ok d' ∧
      (resetPassword P token newPassword).exec Write.apply o ⟨d,d,[],n,s⟩ =
        (.ok (),⟨d',d',[],n+5,s⟩) := by
  obtain ⟨⟨i,hdec,hr,hu⟩,hexp⟩ := h
  obtain ⟨d',hf⟩ : Admissible (passwordChange o n r u hash) d :=
    useToken_admissible (List.mem_of_find?_eq_some hu)
      ⟨by simp,by simp,by simp⟩ fun _ => firstViolation_found (List.mem_of_find?_eq_some hr)
  refine ⟨d',hf,?_⟩
  unfold passwordChange at hf
  unfold resetPassword unusedToken userById
  simp only [exec_decodeToken_bind,hdec,exec_scalar_bind,flushAll_nil,hr,exec_now_bind,
    exec_appErrorIf_bind,Nat.not_le.mpr hexp,if_false,hu,exec_hashPassword_bind,hp,
    exec_setUser_bind,exec_add_bind,List.nil_append]
  rw [exec_commit]
  simp only [Conn.flushed,hf]

/-- Where `forgot_password` ends well, the token of the user that has the email is stored, and
mailed to him. -/
theorem forgotPassword_ok {email : String} {u : User}
    (hu : d.users.find? (fun u => u.email = P.lower email) = some u)
    (hok : ((forgotPassword P email).exec Write.apply o ⟨d,d,[],n,s⟩).1.isOk = true) :
    let r := (forgotPassword P email).exec Write.apply o ⟨d,d,[],n,s⟩
    newResetToken P o n u ∈ r.2.db.resetTokens ∧ r.2.sent = s ++ [⟨u.email,"Password Reset",
      "Your password reset token is: " ++ oneTimeToken P .reset u (o n).now⟩] := by
  unfold forgotPassword userByEmail at hok ⊢
  simp only [exec_scalar_bind,flushAll_nil,hu,exec_createPasswordResetToken_bind,exec_uuid4_bind,
    exec_add_bind,exec_commit_bind,List.nil_append,exec_sendEmail] at hok ⊢
  cases hf : flushAll Write.apply [.insertResetToken _] d with
  | error f => simp [hf,Outcome.isOk] at hok
  | ok d' =>
    simp only [hf] at hok ⊢
    by_cases hd : (o (n+2)).delivered = true
    · simp only [hd,if_true]
      refine ⟨?_,rfl⟩
      rw [(flushAll_single.mp hf).2]
      exact List.mem_append_right _ (List.mem_singleton_self _)
    · simp [hd,Outcome.isOk] at hok

end AuthService

section Runs
variable {P : Platform} {o : Readings} {w : World DB Mail} {q : Request} {email : String} {u : User}

theorem Reachable.traced (h : Reachable P o w) : Traced P (fun _ _ _ => True) w.db := by
  induction h with
  | start h =>
    intro k r hr
    cases k <;> simp [oneTimeTokens,h.verificationTokens,h.resetTokens] at hr
  | serve _ q ih =>
    intro k r hr
    obtain ⟨u,t,-,hrow⟩ := ih.handle k r hr
    exact ⟨u,t,trivial,hrow⟩

theorem account_lasts {qs : List Request} {x : UUID × String} (hw : w.db.Wf)
    (hx : x ∈ accounts w.db) (hqs : ∀ q ∈ qs, ¬ q.Deletes x.1) :
    x ∈ accounts (after P o w qs).db := by
  refine after_keeps (fun d => x ∈ accounts d) hw hx fun w _ hx q hq => ?_
  obtain ⟨ws,hc,hf⟩ := handle_commits P o w q
  exact flushAll_rel (keeps_account x.1 x.2) (fun v hv h => hqs q hq (hc.deletes (h ▸ hv))) hf hx

theorem login_iff {payload : LoginRequest} (hw : w.db.Wf) (hfresh : FreshKeys o.read w.taken w.db)
    (hu : u ∈ w.db.users) (hemail : u.email = P.lower payload.email) (ha : u.isActive = true) :
    (handle P o w { route := .auth (.login payload) }).1.isSuccess = true ↔
      verifyPassword P payload.password u.passwordHash = true := by
  have hfind : w.db.users.find? (fun u => u.email = P.lower payload.email) = some u :=
    find_eq_some_of_unique hu (by simp [hemail]) fun b hb hp =>
      eq_of_key hw.userEmail hb hu ((by simpa using hp : b.email = _).trans hemail.symm)
  rw [handle_plain,respond_isSuccess]
  simp only [AuthRoute.endpoint,AuthRouter.login,AuthRouter.loginTenantId,exec_bind_pure]
  exact AuthService.login_isOk_iff hfresh hfind ha

/-- Whoever presents the token of an unused row before its deadline sets the password of the row's
user. -/
theorem reset_granted {log : TokenType → User → Nat → Prop} {r : OneTimeToken}
    {token newPassword hash : String} (h : Traced P log w.db) (hw : w.db.Wf)
    (hr : r ∈ w.db.resetTokens) (hl : r.usedAt = none) (hh : r.tokenHash = hashToken P token)
    (hq : q.route = .auth (.resetPassword token newPassword))
    (hadm : Admits P q (o.read w.taken).now w.db)
    (ht : (o.read (endpointStart P w q + 1)).now < deadline P token)
    (hp : P.hashpw newPassword (o.read (endpointStart P w q + 2)).salt = some hash) :
    (handle P o w q).1.isSuccess = true ∧
      PasswordSet w.db (handle P o w q).2.db r.userId hash := by
  obtain ⟨r',a,hc,ha,hid⟩ := h.presented (k := .reset) hw hr hl hh ht
  obtain ⟨d',hf,hexec⟩ := AuthService.resetPassword_ok (s := w.sent) hc hp
  have hset := passwordChange_set hw ha hf
  rw [handle_auth_admitted hq hadm,respond_isSuccess]
  simp only [AuthRoute.endpoint,AuthRouter.resetPassword,exec_bind_pure,hexec]
  exact ⟨rfl,hid ▸ hset⟩

/-- A token that is mailed for a forgotten password is good until its deadline, less than a second
short of an hour. Whatever is requested meanwhile, but for the use of the token and the deletion of
its user: before the deadline it installs every password that bcrypt takes, for its own user and
nobody else, and he then logs in by what is verified against that hash alone; from the deadline on
it is refused, and changes nothing. -/
theorem recovery_endures (hr : Reachable P o w) (hq : q.route = .auth (.forgotPassword email))
    (hu : w.db.users.find? (fun u => u.email = P.lower email) = some u)
    (hs : (handle P o w q).1.isSuccess = true) :
    let token := oneTimeToken P .reset u (o.read (endpointStart P w q)).now
    (handle P o w q).2.sent = w.sent ++ [⟨P.lower email,"Password Reset",
        "Your password reset token is: " ++ token⟩] ∧
      (o.read (endpointStart P w q)).now + timedeltaHours 1 < deadline P token + 1000000 ∧
      ∀ qs, LeavesAlone qs .reset token u.id → ∀ q' newPassword,
        q'.route = .auth (.resetPassword token newPassword) →
        let later := after P o w (q :: qs)
        let n := endpointStart P later q'
        let x := handle P o later q'
        (Admits P q' (o.read later.taken).now later.db → (o.read (n+1)).now < deadline P token →
          ∀ hash, P.hashpw newPassword (o.read (n+2)).salt = some hash →
            x.1.isSuccess = true ∧ PasswordSet later.db x.2.db u.id hash ∧
            ∀ payload : LoginRequest, P.lower payload.email = P.lower email →
              (∃ a ∈ later.db.users, a.id = u.id ∧ a.isActive = true) →
              FreshKeys o.read x.2.taken x.2.db →
              ((handle P o x.2 { route := .auth (.login payload) }).1.isSuccess = true ↔
                verifyPassword P payload.password hash = true)) ∧
        (deadline P token ≤ (o.read n).now → x.1.isSuccess = false ∧ x.2.db = later.db) := by
  intro token
  rcases handle_auth (P := P) (o := o) (w := w) hq with ⟨hno,-⟩ | he
  · rw [hs] at hno
    cases hno
  have hclaims : P.jwtVerify token = some ⟨some u.id,some .reset,
      seconds ((o.read (endpointStart P w q)).now + timedeltaHours 1),none,some u.email⟩ :=
    P.jwtVerify_encode _
  have hmem := List.mem_of_find?_eq_some hu
  have hemail : u.email = P.lower email := by simpa using List.find?_some hu
  obtain ⟨hrow,hsent⟩ : AuthService.newResetToken P o.read (endpointStart P w q) u ∈
        (handle P o w q).2.db.resetTokens ∧
      (handle P o w q).2.sent = w.sent ++ [⟨u.email,"Password Reset",
        "Your password reset token is: " ++ token⟩] := by
    rw [he,respond_isSuccess] at hs
    rw [he]
    simp only [AuthRoute.endpoint,AuthRouter.forgotPassword,exec_bind_pure] at hs ⊢
    exact AuthService.forgotPassword_ok hu hs
  refine ⟨hemail ▸ hsent,?_,fun qs hqs q' newPassword hq' => ?_⟩
  · simp only [deadline,hclaims]
    exact lt_seconds _
  intro later n x
  have hlater : Reachable P o later := hr.after (q :: qs)
  refine ⟨fun hadm ht hash hp => ?_,fun ht => expired_refused hq' rfl (decode_deadline hclaims ht _)⟩
  have hlast : AuthService.newResetToken P o.read (endpointStart P w q) u ∈ later.db.resetTokens :=
    oneTimeToken_lasts (w := (handle P o w q).2) (k := .reset) (handle_wf hr.wf q) hrow rfl hqs
  obtain ⟨hok,hset⟩ := reset_granted hlater.traced hlater.wf hlast rfl rfl hq' hadm ht hp
  refine ⟨hok,hset,fun payload hpay hactive hfresh => ?_⟩
  obtain ⟨b,hb,hbid,hbact⟩ := hactive
  obtain ⟨⟨c,hcmem,hcid,t',hnew⟩,-⟩ := hset
  obtain rfl : b = c := eq_of_key hlater.wf.userKey hb hcmem (hbid.trans hcid.symm)
  have haccount : (u.id,u.email) ∈ accounts later.db :=
    account_lasts (w := (handle P o w q).2) (x := (u.id,u.email)) (handle_wf hr.wf q)
      (accounts_handle (by rintro ⟨id,h⟩; rw [hq] at h; cases h) (mem_accounts hmem))
      fun q hq => (hqs q hq).2
  obtain ⟨v,hv,hve⟩ := List.mem_map.mp haccount
  simp only [Prod.mk.injEq] at hve
  obtain rfl : b = v := eq_of_key hlater.wf.userKey hb hv (hbid.trans hve.1.symm)
  exact login_iff (handle_wf hlater.wf q') hfresh hnew ((hve.2.trans hemail).trans hpay.symm) hbact

/-- The guest forgets his password; the owner creates a tenant; the guest sets a new password, and
logs in by that one. -/
theorem recovery_endures_guest :
    let forgot : Request := { route := .auth (.forgotPassword "guest@example.com") }
    let reset : Request := { route := .auth (.resetPassword
      (oneTimeToken (plainPlatform {}) .reset Seed.guest 0) "Correct-horse2") }
    let later := after (plainPlatform {}) (Seed.readings 1000) (Seed.world [])
      [forgot,Seed.request 1 (.tenant (.createTenant "A" "a"))]
    let x := handle (plainPlatform {}) (Seed.readings 1000) later reset
    PasswordSet later.db x.2.db 2 "Correct-horse2" ∧
      ((handle (plainPlatform {}) (Seed.readings 1000) x.2
          { route := .auth (.login ⟨"guest@example.com","Correct-horse2"⟩) }).1.isSuccess = true ↔
        verifyPassword (plainPlatform {}) "Correct-horse2" "Correct-horse2" = true) := by
  intro forgot reset later x
  have hreachable : Reachable (plainPlatform {}) (Seed.readings 1000) (Seed.world []) :=
    .start (Seed.deployed_world (by simp) (by simp) (by simp))
  have hguest : (Seed.world []).db.users.find? (fun u => u.email =
      (plainPlatform {}).lower "guest@example.com") = some Seed.guest := by decide +kernel
  have halone : LeavesAlone [Seed.request 1 (.tenant (.createTenant "A" "a"))] .reset
      (oneTimeToken (plainPlatform {}) .reset Seed.guest 0) 2 := by
    intro q hq
    rw [List.mem_singleton.mp hq]
    exact ⟨nofun,nofun⟩
  have hok : (handle (plainPlatform {}) (Seed.readings 1000) (Seed.world []) forgot).1.isSuccess =
      true := by decide +kernel
  have hend := (recovery_endures hreachable (q := forgot) rfl hguest hok).2.2
  have hnow : ((Seed.readings 1000).read
      (endpointStart (plainPlatform {}) (Seed.world []) forgot)).now = 0 := by decide +kernel
  rw [hnow] at hend
  obtain ⟨-,hset,hlogin⟩ := (hend _ halone reset "Correct-horse2" rfl).1 ⟨none,by decide +kernel⟩
    (by decide +kernel) "Correct-horse2" rfl
  have hkeys : ∀ k ∈ x.2.db.keys, k < 1000+x.2.taken := by decide +kernel
  have hactive : ∃ a ∈ later.db.users, a.id = 2 ∧ a.isActive = true := by decide +kernel
  subst x later
  exact ⟨hset,hlogin _ rfl hactive (Seed.freshKeys hkeys)⟩

end Runs

end TenantAuth
