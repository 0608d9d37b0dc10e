import TenantAuth.Forwarding
import TenantAuth.Registration
set_option autoImplicit false

namespace TenantAuth
open Transact

/-- The second state has everything that the requests look at but the account and its memberships;
the rows can be in any order. -/
structure AgreeBut (a : User) (d d' : DB) : Prop where
  users : ∀ u, u ∈ d'.users ↔ u ∈ d.users ∧ u.id ≠ a.id
  tenants : ∀ t, t ∈ d'.tenants ↔ t ∈ d.tenants
  members : ∀ m, m ∈ d'.members ↔ m ∈ d.members ∧ m.userId ≠ a.id

/-- What becomes of the context of a tenant where its member is gone. -/
def barred (a : UUID) :
    Except AppError (Option TenantContext) → Except AppError (Option TenantContext)
  | .ok (some c) =>
    if c.tenantMember.userId = a then .error AuthService.tenantAccessDenied else .ok (some c)
  | verdict => verdict

/-- The caller comes with a token of the account itself, into a tenant. -/
def OwnScope (P : Platform) (a : User) (q : Request) (t : Nat) (d : DB) : Prop :=
  ∃ c, admission P q.authorization q.xTenantId t d = .ok (.ok (some c)) ∧
    c.tenantMember.userId = a.id

section Verdicts
variable {P : Platform} {a : User} {d d' : DB}

theorem AgreeBut.activeTenant_eq (h : AgreeBut a d d') (hd : d.Wf) (t : UUID) :
    activeTenant d' t = activeTenant d t := by
  refine (find_eq_find (fun x => by rw [h.tenants]) fun x hx y hy hpx hpy => ?_).symm
  simp only [decide_eq_true_eq] at hpx hpy
  exact eq_of_key hd.tenantKey hx hy (hpx.1.trans hpy.1.symm)

theorem AgreeBut.membershipOf_eq (h : AgreeBut a d d') (hd : d.Wf) {u : UUID} (hu : u ≠ a.id)
    (t : UUID) : membershipOf d' t u = membershipOf d t u := by
  refine (find_eq_find (fun x => ?_) fun x hx y hy hpx hpy => ?_).symm
  · simp only [h.members,decide_eq_true_eq]
    refine ⟨fun hx => ⟨⟨hx.1,hx.2.2.1 ▸ hu⟩,hx.2⟩,fun hx => ⟨hx.1.1,hx.2⟩⟩
  · simp only [decide_eq_true_eq] at hpx hpy
    refine eq_of_key hd.memberPair hx hy ?_
    rw [hpx.1,hpx.2.1,hpy.1,hpy.2.1]

theorem AgreeBut.membershipOf_own (h : AgreeBut a d d') (t : UUID) :
    membershipOf d' t a.id = none := by
  refine List.find?_eq_none.mpr fun m hm hp => ?_
  simp only [decide_eq_true_eq] at hp
  exact ((h.members m).mp hm).2 hp.2.1

theorem AgreeBut.unknown (h : AgreeBut a d d') (hd : d.Wf) (ha : a ∈ d.users) :
    d'.users.find? (fun u => u.email = a.email) = none := by
  refine List.find?_eq_none.mpr fun u hu hp => ?_
  obtain ⟨hu,hne⟩ := (h.users u).mp hu
  exact hne (congrArg User.id (eq_of_key hd.userEmail hu ha (by simpa using hp)))

theorem membershipOf_userId {t u : UUID} {m : TenantMember} (h : membershipOf d t u = some m) :
    m.userId = u := by
  have hp := List.find?_some h
  simp only [decide_eq_true_eq] at hp
  exact hp.2.1

theorem AgreeBut.contextAt_eq (h : AgreeBut a d d') (hd : d.Wf) (u x header : Option UUID) :
    contextAt u x header d' = barred a.id (contextAt u x header d) := by
  unfold contextAt
  split
  · rfl
  split
  · rfl
  · rfl
  rename_i t v _
  rw [h.activeTenant_eq hd]
  cases activeTenant d t with
  | none => rfl
  | some tenant =>
    by_cases hv : v = a.id
    · subst hv
      simp only [h.membershipOf_own]
      cases hm : membershipOf d t a.id with
      | none => rfl
      | some m => simp [barred,membershipOf_userId hm]
    · simp only [h.membershipOf_eq hd hv]
      cases hm : membershipOf d t v with
      | none => rfl
      | some m => simp [barred,membershipOf_userId hm,hv]

theorem AgreeBut.admission_eq (h : AgreeBut a d d') (hd : d.Wf)
    (authorization xTenantId : Option String)
    (t : Nat) : admission P authorization xTenantId t d' =
      match admission P authorization xTenantId t d with
      | .ok verdict => .ok (barred a.id verdict)
      | r => r := by
  unfold admission
  cases parseTenantId P xTenantId with
  | error e => rfl
  | ok header =>
    cases bearerToken authorization with
    | none => simp only [h.contextAt_eq hd]
    | some token =>
      simp only
      cases decodeAt P token (some .access) t with
      | ok payload => simp only [h.contextAt_eq hd]
      | error e =>
        simp only [h.contextAt_eq hd]
        split <;> rfl

end Verdicts

section Endpoints
variable {P : Platform} {o : Nat → Reading} {n : Nat} {d : DB} {s : List Mail} {email : String}

def resetRequested : Body :=
  .message "If an account with that email exists, a reset link has been sent."

theorem forgotPassword_known {u : User} (hfresh : FreshKeys o n d)
    (hu : d.users.find? (fun u => u.email = P.lower email) = some u) :
    ((AuthRouter.forgotPassword P email).exec Write.apply o ⟨d,d,[],n,s⟩).1 =
      if (o (n+2)).delivered then .ok resetRequested else .raised .smtpError := by
  have hrow : (⟨(o (n+1)).uuid,u.id,hashToken P (createTypedToken P u.id u.email .reset
      ((o n).now + timedeltaHours 1)).1,(createTypedToken P u.id u.email .reset
      ((o n).now + timedeltaHours 1)).2,none⟩ : OneTimeToken) =
      AuthService.newResetToken P o n u := rfl
  have hstored : flushAll Write.apply [.insertResetToken (AuthService.newResetToken P o n u)] d =
      .ok ((Write.insertResetToken (AuthService.newResetToken P o n u)).effect d) :=
    flushAll_single.mpr ⟨(insertOneTimeToken_violation
      (List.mem_map_of_mem (List.mem_of_find?_eq_some hu))).2
        (hfresh.resetTokens (Nat.le_add_right n 1)),rfl⟩
  unfold AuthRouter.forgotPassword
  rw [exec_bind]
  unfold AuthService.forgotPassword AuthService.userByEmail
  simp only [exec_scalar_bind,flushAll_nil,hu,exec_createPasswordResetToken_bind,exec_uuid4_bind,
    exec_add_bind,exec_commit_bind,List.nil_append,hrow,hstored]
  rw [AuthService.exec_sendEmail,show n+1+1 = n+2 from rfl]
  cases (o (n+2)).delivered with
  | true => rfl
  | false => rfl

theorem forgotPassword_unknown
    (hu : d.users.find? (fun u => u.email = P.lower email) = none) :
    ((AuthRouter.forgotPassword P email).exec Write.apply o ⟨d,d,[],n,s⟩).1 = .ok resetRequested := by
  unfold AuthRouter.forgotPassword
  rw [exec_bind]
  unfold AuthService.forgotPassword AuthService.userByEmail
  simp only [exec_scalar_bind,flushAll_nil,hu]
  rfl

theorem login_refused {password : String} {x : Option String}
    (hu : ∀ u, d.users.find? (fun u => u.email = P.lower email) = some u →
      verifyPassword P password u.passwordHash = false) :
    ((AuthRouter.login P ⟨email,password⟩ x).exec Write.apply o ⟨d,d,[],n,s⟩).1 =
      match AuthRouter.loginTenantId P x with
      | .error e => .raised (.app e)
      | .ok _ => .raised (.app AuthService.invalidCredentials) := by
  unfold AuthRouter.login
  cases AuthRouter.loginTenantId P x with
  | error e => rfl
  | ok tenantId =>
    simp only
    rw [exec_bind]
    unfold AuthService.login AuthService.userByEmail
    simp only [exec_scalar_bind,flushAll_nil]
    cases hf : d.users.find? (fun u => u.email = P.lower email) with
    | none => rfl
    | some u => simp [hu u hf]

theorem loginTenantId_error {x : Option String} {e : AppError}
    (h : AuthRouter.loginTenantId P x = .error e) : e = invalidTenantId := by
  unfold AuthRouter.loginTenantId at h
  split at h
  · cases h
  split at h
  · cases h
  split at h
  · cases h
  · exact (Except.error.inj h).symm

end Endpoints

def Request.to (q : Request) (r : AuthRoute) : Request := { q with route := .auth r }

section Responses
variable {P : Platform} {o o' : Readings} {w w' : World DB Mail} {a : User} {q : Request}

def answer (P : Platform) (o : Readings) (w : World DB Mail) (q : Request) : Response :=
  respond q.route.statusCode
    (serve Write.apply o.read (q.endpoint P) ⟨w.db,endpointStart P w q,w.sent⟩).1

/-- A request is answered alike just when it is not let through on one of the states only, and the
endpoint, where it is reached, answers alike. -/
theorem same_response_iff (hw : w.db.Wf) (hagree : AgreeBut a w.db w'.db)
    (hnow : (o'.read w'.taken).now = (o.read w.taken).now)
    (hanswer : answer P o w q ≠ buildErrorResponse AuthService.tenantAccessDenied) :
    (handle P o w q).1 = (handle P o' w' q).1 ↔
      ¬ OwnScope P a q (o.read w.taken).now w.db ∧
        (Admits P q (o.read w.taken).now w.db → answer P o w q = answer P o' w' q) := by
  rw [handle_eq,handle_eq,hnow,hagree.admission_eq hw]
  unfold OwnScope Admits
  cases hadm : admission P q.authorization q.xTenantId (o.read w.taken).now w.db with
  | raised e => simp
  | fault f => simp
  | ok verdict =>
    cases verdict with
    | error e => simp [barred]
    | ok context =>
      cases context with
      | none => simp [barred,answer]
      | some c =>
        by_cases hc : c.tenantMember.userId = a.id
        · simpa [barred,hc,answer] using hanswer
        · simp [barred,hc,answer]

variable {e : String}

/-- The endpoint of forgot-password, on both states: without the account it always answers that
the mail has been sent, with it only when that is so. -/
theorem forgotPassword_answers (hw : w.db.Wf) (hagree : AgreeBut a w.db w'.db)
    (hfresh : FreshKeys o.read w.taken w.db) (ha : a ∈ w.db.users) (he : a.email = P.lower e) :
    answer P o' w' (q.to (.forgotPassword e)) = .success 200 resetRequested ∧
      answer P o w (q.to (.forgotPassword e)) =
        if (o.read (endpointStart P w q + 2)).delivered then .success 200 resetRequested
        else unhandledException := by
  have hknown : w.db.users.find? (fun u => u.email = P.lower e) = some a := by
    refine find_eq_some_of_unique ha (by simp [he]) fun u hu hp => ?_
    exact eq_of_key hw.userEmail hu ha (by simpa [he] using hp)
  have hunknown := hagree.unknown hw ha
  rw [he] at hunknown
  refine ⟨congrArg (respond 200) (forgotPassword_unknown hunknown),?_⟩
  have hanswer : answer P o w (q.to (.forgotPassword e)) = respond 200
      (if (o.read (endpointStart P w q + 2)).delivered then .ok resetRequested
        else .raised .smtpError) :=
    congrArg (respond 200) (forgotPassword_known (hfresh.mono (Nat.le_add_right _ _)) hknown)
  rw [hanswer]
  split <;> rfl

theorem login_answers {password : String} (hw : w.db.Wf) (hagree : AgreeBut a w.db w'.db)
    (ha : a ∈ w.db.users) (he : a.email = P.lower e)
    (hp : verifyPassword P password a.passwordHash = false) :
    answer P o w (q.to (.login ⟨e,password⟩)) = answer P o' w' (q.to (.login ⟨e,password⟩)) ∧
      answer P o w (q.to (.login ⟨e,password⟩)) ≠
        buildErrorResponse AuthService.tenantAccessDenied := by
  have hknown : ∀ u, w.db.users.find? (fun u => u.email = P.lower e) = some u →
      verifyPassword P password u.passwordHash = false := by
    intro u hu
    have hemail : u.email = a.email := by simpa [he] using List.find?_some hu
    rw [eq_of_key hw.userEmail (List.mem_of_find?_eq_some hu) ha hemail]
    exact hp
  have hunknown := hagree.unknown hw ha
  rw [he] at hunknown
  have hleft : answer P o w (q.to (.login ⟨e,password⟩)) = respond 200
      (match AuthRouter.loginTenantId P q.xTenantId with
        | .error e => .raised (.app e)
        | .ok _ => .raised (.app AuthService.invalidCredentials)) :=
    congrArg (respond 200) (login_refused hknown)
  have hright : answer P o' w' (q.to (.login ⟨e,password⟩)) = respond 200
      (match AuthRouter.loginTenantId P q.xTenantId with
        | .error e => .raised (.app e)
        | .ok _ => .raised (.app AuthService.invalidCredentials)) :=
    congrArg (respond 200) (login_refused fun u hu => absurd (hunknown.symm.trans hu) (by simp))
  refine ⟨hleft.trans hright.symm,?_⟩
  rw [hleft]
  cases hx : AuthRouter.loginTenantId P q.xTenantId with
  | error e =>
    rw [loginTenantId_error hx]
    decide
  | ok tenantId =>
    change respond 200 (.raised (.app AuthService.invalidCredentials)) ≠ _
    decide

/-- The two states answer alike: a request for a reset of `e`, and a login with `e` and a password
that is not that of the account. -/
def Unrevealing (P : Platform) (o o' : Readings) (w w' : World DB Mail) (a : User) (e : String)
    (q : Request) : Prop :=
  (handle P o w (q.to (.forgotPassword e))).1 = (handle P o' w' (q.to (.forgotPassword e))).1 ∧
    ∀ password, verifyPassword P password a.passwordHash = false →
      (handle P o w (q.to (.login ⟨e,password⟩))).1 = (handle P o' w' (q.to (.login ⟨e,password⟩))).1

/-- Login does not tell the states apart unless the caller is the account itself, on his way into a
tenant; forgot-password does it also where the mail is not taken. -/
theorem unrevealing_iff (hr : Reachable P o w) (hagree : AgreeBut a w.db w'.db)
    (hread : ∀ k, o'.read (w'.taken+k) = o.read (w.taken+k))
    (hfresh : FreshKeys o.read w.taken w.db) (ha : a ∈ w.db.users) (he : a.email = P.lower e) :
    (Unrevealing P o o' w w' a e q ↔
      ¬ OwnScope P a q (o.read w.taken).now w.db ∧
        (Admits P q (o.read w.taken).now w.db →
          (o.read (endpointStart P w q + 2)).delivered = true)) ∧
    ∀ password, verifyPassword P password a.passwordHash = false →
      ((handle P o w (q.to (.login ⟨e,password⟩))).1 =
          (handle P o' w' (q.to (.login ⟨e,password⟩))).1 ↔
        ¬ OwnScope P a q (o.read w.taken).now w.db) := by
  have hnow : (o'.read w'.taken).now = (o.read w.taken).now := congrArg Reading.now (hread 0)
  have hlogin : ∀ password, verifyPassword P password a.passwordHash = false →
      ((handle P o w (q.to (.login ⟨e,password⟩))).1 =
          (handle P o' w' (q.to (.login ⟨e,password⟩))).1 ↔
        ¬ OwnScope P a q (o.read w.taken).now w.db) := by
    intro password hp
    obtain ⟨hsame,hne⟩ :
        answer P o w (q.to (.login ⟨e,password⟩)) = answer P o' w' (q.to (.login ⟨e,password⟩)) ∧
          answer P o w (q.to (.login ⟨e,password⟩)) ≠
            buildErrorResponse AuthService.tenantAccessDenied := login_answers hr.wf hagree ha he hp
    exact (same_response_iff hr.wf hagree hnow hne).trans ⟨fun h => h.1,fun h => ⟨h,fun _ => hsame⟩⟩
  obtain ⟨hwithout,hwith⟩ :
      answer P o' w' (q.to (.forgotPassword e)) = .success 200 resetRequested ∧
        answer P o w (q.to (.forgotPassword e)) =
          if (o.read (endpointStart P w q + 2)).delivered then .success 200 resetRequested
          else unhandledException := forgotPassword_answers hr.wf hagree hfresh ha he
  have hne : answer P o w (q.to (.forgotPassword e)) ≠
      buildErrorResponse AuthService.tenantAccessDenied := by
    rw [hwith]
    split <;> decide
  have hforgot := same_response_iff hr.wf hagree hnow hne
  rw [hwith,hwithout] at hforgot
  have hmail : (if (o.read (endpointStart P w q + 2)).delivered then Response.success 200 resetRequested
      else unhandledException) = .success 200 resetRequested ↔
      (o.read (endpointStart P w q + 2)).delivered = true := by
    cases (o.read (endpointStart P w q + 2)).delivered with
    | true => simp
    | false => simp [unhandledException]
  rw [hmail] at hforgot
  refine ⟨⟨fun h => hforgot.mp h.1,fun h => ⟨hforgot.mpr h,fun password hp => ?_⟩⟩,hlogin⟩
  exact (hlogin password hp).mpr h.1

end Responses

section Guest

def Seed.ownerOnly : World DB Mail := ⟨db 0 [owner] [],0,[]⟩

def Seed.mailless : Readings where
  read i := { (readings 0).read i with delivered := false }
  clock := (readings 0).clock

theorem Seed.agreeBut_guest : AgreeBut guest (world []).db ownerOnly.db where
  users u := by
    have hne : guest.id ≠ owner.id := by decide
    simp only [ownerOnly,world,db,List.mem_cons,List.not_mem_nil,or_false]
    constructor
    · rintro rfl
      exact ⟨.inl rfl,hne.symm⟩
    · rintro ⟨rfl | rfl,h⟩
      · rfl
      · exact absurd rfl h
  tenants _ := Iff.rfl
  members _ := by simp [ownerOnly,world,db]

/-- With the mail server, for the guest and without any token. -/
theorem unrevealing_iff_guest :
    Unrevealing (plainPlatform {}) (Seed.readings 0) (Seed.readings 0) (Seed.world []) Seed.ownerOnly
      Seed.guest "guest@example.com" Seed.login := by
  refine (unrevealing_iff (.start (Seed.deployed_world (by simp) (by simp) (by simp)))
    Seed.agreeBut_guest (fun _ => rfl) (Seed.freshKeys (by decide +kernel)) (by decide +kernel)
    (by decide +kernel)).1.mpr ⟨?_,fun _ => rfl⟩
  rintro ⟨c,hc,-⟩
  cases hc

/-- Without it the answer tells that the guest is registered. -/
theorem unrevealing_fails :
    ¬ ∀ (P : Platform) (o o' : Readings) (w w' : World DB Mail) (a : User) (e : String) (q : Request),
      Reachable P o w → Reachable P o' w' → AgreeBut a w.db w'.db →
      (∀ k, o'.read (w'.taken+k) = o.read (w.taken+k)) → FreshKeys o.read w.taken w.db →
      a ∈ w.db.users → a.email = P.lower e → q.authorization = none → q.xTenantId = none →
      Unrevealing P o o' w w' a e q := by
  intro h
  have hfresh : FreshKeys (Seed.readings 0).read 0 (Seed.world []).db :=
    Seed.freshKeys (by decide +kernel)
  have hsame := (h (plainPlatform {}) Seed.mailless Seed.mailless (Seed.world []) Seed.ownerOnly
    Seed.guest "guest@example.com" Seed.login
    (.start (Seed.deployed_world (by simp) (by simp) (by simp)))
    (.start (Seed.deployed (by decide) (by simp [Seed.owner,Seed.account]) (by simp) (by simp)
      (by simp)))
    Seed.agreeBut_guest (fun _ => rfl) ⟨hfresh.unused,hfresh.distinct⟩ (by decide +kernel)
    (by decide +kernel) rfl rfl).1
  exact absurd hsame (by decide +kernel)

end Guest

end TenantAuth
