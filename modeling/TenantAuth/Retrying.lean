import TenantAuth.Mails
import TenantAuth.PasswordPolicy
import TenantAuth.Provenance
import TenantAuth.Queues
set_option autoImplicit false

/-! Registrations that are interrupted. `register` commits the account, commits the row of its
verification token, and mails the token; nothing else mints or mails one. -/

namespace TenantAuth
open Transact

namespace AuthService
variable (P : Platform)

/-- `register` up to its first commit, -/
def prepareUser (payload : RegisterRequest) : App UUID := do
  let existing ← userByEmail P payload.email
  emailAlreadyExists.raiseIf existing.isSome
  let passwordHash ← hashPassword P payload.password
  let id ← uuid4
  let created ← now
  add (.insertUser ⟨id,P.lower payload.email,passwordHash,strip payload.firstName,
    strip payload.lastName,true,false,created,created⟩)
  pure id

/-- from there to the second, -/
def prepareVerification (id : UUID) : App (User × String) := do
  let user ← refreshRow DB.users fun u => u.id = id
  let (token,expiresAt) ← createVerificationToken P user.id user.email
  let tokenId ← uuid4
  add (.insertVerificationToken ⟨tokenId,user.id,hashToken P token,expiresAt,none⟩)
  pure (user,token)

/-- and the rest. -/
def mailVerification (x : User × String) : App User := do
  sendEmail ⟨x.1.email,"Verify your account",
    "Welcome " ++ x.1.firstName ++ ", your verification token is: " ++ x.2⟩
  pure x.1

variable {P} {payload : RegisterRequest} {e : Exc} {k : Nat}

theorem register_eq : register P payload = prepareUser P payload >>= fun id => commit >>= fun _ =>
    prepareVerification P id >>= fun x => commit >>= fun _ => mailVerification x := by
  unfold prepareUser prepareVerification mailVerification register
  simp only [bind_assoc_prog]
  rfl

theorem takes_prepareUser : (prepareUser P payload).Takes 5 := by
  have hhash : (hashPassword P payload.password).Takes 1 :=
    Prog.Takes.bind (j := 0) (takes_reading _) fun salt => by
      cases P.hashpw payload.password salt with
      | none => exact takes_raise _ _
      | some hash => rfl
  refine Prog.Takes.bind (i := 1) (j := 4) (takes_select _) fun _ => ?_
  refine Prog.Takes.bind (i := 0) (j := 4) (takes_raiseIf _ _) fun _ => ?_
  refine Prog.Takes.bind (i := 1) (j := 3) hhash fun _ => ?_
  exact fun _ _ => rfl

theorem takes_prepareVerification (id : UUID) : (prepareVerification P id).Takes 4 := by
  have hrow : (refreshRow DB.users fun u => u.id = id).Takes 1 :=
    Prog.Takes.bind (j := 0) (takes_select _) fun r => by
      cases r with
      | none => exact takes_raise _ _
      | some r => rfl
  refine Prog.Takes.bind (i := 1) (j := 3) hrow fun _ => ?_
  exact fun _ _ => rfl

theorem takes_mailVerification (x : User × String) : (mailVerification x).Takes 2 := by
  refine Prog.Takes.bind (i := 2) (j := 0) ?_ fun _ => rfl
  exact Prog.Takes.bind (i := 1) (j := 1) (takes_reading _) fun b => by
    cases b with
    | true => exact takes_emit _
    | false => exact takes_raise _ _

theorem takes_register : (register P payload).Takes 13 := by
  rw [register_eq]
  refine Prog.Takes.bind (i := 5) (j := 8) takes_prepareUser fun id => ?_
  refine Prog.Takes.bind (i := 1) (j := 7) takes_commit fun _ => ?_
  refine Prog.Takes.bind (i := 4) (j := 3) (takes_prepareVerification id) fun x => ?_
  exact Prog.Takes.bind (i := 1) (j := 2) takes_commit fun _ => takes_mailVerification x

theorem quiet_prepareUser : (prepareUser P payload).Quiet := by
  have hhash : (hashPassword P payload.password).Quiet :=
    Prog.Quiet.bind (quiet_reading _) fun salt => by
      cases P.hashpw payload.password salt with
      | none => exact quiet_raise _
      | some hash => exact quiet_pure hash
  refine Prog.Quiet.bind (quiet_select _) fun _ => ?_
  refine Prog.Quiet.bind (quiet_raiseIf _ _) fun _ => ?_
  exact Prog.Quiet.bind hhash fun _ _ _ => trivial

section Stages
variable {o : Nat → Reading} {d : DB} {n : Nat} {s : List Mail}

theorem register_early (hk : k ≤ 5) (c : Conn DB Write Mail) :
    (((register P payload).failAt e k).exec Write.apply o c).2.db = c.db := by
  rw [register_eq]
  rcases Nat.lt_or_eq_of_le hk with hk | rfl
  · rw [failAt_bind_lt takes_prepareUser hk,
      (exec_bind_failed Write.apply o _ (failAt_isOk takes_prepareUser hk c)).2]
    exact Prog.Quiet.exec_db quiet_prepareUser.failAt c
  · rw [show (5 : Nat) = 5+0 from rfl,failAt_bind_add takes_prepareUser]
    exact Prog.Quiet.exec_db (Prog.Quiet.bind quiet_prepareUser fun _ => quiet_raise e) c

theorem register_refused (hp : P.hashpw payload.password (o n).salt = none) :
    (((register P payload).failAt e k).exec Write.apply o ⟨d,d,[],n,s⟩).1.isOk = false ∧
      (((register P payload).failAt e k).exec Write.apply o ⟨d,d,[],n,s⟩).2.db = d := by
  rcases Nat.lt_or_ge k 5 with hk | hk
  · exact ⟨failAt_isOk takes_register (by omega) _,register_early (by omega) _⟩
  obtain ⟨j,rfl⟩ := Nat.exists_eq_add_of_le hk
  have hfails : ((prepareUser P payload).exec Write.apply o ⟨d,d,[],n,s⟩).1.isOk = false := by
    unfold prepareUser userByEmail
    simp only [exec_scalar_bind,flushAll_nil,exec_appErrorIf_bind,exec_hashPassword_bind,hp]
    split <;> rfl
  rw [register_eq,failAt_bind_add takes_prepareUser]
  obtain ⟨hok,hdb⟩ := exec_bind_failed Write.apply o _ hfails
  exact ⟨hok,by rw [hdb]; exact Prog.Quiet.exec_db quiet_prepareUser _⟩

theorem register_complete (hk : 13 ≤ k) : (register P payload).failAt e k = register P payload :=
  failAt_of_takes takes_register hk

/-- `register` behind its first commit. -/
def verifyLater (P : Platform) (id : UUID) : App User :=
  prepareVerification P id >>= fun x => commit >>= fun _ => mailVerification x

theorem writes_verifyLater (id : UUID) : (verifyLater P id).Writes fun w => .users ∉ w.touches := by
  refine Prog.Writes.bind ?_ fun x => ?_
  · refine Prog.Writes.bind (writes_refreshRow _ _) fun _ => ?_
    refine Prog.Writes.bind (Prog.Writes.bind writes_now fun _ => writes_pure _ _) fun _ => ?_
    refine Prog.Writes.bind writes_uuid4 fun _ => ?_
    exact Prog.Writes.bind ((writes_add _ _).mpr (by simp [Write.touches])) fun _ => writes_pure _ _
  · refine Prog.Writes.bind (writes_commit _) fun _ => ?_
    exact Prog.Writes.bind (writes_sendEmail _) fun _ => writes_pure _ _

theorem register_split : register P payload =
    (prepareUser P payload >>= fun id => commit >>= fun _ => pure id) >>= verifyLater P := by
  rw [register_eq]
  simp only [bind_assoc_prog]
  rfl

theorem takes_addUser :
    (prepareUser P payload >>= fun id => commit >>= fun _ => (pure id : App UUID)).Takes 6 :=
  Prog.Takes.bind (i := 5) (j := 1) takes_prepareUser fun _ => rfl

theorem addUser_exec {u : User} {hash : String} (hu : u = newUser P o n payload hash)
    (hfresh : FreshKeys o n d)
    (hfree : d.users.find? (fun u => u.email = P.lower payload.email) = none)
    (hp : P.hashpw payload.password (o n).salt = some hash) (hfits : payload.Fits P) :
    (prepareUser P payload >>= fun id => commit >>= fun _ => (pure id : App UUID)).exec Write.apply o
        ⟨d,d,[],n,s⟩ =
      (.ok u.id,⟨(Write.insertUser u).effect d,(Write.insertUser u).effect d,[],n+3,s⟩) := by
  have h1 : flushAll Write.apply [.insertUser u] d = .ok ((Write.insertUser u).effect d) :=
    flushAll_single.mpr ⟨(registration_admissible hu hfresh hfree hfits).1,rfl⟩
  have hnew : (⟨(o (n+1)).uuid,P.lower payload.email,hash,strip payload.firstName,
      strip payload.lastName,true,false,(o (n+1+1)).now,(o (n+1+1)).now⟩ : User) = u := hu.symm
  unfold prepareUser userByEmail
  simp only [bind_assoc_prog,exec_scalar_bind,flushAll_nil,exec_appErrorIf_bind,
    exec_hashPassword_bind,hfree,Option.isSome_none,Bool.false_eq_true,if_false,hp,exec_uuid4_bind,
    exec_now_bind,exec_add_bind,List.nil_append,hnew,exec_pure_bind,exec_commit_bind,h1]
  rw [hu]
  rfl

theorem addUser_unfit (hfresh : FreshKeys o n d) (hfits : ¬ payload.Fits P) :
    let x := (prepareUser P payload >>= fun id => commit >>= fun _ => (pure id : App UUID)).exec
      Write.apply o ⟨d,d,[],n,s⟩
    x.1.isOk = false ∧ x.2.db = d := by
  intro x
  have hx : x = (prepareUser P payload >>= fun id => commit >>= fun _ => (pure id : App UUID)).exec
    Write.apply o ⟨d,d,[],n,s⟩ := rfl
  unfold prepareUser userByEmail at hx
  simp only [bind_assoc_prog,exec_scalar_bind,flushAll_nil,exec_appErrorIf_bind,
    exec_hashPassword_bind] at hx
  cases hfree : d.users.find? fun u => u.email = P.lower payload.email with
  | some u =>
    simp only [hfree,Option.isSome_some,if_true] at hx
    exact ⟨by rw [hx]; rfl,by rw [hx]⟩
  | none =>
    cases hp : P.hashpw payload.password (o n).salt with
    | none =>
      simp only [hfree,Option.isSome_none,Bool.false_eq_true,if_false,hp] at hx
      exact ⟨by rw [hx]; rfl,by rw [hx]⟩
    | some hash =>
      obtain ⟨f,hf⟩ : ∃ f, flushAll Write.apply [.insertUser (newUser P o n payload hash)] d =
          .error f := newUser_refused hfresh hfree hfits
      have hnew : (⟨(o (n+1)).uuid,P.lower payload.email,hash,strip payload.firstName,
          strip payload.lastName,true,false,(o (n+1+1)).now,(o (n+1+1)).now⟩ : User) =
          newUser P o n payload hash := rfl
      simp only [hfree,Option.isSome_none,Bool.false_eq_true,if_false,hp,exec_uuid4_bind,
        exec_now_bind,exec_add_bind,List.nil_append,hnew,exec_pure_bind,exec_commit_bind] at hx
      rw [hf] at hx
      exact ⟨by rw [hx]; rfl,by rw [hx]⟩

theorem register_unstored (hfresh : FreshKeys o n d) (hfits : ¬ payload.Fits P) :
    (((register P payload).failAt e k).exec Write.apply o ⟨d,d,[],n,s⟩).1.isOk = false ∧
      (((register P payload).failAt e k).exec Write.apply o ⟨d,d,[],n,s⟩).2.db = d := by
  rcases Nat.lt_or_ge 5 k with hk | hk
  · obtain ⟨j,rfl⟩ := Nat.exists_eq_add_of_le hk
    obtain ⟨hfails,hdb⟩ := addUser_unfit (s := s) hfresh hfits
    rw [register_split,failAt_bind_add takes_addUser]
    obtain ⟨hok,hstate⟩ := exec_bind_failed Write.apply o _ hfails
    exact ⟨hok,hstate ▸ hdb⟩
  · exact ⟨failAt_isOk takes_register (by omega) _,register_early hk _⟩

theorem register_late (hk : 6 ≤ k) {u : User} {hash : String} (hu : u = newUser P o n payload hash)
    (hfresh : FreshKeys o n d)
    (hfree : d.users.find? (fun u => u.email = P.lower payload.email) = none)
    (hp : P.hashpw payload.password (o n).salt = some hash) (hfits : payload.Fits P) :
    (((register P payload).failAt e k).exec Write.apply o ⟨d,d,[],n,s⟩).2.db.users =
      d.users ++ [u] := by
  obtain ⟨j,rfl⟩ := Nat.exists_eq_add_of_le hk
  rw [register_split,failAt_bind_add takes_addUser,exec_bind,addUser_exec hu hfresh hfree hp hfits]
  exact (Prog.Writes.exec_rel (keeps_frame .users) (writes_verifyLater u.id).failAt (by simp)
    (SameIn.refl _ _))

end Stages

end AuthService

section Definitions
variable (P : Platform) (o : Readings) (w : World DB Mail)

/-- A token of the user that was made at the instant `t` has been mailed to him, and the one row
that he has is that of this token, unused. -/
structure Mailed (u : User) (t : Nat) : Prop where
  mail : AuthService.verificationMail P u t ∈ w.sent
  row : ∃ r, w.db.verificationTokens.filter (fun r => r.userId = u.id) = [r] ∧
    r.tokenHash = hashToken P (AuthService.verificationTokenAt P u t) ∧
    r.expiresAt = t + timedeltaHours 24 ∧ r.usedAt = none

/-- The request mails a verification token for the email that is made while it is served. -/
def ObtainsToken (q : Request) (email : String) : Prop :=
  ∃ u j, u.email = email ∧ w.taken ≤ j ∧ j < (handle P o w q).2.taken ∧
    (handle P o w q).2.sent = w.sent ++ [AuthService.verificationMail P u (o.read j).now] ∧
    Mailed P (handle P o w q).2 u (o.read j).now

variable {P} in
/-- After some requests, none of which deletes a user, one obtains a token for the email, and the
same registration is not refused for the email now. -/
def Retriable (E : EmailStr P) (payload : RegisterRequest) : Prop :=
  (∃ qs q, (∀ q' ∈ qs, ¬ q'.DeletesUser) ∧ Validated E q ∧
    ObtainsToken P o (after P o w qs) q (P.lower payload.email)) ∧
  (handle P o w { route := .auth (.register payload) }).1 ≠
    buildErrorResponse AuthService.emailAlreadyExists

def registration (authorization xTenantId : Option String) (payload : RegisterRequest) : Request :=
  { authorization := authorization, xTenantId := xTenantId, route := .auth (.register payload) }

/-- that gets past the middleware and is stopped in front of the operation after the first `k`. -/
def stopped (authorization xTenantId : Option String) (payload : RegisterRequest) (e : Exc)
    (k : Nat) : Outcome Exc Fault User × World DB Mail :=
  serve Write.apply o.read ((AuthService.register P payload).failAt e k)
    ⟨w.db,endpointStart P w (registration authorization xTenantId payload),w.sent⟩

/-- From reading `n` on, it ends with its first commit at the latest, be it stopped before or be
the password one that cannot be hashed or the commit one that is refused, or it gets to its end and
the server takes the mail. -/
def Unbroken (n : Nat) (payload : RegisterRequest) (k : Nat) : Prop :=
  k ≤ 5 ∨ P.hashpw payload.password (o.read n).salt = none ∨ ¬ payload.Fits P ∨
    13 ≤ k ∧ (o.read (n+5)).delivered = true

end Definitions

section Stranded
variable {P : Platform} {o : Readings} {w : World DB Mail} {q : Request} {email : String}

theorem accounts_after {qs : List Request} (hq : ∀ q ∈ qs, ¬ q.DeletesUser) :
    accounts w.db ⊆ accounts (after P o w qs).db := by
  induction qs generalizing w with
  | nil => exact fun _ h => h
  | cons q qs ih =>
    exact fun x hx => ih (fun q' hq' => hq q' (List.mem_cons_of_mem _ hq'))
      (accounts_handle (hq q List.mem_cons_self) hx)

theorem not_obtainsToken {id : UUID} (h : (id,email) ∈ accounts w.db) :
    ¬ ObtainsToken P o w q email := by
  rintro ⟨u,j,rfl,-,-,hs,-⟩
  obtain ⟨ms,hms,hall⟩ := handle_sent (P := P) (o := o) (w := w) (q := q)
  obtain rfl : ms = [AuthService.verificationMail P u (o.read j).now] :=
    List.append_cancel_left (hms.symm.trans hs)
  rcases hall _ (List.mem_singleton_self _) with hsub | ⟨payload,-,hto,hfree⟩
  · simp [AuthService.verificationMail] at hsub
  · obtain ⟨a,ha,he⟩ := List.mem_map.mp h
    have hemail : a.email = P.lower payload.email := (Prod.mk.inj he).2.trans hto
    simpa [hemail] using List.find?_eq_none.mp hfree a ha

theorem not_retriable {E : EmailStr P} {id : UUID} {payload : RegisterRequest}
    (h : (id,P.lower payload.email) ∈ accounts w.db) : ¬ Retriable o w E payload := by
  rintro ⟨⟨qs,q,hqs,-,hobtains⟩,-⟩
  exact not_obtainsToken (accounts_after hqs h) hobtains

end Stranded

section Retries
variable {P : Platform} {o : Readings} {d : DB} {n : Nat} {s : List Mail}
  {payload : RegisterRequest} {u : User} {hash : String}

theorem mailed_registered {m : Nat} (hd : d.Wf) (hu : u.id ∉ d.users.map User.id) :
    Mailed P ⟨AuthService.registered P o.read d n u,m,
      s ++ [AuthService.verificationMail P u (o.read (n+3)).now]⟩ u (o.read (n+3)).now where
  mail := List.mem_append_right _ (List.mem_singleton_self _)
  row := by
    refine ⟨AuthService.newVerificationToken P o.read n u,?_,rfl,rfl,rfl⟩
    have hnone : d.verificationTokens.filter (fun r => r.userId = u.id) = [] := by
      refine List.filter_eq_nil_iff.mpr fun r hr he => hu ?_
      rw [← of_decide_eq_true he]
      exact hd.verificationTokenUser (List.mem_map_of_mem hr)
    simp [AuthService.registered,Write.effect,hnone,AuthService.newVerificationToken]

theorem register_unrefused {w : World DB Mail} (hfresh : FreshKeys o.read w.taken w.db)
    (hfree : w.db.users.find? (fun u => u.email = P.lower payload.email) = none) :
    (handle P o w { route := .auth (.register payload) }).1 ≠
      buildErrorResponse AuthService.emailAlreadyExists := by
  rw [handle_plain]
  simp only [AuthRoute.endpoint,AuthRouter.register,exec_bind]
  cases hp : P.hashpw payload.password (o.read w.taken).salt with
  | none =>
    unfold AuthService.register AuthService.userByEmail
    simp only [exec_scalar_bind,flushAll_nil,exec_appErrorIf_bind,
      AuthService.exec_hashPassword_bind,hfree,Option.isSome_none,Bool.false_eq_true,if_false,hp]
    simp [respond,buildErrorResponse,unhandledException,AuthService.emailAlreadyExists]
  | some hash =>
    by_cases hfits : payload.Fits P
    swap
    · obtain ⟨f,hf⟩ := AuthService.register_unfit (s := w.sent) hfresh hfree hp hfits
      rw [show (AuthService.register P payload).exec Write.apply o.read _ = (.fault f,_) from
        Prod.ext hf rfl]
      simp [respond,buildErrorResponse,unhandledException,AuthService.emailAlreadyExists]
    rw [AuthService.register_exec rfl hfresh hfree hp hfits]
    cases hsent : (o.read (w.taken+5)).delivered with
    | true =>
      rw [AuthService.exec_sendEmail_bind hsent]
      simp [respond,buildErrorResponse]
    | false =>
      rw [AuthService.exec_sendEmail_failed hsent]
      simp [respond,buildErrorResponse,unhandledException,AuthService.emailAlreadyExists]

/-- Where nothing of it was stored, registering succeeds now, with a password that can be hashed and
names that can be stored. -/
theorem retriable_of_free {E : EmailStr P} {w : World DB Mail}
    {email password firstName lastName password' : String} (hw : w.db.Wf)
    (hfresh : FreshKeys o.read w.taken w.db)
    (hfree : w.db.users.find? (fun u => u.email = P.lower payload.email) = none)
    (hv : RegisterRequest.validate E email password firstName lastName = .ok payload)
    (hfield : RegisterRequest.passwordField password' = .ok password')
    (hp : ∀ salt, (P.hashpw password' salt).isSome = true)
    (hgone : ∀ i, w.taken ≤ i → (o.read i).delivered = true) : Retriable o w E payload := by
  obtain ⟨hash,hhash⟩ := Option.isSome_iff_exists.mp (hp (o.read w.taken).salt)
  let retry : RegisterRequest := { payload with password := password', firstName := "N", lastName := "U" }
  let u := AuthService.newUser P o.read w.taken retry hash
  have hvalid : RegisterRequest.validate E email password' "N" "U" = .ok retry :=
    RegisterRequest.validate_ok.mpr ⟨(RegisterRequest.validate_ok.mp hv).1,hfield,rfl,rfl⟩
  have hrun := AuthService.register_ok (s := w.sent) (u := u) rfl hfresh hfree hhash
    ((RegisterRequest.validate_fits hvalid).mpr ⟨by decide,by decide⟩) (hgone _ (Nat.le_add_right _ _))
  have hhandle : (handle P o w { route := .auth (.register retry) }).2 =
      ⟨AuthService.registered P o.read w.db w.taken u,w.taken+6,
        w.sent ++ [AuthService.verificationMail P u (o.read (w.taken+3)).now]⟩ := by
    rw [handle_plain]
    simp only [AuthRoute.endpoint,AuthRouter.register,exec_bind_pure,hrun]
  refine ⟨⟨[],{ route := .auth (.register retry) },by simp,?_,u,w.taken+3,rfl,?_⟩,
    register_unrefused hfresh hfree⟩
  · intro r hr
    obtain rfl : r = .register retry := (Route.auth.inj hr).symm
    exact ⟨_,AuthBody.validate_register hvalid⟩
  · rw [show after P o w [] = w from rfl,hhandle]
    exact ⟨Nat.le_add_right _ _,by simp,rfl,mailed_registered hw (hfresh.users (Nat.le_add_right _ 1))⟩

theorem retriable_iff {E : EmailStr P} {w : World DB Mail}
    {email password firstName lastName : String} {authorization xTenantId : Option String} {e : Exc}
    {k : Nat} (hw : w.db.Wf) (hfresh : FreshKeys o.read w.taken w.db)
    (hfree : w.db.users.find? (fun u => u.email = P.lower payload.email) = none)
    (hv : RegisterRequest.validate E email password firstName lastName = .ok payload)
    (hhash : ∃ p, RegisterRequest.passwordField p = .ok p ∧
      ∀ salt, (P.hashpw p salt).isSome = true) :
    let n := endpointStart P w (registration authorization xTenantId payload)
    let x := stopped P o w authorization xTenantId payload e k
    (∀ i, x.2.taken ≤ i → (o.read i).delivered = true) →
      (x.1.isOk = true ∨ Retriable o x.2 E payload ↔ Unbroken P o n payload k) := by
  intro n x hgone
  have hn : w.taken ≤ n := Nat.le_add_right _ _
  have htaken : n ≤ x.2.taken := exec_taken_le Write.apply o.read _ ⟨w.db,w.db,[],n,w.sent⟩
  have hfree' : x.2.db = w.db → Retriable o x.2 E payload := fun hdb => by
    obtain ⟨p,hfield,hp⟩ := hhash
    refine retriable_of_free (w := x.2) (by rw [hdb]; exact hw) ?_ (by rw [hdb]; exact hfree) hv
      hfield hp hgone
    rw [hdb]
    exact hfresh.mono (hn.trans htaken)
  rcases Nat.lt_or_ge 5 k with hk | hk
  · cases hp : P.hashpw payload.password (o.read n).salt with
    | none =>
      have hdb : x.2.db = w.db := (AuthService.register_refused hp).2
      exact ⟨fun _ => .inr (.inl hp),fun _ => .inr (hfree' hdb)⟩
    | some hash =>
      by_cases hfits : payload.Fits P
      swap
      · have hdb : x.2.db = w.db := (AuthService.register_unstored (hfresh.mono hn) hfits).2
        exact ⟨fun _ => .inr (.inr (.inl hfits)),fun _ => .inr (hfree' hdb)⟩
      have hlate : ¬ Retriable o x.2 E payload := by
        let u := AuthService.newUser P o.read n payload hash
        have husers : x.2.db.users = w.db.users ++ [u] :=
          AuthService.register_late hk rfl (hfresh.mono hn) hfree hp hfits
        have hu : u ∈ x.2.db.users := husers ▸ List.mem_append_right _ (List.mem_singleton_self u)
        have haccount : (u.id,P.lower payload.email) ∈ accounts x.2.db := mem_accounts hu
        exact not_retriable haccount
      have hok : x.1.isOk = true ↔ 13 ≤ k ∧ (o.read (n+5)).delivered = true := by
        rcases Nat.lt_or_ge k 13 with h13 | h13
        · have hstopped : x.1.isOk = false := failAt_isOk AuthService.takes_register h13 _
          simp [hstopped,Nat.not_le_of_lt h13]
        have hrun : x.1 = ((AuthService.register P payload).exec Write.apply o.read
            ⟨w.db,w.db,[],n,w.sent⟩).1 := by
          rw [← AuthService.register_complete (e := e) h13]
          rfl
        rw [hrun,AuthService.register_exec rfl (hfresh.mono hn) hfree hp hfits]
        cases hsent : (o.read (n+5)).delivered with
        | true =>
          rw [AuthService.exec_sendEmail_bind hsent]
          simp [h13,Outcome.isOk]
        | false =>
          rw [AuthService.exec_sendEmail_failed hsent]
          simp [Outcome.isOk]
      simp [Unbroken,hlate,hok,hp,hfits,Nat.not_le_of_lt hk]
  · have hdb : x.2.db = w.db := AuthService.register_early hk _
    exact ⟨fun _ => .inl hk,fun _ => .inr (hfree' hdb)⟩

end Retries

end TenantAuth
