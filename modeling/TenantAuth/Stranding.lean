import TenantAuth.Retrying
set_option autoImplicit false

namespace TenantAuth
open Transact

/-- A request is served, or a registration is stopped. -/
inductive Event where
  | request (q : Request)
  | interruption (authorization xTenantId : Option String) (payload : RegisterRequest) (e : Exc)
      (k : Nat)

section Definitions
variable (P : Platform) (o : Readings)

def Event.step (w : World DB Mail) : Event → World DB Mail
  | .request q => (handle P o w q).2
  | .interruption authorization xTenantId payload e k =>
    (stopped P o w authorization xTenantId payload e k).2

/-- Registrations are unbroken, whether they are served or stopped. -/
def Event.Clean (w : World DB Mail) : Event → Prop
  | .request q => ∀ payload, q.route = .auth (.register payload) →
    Unbroken P o (endpointStart P w q) payload 13
  | .interruption authorization xTenantId payload _ k =>
    Unbroken P o (endpointStart P w (registration authorization xTenantId payload)) payload k

def happen (w : World DB Mail) (events : List Event) : World DB Mail :=
  events.foldl (Event.step P o) w

/-- Every event is clean where it takes place, and draws fresh keys there. -/
def CleanRun (w : World DB Mail) : List Event → Prop
  | [] => True
  | event :: events => FreshKeys o.read w.taken w.db ∧ event.Clean P o w ∧
    CleanRun (event.step P o w) events

/-- Who is not verified has been mailed a token. -/
def NoneStranded (w : World DB Mail) : Prop :=
  ∀ a ∈ w.db.users, a.isVerified = false →
    ∃ u t, u.id = a.id ∧ u.email = a.email ∧ Mailed P w u t

/-- Until a mailed token of his expires, he is verified by it. -/
def Verifiable (w : World DB Mail) (a : User) : Prop :=
  ∃ u t, u.id = a.id ∧ u.email = a.email ∧ AuthService.verificationMail P u t ∈ w.sent ∧
    let x := handle P o w { route := .auth (.verifyEmail (AuthService.verificationTokenAt P u t)) }
    (o.read (w.taken+1)).now < seconds (t + timedeltaHours 24)*1000000 →
      x.1.isSuccess = true ∧ ∃ a' ∈ x.2.db.users, a'.id = a.id ∧ a'.isVerified = true

end Definitions

section Verifications
variable {P : Platform} {o : Readings} {w : World DB Mail} {a u : User} {t : Nat}

theorem verification_isVerified {o : Nat → Reading} {n : Nat} {r : OneTimeToken} {d d' : DB}
    (hw : d.Wf) (hu : u ∈ d.users)
    (hf : flushAll Write.apply (AuthService.verification o n r u) d = .ok d') (ha : a ∈ d'.users)
    (hid : a.id = u.id) : a.isVerified = true := by
  obtain ⟨t,rfl⟩ := userWrites_set hw (by simp [Write.touches]) hf hu ha hid
  simp only [UserPatch.apply,UserPatch.diff,changed]
  split
  · rename_i he
    exact (Option.some.inj he).symm
  · rfl

theorem decodeAt_verification {now : Nat}
    (h : now < seconds (t + timedeltaHours 24)*1000000) :
    decodeAt P (AuthService.verificationTokenAt P u t) (some .verify) now = .ok ⟨u.id,.verify,none⟩ := by
  simp [decodeAt,AuthService.verificationTokenAt,createTypedToken,P.jwtVerify_encode,
    Nat.not_le_of_lt h]

theorem Mailed.checked {n : Nat} (h : Mailed P w u t) (hw : w.db.Wf) (ha : a ∈ w.db.users)
    (hid : u.id = a.id) (hn : (o.read (n+1)).now < seconds (t + timedeltaHours 24)*1000000) :
    ∃ r, AuthService.OneTimeChecked P o.read n DB.verificationTokens .verify w.db
      (AuthService.verificationTokenAt P u t) r a := by
  obtain ⟨r,hrow,hhash,hexp,hused⟩ := h.row
  have hmine : ∀ b, b ∈ w.db.verificationTokens ∧ b.userId = u.id ↔ b = r := fun b => by
    simpa using congrArg (b ∈ ·) hrow
  obtain ⟨hr,huser⟩ := (hmine r).mpr rfl
  have hfind : w.db.verificationTokens.find? (fun b =>
      b.tokenHash = hashToken P (AuthService.verificationTokenAt P u t) ∧ b.userId = u.id ∧
        b.usedAt = none) = some r := by
    refine find_eq_some_of_unique hr (by simp [hhash,huser,hused]) fun b hb hp => ?_
    simp only [decide_eq_true_eq] at hp
    exact (hmine b).mp ⟨hb,hp.2.1⟩
  have hfound : w.db.users.find? (fun v => v.id = u.id) = some a :=
    find_eq_some_of_unique ha (by simp [hid]) fun b hb hp =>
      eq_of_key hw.userKey hb ha ((of_decide_eq_true hp).trans hid)
  refine ⟨r,⟨_,decodeAt_verification ((o.now_le (Nat.le_succ n)).trans_lt hn),hfind,hfound⟩,?_⟩
  rw [hexp]
  have hfloor : seconds (t + timedeltaHours 24)*1000000 ≤ t + timedeltaHours 24 :=
    Nat.div_mul_le_self _ _
  omega

theorem verifyEmail_succeeds {o : Nat → Reading} {d : DB} {n : Nat} {s : List Mail} {token : String}
    {r : OneTimeToken} (h : AuthService.OneTimeChecked P o n DB.verificationTokens .verify d token r u)
    (hun : u.isVerified = false) :
    ((AuthService.verifyEmail P token).exec Write.apply o ⟨d,d,[],n,s⟩).1.isOk = true := by
  obtain ⟨⟨i,hdec,hr,hu⟩,hexp⟩ := h
  have hadmissible : Admissible (AuthService.verification o n r u) d :=
    AuthService.useToken_admissible (List.mem_of_find?_eq_some hu) ⟨by simp,by simp,by simp⟩
      fun users => firstViolation_found (List.mem_of_find?_eq_some hr)
  obtain ⟨d',hf⟩ := hadmissible
  unfold AuthService.verification at hf
  unfold AuthService.verifyEmail AuthService.unusedToken AuthService.userById
  simp only [exec_decodeToken_bind,hdec,exec_scalar_bind,flushAll_nil,hr,exec_now_bind,
    exec_appErrorIf_bind,Nat.not_le_of_lt hexp,if_false,hu,hun,Bool.false_eq_true,
    AuthService.exec_setUser_bind,exec_add_bind,List.nil_append,exec_commit,Conn.flushed,hf]
  rfl

theorem Mailed.verifiable (h : Mailed P w u t) (hw : w.db.Wf) (ha : a ∈ w.db.users)
    (hun : a.isVerified = false) (hid : u.id = a.id) (hemail : u.email = a.email) :
    Verifiable P o w a := by
  refine ⟨u,t,hid,hemail,h.mail,fun hn => ?_⟩
  obtain ⟨r,hr⟩ := h.checked hw ha hid hn
  have hok := verifyEmail_succeeds (s := w.sent) hr hun
  rw [handle_plain]
  simp only [respond_isSuccess,AuthRoute.endpoint,AuthRouter.verifyEmail,exec_bind_pure]
  refine ⟨hok,?_⟩
  rcases AuthService.verifyEmail_cases P o.read w.db w.taken w.sent
    (AuthService.verificationTokenAt P u t) with ⟨hno,-⟩ | ⟨row,v,hv,-,-,hf⟩
  · rw [hno] at hok
    cases hok
  -- It is the same user that the token is found for again.
  obtain ⟨i,hdec,-,hfound⟩ := hr.decoded
  obtain ⟨j,hdec',-,hfound'⟩ := hv.decoded
  obtain rfl : i = j := Except.ok.inj (hdec.symm.trans hdec')
  obtain rfl : a = v := Option.some.inj (hfound.symm.trans hfound')
  have hkept := accounts_flush (AuthService.userWrites_append_forall (by simp) (by simp)) hf
  obtain ⟨a',ha',he⟩ := List.mem_map.mp (hkept (mem_accounts ha))
  have hid' : a'.id = a.id := (Prod.mk.inj he).1
  exact ⟨a',ha',hid',verification_isVerified hw ha hf ha' hid'⟩

end Verifications

section Steps
variable {P : Platform} {o : Readings} {w : World DB Mail} {q : Request} {a : User}

theorem Write.effect_accounts {d : DB} {v : Write} {x : UUID × String}
    (h : x ∈ accounts (v.effect d)) : x ∈ accounts d ∨ ∃ r, v = .insertUser r := by
  cases v with
  | insertUser r => exact .inr ⟨r,rfl⟩
  | updateUser id p t =>
    obtain ⟨b,hb,rfl⟩ := List.mem_map.mp h
    rcases mem_update.mp hb with ⟨a,ha,-,rfl⟩ | ⟨hb,-⟩
    · exact .inl (List.mem_map.mpr ⟨a,ha,rfl⟩)
    · exact .inl (List.mem_map_of_mem hb)
  | deleteUser id =>
    obtain ⟨a,ha,hx⟩ := List.mem_map.mp h
    exact .inl (List.mem_map.mpr ⟨a,(mem_delete.mp ha).1,hx⟩)
  | _ => exact .inl h

theorem accounts_other (hq : ∀ payload, q.route ≠ .auth (.register payload)) :
    accounts (handle P o w q).2.db ⊆ accounts w.db := by
  intro x hx
  obtain ⟨ws,hc,hf⟩ := handle_commits P o w q
  rcases flushAll_origin accounts (fun v _ => ∃ r, v = .insertUser r)
    (fun ha hx => Write.effect_accounts ((Write.apply_eq_ok.mp ha).2 ▸ hx)) hf hx with
    hx | ⟨v,hv,r,rfl⟩
  · exact hx
  · obtain ⟨payload,-,hroute,-⟩ := hc.registers hv
    exact absurd hroute (hq payload)

theorem verificationTokens_other (hw : w.db.Wf)
    (hq : ∀ payload, q.route ≠ .auth (.register payload))
    (ha : a ∈ (handle P o w q).2.db.users) (hun : a.isVerified = false) :
    (handle P o w q).2.db.verificationTokens.filter (fun r => r.userId = a.id) =
      w.db.verificationTokens.filter fun r => r.userId = a.id := by
  obtain ⟨ws,hc,hf⟩ := handle_commits P o w q
  have hframe : (∀ v ∈ ws, .verificationTokens ∉ v.touches) →
      (handle P o w q).2.db.verificationTokens.filter (fun r => r.userId = a.id) =
        w.db.verificationTokens.filter fun r => r.userId = a.id := fun hs => by
    rw [show (handle P o w q).2.db.verificationTokens = w.db.verificationTokens from
      flushAll_frame (t := .verificationTokens) hs hf]
  cases hc with
  | idle => exact hframe (by simp)
  | tenant _ _ h => exact hframe fun v hv ht => absurd (h.touches v hv _ ht) (by simp)
  | admin _ _ h =>
    cases h with
    | updateUser h =>
      exact hframe fun v hv => by simp [userWrites_touches _ _ _ v hv]
    | deleteUser h =>
      obtain ⟨-,hd⟩ := flushAll_single.mp hf
      rw [hd] at ha ⊢
      refine filter_delete fun r hr he => (mem_delete.mp ha).2 ?_
      exact (of_decide_eq_true hr).symm.trans he
    | _ => exact hframe (by simp [Write.touches])
  | auth hroute h =>
    cases h with
    | register h => exact absurd hroute (hq _)
    | verifyEmail h =>
      obtain ⟨d,hf₁,hf₂⟩ := flushAll_append_iff.mp hf
      obtain ⟨f,-,rfl⟩ := AuthService.userWrites_flush hf₁
      obtain ⟨-,hd⟩ := flushAll_single.mp hf₂
      obtain ⟨i,-,hr,hu⟩ := h.decoded
      have hmem := List.mem_of_find?_eq_some hr
      have hp := List.find?_some hr
      have hsubject := List.find?_some hu
      simp only [decide_eq_true_eq] at hp hsubject
      rw [hd]
      refine filter_update fun b hb hk => ?_
      obtain rfl := eq_of_key hw.verificationTokenKey hb hmem hk
      -- Whose row is used is verified.
      have hother : b.userId ≠ a.id := fun he => by
        have hid : a.id = _ := he.symm.trans (hp.2.1.trans hsubject.symm)
        rw [verification_isVerified hw (List.mem_of_find?_eq_some hu) hf ha hid] at hun
        cases hun
      simp [hother]
    | resetPassword h =>
      exact hframe (AuthService.userWrites_append_forall (by simp [Write.touches])
        (by simp [Write.touches]))
    | _ => exact hframe (by simp [Write.touches,AuthService.rotation])

theorem Mailed.mono {w' : World DB Mail} {u : User} {t : Nat} (h : Mailed P w u t)
    (hrows : w'.db.verificationTokens.filter (fun r => r.userId = u.id) =
      w.db.verificationTokens.filter fun r => r.userId = u.id)
    (hsent : ∃ ms, w'.sent = w.sent ++ ms) : Mailed P w' u t := by
  obtain ⟨ms,hms⟩ := hsent
  refine ⟨?_,?_⟩
  · rw [hms]
    exact List.mem_append_left _ h.mail
  · rw [hrows]
    exact h.row

theorem NoneStranded.mono {w' : World DB Mail} (h : NoneStranded P w) (hdb : w'.db = w.db)
    (hsent : ∃ ms, w'.sent = w.sent ++ ms) : NoneStranded P w' := by
  intro a ha hun
  obtain ⟨u,t,hid,hemail,hm⟩ := h a (hdb ▸ ha) hun
  exact ⟨u,t,hid,hemail,hm.mono (by rw [hdb]) hsent⟩

theorem NoneStranded.registered {u : User} {n m : Nat} (h : NoneStranded P w) (hw : w.db.Wf)
    (hu : u.id ∉ w.db.users.map User.id) :
    NoneStranded P ⟨AuthService.registered P o.read w.db n u,m,
      w.sent ++ [AuthService.verificationMail P u (o.read (n+3)).now]⟩ := by
  intro a ha hun
  rcases List.mem_append.mp ha with ha | ha
  · obtain ⟨v,t,hid,hemail,hm⟩ := h a ha hun
    have hne : u.id ≠ v.id := fun he => hu (he.trans hid ▸ List.mem_map_of_mem ha)
    refine ⟨v,t,hid,hemail,hm.mono ?_ ⟨_,rfl⟩⟩
    simp [AuthService.registered,Write.effect,AuthService.newVerificationToken,hne]
  · obtain rfl := List.mem_singleton.mp ha
    exact ⟨a,_,rfl,rfl,mailed_registered hw hu⟩

/-- An unbroken registration that is not stopped leaves the database alone, or an account whose
token is stored and mailed. -/
theorem AuthService.register_settled {d : DB} {n : Nat} {s : List Mail} {payload : RegisterRequest}
    (hfresh : FreshKeys o.read n d) (hunbroken : Unbroken P o n payload 13) :
    let r := (register P payload).exec Write.apply o.read ⟨d,d,[],n,s⟩
    r.2.db = d ∨ ∃ u, u.id ∉ d.users.map User.id ∧ r.2.db = AuthService.registered P o.read d n u ∧
      r.2.sent = s ++ [verificationMail P u (o.read (n+3)).now] := by
  intro r
  have hrun : ∀ {hash : String},
      d.users.find? (fun u => u.email = P.lower payload.email) = none →
      P.hashpw payload.password (o.read n).salt = some hash →
      (Write.insertUser (newUser P o.read n payload hash)).violation d = none →
      ∃ u, u.id ∉ d.users.map User.id ∧ r.2.db = AuthService.registered P o.read d n u ∧
        r.2.sent = s ++ [verificationMail P u (o.read (n+3)).now] := by
    intro hash hfree hp hv
    have hfits := (newUser_violation_iff hfresh hfree).mp hv
    have hsent : (o.read (n+5)).delivered = true := by
      simpa [Unbroken,hp,hfits] using hunbroken
    have hok := register_ok (s := s) rfl hfresh hfree hp hfits hsent
    exact ⟨newUser P o.read n payload hash,hfresh.users (Nat.le_add_right n 1),by simp only [r,hok],
      by simp only [r,hok]⟩
  obtain ⟨ws,hreg,hf⟩ := register_cases P o.read d n s payload
  generalize Outcome.isOk _ = ok at hreg
  cases hreg with
  | nothing => exact .inl (Except.ok.inj hf).symm
  | userOnly hfree hp => exact .inr (hrun hfree hp (flushAll_single.mp hf).1)
  | all hfree hp => exact .inr (hrun hfree hp (flushAll_cons.mp hf).1)

theorem NoneStranded.handle (h : NoneStranded P w) (hw : w.db.Wf)
    (hfresh : FreshKeys o.read w.taken w.db) (hclean : (Event.request q).Clean P o w) :
    NoneStranded P (handle P o w q).2 := by
  obtain ⟨ms,hms,-⟩ := handle_sent (P := P) (o := o) (w := w) (q := q)
  by_cases hreg : ∃ payload, q.route = .auth (.register payload)
  · obtain ⟨payload,hq⟩ := hreg
    rcases handle_auth (P := P) (o := o) (w := w) hq with ⟨-,he⟩ | he
    · exact h.mono (by rw [he]) ⟨ms,hms⟩
    simp only [he,AuthRoute.endpoint,AuthRouter.register,exec_bind_pure] at hms ⊢
    have hstart : w.taken ≤ endpointStart P w q := Nat.le_add_right _ _
    rcases AuthService.register_settled (s := w.sent) (hfresh.mono hstart) (hclean payload hq) with
      hdb | ⟨u,hu,hdb,hsent⟩
    · exact h.mono hdb ⟨ms,hms⟩
    · rw [hdb,hsent]
      exact h.registered hw hu
  · have hq : ∀ payload, q.route ≠ .auth (.register payload) := fun payload hq => hreg ⟨payload,hq⟩
    intro a ha hun
    obtain ⟨b,hb,he⟩ := List.mem_map.mp (accounts_other hq (mem_accounts ha))
    obtain ⟨hid,hemail⟩ := Prod.mk.inj he
    have hbun : b.isVerified = false := by
      by_contra hne
      have hbecomes := handle_user hw hb ha hid.symm
      rw [(hbecomes.isVerified (by simp_all)).1] at hun
      cases hun
    obtain ⟨u,t,hid',hemail',hm⟩ := h b hb hbun
    refine ⟨u,t,hid'.trans hid,hemail'.trans hemail,hm.mono ?_ ⟨ms,hms⟩⟩
    rw [hid'.trans hid]
    exact verificationTokens_other hw hq ha hun

theorem NoneStranded.stopped {authorization xTenantId : Option String} {payload : RegisterRequest}
    {e : Exc} {k : Nat} (h : NoneStranded P w) (hw : w.db.Wf) (hfresh : FreshKeys o.read w.taken w.db)
    (hclean : (Event.interruption authorization xTenantId payload e k).Clean P o w) :
    NoneStranded P (stopped P o w authorization xTenantId payload e k).2 := by
  let n := endpointStart P w (registration authorization xTenantId payload)
  have hstart : w.taken ≤ n := Nat.le_add_right _ _
  have hsent : ∃ ms, (TenantAuth.stopped P o w authorization xTenantId payload e k).2.sent =
      w.sent ++ ms :=
    exec_sent ((AuthService.register P payload).failAt e k) ⟨w.db,w.db,[],n,w.sent⟩
  rcases hclean with hk | hp | hfits | ⟨hk,hdelivered⟩
  · exact h.mono (AuthService.register_early hk _) hsent
  · exact h.mono (AuthService.register_refused hp).2 hsent
  · exact h.mono (AuthService.register_unstored (hfresh.mono hstart) hfits).2 hsent
  · have hrun : (TenantAuth.stopped P o w authorization xTenantId payload e k).2 =
        (serve Write.apply o.read (AuthService.register P payload) ⟨w.db,n,w.sent⟩).2 := by
      rw [TenantAuth.stopped,AuthService.register_complete hk]
    rw [hrun] at hsent ⊢
    rcases AuthService.register_settled (s := w.sent) (hfresh.mono hstart)
      (.inr (.inr (.inr ⟨Nat.le_refl 13,hdelivered⟩))) with hdb | ⟨u,hu,hdb,hmail⟩
    · exact h.mono hdb hsent
    · simp only [serve,hdb,hmail]
      exact h.registered hw hu

theorem stopped_wf {authorization xTenantId : Option String} {payload : RegisterRequest}
    {e : Exc} {k : Nat} (hw : w.db.Wf) :
    (stopped P o w authorization xTenantId payload e k).2.db.Wf := by
  have hwrites : ((AuthService.register P payload).failAt e k).Writes fun _ => True :=
    (AuthService.writes_register (by simp) (by simp) payload).failAt
  exact Prog.Writes.exec_rel (Keeps.ofInv fun _ ha h => DB.Wf.apply h ha) hwrites (by simp) id hw

end Steps

section Runs
variable {P : Platform} {o : Readings} {w : World DB Mail} {events : List Event}

theorem Event.step_wf (event : Event) (hw : w.db.Wf) : (event.step P o w).db.Wf := by
  cases event with
  | request q => exact handle_wf hw q
  | interruption authorization xTenantId payload e k => exact stopped_wf hw

theorem NoneStranded.step {event : Event} (h : NoneStranded P w) (hw : w.db.Wf)
    (hfresh : FreshKeys o.read w.taken w.db) (hclean : event.Clean P o w) :
    NoneStranded P (event.step P o w) := by
  cases event with
  | request q => exact h.handle hw hfresh hclean
  | interruption authorization xTenantId payload e k => exact h.stopped hw hfresh hclean

theorem happen_wf (hw : w.db.Wf) : (happen P o w events).db.Wf := by
  induction events generalizing w with
  | nil => exact hw
  | cons event events ih => exact ih (event.step_wf hw)

/-- In a clean run nobody is ever stranded. -/
theorem noneStranded_happen (h : NoneStranded P w) (hw : w.db.Wf) (hrun : CleanRun P o w events) :
    NoneStranded P (happen P o w events) := by
  induction events generalizing w with
  | nil => exact h
  | cons event events ih =>
    obtain ⟨hfresh,hclean,hrun⟩ := hrun
    exact ih (h.step hw hfresh hclean) (event.step_wf hw) hrun

/-- In every state that a deployment gets into, by requests and stopped registrations, a stopped
registration can be retried just when it is unbroken; and as long as registrations are unbroken,
every account that is not verified has been mailed a token which verifies it until it expires. -/
theorem registration_recovers {E : EmailStr P} {w₀ : World DB Mail} (hd : Deployed w₀.db)
    (history : List Event)
    (hhash : ∃ p, RegisterRequest.passwordField p = .ok p ∧
      ∀ salt, (P.hashpw p salt).isSome = true) :
    let w := happen P o w₀ history
    (∀ {email password firstName lastName : String} {payload : RegisterRequest}
        (authorization xTenantId : Option String) (e : Exc) (k : Nat),
      FreshKeys o.read w.taken w.db →
      w.db.users.find? (fun u => u.email = P.lower payload.email) = none →
      RegisterRequest.validate E email password firstName lastName = .ok payload →
      let n := endpointStart P w (registration authorization xTenantId payload)
      let x := stopped P o w authorization xTenantId payload e k
      (∀ i, x.2.taken ≤ i → (o.read i).delivered = true) →
        (x.1.isOk = true ∨ Retriable o x.2 E payload ↔ Unbroken P o n payload k)) ∧
    ∀ events, NoneStranded P w → CleanRun P o w events →
      ∀ a ∈ (happen P o w events).db.users, a.isVerified = false →
        Verifiable P o (happen P o w events) a := by
  intro w
  have hw : w.db.Wf := happen_wf hd.wf
  refine ⟨fun authorization xTenantId e k hfresh hfree hv => ?_,fun events h hrun a ha hun => ?_⟩
  · exact retriable_iff hw hfresh hfree hv hhash
  · obtain ⟨u,t,hid,hemail,hm⟩ := noneStranded_happen h hw hrun a ha hun
    exact hm.verifiable (happen_wf hw) ha hun hid hemail

end Runs

section Computed

namespace Seed

def newRegistration : RegisterRequest := ⟨"new@example.com","Correct-horse1","N","U"⟩

def stoppedOnce : Outcome Exc Fault User × World DB Mail :=
  stopped (plainPlatform {}) (readings 0) (world []) none none newRegistration .smtpError 3

def stoppedAndRepeated : List Event :=
  [.interruption none none newRegistration .smtpError 3,
    .request { route := .auth (.register newRegistration) }]

def repeated : World DB Mail :=
  happen (plainPlatform {}) (readings 0) (world []) stoppedAndRepeated

def delivering (o : Readings) (delivered : Nat → Bool) : Readings where
  read i := { o.read i with delivered := delivered i }
  clock := o.clock

def refusing : Readings := delivering (readings 0) fun i => i != 5

theorem newRegistration_valid :
    RegisterRequest.validate (plainEmail (plainPlatform {}) (plainPlatform_toLower {}))
      "new@example.com" "Correct-horse1" "N" "U" = .ok newRegistration := by decide +kernel

end Seed

/-- The stopped registration can be retried, and the repeated one leaves an account that can be
verified. -/
theorem registration_recovers_repeated :
    (Seed.stoppedOnce.1.isOk = true ∨ Retriable (Seed.readings 0) Seed.stoppedOnce.2
      (plainEmail (plainPlatform {}) (plainPlatform_toLower {})) Seed.newRegistration) ∧
    ∀ a ∈ Seed.repeated.db.users, a.isVerified = false →
      Verifiable (plainPlatform {}) (Seed.readings 0) Seed.repeated a := by
  have hfresh : FreshKeys (Seed.readings 0).read (Seed.world []).taken (Seed.world []).db :=
    Seed.freshKeys (by decide +kernel)
  have hd : Deployed (Seed.world []).db := Seed.deployed_world (by simp) (by simp) (by simp)
  obtain ⟨hretry,hverify⟩ := registration_recovers (P := plainPlatform {}) (o := Seed.readings 0)
    (E := plainEmail (plainPlatform {}) (plainPlatform_toLower {})) hd []
    ⟨"Correct-horse1",by decide +kernel,fun _ => rfl⟩
  refine ⟨(hretry none none .smtpError 3 hfresh (by decide +kernel) Seed.newRegistration_valid
    fun _ _ => rfl).mpr (.inl (by omega)),?_⟩
  refine hverify Seed.stoppedAndRepeated ?_ ⟨hfresh,?_,?_,?_,trivial⟩
  · intro a ha hun
    exact absurd hun (by revert a; decide +kernel)
  · exact .inl (by omega)
  · exact Seed.freshKeys (by decide +kernel)
  · exact fun _ _ => .inr (.inr (.inr ⟨Nat.le_refl 13,rfl⟩))

/-- When the server refuses the mail, the account is there and its email is taken. -/
theorem registration_recovers_fails :
    ¬ ∀ (P : Platform) (E : EmailStr P) (o : Readings) (w : World DB Mail)
      (email password firstName lastName : String) (payload : RegisterRequest) (e : Exc) (k : Nat),
      Reachable P o w → FreshKeys o.read w.taken w.db →
      w.db.users.find? (fun u => u.email = P.lower payload.email) = none →
      RegisterRequest.validate E email password firstName lastName = .ok payload →
      (∀ p salt, (P.hashpw p salt).isSome = true) →
      let x := stopped P o w none none payload e k
      (∀ i, x.2.taken ≤ i → (o.read i).delivered = true) →
        x.1.isOk = true ∨ Retriable o x.2 E payload := by
  intro h
  have hfresh : FreshKeys (Seed.readings 0).read 0 (Seed.world []).db :=
    Seed.freshKeys (by decide +kernel)
  have hgone : ∀ i, (stopped (plainPlatform {}) Seed.refusing (Seed.world []) none none
      Seed.newRegistration .smtpError 13).2.taken ≤ i → (Seed.refusing.read i).delivered = true := by
    intro i hi
    have htaken : 6 ≤ i := hi
    have hne : i ≠ 5 := by omega
    simp [Seed.refusing,Seed.delivering,hne]
  rcases h (plainPlatform {}) (plainEmail (plainPlatform {}) (plainPlatform_toLower {})) Seed.refusing
    (Seed.world []) "new@example.com" "Correct-horse1" "N" "U" Seed.newRegistration .smtpError 13
    (.start (Seed.deployed_world (by simp) (by simp) (by simp))) ⟨hfresh.unused,hfresh.distinct⟩
    (by decide +kernel) Seed.newRegistration_valid (fun _ _ => rfl) hgone with hok | ⟨-,hretry⟩
  · exact absurd hok (by decide +kernel)
  · exact hretry (by decide +kernel)

end Computed

end TenantAuth
