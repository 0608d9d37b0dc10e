import TenantAuth.Credentials
import TenantAuth.Passwords
set_option autoImplicit false

/-! The passwords that are in force along a run, and the rules they keep. `RegisterRequest` checks
a password for length and strength, `LoginRequest` for length, `ResetPasswordRequest` for nothing. -/

namespace TenantAuth
open Transact Encoding

/-- The length and strength that `RegisterRequest` asks for. -/
def PasswordRules (p : String) : Prop := RegisterRequest.passwordField p = .ok p

instance (p : String) : Decidable (PasswordRules p) := by
  unfold PasswordRules
  infer_instance

section Definitions
variable (P : Platform) (o : Readings) (w : World DB Mail) (q : Request)

/-- The password that a request installs, and for whom: a registration for the account it has
added, a successful reset for the subject of its token. -/
def installs : Option (UUID × String) :=
  match q.route with
  | .auth (.register payload) =>
    ((handle P o w q).2.db.users.find? fun u => u.id ∉ w.db.users.map User.id).map
      fun u => (u.id,payload.password)
  | .auth (.resetPassword token newPassword) =>
    if (handle P o w q).1.isSuccess then
      ((P.jwtVerify token).bind Claims.sub).map fun u => (u,newPassword)
    else none
  | _ => none

/-- A run and the passwords in force: for each user the last that a request has installed. -/
def serveNoting (x : World DB Mail × (UUID → Option String)) (q : Request) :
    World DB Mail × (UUID → Option String) :=
  ((handle P o x.1 q).2,fun u =>
    match installs P o x.1 q with
    | some (v,p) => if u = v then some p else x.2 u
    | none => x.2 u)

def currentPassword (qs : List Request) : UUID → Option String :=
  (qs.foldl (serveNoting P o) (w,fun _ => none)).2

end Definitions

/-- The stored hash is that of the password in force, or, where no request has installed one, it
is the hash that the user was deployed with. -/
def Truthful (P : Platform) (d : DB) (u : User) : Option String → Prop
  | some p => ∃ salt, P.hashpw p salt = some u.passwordHash
  | none => ∃ a ∈ d.users, a.id = u.id ∧ a.passwordHash = u.passwordHash

section Writes
variable {d d' : DB} {x : UUID × String}

def logins (d : DB) : List (UUID × String) := d.users.map fun u => (u.id,u.passwordHash)

def Write.SetsHash : Write → UUID × String → Prop
  | .insertUser r, x => x = (r.id,r.passwordHash)
  | .updateUser id p _, x => x.1 = id ∧ p.passwordHash = some x.2
  | _, _ => False

theorem Write.effect_logins {w : Write} (h : x ∈ logins (w.effect d)) :
    x ∈ logins d ∨ w.SetsHash x := by
  cases w with
  | insertUser r =>
    rw [logins,Write.effect,List.map_append] at h
    rcases List.mem_append.mp h with h | h
    · exact .inl h
    · exact .inr (List.mem_singleton.mp h)
  | updateUser id p t =>
    obtain ⟨b,hb,rfl⟩ := List.mem_map.mp h
    rcases mem_update.mp hb with ⟨a,ha,hk,rfl⟩ | ⟨hb,-⟩
    · cases hp : p.passwordHash with
      | none => exact .inl (List.mem_map.mpr ⟨a,ha,by simp [UserPatch.apply,hp]⟩)
      | some hash => exact .inr ⟨hk,by simp [UserPatch.apply,hp]⟩
    · exact .inl (List.mem_map_of_mem hb)
  | deleteUser id =>
    obtain ⟨a,ha,hx⟩ := List.mem_map.mp h
    exact .inl (List.mem_map.mpr ⟨a,(mem_delete.mp ha).1,hx⟩)
  | _ => exact .inl h

theorem flushAll_logins {ws : List Write} (hf : flushAll Write.apply ws d = .ok d')
    (h : x ∈ logins d') : x ∈ logins d ∨ ∃ w ∈ ws, w.SetsHash x :=
  flushAll_origin logins Write.SetsHash
    (fun ha hx => Write.effect_logins ((Write.apply_eq_ok.mp ha).2 ▸ hx)) hf h

theorem Write.SetsHash.touches {w : Write} (h : w.SetsHash x) : w.touches = [.users] := by
  cases w with
  | insertUser r => rfl
  | updateUser id p t => rfl
  | _ => exact h.elim

theorem userWrites_hash {u : User} {p : UserPatch} {t : Nat} (hp : p.passwordHash = none) {w : Write}
    (hw : w ∈ AuthService.userWrites u p t) : ¬ w.SetsHash x := by
  unfold AuthService.userWrites at hw
  split at hw
  · cases hw
  · rw [List.mem_singleton.mp hw]
    simp [Write.SetsHash,UserPatch.diff,changed,hp]

theorem passwordChange_hash {o : Nat → Reading} {n : Nat} {r : OneTimeToken} {u a : User}
    {hash : String} (hw : d.Wf) (hu : u ∈ d.users)
    (hf : flushAll Write.apply (AuthService.passwordChange o n r u hash) d = .ok d')
    (ha : a ∈ d'.users) (hid : a.id = u.id) : a.passwordHash = hash := by
  obtain ⟨t,rfl⟩ := userWrites_set hw (by simp [Write.touches]) hf hu ha hid
  simp only [UserPatch.apply,UserPatch.diff,changed]
  split
  · rename_i he
    exact (Option.some.inj he).symm
  · rfl

end Writes

section Steps
variable {P : Platform} {o : Readings} {w : World DB Mail} {q : Request}

theorem logins_other (hreg : ∀ payload, q.route ≠ .auth (.register payload))
    (hreset : ∀ token p, q.route ≠ .auth (.resetPassword token p)) :
    logins (handle P o w q).2.db ⊆ logins w.db := by
  intro x hx
  obtain ⟨ws,hc,hf⟩ := handle_commits P o w q
  rcases flushAll_logins hf hx with hx | ⟨v,hv,hset⟩
  · exact hx
  have ht := hset.touches
  cases hc with
  | idle => cases hv
  | tenant _ _ h => exact absurd (h.touches v hv .users (by simp [ht])) (by simp)
  | admin _ _ h =>
    cases h with
    | updateUser h => exact absurd hset (userWrites_hash rfl hv)
    | nothing => cases hv
    | deleteUser h =>
      cases List.mem_singleton.mp hv
      exact hset.elim
    | _ => cases List.mem_singleton.mp hv; cases ht
  | auth hq h =>
    cases h with
    | nothing => cases hv
    | register h => exact absurd hq (hreg _)
    | resetPassword h => exact absurd hq (hreset _ _)
    | verifyEmail h =>
      rcases List.mem_append.mp hv with hv | hv
      · exact absurd hset (userWrites_hash rfl hv)
      · cases List.mem_singleton.mp hv; cases ht
    | refresh h =>
      rcases List.mem_cons.mp hv with rfl | hv
      · cases ht
      · cases List.mem_singleton.mp hv; cases ht
    | _ => cases List.mem_singleton.mp hv; cases ht

theorem decodeAt_subject {token : String} {k : Option TokenType} {t : Nat} {i : TokenPayload}
    (h : decodeAt P token k t = .ok i) : (P.jwtVerify token).bind Claims.sub = some i.subject := by
  unfold decodeAt at h
  cases hc : P.jwtVerify token with
  | none => simp [hc] at h
  | some c =>
    simp only [hc] at h
    split at h
    · cases h
    split at h
    · cases h
    split at h
    · cases h
    · rename_i hs
      cases h
      exact hs

/-- A reset leaves every hash alone, or it succeeds and gives the subject of its token a hash of
the new password. -/
theorem reset_users {token newPassword : String} (hw : w.db.Wf)
    (hq : q.route = .auth (.resetPassword token newPassword)) :
    ((handle P o w q).1.isSuccess = false ∧ (handle P o w q).2.db = w.db) ∨
      (handle P o w q).1.isSuccess = true ∧ ∃ u salt hash,
        (P.jwtVerify token).bind Claims.sub = some u ∧ P.hashpw newPassword salt = some hash ∧
        (∃ a ∈ (handle P o w q).2.db.users, a.id = u) ∧
        ∀ a ∈ (handle P o w q).2.db.users,
          (a.id = u → a.passwordHash = hash) ∧ (a.id ≠ u → a ∈ w.db.users) := by
  rcases handle_auth hq with ⟨hno,he⟩ | he
  · exact .inl ⟨hno,by rw [he]⟩
  simp only [he,respond_isSuccess,AuthRoute.endpoint,AuthRouter.resetPassword,exec_bind_pure]
  rcases AuthService.resetPassword_cases P o.read w.db (endpointStart P w q) w.sent token
    newPassword with h | ⟨row,u,hash,⟨⟨i,hdec,-,huser⟩,-⟩,hp,hr,hf⟩
  · exact .inl h
  have hu := List.mem_of_find?_eq_some huser
  have hid : u.id = i.subject := by simpa using List.find?_some huser
  obtain ⟨f,hform,hd⟩ := userWrites_users (by simp [Write.touches]) hf
  have hkeep : ∀ a, (f a).id = a.id := by
    intro a
    rcases hform with rfl | rfl <;> rfl
  refine .inr ⟨congrArg Outcome.isOk hr,u.id,_,hash,?_,hp,?_,fun a ha => ⟨fun hau => ?_,fun hau => ?_⟩⟩
  · rw [hid]
    exact decodeAt_subject hdec
  · rw [hd]
    exact exists_mem_update hu (fun _ => hkeep u) rfl
  · exact passwordChange_hash hw hu hf ha hau
  · rw [hd] at ha
    rcases mem_update.mp ha with ⟨b,-,hk,rfl⟩ | ⟨ha,-⟩
    · exact absurd ((hkeep b).trans hk) hau
    · exact ha

/-- The hash of a user after a request is that of the password which the request has installed
for him, or the one he had. -/
theorem installs_spec (hw : w.db.Wf) {a : User} (ha : a ∈ (handle P o w q).2.db.users) :
    (∃ p salt, installs P o w q = some (a.id,p) ∧ P.hashpw p salt = some a.passwordHash) ∨
      (∀ p, installs P o w q ≠ some (a.id,p)) ∧ (a.id,a.passwordHash) ∈ logins w.db := by
  have hpair : ∀ {d : DB}, a ∈ d.users → (a.id,a.passwordHash) ∈ logins d := fun h =>
    List.mem_map.mpr ⟨a,h,rfl⟩
  by_cases hreg : ∃ payload, q.route = .auth (.register payload)
  · obtain ⟨payload,hq⟩ := hreg
    rcases register_users hq with hsame | ⟨u,salt,hadd,hu,-,hp⟩
    · -- Everybody was there before: nothing is installed.
      rw [hsame] at ha
      have hnone : installs P o w q = none := by
        simp only [installs,hq,hsame,Option.map_eq_none_iff,List.find?_eq_none,decide_eq_true_eq,
          Decidable.not_not]
        exact fun v hv => List.mem_map_of_mem hv
      exact .inr ⟨by simp [hnone],hpair ha⟩
    · have hfind : installs P o w q = some (u.id,payload.password) := by
        have hfound : (handle P o w q).2.db.users.find?
            (fun v => v.id ∉ w.db.users.map User.id) = some u := by
          rw [hadd]
          refine find_eq_some_of_unique (by simp) (by simpa using hu) fun v hv hnew => ?_
          rcases List.mem_append.mp hv with hv | hv
          · exact absurd (List.mem_map_of_mem hv) (by simpa using hnew)
          · exact List.mem_singleton.mp hv
        simp only [installs,hq,hfound,Option.map_some]
      rw [hadd] at ha
      rcases List.mem_append.mp ha with ha | ha
      · refine .inr ⟨fun p he => ?_,hpair ha⟩
        rw [hfind,Option.some.injEq,Prod.mk.injEq] at he
        exact hu (he.1 ▸ List.mem_map_of_mem ha)
      · cases List.mem_singleton.mp ha
        exact .inl ⟨_,salt,hfind,hp⟩
  by_cases hreset : ∃ token p, q.route = .auth (.resetPassword token p)
  · obtain ⟨token,newPassword,hq⟩ := hreset
    rcases reset_users hw hq with ⟨hno,hd⟩ | ⟨hok,u,salt,hash,hsub,hp,-,hall⟩
    · exact .inr ⟨by simp [installs,hq,hno],hpair (hd ▸ ha)⟩
    · have hinst : installs P o w q = some (u,newPassword) := by
        simp [installs,hq,hok,hsub]
      by_cases hau : a.id = u
      · exact .inl ⟨newPassword,salt,hau ▸ hinst,((hall a ha).1 hau) ▸ hp⟩
      · refine .inr ⟨fun p he => ?_,hpair ((hall a ha).2 hau)⟩
        rw [hinst,Option.some.injEq,Prod.mk.injEq] at he
        exact hau he.1.symm
  · have hother := logins_other (P := P) (o := o) (w := w) (fun payload h => hreg ⟨payload,h⟩)
      (fun token p h => hreset ⟨token,p,h⟩)
    refine .inr ⟨fun p => ?_,hother (hpair ha)⟩
    unfold installs
    split
    · rename_i payload hq
      exact absurd ⟨payload,hq⟩ hreg
    · rename_i token p' hq
      exact absurd ⟨token,p',hq⟩ hreset
    · simp

theorem installs_rules (hreg : ∀ payload, q.route = .auth (.register payload) →
      PasswordRules payload.password)
    (hreset : ∀ token p, q.route = .auth (.resetPassword token p) → PasswordRules p) {u : UUID}
    {p : String} (h : installs P o w q = some (u,p)) : PasswordRules p := by
  unfold installs at h
  split at h
  · rename_i payload hq
    obtain ⟨v,-,hv⟩ := Option.map_eq_some_iff.mp h
    exact (Prod.mk.inj hv).2 ▸ hreg payload hq
  · rename_i token newPassword hq
    split at h
    · obtain ⟨v,-,hv⟩ := Option.map_eq_some_iff.mp h
      exact (Prod.mk.inj hv).2 ▸ hreset token newPassword hq
    · cases h
  · cases h

end Steps

section Runs
variable {P : Platform} {E : EmailStr P} {o : Readings} {w : World DB Mail} {qs : List Request}

theorem serveNoting_world (f : UUID → Option String) (qs : List Request) :
    (qs.foldl (serveNoting P o) (w,f)).1 = after P o w qs := by
  induction qs using List.reverseRecOn with
  | nil => rfl
  | append_singleton qs q ih =>
    rw [List.foldl_append,after_append]
    simp only [List.foldl_cons,List.foldl_nil,serveNoting,ih]
    rfl

theorem currentPassword_snoc (q : Request) (u : UUID) :
    currentPassword P o w (qs ++ [q]) u =
      match installs P o (after P o w qs) q with
      | some (v,p) => if u = v then some p else currentPassword P o w qs u
      | none => currentPassword P o w qs u := by
  simp only [currentPassword,List.foldl_append,List.foldl_cons,List.foldl_nil,serveNoting,
    serveNoting_world]

/-- Along every run the hashes are those of the passwords in force. -/
theorem truthful_after (hr : Reachable P o w) {u : User} (hu : u ∈ (after P o w qs).db.users) :
    Truthful P w.db u (currentPassword P o w qs u.id) := by
  induction qs using List.reverseRecOn generalizing u with
  | nil => exact ⟨u,hu,rfl,rfl⟩
  | append_singleton qs q ih =>
    rw [after_append] at hu
    rw [currentPassword_snoc]
    rcases installs_spec (hr.after qs).wf hu with ⟨p,salt,hinst,hp⟩ | ⟨hnone,hold⟩
    · simp only [hinst,if_true]
      exact ⟨salt,hp⟩
    · obtain ⟨a,ha,he⟩ := List.mem_map.mp hold
      obtain ⟨hid,hhash⟩ := Prod.mk.inj he
      have hkeep := ih ha
      rw [hid] at hkeep
      have hcurrent : (match installs P o (after P o w qs) q with
          | some (v,p) => if u.id = v then some p else currentPassword P o w qs u.id
          | none => currentPassword P o w qs u.id) = currentPassword P o w qs u.id := by
        split
        · rename_i v p hinst
          refine if_neg fun hv => hnone p ?_
          rw [hv]
          exact hinst
        · rfl
      rw [hcurrent]
      cases hc : currentPassword P o w qs u.id with
      | none =>
        rw [hc] at hkeep
        obtain ⟨b,hb,hbid,hbhash⟩ := hkeep
        exact ⟨b,hb,hbid.trans hid,hbhash.trans hhash⟩
      | some p =>
        rw [hc] at hkeep
        obtain ⟨salt,hp⟩ := hkeep
        exact ⟨salt,hhash ▸ hp⟩

def Validated {P : Platform} (E : EmailStr P) (q : Request) : Prop :=
  ∀ r, q.route = .auth r → ∃ body : AuthBody, body.validate E = .ok r

/-- Every password in force in a state of the run keeps the rules; and whoever has reset his
password logs in with it: `LoginRequest` accepts it, and so does `login` while he is active. -/
def PolicyKept {P : Platform} (E : EmailStr P) (o : Readings) (w : World DB Mail)
    (qs : List Request) : Prop :=
  (∀ qs₁ qs₂ u p, qs = qs₁ ++ qs₂ → currentPassword P o w qs₁ u = some p → PasswordRules p) ∧
  ∀ qs₁ q qs₂ token p, qs = qs₁ ++ q :: qs₂ → q.route = .auth (.resetPassword token p) →
    (handle P o (after P o w qs₁) q).1.isSuccess = true →
    let w' := after P o w (qs₁ ++ [q])
    ∃ u ∈ w'.db.users, (P.jwtVerify token).bind Claims.sub = some u.id ∧
      ∀ email e, E.validate email = .ok e → P.lower e = u.email →
        LoginRequest.validate E email p = .ok ⟨e,p⟩ ∧
        (u.isActive = true → FreshKeys o.read w'.taken w'.db →
          (submit E o w' none none (.login email p)).1.isSuccess = true)

/-- Registrations that pass their schema, and resets to passwords that keep the rules, leave
every password in force within them. -/
theorem currentPassword_rules (hv : ∀ q ∈ qs, Validated E q)
    (hreset : ∀ q ∈ qs, ∀ token p, q.route = .auth (.resetPassword token p) → PasswordRules p)
    {u : UUID} {p : String} (h : currentPassword P o w qs u = some p) : PasswordRules p := by
  induction qs using List.reverseRecOn with
  | nil => cases h
  | append_singleton qs q ih =>
    have hih := ih (fun q' hq' => hv q' (List.mem_append_left _ hq'))
      fun q' hq' => hreset q' (List.mem_append_left _ hq')
    have hlast : q ∈ qs ++ [q] := List.mem_append_right _ (List.mem_singleton_self q)
    have hreg : ∀ payload, q.route = .auth (.register payload) → PasswordRules payload.password := by
      intro payload hq
      obtain ⟨body,hbody⟩ := hv q hlast _ hq
      exact AuthBody.validate_eq_register hbody
    rw [currentPassword_snoc] at h
    split at h
    · rename_i v p' hinst
      split at h
      · cases h
        exact installs_rules hreg (hreset q hlast) hinst
      · exact hih h
    · exact hih h

theorem reset_logs_in {v : BcryptVersion} (hb : Bcrypt v P) (hr : Reachable P o w) {q : Request}
    {token p : String} (hq : q.route = .auth (.resetPassword token p))
    (hok : (handle P o w q).1.isSuccess = true) (hrules : PasswordRules p) :
    ∃ u ∈ (handle P o w q).2.db.users, (P.jwtVerify token).bind Claims.sub = some u.id ∧
      ∀ email e, E.validate email = .ok e → P.lower e = u.email →
        LoginRequest.validate E email p = .ok ⟨e,p⟩ ∧
        (u.isActive = true → FreshKeys o.read (handle P o w q).2.taken (handle P o w q).2.db →
          (submit E o (handle P o w q).2 none none (.login email p)).1.isSuccess = true) := by
  rcases reset_users (P := P) (o := o) hr.wf hq with ⟨hno,-⟩ | ⟨-,u,salt,hash,hsub,hp,⟨a,ha,rfl⟩,hall⟩
  · exact absurd hok (by simp [hno])
  refine ⟨a,ha,hsub,fun email e he hlower => ?_⟩
  have hlogin : LoginRequest.validate E email p = .ok ⟨e,p⟩ :=
    LoginRequest.validate_ok.mpr ⟨he,RegisterRequest.login_passwordField hrules⟩
  refine ⟨hlogin,fun hact hfresh => ?_⟩
  have hhash : P.hashpw p salt = some a.passwordHash := by rw [(hall a ha).1 rfl,hp]
  exact (login_significant hb (hr.serve q).wf hfresh hlogin hlower.symm hhash ha ⟨rfl,rfl,rfl⟩
    hact).mpr rfl

/-- Where every reset asks for a password that keeps the rules, the policy is kept along the run,
and the passwords in force are those whose hashes are stored. -/
theorem policyKept_of {v : BcryptVersion} (hb : Bcrypt v P) (hr : Reachable P o w)
    (hv : ∀ q ∈ qs, Validated E q)
    (hreset : ∀ q ∈ qs, ∀ token p, q.route = .auth (.resetPassword token p) → PasswordRules p) :
    PolicyKept E o w qs ∧
      ∀ u ∈ (after P o w qs).db.users, Truthful P w.db u (currentPassword P o w qs u.id) := by
  refine ⟨⟨fun qs₁ qs₂ u p hqs h => ?_,fun qs₁ q qs₂ token p hqs hq hok => ?_⟩,
    fun u hu => truthful_after hr hu⟩
  · subst hqs
    exact currentPassword_rules (fun q hq => hv q (List.mem_append_left _ hq))
      (fun q hq => hreset q (List.mem_append_left _ hq)) h
  · subst hqs
    have hmem : q ∈ qs₁ ++ q :: qs₂ := List.mem_append_right _ List.mem_cons_self
    rw [after_append]
    exact reset_logs_in hb (hr.after qs₁) hq hok (hreset q hmem token p hq)

end Runs

section Computed

def Seed.resetting (newPassword : String) : List Request :=
  [{ route := .auth (.forgotPassword "guest@example.com") },
    { route := .auth (.resetPassword (createTypedToken (bcryptPlatform .v4) 2 "guest@example.com"
      .reset (timedeltaHours 1)).1 newPassword) }]

theorem Seed.resetting_validated (newPassword : String) :
    ∀ q ∈ resetting newPassword, Validated (bcryptEmail .v4) q := by
  intro q hq r hr
  rcases List.mem_cons.mp hq with rfl | hq
  · cases hr
    exact ⟨.forgotPassword "guest@example.com",by decide +kernel⟩
  · cases List.mem_singleton.mp hq
    cases hr
    exact ⟨.resetPassword _ newPassword,rfl⟩

/-- With a strong one he logs in. -/
theorem policyKept_of_strong :
    PolicyKept (bcryptEmail .v4) (Seed.readings 0) (Seed.world [])
        (Seed.resetting "Correct-horse1") ∧
      ∀ u ∈ (after (bcryptPlatform .v4) (Seed.readings 0) (Seed.world [])
          (Seed.resetting "Correct-horse1")).db.users,
        Truthful (bcryptPlatform .v4) (Seed.world []).db u
          (currentPassword (bcryptPlatform .v4) (Seed.readings 0) (Seed.world [])
            (Seed.resetting "Correct-horse1") u.id) := by
  refine policyKept_of (bcrypt_bcryptPlatform .v4)
    (.start (Seed.deployed_world (by simp) (by simp) (by simp))) (Seed.resetting_validated _)
    fun q hq token p he => ?_
  rcases List.mem_cons.mp hq with rfl | hq
  · cases he
  · cases List.mem_singleton.mp hq
    cases he
    decide +kernel

/-- A reset to the password "a" is accepted, and then no login with it is. -/
theorem policyKept_fails :
    ¬ ∀ (v : BcryptVersion) (P : Platform) (E : EmailStr P) (o : Readings) (w : World DB Mail)
      (qs : List Request), Bcrypt v P → Reachable P o w → (∀ q ∈ qs, Validated E q) →
      PolicyKept E o w qs := by
  intro h
  have hkept := h .v4 (bcryptPlatform .v4) (bcryptEmail .v4) (Seed.readings 0) (Seed.world [])
    (Seed.resetting "a") (bcrypt_bcryptPlatform .v4)
    (.start (Seed.deployed_world (by simp) (by simp) (by simp))) (Seed.resetting_validated _)
  have hinforce : currentPassword (bcryptPlatform .v4) (Seed.readings 0) (Seed.world [])
      (Seed.resetting "a") 2 = some "a" := by decide +kernel
  exact absurd (hkept.1 (Seed.resetting "a") [] 2 "a" rfl hinforce) (by decide +kernel)

end Computed

end TenantAuth
