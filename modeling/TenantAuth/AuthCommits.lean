import TenantAuth.Guards
set_option autoImplicit false

namespace TenantAuth
open Transact

section Minting
variable (P : Platform)

def accessTokenAt (u : UUID) (x : Option UUID) (t : Nat) : String :=
  P.jwtEncode (sessionClaims .access u x (t + timedeltaMinutes P.settings.jwtAccessExpireMinutes))

def refreshTokenAt (u : UUID) (x : Option UUID) (t : Nat) : String :=
  P.jwtEncode (sessionClaims .refresh u x (t + timedeltaDays P.settings.jwtRefreshExpireDays))

/-- The pair that `issue_token_pair` returns when it starts at reading `n`. -/
def pairAt (o : Nat → Reading) (n : Nat) (u : UUID) (x : Option UUID) : TokenData :=
  ⟨accessTokenAt P u x (o n).now,refreshTokenAt P u x (o (n+1)).now,"Bearer",
    P.settings.jwtAccessExpireMinutes*60⟩

def issuedAt (o : Nat → Reading) (n : Nat) (u : UUID) (x : Option UUID) : RefreshToken :=
  ⟨(o (n+2)).uuid,u,x,hashToken P (refreshTokenAt P u x (o (n+1)).now),
    (o (n+1)).now + timedeltaDays P.settings.jwtRefreshExpireDays,none⟩

theorem exec_issueTokenPair_bind {β : Type} (o : Nat → Reading) (d v : DB) (ws : List Write)
    (n : Nat) (s : List Mail) (u : UUID) (x : Option UUID) (g : TokenData → App β) :
    (issueTokenPair P u x >>= g).exec Write.apply o ⟨d,v,ws,n,s⟩ =
      match flushAll Write.apply (ws ++ [.insertRefreshToken (issuedAt P o n u x)]) v with
      | .ok v' => (g (pairAt P o n u x)).exec Write.apply o ⟨d,v',[],n+3,s⟩
      | .error f =>
        (.fault f,⟨d,v,ws ++ [.insertRefreshToken (issuedAt P o n u x)],n+3,s⟩) := by
  rw [exec_bind]
  have h : (issueTokenPair P u x).exec Write.apply o ⟨d,v,ws,n,s⟩ =
      match flushAll Write.apply (ws ++ [.insertRefreshToken (issuedAt P o n u x)]) v with
      | .ok v' => (.ok (pairAt P o n u x),⟨d,v',[],n+3,s⟩)
      | .error f =>
        (.fault f,⟨d,v,ws ++ [.insertRefreshToken (issuedAt P o n u x)],n+3,s⟩) := by
    change (flush >>= fun _ => pure (pairAt P o n u x)).exec Write.apply o
      ⟨d,v,ws ++ [.insertRefreshToken (issuedAt P o n u x)],n+3,s⟩ = _
    rw [exec_flush_bind]
    cases flushAll Write.apply _ v <;> rfl
  rw [h]
  cases flushAll Write.apply _ v <;> rfl

end Minting

namespace AuthService
variable (P : Platform)

def InScope (d : DB) (u : UUID) (x : Option UUID) : Prop :=
  ∀ t ∈ x, (membershipOf d t u).isSome

instance (d : DB) (u : UUID) (x : Option UUID) : Decidable (InScope d u x) :=
  match x with
  | none => .isTrue (by simp [InScope])
  | some t => decidable_of_iff ((membershipOf d t u).isSome = true) (by simp [InScope])

structure LoginChecked (d : DB) (payload : LoginRequest) (x : Option UUID) (u : User) :
    Prop where
  user : d.users.find? (fun u => u.email = P.lower payload.email) = some u
  password : verifyPassword P payload.password u.passwordHash = true
  active : u.isActive = true
  scope : InScope d u.id x

/-- The subject `i` and the live row `r` that `logout` and `refresh` find at `t`. -/
structure Presented (d : DB) (token : String) (t : Nat) (i : TokenPayload) (r : RefreshToken) :
    Prop where
  decoded : decodeAt P token (some .refresh) t = .ok i
  row : d.refreshTokens.find? (fun r => r.tokenHash = hashToken P token ∧
    r.userId = i.subject ∧ r.revokedAt = none) = some r

structure RefreshChecked (o : Nat → Reading) (n : Nat) (d : DB) (token : String)
    (i : TokenPayload) (r : RefreshToken) : Prop where
  presented : Presented P d token (o n).now i r
  unexpired : (o (n+1)).now < r.expiresAt
  scope : InScope d i.subject r.tenantId

/-- The subject `i`, the unused row `r` and the user `u` that `verify_email` and
`reset_password` find. -/
structure OneTimeChecked (o : Nat → Reading) (n : Nat) (table : DB → List OneTimeToken)
    (type : TokenType) (d : DB) (token : String) (r : OneTimeToken) (u : User) : Prop where
  decoded : ∃ i, decodeAt P token (some type) (o n).now = .ok i ∧
    (table d).find? (fun r => r.tokenHash = hashToken P token ∧ r.userId = i.subject ∧
      r.usedAt = none) = some r ∧
    d.users.find? (fun u => u.id = i.subject) = some u
  unexpired : (o (n+1)).now < r.expiresAt

variable (o : Nat → Reading) (d v : DB) (n : Nat) (s : List Mail)

theorem exec_requireScope_bind {β : Type} (u : UUID) (x : Option UUID) (g : Unit → App β) :
    (requireScope u x >>= g).exec Write.apply o ⟨d,v,[],n,s⟩ =
      if InScope v u x then (g ()).exec Write.apply o ⟨d,v,[],n,s⟩
      else (.raised (.app tenantAccessDenied),⟨d,v,[],n,s⟩) := by
  rw [exec_bind]
  cases x with
  | none => simp [requireScope,InScope]
  | some t =>
    have hm : v.members.find? (fun m => m.tenantId = t ∧ m.userId = u ∧ m.isActive) =
      membershipOf v t u := rfl
    simp only [requireScope,requireActiveTenantMembership,exec_scalar_bind,flushAll_nil,hm,
      AppError.raiseIf,exec_raiseIf]
    cases h : membershipOf v t u <;> simp [InScope,h]

theorem login_cases (payload : LoginRequest) (x : Option UUID) :
    let r := (login P payload x).exec Write.apply o ⟨d,d,[],n,s⟩
    (r.1.isOk = false ∧ r.2.db = d) ∨
      ∃ u, LoginChecked P d payload x u ∧ r.1 = .ok (pairAt P o n u.id x) ∧
        flushAll Write.apply [.insertRefreshToken (issuedAt P o n u.id x)] d = .ok r.2.db := by
  unfold login userByEmail
  simp only [exec_scalar_bind,flushAll_nil]
  cases hu : d.users.find? _ with
  | none => exact .inl ⟨rfl,rfl⟩
  | some u =>
    simp only [exec_appErrorIf_bind,exec_requireScope_bind,exec_issueTokenPair_bind,
      List.nil_append]
    split
    · exact .inl ⟨rfl,rfl⟩
    rename_i hp
    split
    · exact .inl ⟨rfl,rfl⟩
    rename_i ha
    split
    · rename_i hs
      cases hf : flushAll Write.apply [.insertRefreshToken (issuedAt P o n u.id x)] d with
      | error f => exact .inl ⟨rfl,rfl⟩
      | ok d' => exact .inr ⟨u,⟨hu,by simpa using hp,by simpa using ha,hs⟩,rfl,hf⟩
    · exact .inl ⟨rfl,rfl⟩

theorem logout_cases (token : String) :
    let r := (logout P token).exec Write.apply o ⟨d,d,[],n,s⟩
    (r.1.isOk = false ∧ r.2.db = d) ∨
      ∃ i row, Presented P d token (o n).now i row ∧ r.1 = .ok () ∧
        flushAll Write.apply [.revokeRefreshToken row.id (o (n+1)).now] d = .ok r.2.db := by
  unfold logout liveRefreshToken
  simp only [exec_decodeToken_bind]
  cases hd : decodeAt P token (some .refresh) (o n).now with
  | error e => exact .inl ⟨rfl,rfl⟩
  | ok i =>
    simp only [exec_scalar_bind,flushAll_nil]
    cases hr : d.refreshTokens.find? _ with
    | none => exact .inl ⟨rfl,rfl⟩
    | some row =>
      simp only [exec_now_bind,exec_add_bind,exec_commit,Conn.flushed,List.nil_append]
      cases hf : flushAll Write.apply [.revokeRefreshToken row.id (o (n+1)).now] d with
      | error f => exact .inl ⟨rfl,rfl⟩
      | ok d' => exact .inr ⟨i,row,⟨hd,hr⟩,rfl,hf⟩

def rotation (i : TokenPayload) (row : RefreshToken) : List Write :=
  [.revokeRefreshToken row.id (o (n+2)).now,
    .insertRefreshToken (issuedAt P o (n+3) i.subject row.tenantId)]

theorem refresh_cases (token : String) :
    let r := (refresh P token).exec Write.apply o ⟨d,d,[],n,s⟩
    (r.1.isOk = false ∧ r.2.db = d) ∨
      ∃ i row, RefreshChecked P o n d token i row ∧
        r.1 = .ok (pairAt P o (n+3) i.subject row.tenantId) ∧
        flushAll Write.apply (rotation P o n i row) d = .ok r.2.db := by
  unfold refresh liveRefreshToken
  simp only [exec_decodeToken_bind]
  cases hd : decodeAt P token (some .refresh) (o n).now with
  | error e => exact .inl ⟨rfl,rfl⟩
  | ok i =>
    simp only [exec_scalar_bind,flushAll_nil]
    cases hr : d.refreshTokens.find? _ with
    | none => exact .inl ⟨rfl,rfl⟩
    | some row =>
      simp only [exec_now_bind,exec_appErrorIf_bind,exec_requireScope_bind,exec_add_bind,
        exec_flush_bind,exec_issueTokenPair_bind,List.nil_append]
      split
      · exact .inl ⟨rfl,rfl⟩
      rename_i he
      split
      · rename_i hs
        have hsplit := flushAll_append Write.apply [.revokeRefreshToken row.id (o (n+2)).now]
          [.insertRefreshToken (issuedAt P o (n+3) i.subject row.tenantId)] d
        cases h1 : flushAll Write.apply [.revokeRefreshToken row.id (o (n+2)).now] d with
        | error f => exact .inl ⟨rfl,rfl⟩
        | ok d1 =>
          simp only [h1] at hsplit
          simp only []
          cases h2 : flushAll Write.apply
              [.insertRefreshToken (issuedAt P o (n+3) i.subject row.tenantId)] d1 with
          | error f => exact .inl ⟨rfl,rfl⟩
          | ok d2 =>
            refine .inr ⟨i,row,⟨⟨hd,hr⟩,by omega,hs⟩,rfl,?_⟩
            exact hsplit.trans h2
      · exact .inl ⟨rfl,rfl⟩

/-- The UPDATE that an assignment to the loaded user leaves in the queue. -/
def userWrites (u : User) (p : UserPatch) (t : Nat) : List Write :=
  if p.diff u = {} then [] else [.updateUser u.id (p.diff u) t]

theorem userWrites_forall {S : Write → Prop} {u : User} {p : UserPatch} {t : Nat}
    (h : ∀ p' t, S (.updateUser u.id p' t)) : ∀ w ∈ userWrites u p t, S w := by
  unfold userWrites
  split
  · simp
  · simpa using h _ t

theorem userWrites_append_forall {S : Write → Prop} {u : User} {p : UserPatch} {t : Nat}
    {w : Write} (h : ∀ p' t, S (.updateUser u.id p' t)) (hw : S w) :
    ∀ v ∈ userWrites u p t ++ [w], S v := by
  intro v hv
  rcases List.mem_append.mp hv with hv | hv
  · exact userWrites_forall h v hv
  · exact List.mem_singleton.mp hv ▸ hw

theorem userWrites_flush {u : User} {p : UserPatch} {t : Nat} {d d' : DB}
    (h : flushAll Write.apply (userWrites u p t) d = .ok d') :
    ∃ f : User → User, (f = id ∨ f = (p.diff u).apply t) ∧
      d' = { d with users := update User.id u.id f d.users } := by
  unfold userWrites at h
  split at h
  · cases h
    exact ⟨id,.inl rfl,by simp⟩
  · exact ⟨_,.inr rfl,(flushAll_single.mp h).2⟩

theorem exec_setUser_bind {β : Type} (ws : List Write) (u : User) (p : UserPatch)
    (g : Unit → App β) :
    (setUser u p >>= g).exec Write.apply o ⟨d,v,ws,n,s⟩ =
      (g ()).exec Write.apply o ⟨d,v,ws ++ userWrites u p (o n).now,n+1,s⟩ := by
  rw [exec_bind]
  unfold setUser userWrites
  rw [exec_now_bind]
  by_cases h : p.diff u = {} <;> simp [h]

theorem exec_hashPassword_bind {β : Type} (ws : List Write) (password : String)
    (g : String → App β) :
    (hashPassword P password >>= g).exec Write.apply o ⟨d,v,ws,n,s⟩ =
      match P.hashpw password (o n).salt with
      | some hash => (g hash).exec Write.apply o ⟨d,v,ws,n+1,s⟩
      | none => (.raised .valueError,⟨d,v,ws,n+1,s⟩) := by
  rw [exec_bind]
  unfold hashPassword
  rw [exec_reading_bind]
  cases P.hashpw password (o n).salt <;> rfl

theorem quiet_sendEmail (m : Mail) : (sendEmail m).Quiet :=
  Prog.Quiet.bind (quiet_reading _) fun b => by cases b <;> simp

def newUser (payload : RegisterRequest) (passwordHash : String) : User :=
  ⟨(o (n+1)).uuid,P.lower payload.email,passwordHash,strip payload.firstName,
    strip payload.lastName,true,false,(o (n+2)).now,(o (n+2)).now⟩

def verificationTokenAt (u : User) (t : Nat) : String :=
  (createTypedToken P u.id u.email .verify (t + timedeltaHours 24)).1

def newVerificationToken (u : User) : EmailVerificationToken :=
  ⟨(o (n+4)).uuid,u.id,hashToken P (verificationTokenAt P u (o (n+3)).now),
    (o (n+3)).now + timedeltaHours 24,none⟩

/-- `register` commits twice: a violation at the second commit leaves the first. -/
inductive Registers (payload : RegisterRequest) : Bool → List Write → Prop
  | nothing : Registers payload false []
  | userOnly {hash : String}
      (hu : d.users.find? (fun u => u.email = P.lower payload.email) = none)
      (hp : P.hashpw payload.password (o n).salt = some hash) :
    Registers payload false [.insertUser (newUser P o n payload hash)]
  | all {ok : Bool} {hash : String}
      (hu : d.users.find? (fun u => u.email = P.lower payload.email) = none)
      (hp : P.hashpw payload.password (o n).salt = some hash) :
    Registers payload ok [.insertUser (newUser P o n payload hash),
      .insertVerificationToken (newVerificationToken P o n (newUser P o n payload hash))]

theorem register_cases (payload : RegisterRequest) :
    let r := (register P payload).exec Write.apply o ⟨d,d,[],n,s⟩
    ∃ ws, Registers P o d n payload r.1.isOk ws ∧ flushAll Write.apply ws d = .ok r.2.db := by
  unfold register userByEmail
  simp only [exec_scalar_bind,flushAll_nil,exec_appErrorIf_bind,exec_hashPassword_bind]
  cases hu : d.users.find? _ with
  | some u => exact ⟨[],.nothing,rfl⟩
  | none =>
    simp only [Option.isSome_none,Bool.false_eq_true,if_false]
    cases hp : P.hashpw payload.password (o n).salt with
    | none => exact ⟨[],.nothing,rfl⟩
    | some hash =>
      simp only [exec_uuid4_bind,exec_now_bind,exec_add_bind,exec_commit_bind,List.nil_append]
      cases h1 : flushAll Write.apply [.insertUser _] d with
      | error f => exact ⟨[],.nothing,rfl⟩
      | ok d1 =>
        obtain ⟨hv,hd⟩ := flushAll_single.mp h1
        have hid : (newUser P o n payload hash).id ∉ d.users.map User.id := by
          simp only [Write.violation,firstViolation_eq_none,List.forall_mem_cons] at hv
          exact vacant_iff.mp hv.2.2.2.1
        have hfind : d1.users.find? (fun u => u.id = (o (n+1)).uuid) =
            some (newUser P o n payload hash) := by
          rw [hd]
          exact find_append_key hid
        simp only [exec_refreshRow_bind,hfind,exec_createVerificationToken_bind,
          exec_uuid4_bind,exec_add_bind,exec_commit_bind,List.nil_append]
        cases h2 : flushAll Write.apply [.insertVerificationToken _] d1 with
        | error f => exact ⟨_,.userOnly hu hp,h1⟩
        | ok d2 =>
          have hq : ((sendEmail ⟨(newUser P o n payload hash).email,"Verify your account",
              "Welcome " ++ (newUser P o n payload hash).firstName ++
                ", your verification token is: " ++
                verificationTokenAt P (newUser P o n payload hash) (o (n+3)).now⟩ >>=
              fun _ => (pure (newUser P o n payload hash) : App User)).exec Write.apply o
                ⟨d2,d2,[],n+5,s⟩).2.db = d2 :=
            Prog.Quiet.exec_db (Prog.Quiet.bind (quiet_sendEmail _) fun _ => quiet_pure _) _
          refine ⟨_,.all hu hp,?_⟩
          refine Eq.trans ?_ (congrArg Except.ok hq.symm)
          exact flushAll_cons.mpr ⟨hv,hd ▸ h2⟩

def verification (r : EmailVerificationToken) (u : User) : List Write :=
  userWrites u { isVerified := some true } (o (n+2)).now ++
    [.useVerificationToken r.id (o (n+3)).now]

theorem verifyEmail_cases (token : String) :
    let r := (verifyEmail P token).exec Write.apply o ⟨d,d,[],n,s⟩
    (r.1.isOk = false ∧ r.2.db = d) ∨
      ∃ row u, OneTimeChecked P o n DB.verificationTokens .verify d token row u ∧
        u.isVerified = false ∧ r.1 = .ok () ∧
        flushAll Write.apply (verification o n row u) d = .ok r.2.db := by
  unfold verifyEmail unusedToken userById
  simp only [exec_decodeToken_bind]
  cases hd : decodeAt P token (some .verify) (o n).now with
  | error e => exact .inl ⟨rfl,rfl⟩
  | ok i =>
    simp only [exec_scalar_bind,flushAll_nil]
    cases hr : d.verificationTokens.find? _ with
    | none => exact .inl ⟨rfl,rfl⟩
    | some row =>
      simp only [exec_now_bind,exec_appErrorIf_bind,exec_scalar_bind,flushAll_nil]
      split
      · exact .inl ⟨rfl,rfl⟩
      rename_i he
      cases hu : d.users.find? _ with
      | none => exact .inl ⟨rfl,rfl⟩
      | some u =>
        simp only [exec_appErrorIf_bind,exec_setUser_bind,exec_now_bind,exec_add_bind,
          exec_commit,Conn.flushed,List.nil_append]
        split
        · exact .inl ⟨rfl,rfl⟩
        rename_i hver
        cases hf : flushAll Write.apply (userWrites u _ _ ++ [.useVerificationToken _ _]) d with
        | error f => exact .inl ⟨rfl,rfl⟩
        | ok d' => exact .inr ⟨row,u,⟨⟨i,hd,hr,hu⟩,by omega⟩,by simpa using hver,rfl,hf⟩

def passwordChange (r : PasswordResetToken) (u : User) (hash : String) : List Write :=
  userWrites u { passwordHash := some hash } (o (n+3)).now ++
    [.useResetToken r.id (o (n+4)).now]

theorem resetPassword_cases (token newPassword : String) :
    let r := (resetPassword P token newPassword).exec Write.apply o ⟨d,d,[],n,s⟩
    (r.1.isOk = false ∧ r.2.db = d) ∨
      ∃ row u hash, OneTimeChecked P o n DB.resetTokens .reset d token row u ∧
        P.hashpw newPassword (o (n+2)).salt = some hash ∧ r.1 = .ok () ∧
        flushAll Write.apply (passwordChange o n row u hash) d = .ok r.2.db := by
  unfold resetPassword unusedToken userById
  simp only [exec_decodeToken_bind]
  cases hd : decodeAt P token (some .reset) (o n).now with
  | error e => exact .inl ⟨rfl,rfl⟩
  | ok i =>
    simp only [exec_scalar_bind,flushAll_nil]
    cases hr : d.resetTokens.find? _ with
    | none => exact .inl ⟨rfl,rfl⟩
    | some row =>
      simp only [exec_now_bind,exec_appErrorIf_bind,exec_scalar_bind,flushAll_nil]
      split
      · exact .inl ⟨rfl,rfl⟩
      rename_i he
      cases hu : d.users.find? _ with
      | none => exact .inl ⟨rfl,rfl⟩
      | some u =>
        simp only [exec_hashPassword_bind]
        cases hp : P.hashpw newPassword (o (n+2)).salt with
        | none => exact .inl ⟨rfl,rfl⟩
        | some hash =>
          simp only [exec_setUser_bind,exec_now_bind,exec_add_bind,exec_commit,Conn.flushed,
            List.nil_append]
          cases hf : flushAll Write.apply (userWrites u _ _ ++ [.useResetToken _ _]) d with
          | error f => exact .inl ⟨rfl,rfl⟩
          | ok d' => exact .inr ⟨row,u,hash,⟨⟨i,hd,hr,hu⟩,by omega⟩,rfl,rfl,hf⟩

def newResetToken (u : User) : PasswordResetToken :=
  ⟨(o (n+1)).uuid,u.id,hashToken P (createTypedToken P u.id u.email .reset
    ((o n).now + timedeltaHours 1)).1,(o n).now + timedeltaHours 1,none⟩

theorem forgotPassword_cases (email : String) :
    let r := (forgotPassword P email).exec Write.apply o ⟨d,d,[],n,s⟩
    r.2.db = d ∨ ∃ u, d.users.find? (fun u => u.email = P.lower email) = some u ∧
      flushAll Write.apply [.insertResetToken (newResetToken P o n u)] d = .ok r.2.db := by
  unfold forgotPassword userByEmail
  simp only [exec_scalar_bind,flushAll_nil]
  cases hu : d.users.find? _ with
  | none => exact .inl rfl
  | some u =>
    simp only [exec_createPasswordResetToken_bind,exec_uuid4_bind,exec_add_bind,
      exec_commit_bind,List.nil_append]
    cases hf : flushAll Write.apply [.insertResetToken _] d with
    | error f => exact .inl rfl
    | ok d' =>
      refine .inr ⟨u,rfl,hf.trans (congrArg Except.ok ?_)⟩
      exact (Prog.Quiet.exec_db (quiet_sendEmail _) ⟨d',d',[],n+2,s⟩).symm

end AuthService

end TenantAuth
