import TenantAuth.Encoding
import TenantAuth.Registration
set_option autoImplicit false

/-! Which passwords log a user in. The schemas count characters and bcrypt counts bytes, and it
does not look at all of them. -/

namespace TenantAuth
open Transact Encoding

/-- The major versions of bcrypt that the project allows. -/
inductive BcryptVersion where
  | v4 | v5
  deriving DecidableEq, Repr

/-- The bytes of a password that count. -/
def BcryptVersion.significant : BcryptVersion → String → List UInt8
  | .v4, s => (utf8 s).take 72
  | .v5, s => utf8 s

/-- `hashpw` takes the password, and does not raise ValueError. -/
def BcryptVersion.Takes : BcryptVersion → String → Prop
  | .v4, _ => True
  | .v5, s => (utf8 s).length ≤ 72

/-- How many bytes a password can have and still be told from every other. -/
def BcryptVersion.limit : BcryptVersion → Nat
  | .v4 => 71
  | .v5 => 72

/-- What bcrypt documents of `hashpw` and `checkpw`. -/
structure Bcrypt (v : BcryptVersion) (P : Platform) : Prop where
  hashpw : ∀ y salt, (P.hashpw y salt).isSome = true ↔ v.Takes y
  checkpw : ∀ x y salt hash, P.hashpw y salt = some hash →
    (P.checkpw x hash = true ↔ v.significant x = v.significant y)

structure User.SameLogin (a b : User) : Prop where
  id : b.id = a.id
  email : b.email = a.email
  passwordHash : b.passwordHash = a.passwordHash

/-- A registration with the password succeeds, and as long as its user is active and has this
password, the passwords that log him in are those equal to it. -/
def LoginExact {P : Platform} (E : EmailStr P) (o : Readings) (w : World DB Mail)
    (email password firstName lastName : String) : Prop :=
  let x := submit E o w none none (.register email password firstName lastName)
  x.1.isSuccess = true ∧ ∀ qs a u p' r, let w' := after P o x.2 qs
    LoginRequest.validate E email p' = .ok r → a ∈ x.2.db.users → a.email = P.lower r.email →
    u ∈ w'.db.users → a.SameLogin u → u.isActive = true → FreshKeys o.read w'.taken w'.db →
    ((submit E o w' none none (.login email p')).1.isSuccess = true ↔ p' = password)

section Versions
variable {v : BcryptVersion} {p : String}

theorem BcryptVersion.takes (h : (utf8 p).length ≤ v.limit) : v.Takes p := by
  cases v with
  | v4 => trivial
  | v5 => exact h

/-- Up to the limit a password is told from every other, -/
theorem BcryptVersion.significant_inj (h : (utf8 p).length ≤ v.limit) {p' : String} :
    v.significant p' = v.significant p ↔ p' = p := by
  refine ⟨fun he => ?_,fun he => he ▸ rfl⟩
  cases v with
  | v4 => exact eq_of_take (Nat.lt_succ_of_le h) he
  | v5 => exact utf8_injective he

/-- and beyond it one of those that `LoginRequest` accepts is not, or it is not taken at all. -/
theorem BcryptVersion.beyond (h : v.limit < (utf8 p).length) (h8 : 8 ≤ p.length)
    (h128 : p.length ≤ 128) :
    ¬ v.Takes p ∨ ∃ p', p' ≠ p ∧ v.significant p' = v.significant p ∧
      LoginRequest.passwordField p' = .ok p' := by
  cases v with
  | v5 => exact .inl (Nat.not_le_of_lt h)
  | v4 =>
    obtain ⟨p',hne,he,hle,hge⟩ := exists_ne_take (by decide : 72 < 128) h h128
    refine .inr ⟨p',hne,he,strField_ok.mpr ⟨rfl,by omega,fun n hn => ?_⟩⟩
    exact Option.mem_some.mp hn ▸ hle

end Versions

section Logins
variable {P : Platform} {E : EmailStr P} {o : Readings} {w : World DB Mail} {v : BcryptVersion}
  {email password firstName lastName : String} {payload : RegisterRequest}

theorem register_succeeds (hfresh : FreshKeys o.read w.taken w.db)
    (hsent : ∀ i, (o.read i).delivered = true)
    (hfree : w.db.users.find? (fun u => u.email = P.lower payload.email) = none)
    (hv : RegisterRequest.validate E email password firstName lastName = .ok payload)
    (hfits : payload.Fits P) {hash : String}
    (hp : P.hashpw payload.password (o.read w.taken).salt = some hash) :
    let u := AuthService.newUser P o.read w.taken payload hash
    let x := submit E o w none none (.register email password firstName lastName)
    x.1.isSuccess = true ∧ x.2.db = AuthService.registered P o.read w.db w.taken u ∧
      FreshKeys o.read x.2.taken x.2.db := by
  have hreg := AuthService.register_ok (s := w.sent) rfl hfresh hfree hp hfits (hsent _)
  obtain ⟨hok,hw⟩ := submit_register (o := o) (w := w) hv
  rw [hreg] at hok hw
  refine ⟨hok,by rw [hw],?_⟩
  rw [hw]
  exact AuthService.registered_freshKeys rfl hfresh

theorem register_fails
    (hfree : w.db.users.find? (fun u => u.email = P.lower payload.email) = none)
    (hv : RegisterRequest.validate E email password firstName lastName = .ok payload)
    (hp : P.hashpw payload.password (o.read w.taken).salt = none) :
    (submit E o w none none (.register email password firstName lastName)).1.isSuccess = false := by
  rw [(submit_register hv).1]
  unfold AuthService.register AuthService.userByEmail
  simp only [exec_scalar_bind,flushAll_nil,exec_appErrorIf_bind,AuthService.exec_hashPassword_bind,
    hfree,hp,Option.isSome_none,Bool.false_eq_true,if_false]
  rfl

theorem register_unfit (hfresh : FreshKeys o.read w.taken w.db)
    (hfree : w.db.users.find? (fun u => u.email = P.lower payload.email) = none)
    (hv : RegisterRequest.validate E email password firstName lastName = .ok payload) {hash : String}
    (hp : P.hashpw payload.password (o.read w.taken).salt = some hash) (hfits : ¬ payload.Fits P) :
    (submit E o w none none (.register email password firstName lastName)).1.isSuccess = false := by
  obtain ⟨f,hf⟩ := AuthService.register_unfit (s := w.sent) hfresh hfree hp hfits
  rw [(submit_register hv).1,hf]
  rfl

theorem find_sameLogin {d : DB} {a u : User} (hd : d.Wf) (hu : u ∈ d.users) (h : a.SameLogin u) :
    d.users.find? (fun u => u.email = a.email) = some u := by
  refine find_eq_some_of_unique hu (by simp [h.email]) fun b hb he => ?_
  have hkey : b.email = u.email := by simpa [h.email] using he
  exact eq_of_key hd.userEmail hb hu hkey

theorem login_significant (hb : Bcrypt v P) {w' : World DB Mail} {a u : User} {salt p' : String}
    {r : LoginRequest} (hd : w'.db.Wf) (hfresh : FreshKeys o.read w'.taken w'.db)
    (hv : LoginRequest.validate E email p' = .ok r) (ha : a.email = P.lower r.email)
    (hhash : P.hashpw password salt = some a.passwordHash) (hu : u ∈ w'.db.users)
    (hsame : a.SameLogin u) (hact : u.isActive = true) :
    (submit E o w' none none (.login email p')).1.isSuccess = true ↔
      v.significant p' = v.significant password := by
  have hfind := find_sameLogin hd hu hsame
  rw [ha] at hfind
  have hp' : r.password = p' := (strField_ok.mp (LoginRequest.validate_ok.mp hv).2).1
  rw [submit_login hv,AuthService.login_isOk_iff hfresh hfind hact,verifyPassword,hp',
    hsame.passwordHash]
  exact hb.checkpw p' password salt a.passwordHash hhash

theorem registered_account {a u : User}
    (hfree : w.db.users.find? (fun u => u.email = P.lower payload.email) = none)
    (ha : a ∈ (AuthService.registered P o.read w.db w.taken u).users)
    (he : a.email = P.lower payload.email) : a = u := by
  rcases List.mem_append.mp ha with ha | ha
  · exact absurd he (by simpa using List.find?_eq_none.mp hfree a ha)
  · exact List.mem_singleton.mp ha

theorem loginExact_of_le (hb : Bcrypt v P) (hr : Reachable P o w)
    (hfresh : FreshKeys o.read w.taken w.db) (hsent : ∀ i, (o.read i).delivered = true)
    (hfree : w.db.users.find? (fun u => u.email = P.lower payload.email) = none)
    (hv : RegisterRequest.validate E email password firstName lastName = .ok payload)
    (hle : (utf8 password).length ≤ v.limit) (hnames : Textual firstName ∧ Textual lastName) :
    LoginExact E o w email password firstName lastName := by
  obtain ⟨hpass,-⟩ := RegisterRequest.passwordField_ok (RegisterRequest.validate_ok.mp hv).2.1
  obtain ⟨hash,hp⟩ := Option.isSome_iff_exists.mp
    ((hb.hashpw password (o.read w.taken).salt).mpr (BcryptVersion.takes hle))
  have hemail := (RegisterRequest.validate_ok.mp hv).1
  obtain ⟨hok,hdb,-⟩ := register_succeeds hfresh hsent hfree hv
    ((RegisterRequest.validate_fits hv).mpr hnames) (hpass.symm ▸ hp)
  refine ⟨hok,fun qs a u p' r hlogin ha he hu hsame hact hfresh' => ?_⟩
  have hwf := ((hr.submit none none (AuthBody.validate_register hv)).after qs).wf
  -- Both bodies name the email by the same string.
  have hsameEmail : r.email = payload.email :=
    Except.ok.inj ((LoginRequest.validate_ok.mp hlogin).1.symm.trans hemail)
  have hnew : a = AuthService.newUser P o.read w.taken payload hash :=
    registered_account hfree (hdb ▸ ha) (hsameEmail ▸ he)
  have hhash : P.hashpw password (o.read w.taken).salt = some a.passwordHash := by
    rw [hnew]
    exact hp
  rw [login_significant hb hwf hfresh' hlogin he hhash hu hsame hact]
  exact BcryptVersion.significant_inj hle

theorem LoginExact.le_limit (hb : Bcrypt v P) (hfresh : FreshKeys o.read w.taken w.db)
    (hr : Reachable P o w) (hsent : ∀ i, (o.read i).delivered = true)
    (hfree : w.db.users.find? (fun u => u.email = P.lower payload.email) = none)
    (hv : RegisterRequest.validate E email password firstName lastName = .ok payload)
    (h : LoginExact E o w email password firstName lastName) :
    (utf8 password).length ≤ v.limit ∧ Textual firstName ∧ Textual lastName := by
  obtain ⟨hemail,hfield,-⟩ := RegisterRequest.validate_ok.mp hv
  obtain ⟨hpass,h8,h128⟩ := RegisterRequest.passwordField_ok hfield
  have hfits : payload.Fits P := by
    by_contra hfits
    cases hp : P.hashpw payload.password (o.read w.taken).salt with
    | none => exact absurd h.1 (by simp [register_fails hfree hv hp])
    | some hash => exact absurd h.1 (by simp [register_unfit hfresh hfree hv hp hfits])
  refine ⟨?_,(RegisterRequest.validate_fits hv).mp hfits⟩
  by_contra hlt
  rcases BcryptVersion.beyond (Nat.lt_of_not_le hlt) h8 h128 with hno | ⟨p',hne,hsig,hlogin⟩
  · have hnone : P.hashpw payload.password (o.read w.taken).salt = none := by
      rw [hpass,← Option.not_isSome_iff_eq_none,hb.hashpw]
      exact hno
    exact absurd h.1 (by simp [register_fails hfree hv hnone])
  · cases hp : P.hashpw payload.password (o.read w.taken).salt with
    | none => exact absurd h.1 (by simp [register_fails hfree hv hp])
    | some hash =>
      obtain ⟨-,hdb,hfresh'⟩ := register_succeeds hfresh hsent hfree hv hfits hp
      have hwf := (hr.submit none none (AuthBody.validate_register hv)).wf
      let u := AuthService.newUser P o.read w.taken payload hash
      have hu : u ∈ (submit E o w none none
          (.register email password firstName lastName)).2.db.users := by
        rw [hdb]
        exact List.mem_append_right _ (List.mem_singleton_self _)
      have hlogin' : LoginRequest.validate E email p' = .ok ⟨payload.email,p'⟩ :=
        LoginRequest.validate_ok.mpr ⟨hemail,hlogin⟩
      have hexact := h.2 [] u u p' _ hlogin' hu rfl hu ⟨rfl,rfl,rfl⟩ rfl hfresh'
      refine hne (hexact.mp ?_)
      exact (login_significant hb hwf hfresh' hlogin' rfl (hpass ▸ hp) hu ⟨rfl,rfl,rfl⟩ rfl).mpr hsig

/-- A registered password is the only one that logs its user in just when it has 71 bytes at most,
with bcrypt 4, or 72, with bcrypt 5. With a NUL in a name there is no registration. -/
theorem loginExact_iff (hb : Bcrypt v P) (hr : Reachable P o w)
    (hfresh : FreshKeys o.read w.taken w.db) (hsent : ∀ i, (o.read i).delivered = true)
    (hfree : w.db.users.find? (fun u => u.email = P.lower payload.email) = none)
    (hv : RegisterRequest.validate E email password firstName lastName = .ok payload) :
    LoginExact E o w email password firstName lastName ↔
      (utf8 password).length ≤ v.limit ∧ Textual firstName ∧ Textual lastName :=
  ⟨LoginExact.le_limit hb hfresh hr hsent hfree hv,
    fun h => loginExact_of_le hb hr hfresh hsent hfree hv h.1 h.2⟩

end Logins

section Computed

def latin1 (bytes : List UInt8) : String := String.ofList (bytes.map fun b => Char.ofNat b.toNat)

theorem latin1_injective : Function.Injective latin1 := by
  intro a b h
  refine List.map_injective_iff.mpr (fun x y hxy => ?_) (String.ofList_inj.mp h)
  have hvalid : ∀ x : UInt8, (Char.ofNat x.toNat).toNat = x.toNat := by
    intro x
    have hx := x.toNat_lt
    have hchar : x.toNat.isValidChar := .inl (by omega)
    rw [Char.ofNat,dif_pos hchar]
    rfl
  exact UInt8.toNat_inj.mp ((hvalid x).symm.trans ((congrArg Char.toNat hxy).trans (hvalid y)))

instance (v : BcryptVersion) (p : String) : Decidable (v.Takes p) := by
  unfold BcryptVersion.Takes
  cases v <;> infer_instance

/-- The plain platform with a bcrypt that hashes to the bytes that count. -/
def bcryptPlatform (v : BcryptVersion) : Platform :=
  { plainPlatform {} with
    hashpw := fun p _ => if v.Takes p then some (latin1 (v.significant p)) else none
    checkpw := fun p hash => v.Takes p ∧ latin1 (v.significant p) = hash }

theorem bcrypt_bcryptPlatform (v : BcryptVersion) : Bcrypt v (bcryptPlatform v) where
  hashpw y salt := by simp [bcryptPlatform]
  checkpw x y salt hash h := by
    by_cases hy : v.Takes y
    · obtain rfl : latin1 (v.significant y) = hash := by simpa [bcryptPlatform,hy] using h
      have hx : v.significant x = v.significant y → v.Takes x := by
        intro he
        cases v with
        | v4 => trivial
        | v5 => exact utf8_injective he ▸ hy
      simp only [bcryptPlatform,decide_eq_true_eq,latin1_injective.eq_iff,and_iff_right_iff_imp]
      exact hx
    · simp [bcryptPlatform,hy] at h

theorem bcryptPlatform_toLower (v : BcryptVersion) (s : String) :
    (bcryptPlatform v).lower s = String.ofList (s.toList.map Char.toLower) := rfl

def bcryptEmail (v : BcryptVersion) : EmailStr (bcryptPlatform v) :=
  plainEmail (bcryptPlatform v) (bcryptPlatform_toLower v)

/-- Somebody registers with a short password. -/
theorem loginExact_iff_short :
    LoginExact (bcryptEmail .v4) (Seed.readings 0) (Seed.world []) "new@example.com"
      "Correct-horse1" "N" "U" := by
  have hv : RegisterRequest.validate (bcryptEmail .v4) "new@example.com" "Correct-horse1" "N" "U" =
      .ok ⟨"new@example.com","Correct-horse1","N","U"⟩ := by decide +kernel
  refine (loginExact_iff (bcrypt_bcryptPlatform .v4)
    (.start (Seed.deployed_world (by simp) (by simp) (by simp))) (Seed.freshKeys (by decide +kernel))
    (fun _ => rfl) ?_ hv).mpr (by decide +kernel)
  decide +kernel

/-- With bcrypt 4 a password of 72 bytes also logs in with one more character behind it. -/
theorem loginExact_fails :
    ¬ ∀ (v : BcryptVersion) (P : Platform) (E : EmailStr P) (o : Readings) (w : World DB Mail)
      (email password firstName lastName : String) (payload : RegisterRequest), Bcrypt v P →
      Reachable P o w → FreshKeys o.read w.taken w.db → (∀ i, (o.read i).delivered = true) →
      w.db.users.find? (fun u => u.email = P.lower payload.email) = none →
      RegisterRequest.validate E email password firstName lastName = .ok payload →
      LoginExact E o w email password firstName lastName := by
  intro h
  let p := "Aa1!" ++ String.ofList (List.replicate 68 'a')
  let x := submit (bcryptEmail .v4) (Seed.readings 0) (Seed.world []) none none
    (.register "new@example.com" p "N" "U")
  have hexact := h .v4 (bcryptPlatform .v4) (bcryptEmail .v4) (Seed.readings 0) (Seed.world [])
    "new@example.com" p "N" "U" ⟨"new@example.com",p,"N","U"⟩ (bcrypt_bcryptPlatform .v4)
    (.start (Seed.deployed_world (by simp) (by simp) (by simp))) (Seed.freshKeys (by decide +kernel))
    (fun _ => rfl) (by decide +kernel) (by decide +kernel)
  have hlogin : (submit (bcryptEmail .v4) (Seed.readings 0) x.2 none none
      (.login "new@example.com" (p ++ "x"))).1.isSuccess = true := by decide +kernel
  let u := AuthService.newUser (bcryptPlatform .v4) (Seed.readings 0).read 0
    ⟨"new@example.com",p,"N","U"⟩ (latin1 (BcryptVersion.v4.significant p))
  have hu : u ∈ x.2.db.users := by decide +kernel
  have heq := (hexact.2 [] u u (p ++ "x") ⟨"new@example.com",p ++ "x"⟩ (by decide +kernel) hu
    (by decide +kernel) hu ⟨rfl,rfl,rfl⟩ rfl (Seed.freshKeys (by decide +kernel))).mp hlogin
  exact absurd heq (by decide +kernel)

end Computed

end TenantAuth
