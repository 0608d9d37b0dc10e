import TenantAuth.Admissibility
set_option autoImplicit false

/-! `schemas/auth.py` and `schemas/extended_auth.py`: what the body of a request to `auth.py` must
satisfy before its endpoint sees it. A check fails with the `msg` of pydantic's error. -/

namespace TenantAuth
open Transact
open Relational (varchar)

/-- `pydantic.EmailStr`: the normalised address. One of 254 octets, the longest there is, stays
that short in lower case, and there is no control character in it. -/
structure EmailStr (P : Platform) where
  validate : String → Except String String
  fits : ∀ {s e}, validate s = .ok e → varchar 255 (P.lower e) = true

/-- How pydantic counts characters in its messages. -/
def characters (n : Nat) : String := toString n ++ if n = 1 then " character" else " characters"

/-- `str = Field(min_length=..., max_length=...)`; `str.__len__` counts code points. -/
def strField (minLength : Nat) (maxLength : Option Nat) (v : String) : Except String String :=
  if v.length < minLength then
    .error ("String should have at least " ++ characters minLength)
  else match maxLength with
    | none => .ok v
    | some n =>
      if n < v.length then .error ("String should have at most " ++ characters n) else .ok v

/-- Unicode assigns category Nd in runs of ten; here each of them begins. -/
def decimalZeros : List Nat :=
  [0x30,0x660,0x6F0,0x7C0,0x966,0x9E6,0xA66,0xAE6,0xB66,0xBE6,0xC66,0xCE6,0xD66,0xDE6,0xE50,0xED0,
    0xF20,0x1040,0x1090,0x17E0,0x1810,0x1946,0x19D0,0x1A80,0x1A90,0x1B50,0x1BB0,0x1C40,0x1C50,
    0xA620,0xA8D0,0xA900,0xA9D0,0xA9F0,0xAA50,0xABF0,0xFF10,0x104A0,0x10D30,0x11066,0x110F0,0x11136,
    0x111D0,0x112F0,0x11450,0x114D0,0x11650,0x116C0,0x11730,0x118E0,0x11950,0x11C50,0x11D50,0x11DA0,
    0x11F50,0x16A60,0x16AC0,0x16B50,0x1D7CE,0x1D7D8,0x1D7E2,0x1D7EC,0x1D7F6,0x1E140,0x1E2F0,0x1E4F0,
    0x1E950,0x1FBF0]

/-- `\d` in a pattern on `str`. -/
def isDecimal (c : Char) : Bool := decimalZeros.any fun z => z ≤ c.toNat ∧ c.toNat < z+10

def specialCharacters : List Char := "!@#$%^&*()_+-=[]\x7b\x7d;':\"\\|,.<>/?`~".toList

def passwordStrength (v : String) : Except String String :=
  if v.toList.any (fun c => 'A' ≤ c ∧ c ≤ 'Z') = false then
    .error "Password must contain at least one uppercase letter"
  else if v.toList.any (fun c => 'a' ≤ c ∧ c ≤ 'z') = false then
    .error "Password must contain at least one lowercase letter"
  else if v.toList.any isDecimal = false then
    .error "Password must contain at least one digit"
  else if v.toList.any (· ∈ specialCharacters) = false then
    .error "Password must contain at least one special character"
  else .ok v

/-- The field `password` of `RegisterRequest`; its validator runs on what has the right length. -/
def RegisterRequest.passwordField (v : String) : Except String String := do
  let v ← strField 8 (some 128) v
  (passwordStrength v).mapError ("Value error, " ++ ·)

def LoginRequest.passwordField (v : String) : Except String String := strField 8 (some 128) v

section
variable {P : Platform} (E : EmailStr P)

/-- The fields are checked in order; the handler answers with the first error. -/
def RegisterRequest.validate (email password firstName lastName : String) :
    Except String RegisterRequest := do
  let email ← E.validate email
  let password ← RegisterRequest.passwordField password
  let firstName ← strField 1 (some 100) firstName
  let lastName ← strField 1 (some 100) lastName
  pure ⟨email,password,firstName,lastName⟩

def LoginRequest.validate (email password : String) : Except String LoginRequest := do
  let email ← E.validate email
  let password ← LoginRequest.passwordField password
  pure ⟨email,password⟩

/-- The bodies of the requests to `auth.py`, with the strings as they are sent. -/
inductive AuthBody where
  | register (email password firstName lastName : String)
  | login (email password : String)
  | logout (refreshToken : String)
  | refresh (refreshToken : String)
  | verifyEmail (token : String)
  | forgotPassword (email : String)
  | resetPassword (token newPassword : String)
  deriving DecidableEq, Repr

/-- The schema of each route. `VerifyEmailRequest` and `ResetPasswordRequest` take any strings. -/
def AuthBody.validate : AuthBody → Except String AuthRoute
  | .register email password firstName lastName => do
    pure (.register (← RegisterRequest.validate E email password firstName lastName))
  | .login email password => do pure (.login (← LoginRequest.validate E email password))
  | .logout refreshToken => do pure (.logout (← strField 1 none refreshToken))
  | .refresh refreshToken => do pure (.refresh (← strField 1 none refreshToken))
  | .verifyEmail token => .ok (.verifyEmail token)
  | .forgotPassword email => do pure (.forgotPassword (← E.validate email))
  | .resetPassword token newPassword => .ok (.resetPassword token newPassword)

/-- `validation_error_handler`. -/
def validationError (message : String) : Response := .error 422 "VALIDATION_ERROR" message

/-- A request to `auth.py` with its body: validated behind the middleware, before the endpoint. -/
def submit (o : Readings) (w : World DB Mail) (authorization xTenantId : Option String)
    (body : AuthBody) : Response × World DB Mail :=
  match body.validate E with
  | .ok r => handle P o w { authorization := authorization, xTenantId := xTenantId, route := .auth r }
  | .error message =>
    match serve Write.apply o.read (tenantContextMiddleware P authorization xTenantId) w with
    | (.ok (.ok _),w') => (validationError message,w')
    | (.ok (.error e),w') => (buildErrorResponse e,w')
    | (.raised _,w') | (.fault _,w') => (unhandledException,w')

end

section Fields
variable {v v' : String}

@[simp] theorem strField_ok {minLength : Nat} {maxLength : Option Nat} :
    strField minLength maxLength v = .ok v' ↔
      v' = v ∧ minLength ≤ v.length ∧ ∀ n ∈ maxLength, v.length ≤ n := by
  unfold strField
  cases maxLength with
  | none =>
    by_cases h : v.length < minLength
    · simp [h]
    · simp [h,eq_comm,Nat.le_of_not_lt h]
  | some n =>
    by_cases h : v.length < minLength
    · simp [h]
    · by_cases hn : n < v.length
      · simp [h,hn]
      · simp [h,hn,eq_comm,Nat.le_of_not_lt h,Nat.le_of_not_lt hn]

theorem passwordStrength_eq (h : passwordStrength v = .ok v') : v' = v := by
  unfold passwordStrength at h
  repeat' split at h
  all_goals simp_all

theorem RegisterRequest.passwordField_ok (h : RegisterRequest.passwordField v = .ok v') :
    v' = v ∧ 8 ≤ v.length ∧ v.length ≤ 128 := by
  unfold RegisterRequest.passwordField at h
  cases hf : strField 8 (some 128) v with
  | error m => simp [hf,bind,Except.bind] at h
  | ok x =>
    obtain ⟨rfl,h8,h128⟩ := strField_ok.mp hf
    simp only [hf,bind,Except.bind] at h
    cases hs : passwordStrength x with
    | error m => simp [hs,Except.mapError] at h
    | ok y =>
      obtain rfl := passwordStrength_eq hs
      obtain rfl : y = v' := by simpa [hs,Except.mapError] using h
      exact ⟨rfl,h8,h128 _ rfl⟩

theorem RegisterRequest.login_passwordField (h : RegisterRequest.passwordField v = .ok v) :
    LoginRequest.passwordField v = .ok v := by
  obtain ⟨-,h8,h128⟩ := RegisterRequest.passwordField_ok h
  exact strField_ok.mpr ⟨rfl,h8,fun n hn => Option.mem_some.mp hn ▸ h128⟩

end Fields

section Bodies
variable {P : Platform} {E : EmailStr P} {email password firstName lastName : String}

theorem RegisterRequest.validate_ok {payload : RegisterRequest} :
    RegisterRequest.validate E email password firstName lastName = .ok payload ↔
      E.validate email = .ok payload.email ∧
        RegisterRequest.passwordField password = .ok payload.password ∧
        strField 1 (some 100) firstName = .ok payload.firstName ∧
        strField 1 (some 100) lastName = .ok payload.lastName := by
  unfold RegisterRequest.validate
  cases E.validate email with
  | error m => simp [bind,Except.bind]
  | ok e =>
    cases RegisterRequest.passwordField password with
    | error m => simp [bind,Except.bind]
    | ok p =>
      cases strField 1 (some 100) firstName with
      | error m => simp [bind,Except.bind]
      | ok f =>
        cases strField 1 (some 100) lastName with
        | error m => simp [bind,Except.bind]
        | ok l =>
          cases payload
          simp [bind,Except.bind,pure,Except.pure]

theorem LoginRequest.validate_ok {payload : LoginRequest} :
    LoginRequest.validate E email password = .ok payload ↔
      E.validate email = .ok payload.email ∧
        LoginRequest.passwordField password = .ok payload.password := by
  unfold LoginRequest.validate
  cases E.validate email with
  | error m => simp [bind,Except.bind]
  | ok e =>
    cases LoginRequest.passwordField password with
    | error m => simp [bind,Except.bind]
    | ok p =>
      cases payload
      simp [bind,Except.bind,pure,Except.pure]

theorem length_strip_le (s : String) : (strip s).length ≤ s.length := by
  have hdrop : ∀ l : List Char, (l.dropWhile isSpace).length ≤ l.length := fun l =>
    (List.dropWhile_sublist _).length_le
  have h1 := hdrop s.toList
  have h2 := hdrop (s.toList.dropWhile isSpace).reverse
  simp only [strip,String.length_ofList,List.length_reverse] at h2 ⊢
  rw [← String.length_toList]
  omega

theorem mem_strip {c : Char} (hc : isSpace c = false) {s : String} :
    c ∈ (strip s).toList ↔ c ∈ s.toList := by
  have hdrop : ∀ l : List Char, c ∈ l.dropWhile isSpace ↔ c ∈ l := by
    intro l
    induction l with
    | nil => exact Iff.rfl
    | cons b l ih =>
      rw [List.dropWhile_cons]
      split
      · rename_i hb
        have hne : c ≠ b := by
          rintro rfl
          exact absurd (hc.symm.trans hb) (by decide)
        rw [ih,List.mem_cons,or_iff_right hne]
      · exact Iff.rfl
  rw [strip,String.toList_ofList,List.mem_reverse,hdrop,List.mem_reverse,hdrop]

/-- A text without NUL: the schemas let NUL through, PostgreSQL does not. -/
def Textual (s : String) : Prop := '\x00' ∉ s.toList

instance (s : String) : Decidable (Textual s) := by
  unfold Textual
  infer_instance

theorem varchar_iff {n : Nat} {s : String} : varchar n s = true ↔ s.length ≤ n ∧ Textual s := by
  simp [varchar,Textual]

theorem varchar_strip {n : Nat} {s : String} (h : s.length ≤ n) :
    varchar n (strip s) = true ↔ Textual s := by
  rw [varchar_iff,and_iff_right ((length_strip_le s).trans h),Textual,mem_strip (by decide)]
  exact Iff.rfl

/-- The columns of `users` take just those registrations that pass the schema and have no NUL in a
name. -/
theorem RegisterRequest.validate_fits {payload : RegisterRequest}
    (h : RegisterRequest.validate E email password firstName lastName = .ok payload) :
    payload.Fits P ↔ Textual firstName ∧ Textual lastName := by
  obtain ⟨he,-,hf,hl⟩ := RegisterRequest.validate_ok.mp h
  obtain ⟨hf,-,hf'⟩ := strField_ok.mp hf
  obtain ⟨hl,-,hl'⟩ := strField_ok.mp hl
  have hfirst := varchar_strip (hf' 100 rfl)
  have hlast := varchar_strip (hl' 100 rfl)
  rw [← hf] at hfirst ⊢
  rw [← hl] at hlast ⊢
  exact ⟨fun h => ⟨hfirst.mp h.firstName,hlast.mp h.lastName⟩,
    fun h => ⟨E.fits he,hfirst.mpr h.1,hlast.mpr h.2⟩⟩

theorem submit_ok {o : Readings} {w : World DB Mail} {authorization xTenantId : Option String}
    {body : AuthBody} {r : AuthRoute} (h : body.validate E = .ok r) :
    submit E o w authorization xTenantId body =
      handle P o w { authorization := authorization, xTenantId := xTenantId, route := .auth r } := by
  simp only [submit,h]

end Bodies

section Plain

def Plain.address (s : String) : Option String :=
  let t := (strip s).toList
  if t.getLast? = some '>' then some (String.ofList ((t.dropWhile (· ≠ '<')).drop 1).dropLast)
  else none

/-- `EmailStr` on ASCII, where NFC changes nothing: that address or the text itself, less the
blanks around it. -/
def Plain.emailStr (s : String) : Except String String :=
  let e := strip ((Plain.address s).getD s)
  if '@' ∈ e.toList ∧ '<' ∉ e.toList ∧ '>' ∉ e.toList ∧ e.length ≤ 254 ∧ Textual e then .ok e
  else .error "value is not a valid email address: An email address must have an @-sign."

theorem Plain.emailStr_ok {s e : String} : emailStr s = .ok e ↔
    e = strip ((address s).getD s) ∧ '@' ∈ e.toList ∧ '<' ∉ e.toList ∧ '>' ∉ e.toList ∧
      e.length ≤ 254 ∧ Textual e := by
  simp only [emailStr]
  split
  · rename_i h
    simp only [Except.ok.injEq]
    constructor
    · rintro rfl
      exact ⟨rfl,h⟩
    · exact fun h => h.1.symm
  · rename_i h
    simp only [reduceCtorEq,false_iff]
    rintro ⟨rfl,h'⟩
    exact h h'

theorem toLower_eq {b : Char} (hb : b.val < 65) (c : Char) : c.toLower = b ↔ c = b := by
  unfold Char.toLower
  split
  · rename_i h
    constructor
    · rintro rfl
      have hge : 65 ≤ c.val := h.1
      have hle : c.val ≤ 90 := h.2
      have hsum : c.val + 32 < 65 := hb
      grind
    · rintro rfl
      exact absurd hb (UInt32.not_lt.mpr h.1)
  · exact Iff.rfl

theorem textual_toLower {s : String} (h : Textual s) :
    Textual (String.ofList (s.toList.map Char.toLower)) := by
  intro hin
  rw [String.toList_ofList] at hin
  obtain ⟨c,hc,he⟩ := List.mem_map.mp hin
  exact h ((toLower_eq (by decide) c).mp he ▸ hc)

def plainEmail (P : Platform) (h : ∀ s, P.lower s = String.ofList (s.toList.map Char.toLower)) :
    EmailStr P where
  validate := Plain.emailStr
  fits {s e} he := by
    obtain ⟨-,-,-,-,hlen,htext⟩ := Plain.emailStr_ok.mp he
    rw [h,varchar_iff]
    refine ⟨?_,textual_toLower htext⟩
    rw [String.length_ofList,List.length_map,String.length_toList]
    omega

theorem plainEmail_ok {P : Platform}
    {h : ∀ s, P.lower s = String.ofList (s.toList.map Char.toLower)} {s e : String} :
    (plainEmail P h).validate s = .ok e ↔
      e = strip ((Plain.address s).getD s) ∧ '@' ∈ e.toList ∧ '<' ∉ e.toList ∧ '>' ∉ e.toList ∧
        e.length ≤ 254 ∧ Textual e := by
  simp only [plainEmail,Plain.emailStr_ok]

theorem plainPlatform_toLower (settings : Settings) (s : String) :
    (plainPlatform settings).lower s = String.ofList (s.toList.map Char.toLower) := rfl

end Plain

end TenantAuth
