import Mathlib.Tactic.IntervalCases
import TenantAuth.Platform
set_option autoImplicit false

/-! A platform that can be computed with: tokens spell out their claims in decimal
numbers, a hash is the text itself. It has all the laws of `Platform` and no secrecy. -/

namespace TenantAuth.Plain

def writeNats (l : List Nat) : List Char := l.flatMap fun n => Nat.toDigits 10 n ++ ['.']

def readNats : List Char → Nat → List Nat
  | [], _ => []
  | c :: cs, n => if c = '.' then n :: readNats cs 0 else readNats cs (10*n + (c.toNat - '0'.toNat))

theorem isDigit_ne {c : Char} (h : c.isDigit = true) : c ≠ '.' := by
  rintro rfl
  simp at h

theorem readNats_digits (ds cs : List Char) (n : Nat) (h : ∀ c ∈ ds, c ≠ '.') :
    readNats (ds ++ '.' :: cs) n = Nat.ofDigitChars 10 ds n :: readNats cs 0 := by
  induction ds generalizing n with
  | nil => simp [readNats]
  | cons c ds ih =>
    have hc : c ≠ '.' := h c (by simp)
    simp only [List.cons_append,readNats,hc,if_false,Nat.ofDigitChars_cons]
    exact ih _ fun c hc => h c (by simp [hc])

theorem readNats_writeNats (l : List Nat) : readNats (writeNats l) 0 = l := by
  induction l with
  | nil => rfl
  | cons n l ih =>
    have hd : ∀ c ∈ Nat.toDigits 10 n, c ≠ '.' := fun c hc =>
      isDigit_ne (Nat.isDigit_of_mem_toDigits (by omega) (by omega) hc)
    have h : writeNats (n :: l) = Nat.toDigits 10 n ++ '.' :: writeNats l := by
      simp [writeNats]
    rw [h,readNats_digits _ _ _ hd,Nat.ofDigitChars_ten_toDigits,ih]

def ofOption : Option Nat → Nat
  | none => 0
  | some n => n+1

def toOption : Nat → Option Nat
  | 0 => none
  | n+1 => some n

def ofType : Option TokenType → Nat
  | none => 0
  | some .access => 1
  | some .refresh => 2
  | some .verify => 3
  | some .reset => 4

def toType : Nat → Option TokenType
  | 1 => some .access
  | 2 => some .refresh
  | 3 => some .verify
  | 4 => some .reset
  | _ => none

def ofEmail : Option String → List Nat
  | none => []
  | some s => 0 :: s.toList.map Char.toNat

def toEmail : List Nat → Option String
  | [] => none
  | _ :: l => some (String.ofList (l.map Char.ofNat))

def ofClaims (c : Claims) : List Nat :=
  ofOption c.sub :: ofType c.type :: c.exp :: ofOption c.tenantId :: ofEmail c.email

def toClaims : List Nat → Option Claims
  | sub :: type :: exp :: tenantId :: email =>
    some ⟨toOption sub,toType type,exp,toOption tenantId,toEmail email⟩
  | _ => none

theorem toOption_ofOption (x : Option Nat) : toOption (ofOption x) = x := by
  cases x <;> rfl

theorem toType_ofType (x : Option TokenType) : toType (ofType x) = x := by
  cases x with
  | none => rfl
  | some k => cases k <;> rfl

theorem toEmail_ofEmail (x : Option String) : toEmail (ofEmail x) = x := by
  cases x with
  | none => rfl
  | some s =>
    have h : (s.toList.map Char.toNat).map Char.ofNat = s.toList := by
      rw [List.map_map]
      exact (List.map_congr_left fun c _ => Char.ofNat_toNat c).trans (List.map_id _)
    simp only [ofEmail,toEmail,h,String.ofList_toList]

theorem toClaims_ofClaims (c : Claims) : toClaims (ofClaims c) = some c := by
  simp [ofClaims,toClaims,toOption_ofOption,toType_ofType,toEmail_ofEmail]

def encode (c : Claims) : String := String.ofList (writeNats (ofClaims c))

def verify (token : String) : Option Claims := toClaims (readNats token.toList 0)

theorem verify_encode (c : Claims) : verify (encode c) = some c := by
  simp [verify,encode,readNats_writeNats,toClaims_ofClaims]

theorem isDigit_isSpace {c : Char} (h : c.isDigit = true) : isSpace c = false := by
  have h1 : 48 ≤ c.toNat ∧ c.toNat ≤ 57 := Char.isDigit_iff_toNat.mp h
  unfold isSpace
  generalize c.toNat = n at h1
  obtain ⟨hl,hu⟩ := h1
  interval_cases n <;> rfl

theorem encode_compact (c : Claims) : Compact (encode c) := by
  refine ⟨?_,?_⟩
  · simp [encode,writeNats,ofClaims]
  · intro x hx
    simp only [encode,String.toList_ofList,writeNats,List.mem_flatMap,List.mem_append,
      List.mem_singleton] at hx
    obtain ⟨n,-,hx | rfl⟩ := hx
    · exact isDigit_isSpace (Nat.isDigit_of_mem_toDigits (by omega) (by omega) hx)
    · rfl

/-- `HTTPBearer`: what stands before and after the first space, for the scheme bearer. -/
def httpBearer : Option String → Option HTTPAuthorizationCredentials
  | none => none
  | some header =>
    let scheme := header.toList.takeWhile (· ≠ ' ')
    let credentials := (header.toList.dropWhile (· ≠ ' ')).drop 1
    if credentials = [] ∨ lowerHeader scheme ≠ "bearer".toList then none
    else some ⟨String.ofList scheme,String.ofList credentials⟩

theorem httpBearer_bearer (t : String) (h : Compact t) :
    httpBearer (some ("Bearer " ++ t)) = some ⟨"Bearer",t⟩ := by
  have ht : ("Bearer " ++ t).toList = 'B' :: 'e' :: 'a' :: 'r' :: 'e' :: 'r' :: ' ' :: t.toList := by
    simp
  simp only [httpBearer,ht]
  have hne := h.1
  simp [List.takeWhile,List.dropWhile,lowerHeader,hne]

def hexValue (c : Char) : Option Nat :=
  if c.isDigit then some (c.toNat - '0'.toNat)
  else if 'a' ≤ c.toLower ∧ c.toLower ≤ 'f' then some (c.toLower.toNat - 'a'.toNat + 10)
  else none

/-- `uuid.UUID(text)`: 32 hexadecimal digits, hyphens and braces aside. -/
def parseUuid (text : String) : Option UUID :=
  let digits := text.toList.filter fun c => c ≠ '-' ∧ c ≠ '\x7b' ∧ c ≠ '\x7d'
  if digits.length = 32 then
    (digits.mapM hexValue).map fun ds => ds.foldl (fun n d => 16*n + d) 0
  else none

end TenantAuth.Plain

namespace TenantAuth

def plainPlatform (settings : Settings) : Platform where
  settings := settings
  lower s := String.ofList (s.toList.map Char.toLower)
  parseUuid := Plain.parseUuid
  jwtEncode := Plain.encode
  jwtVerify := Plain.verify
  sha256 := id
  hashpw password _ := some password
  checkpw password hash := password = hash
  httpBearer := Plain.httpBearer
  jwtVerify_encode := Plain.verify_encode
  jwtEncode_compact := Plain.encode_compact
  sha256_injective := Function.injective_id
  httpBearer_bearer := Plain.httpBearer_bearer

theorem plainPlatform_lower (settings : Settings) (s : String) :
    (plainPlatform settings).lower ((plainPlatform settings).lower s) =
      (plainPlatform settings).lower s := by
  have h : Char.toLower ∘ Char.toLower = Char.toLower := by
    funext c
    unfold Function.comp Char.toLower
    grind
  simp [plainPlatform,h]

end TenantAuth
