import Mathlib.Order.Monotone.Basic
set_option autoImplicit false

/-! What the application takes from outside: readings of the clock and of the
random sources, the settings, and the libraries it calls. -/

namespace TenantAuth

/-- A `uuid.UUID`, by its integer value. -/
abbrev UUID := Nat

/-- Instants are natural numbers, in microseconds since the epoch. -/
def seconds (t : Nat) : Nat := t/1000000

def timedeltaMinutes (n : Nat) : Nat := n*60*1000000
def timedeltaHours (n : Nat) : Nat := timedeltaMinutes (60*n)
def timedeltaDays (n : Nat) : Nat := timedeltaHours (24*n)

/-- One outside reading. A program uses the field it asked for. -/
structure Reading where
  /-- `datetime.now(UTC)`, and `now()` on the database server. -/
  now : Nat
  /-- `uuid.uuid4()`. -/
  uuid : UUID
  /-- `secrets.token_urlsafe(32)`. -/
  secret : String
  /-- `bcrypt.gensalt()`. -/
  salt : String
  /-- Whether the mail server takes the message. -/
  delivered : Bool
  /-- Whether the `alembic` subprocess exits with 0. -/
  migrated : Bool
  deriving DecidableEq, Repr

/-- The readings of a run, in order, where the clock never goes back. -/
structure Readings where
  read : Nat → Reading
  clock : Monotone fun i => (read i).now

instance : Coe Readings (Nat → Reading) := ⟨Readings.read⟩

inductive TokenType where
  | access | refresh | verify | reset
  deriving DecidableEq, Repr

/-- The claims of a JWT; `exp` counts whole seconds. -/
structure Claims where
  sub : Option UUID
  type : Option TokenType
  exp : Nat
  tenantId : Option UUID
  email : Option String
  deriving DecidableEq, Repr

inductive MultiTenantMode where
  | row | schema
  deriving DecidableEq, Repr

structure Settings where
  jwtAccessExpireMinutes : Nat := 15
  jwtRefreshExpireDays : Nat := 7
  multiTenantMode : MultiTenantMode := .row
  deriving DecidableEq, Repr

structure HTTPAuthorizationCredentials where
  scheme : String
  credentials : String
  deriving DecidableEq, Repr

/-- `str.isspace` on one character. -/
def isSpace (c : Char) : Bool :=
  let n := c.toNat
  (9 ≤ n && n ≤ 13) || (28 ≤ n && n ≤ 32) || n = 0x85 || n = 0xA0 || n = 0x1680 ||
    (0x2000 ≤ n && n ≤ 0x200A) || n = 0x2028 || n = 0x2029 || n = 0x202F || n = 0x205F ||
    n = 0x3000

/-- `str.strip()`. -/
def strip (s : String) : String :=
  String.ofList (((s.toList.dropWhile isSpace).reverse.dropWhile isSpace).reverse)

/-- `str.lower()` on the characters a header can hold, where only ASCII letters
have an ASCII lower case. -/
def lowerHeader (cs : List Char) : List Char := cs.map Char.toLower

/-- Nonempty and free of whitespace. -/
def Compact (s : String) : Prop := s.toList ≠ [] ∧ ∀ c ∈ s.toList, isSpace c = false

/-- The libraries behind the application, each with what the code relies on. -/
structure Platform where
  settings : Settings
  /-- `str.lower()`. -/
  lower : String → String
  /-- `uuid.UUID(text)`; `none` is its ValueError. -/
  parseUuid : String → Option UUID
  /-- `jwt.encode` under the secret and algorithm of the settings. -/
  jwtEncode : Claims → String
  /-- The claims of a string whose signature verifies; expiry is checked apart. -/
  jwtVerify : String → Option Claims
  /-- `hashlib.sha256(...).hexdigest()`. -/
  sha256 : String → String
  /-- `bcrypt.hashpw`; `none` is its ValueError. -/
  hashpw : String → String → Option String
  /-- `bcrypt.checkpw`, false where it raises. -/
  checkpw : String → String → Bool
  /-- FastAPI's `HTTPBearer(auto_error=False)` on the Authorization header. -/
  httpBearer : Option String → Option HTTPAuthorizationCredentials
  jwtVerify_encode : ∀ c, jwtVerify (jwtEncode c) = some c
  jwtEncode_compact : ∀ c, Compact (jwtEncode c)
  sha256_injective : Function.Injective sha256
  httpBearer_bearer : ∀ t, Compact t →
    httpBearer (some ("Bearer " ++ t)) = some ⟨"Bearer",t⟩

theorem Platform.jwtEncode_injective (P : Platform) : Function.Injective P.jwtEncode := by
  intro a b h
  have hh := congrArg P.jwtVerify h
  simpa [P.jwtVerify_encode] using hh

theorem Readings.now_le (o : Readings) {i j : Nat} (h : i ≤ j) :
    (o.read i).now ≤ (o.read j).now := o.clock h

theorem strip_compact {s : String} (h : Compact s) : strip s = s := by
  have hd : ∀ l : List Char, (∀ c ∈ l, isSpace c = false) → l.dropWhile isSpace = l := by
    intro l hl
    cases l with
    | nil => rfl
    | cons c l => simp [List.dropWhile,hl c (by simp)]
  have h1 := hd _ h.2
  have h2 := hd s.toList.reverse (fun c hc => h.2 c (List.mem_reverse.mp hc))
  simp [strip,h1,h2]

end TenantAuth
