import Mathlib.Algebra.Order.Field.Rat
import TenantAuth.Guards
import TenantAuth.TokenBucket
set_option autoImplicit false

/-! `middleware/ratelimit.py` over exact rationals, and the whole stack of `main.py`. -/

namespace TenantAuth
open Transact TokenBucket

/-- `RateLimitMiddleware`, with its arguments in `main.py` as defaults. -/
structure RateLimitMiddleware where
  rate : ℚ := 1/60
  burst : ℚ := 5
  pathPrefix : String := "/api/v1/auth"
  deriving DecidableEq, Repr

/-- `_buckets`. -/
abbrev Buckets := String → Option (Bucket ℚ)

def noBuckets : Buckets := fun _ => none

/-- `_allow`. A bucket that is not there yet is made with a reading of the clock of its
own, `created`, just before the one of the call. -/
def RateLimitMiddleware.allow (m : RateLimitMiddleware) (buckets : Buckets) (ip : String)
    (created now : ℚ) : Bool × Buckets :=
  let bucket := (buckets ip).getD ⟨m.burst,created⟩
  let elapsed := now - bucket.lastRefill
  let tokens := min m.burst (bucket.tokens + elapsed*m.rate)
  if tokens < 1 then (false,Function.update buckets ip (some ⟨tokens,now⟩))
  else (true,Function.update buckets ip (some ⟨tokens-1,now⟩))

section Calls
variable (m : RateLimitMiddleware) (buckets : Buckets) (ip : String) (created now : ℚ)

theorem RateLimitMiddleware.allow_fst : (m.allow buckets ip created now).1 =
    (((buckets ip).getD ⟨m.burst,created⟩).take m.burst m.rate now).1 := by
  unfold allow Bucket.take Bucket.level
  simp only
  split <;> rfl

theorem RateLimitMiddleware.allow_snd : (m.allow buckets ip created now).2 =
    Function.update buckets ip
      (some (((buckets ip).getD ⟨m.burst,created⟩).take m.burst m.rate now).2) := by
  unfold allow Bucket.take Bucket.level
  simp only
  split <;> rfl

end Calls

/-- `str.startswith`. -/
def startsWith (s p : String) : Bool := p.toList.isPrefixOf s.toList

/-- What the paths of a router's routes start with. -/
def Route.router : Route → String
  | .auth _ | .me => "/api/v1/auth"
  | .tenant _ => "/api/v1/tenants"
  | .admin _ => "/api/v1/admin"

/-- `dispatch`, as far as to whether the next layer is called. -/
def RateLimitMiddleware.dispatch (m : RateLimitMiddleware) (buckets : Buckets) (path ip : String)
    (created now : ℚ) : Bool × Buckets :=
  if startsWith path m.pathPrefix then m.allow buckets ip created now else (true,buckets)

def rateLimited : Response :=
  .error 429 "RATE_LIMITED" "Too many requests. Please try again later."

/-- Who calls, and when by the monotonic clock. -/
structure Caller where
  ip : String
  created : ℚ
  now : ℚ
  deriving DecidableEq, Repr

/-- The application: the middleware that was added last is outermost, so a request goes
through the tenant middleware, then through the rate limiter, then to its route. While the
limiter lets it pass it is `handle` (`stack_handle`). -/
def stack (P : Platform) (o : Readings) (m : RateLimitMiddleware) (buckets : Buckets)
    (caller : Caller) (w : World DB Mail) (q : Request) : Response × Buckets × World DB Mail :=
  match serve Write.apply o.read (tenantContextMiddleware P q.authorization q.xTenantId) w with
  | (.ok (.ok _),w') =>
    match m.dispatch buckets q.route.router caller.ip caller.created caller.now with
    | (false,buckets') => (rateLimited,buckets',w')
    | (true,buckets') =>
      match serve Write.apply o.read (q.endpoint P) w' with
      | (r,w'') => (respond q.route.statusCode r,buckets',w'')
  | (.ok (.error e),w') => (buildErrorResponse e,buckets,w')
  | (.raised _,w') | (.fault _,w') => (unhandledException,buckets,w')

theorem stack_handle {P : Platform} {o : Readings} {m : RateLimitMiddleware} {buckets : Buckets}
    {caller : Caller} {w : World DB Mail} {q : Request}
    (h : (m.dispatch buckets q.route.router caller.ip caller.created caller.now).1 = true) :
    ((stack P o m buckets caller w q).1,(stack P o m buckets caller w q).2.2) =
      handle P o w q := by
  rcases hd : m.dispatch buckets q.route.router caller.ip caller.created caller.now with
    ⟨ok,buckets'⟩
  obtain rfl : ok = true := by simpa [hd] using h
  unfold stack handle
  rcases serve Write.apply o.read (tenantContextMiddleware P q.authorization q.xTenantId) w with
    ⟨r,w'⟩
  cases r with
  | raised e => rfl
  | fault f => rfl
  | ok v =>
    cases v with
    | error e => rfl
    | ok context => simp only [hd]

end TenantAuth
