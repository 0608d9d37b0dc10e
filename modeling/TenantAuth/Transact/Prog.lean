import Mathlib.Logic.Basic
set_option autoImplicit false

/-! Programs that work on a database through one session, and their serial meaning.
Nothing here knows what the database holds: `D` is a database state, `W` a pending
write, `F` a constraint violation, `X` an outside reading (clock, random source),
`E` an exception the program raises itself, `V` an effect that no rollback undoes. -/

namespace Transact

/-- What a session program still has to do. A query sees a state and continues
with it; a write is only queued, until a flush sends it. -/
inductive Prog (D W X E V α : Type) where
  | pure : α → Prog D W X E V α
  | raise : E → Prog D W X E V α
  | ask : (X → Prog D W X E V α) → Prog D W X E V α
  | query : (D → Prog D W X E V α) → Prog D W X E V α
  | add : W → Prog D W X E V α → Prog D W X E V α
  | flush : Prog D W X E V α → Prog D W X E V α
  | commit : Prog D W X E V α → Prog D W X E V α
  | emit : V → Prog D W X E V α → Prog D W X E V α

/-- How a program ends: with a value, an exception of its own, or a violation. -/
inductive Outcome (E F α : Type) where
  | ok : α → Outcome E F α
  | raised : E → Outcome E F α
  | fault : F → Outcome E F α
  deriving DecidableEq, Repr

def Outcome.isOk {E F α : Type} : Outcome E F α → Bool
  | .ok _ => true
  | .raised _ | .fault _ => false

section Programs
variable {D W X E V α β γ : Type}

def Prog.bind : Prog D W X E V α → (α → Prog D W X E V β) → Prog D W X E V β
  | .pure a, f => f a
  | .raise e, _ => .raise e
  | .ask k, f => .ask fun x => (k x).bind f
  | .query k, f => .query fun d => (k d).bind f
  | .add w k, f => .add w (k.bind f)
  | .flush k, f => .flush (k.bind f)
  | .commit k, f => .commit (k.bind f)
  | .emit v k, f => .emit v (k.bind f)

instance : Monad (Prog D W X E V) where
  pure := .pure
  bind := .bind

/-- Run a program up to its own exception and hand that over as a value. -/
def Prog.attempt : Prog D W X E V α → Prog D W X E V (Except E α)
  | .pure a => .pure (.ok a)
  | .raise e => .pure (.error e)
  | .ask k => .ask fun x => (k x).attempt
  | .query k => .query fun d => (k d).attempt
  | .add w k => .add w k.attempt
  | .flush k => .flush k.attempt
  | .commit k => .commit k.attempt
  | .emit v k => .emit v k.attempt

def reading (f : X → β) : Prog D W X E V β := .ask fun x => .pure (f x)
def select (f : D → β) : Prog D W X E V β := .query fun d => .pure (f d)
def add (w : W) : Prog D W X E V Unit := .add w (.pure ())
def flush : Prog D W X E V Unit := .flush (.pure ())
def commit : Prog D W X E V Unit := .commit (.pure ())
def emit (v : V) : Prog D W X E V Unit := .emit v (.pure ())
def raise (e : E) : Prog D W X E V β := .raise e
def raiseIf (p : Prop) [Decidable p] (e : E) : Prog D W X E V Unit :=
  if p then .raise e else .pure ()

end Programs

section Serial
variable {D W F X E V α β γ : Type}

/-- Queued writes reach the database in order; the first violation stops them. -/
def flushAll (apply : W → D → Except F D) : List W → D → Except F D
  | [], d => .ok d
  | w :: ws, d =>
    match apply w d with
    | .ok d' => flushAll apply ws d'
    | .error f => .error f

theorem flushAll_append (apply : W → D → Except F D) (ws vs : List W) (d : D) :
    flushAll apply (ws ++ vs) d =
      match flushAll apply ws d with
      | .ok d' => flushAll apply vs d'
      | .error f => .error f := by
  induction ws generalizing d with
  | nil => rfl
  | cons w ws ih =>
    cases h : apply w d with
    | ok d' => simp [flushAll,h,ih]
    | error f => simp [flushAll,h]

/-- A session while it is alone: the committed database, what its open
transaction sees, the queue, the readings taken and the effects sent so far. -/
structure Conn (D W V : Type) where
  db : D
  view : D
  pend : List W
  taken : Nat
  sent : List V

def Conn.flushed (apply : W → D → Except F D) (c : Conn D W V) : Except F (Conn D W V) :=
  match flushAll apply c.pend c.view with
  | .ok v => .ok { c with view := v, pend := [] }
  | .error f => .error f

/-- The serial meaning. A query flushes first; a commit flushes and then publishes
the view; after an exception the open transaction is simply left behind. -/
def Prog.exec (apply : W → D → Except F D) (o : Nat → X) :
    Prog D W X E V α → Conn D W V → Outcome E F α × Conn D W V
  | .pure a, c => (.ok a,c)
  | .raise e, c => (.raised e,c)
  | .ask k, c => (k (o c.taken)).exec apply o { c with taken := c.taken+1 }
  | .query k, c =>
    match c.flushed apply with
    | .ok c' => (k c'.view).exec apply o c'
    | .error f => (.fault f,c)
  | .add w k, c => k.exec apply o { c with pend := c.pend ++ [w] }
  | .flush k, c =>
    match c.flushed apply with
    | .ok c' => k.exec apply o c'
    | .error f => (.fault f,c)
  | .commit k, c =>
    match c.flushed apply with
    | .ok c' => k.exec apply o { c' with db := c'.view }
    | .error f => (.fault f,c)
  | .emit v k, c => k.exec apply o { c with sent := c.sent ++ [v] }

variable (apply : W → D → Except F D) (o : Nat → X)

/-- Sequencing: the second program runs on the session the first one leaves. -/
theorem exec_bind (p : Prog D W X E V α) (f : α → Prog D W X E V β) (c : Conn D W V) :
    (p >>= f).exec apply o c =
      match p.exec apply o c with
      | (.ok a,c') => (f a).exec apply o c'
      | (.raised e,c') => (.raised e,c')
      | (.fault x,c') => (.fault x,c') := by
  change (p.bind f).exec apply o c = _
  induction p generalizing c with
  | pure a => rfl
  | raise e => rfl
  | ask k ih => exact ih _ _
  | query k ih =>
    cases h : c.flushed apply with
    | ok c' => simp only [Prog.bind,Prog.exec,h]; exact ih _ _
    | error f => simp [Prog.bind,Prog.exec,h]
  | add w k ih => exact ih _
  | flush k ih =>
    cases h : c.flushed apply with
    | ok c' => simp only [Prog.bind,Prog.exec,h]; exact ih _
    | error f => simp [Prog.bind,Prog.exec,h]
  | commit k ih =>
    cases h : c.flushed apply with
    | ok c' => simp only [Prog.bind,Prog.exec,h]; exact ih _
    | error f => simp [Prog.bind,Prog.exec,h]
  | emit v k ih => exact ih _

theorem exec_attempt (p : Prog D W X E V α) (c : Conn D W V) :
    p.attempt.exec apply o c =
      match p.exec apply o c with
      | (.ok a,c') => (.ok (.ok a),c')
      | (.raised e,c') => (.ok (.error e),c')
      | (.fault x,c') => (.fault x,c') := by
  induction p generalizing c with
  | pure a => rfl
  | raise e => rfl
  | ask k ih => exact ih _ _
  | query k ih =>
    cases h : c.flushed apply with
    | ok c' => simp only [Prog.attempt,Prog.exec,h]; exact ih _ _
    | error f => simp [Prog.attempt,Prog.exec,h]
  | add w k ih => exact ih _
  | flush k ih =>
    cases h : c.flushed apply with
    | ok c' => simp only [Prog.attempt,Prog.exec,h]; exact ih _
    | error f => simp [Prog.attempt,Prog.exec,h]
  | commit k ih =>
    cases h : c.flushed apply with
    | ok c' => simp only [Prog.attempt,Prog.exec,h]; exact ih _
    | error f => simp [Prog.attempt,Prog.exec,h]
  | emit v k ih => exact ih _

end Serial

end Transact
