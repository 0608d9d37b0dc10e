import TenantAuth.Transact.Interleaving
import TenantAuth.Footprint
set_option autoImplicit false

namespace TenantAuth
open Transact

/-- The row that a write addresses by its key. -/
def Write.row : Write → Option (Table × UUID)
  | .insertUser r => some (.users,r.id)
  | .updateUser id _ _ | .deleteUser id => some (.users,id)
  | .insertTenant r => some (.tenants,r.id)
  | .updateTenant id _ _ => some (.tenants,id)
  | .insertMember r => some (.members,r.id)
  | .updateMember id _ => some (.members,id)
  | .insertInvitation r => some (.invitations,r.id)
  | .acceptInvitation id _ => some (.invitations,id)
  | .insertRefreshToken r => some (.refreshTokens,r.id)
  | .revokeRefreshToken id _ => some (.refreshTokens,id)
  | .insertVerificationToken r => some (.verificationTokens,r.id)
  | .useVerificationToken id _ => some (.verificationTokens,id)
  | .insertResetToken r => some (.resetTokens,r.id)
  | .useResetToken id _ => some (.resetTokens,id)
  | .insertAuditLog r => some (.auditLogs,r.id)
  | .insertRolePermission _ | .deleteRolePermission _ | .insertUserRole _ | .deleteUserRole _
  | .createSchema _ => none

/-- What a write locks: a row, or an entry of a unique index. -/
inductive Lock where
  | row (table : Table) (id : UUID)
  | email (email : String)
  | slug (slug : String)
  | member (tenantId userId : UUID)
  | rolePermission (r : RolePermission)
  | userRole (r : UserRole)
  | schema (name : String)
  deriving DecidableEq, Repr

/-- The entries of unique indexes, the primary keys of the tables above apart. No UPDATE sets a
column of one. -/
def Write.entries : Write → List Lock
  | .insertUser r => [.email r.email]
  | .insertTenant r => [.slug r.slug]
  | .insertMember r => [.member r.tenantId r.userId]
  | .insertRolePermission r | .deleteRolePermission r => [.rolePermission r]
  | .insertUserRole r | .deleteUserRole r => [.userRole r]
  | .createSchema name => [.schema name]
  | _ => []

def Write.locks (w : Write) : List Lock := w.row.toList.map (fun r => .row r.1 r.2) ++ w.entries

/-- Writes with a lock in common wait for each other. An INSERT also locks the rows that it refers
to, FOR KEY SHARE: only a DELETE of such a row waits for that lock, of a user alone, and so does it
for the rows that go with the user. Those locks of a deletion of a user are left out here. -/
def Write.waitsFor (w w' : Write) : Bool := w.locks.any fun r => decide (r ∈ w'.locks)

def Request.deletesUser (q : Request) : Bool :=
  match q.route with
  | .admin (.deleteUser _) => true
  | _ => false

def Request.createsTenant (q : Request) : Bool :=
  match q.route with
  | .tenant (.createTenant _ _) => true
  | _ => false

/-- No request of one of these kinds begins beside one of the other. A tenant that is committed
while its owner is being deleted, behind the look at the owner's tenants, goes by `ON DELETE
CASCADE`. -/
def Separate (running : List Request) : Move Request → Bool
  | .arrive q => running.all fun q' =>
    !(q.deletesUser && q'.createsTenant || q.createsTenant && q'.deletesUser)
  | .run _ => true

/-- The session runs from its first step to its last with no other beside it. -/
abbrev RunsAlone (o : Readings) (p : App Body) (w : World DB Mail) (x : Outcome Exc Fault Body)
    (w' : World DB Mail) : Prop :=
  Relation.ReflTransGen
    (fun s s' : Session DB Write Fault Reading Exc Mail Body × World DB Mail =>
      s.1.next Write.apply Write.waitsFor o.read [] s.2 = some s')
    (.running p [] [],w) (.closed x,w')

/-- A request that is admitted and then runs alone ends as it does serially. -/
theorem Request.alone {P : Platform} {o : Readings} {w : World DB Mail} {q : Request} {p : App Body}
    (hp : q.endpoint P = p) (hadm : Admits P q (o.read w.taken).now w.db) :
    ∃ x w', RunsAlone o p ⟨w.db,endpointStart P w q,w.sent⟩ x w' ∧
      handle P o w q = (respond q.route.statusCode x,w') := by
  obtain ⟨context,hadm⟩ := hadm
  refine ⟨_,_,Session.solo_serve p _,?_⟩
  rw [handle_eq]
  simp only [hadm,hp]

section Assertions
variable {α : Type} {R : DB → DB → Prop} {P : Platform} {Q : α → List Write → DB → Prop}
  {ws : List Write} {d : DB}

@[simp] theorem holds_now {Q : Nat → List Write → DB → Prop} :
    now.Holds Write.apply R Q ws d ↔ ∀ x : Reading, Q x.now ws d := Iff.rfl

@[simp] theorem holds_uuid4 {Q : UUID → List Write → DB → Prop} :
    uuid4.Holds Write.apply R Q ws d ↔ ∀ x : Reading, Q x.uuid ws d := Iff.rfl

@[simp] theorem holds_appError {e : AppError} :
    (e.raise : App α).Holds Write.apply R Q ws d ↔ True := Iff.rfl

@[simp] theorem holds_appErrorIf {e : AppError} {p : Prop} [Decidable p]
    {Q : Unit → List Write → DB → Prop} :
    (e.raiseIf p).Holds Write.apply R Q ws d ↔ (¬ p → Q () ws d) := holds_raiseIf

@[simp] theorem holds_scalar {table : DB → List α} {p : α → Bool}
    {Q : Option α → List Write → DB → Prop} :
    (scalar table p).Holds Write.apply R Q ws d ↔ ∀ d' v, R d d' →
      flushAll Write.apply ws d' = .ok v → Q ((table v).find? p) ws d' := Iff.rfl

@[simp] theorem holds_decodeToken {token : String} {k : Option TokenType}
    {Q : TokenPayload → List Write → DB → Prop} :
    (decodeToken P token k).Holds Write.apply R Q ws d ↔
      ∀ (x : Reading) (i : TokenPayload), decodeAt P token k x.now = .ok i → Q i ws d := by
  unfold decodeToken
  simp only [holds_bind,holds_now]
  refine forall_congr' fun x => ?_
  cases decodeAt P token k x.now with
  | error e => simp
  | ok i => simp

theorem holds_issueTokenPair {u : UUID} {x : Option UUID} {Q : TokenData → List Write → DB → Prop}
    (h : ∀ r tokens, Q tokens (ws ++ [.insertRefreshToken r]) d) :
    (issueTokenPair P u x).Holds Write.apply R Q ws d :=
  fun _ _ _ => h _ _

theorem holds_hashPassword {password : String} {Q : String → List Write → DB → Prop}
    (h : ∀ hash, Q hash ws d) : (hashPassword P password).Holds Write.apply R Q ws d := by
  unfold hashPassword
  simp only [holds_bind,holds_reading]
  intro x
  cases P.hashpw password x.salt with
  | none => trivial
  | some hash => exact h hash

theorem holds_setUser {u : User} {p : UserPatch} {Q : Unit → List Write → DB → Prop}
    (h : ∀ t, Q () (ws ++ AuthService.userWrites u p t) d) :
    (setUser u p).Holds Write.apply R Q ws d := by
  unfold setUser
  simp only [holds_bind,holds_now]
  intro x
  have hx := h x.now
  unfold AuthService.userWrites at hx
  split
  · rename_i hp
    simpa [hp] using hx
  · rename_i hp
    simpa [hp] using hx

end Assertions

end TenantAuth
