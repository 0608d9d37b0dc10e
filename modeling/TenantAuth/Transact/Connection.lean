import TenantAuth.Transact.Prog
set_option autoImplicit false

/-! A connection that begins a transaction by itself at its first statement, and the block
that is a transaction of its own only where none is open yet. -/

namespace Transact

/-- What is committed, what the connection sees, and whether its transaction is open. -/
structure Connection (S : Type) where
  committed : S
  current : S
  begun : Bool

namespace Connection
variable {S W F : Type}

def opened (s : S) : Connection S := ⟨s,s,false⟩

/-- One statement. The first one begins the transaction, executed or not. -/
def execute (f : S → Except F S) (c : Connection S) : Except F Unit × Connection S :=
  match f c.current with
  | .ok s => (.ok (),{ c with current := s, begun := true })
  | .error x => (.error x,{ c with begun := true })

def executeAll (apply : W → S → Except F S) : List W → Connection S →
    Except F Unit × Connection S
  | [], c => (.ok (),c)
  | w :: ws, c =>
    match c.execute (apply w) with
    | (.ok _,c') => executeAll apply ws c'
    | (.error x,c') => (.error x,c')

def commit (c : Connection S) : Connection S := ⟨c.current,c.current,false⟩
def rollback (c : Connection S) : Connection S := ⟨c.committed,c.committed,false⟩

/-- A block that commits at its end, or rolls back; in a transaction that is open already it
leaves both to whoever opened that. -/
def transaction (body : Connection S → Except F Unit × Connection S) (c : Connection S) :
    Except F Unit × Connection S :=
  if c.begun then body c else
  match body { c with begun := true } with
  | (.ok _,c') => (.ok (),c'.commit)
  | (.error x,c') => (.error x,c'.rollback)

/-- What is not committed when the connection is closed is rolled back. -/
def close (c : Connection S) : S := c.committed

section
variable {apply : W → S → Except F S} {c : Connection S}

@[simp] theorem opened_current (s : S) : (opened s).current = s := rfl

theorem execute_committed (f : S → Except F S) : (c.execute f).2.committed = c.committed := by
  unfold execute
  cases f c.current <;> rfl

theorem execute_begun (f : S → Except F S) : (c.execute f).2.begun = true := by
  unfold execute
  cases f c.current <;> rfl

theorem executeAll_committed (ws : List W) :
    (executeAll apply ws c).2.committed = c.committed := by
  induction ws generalizing c with
  | nil => rfl
  | cons w ws ih =>
    have hw := execute_committed (c := c) (apply w)
    unfold executeAll
    cases h : c.execute (apply w) with
    | mk r c' =>
      rw [h] at hw
      cases r with
      | ok _ => exact ih.trans hw
      | error x => exact hw

theorem executeAll_ok {ws : List W} (h : (executeAll apply ws c).1 = .ok ()) :
    flushAll apply ws c.current = .ok (executeAll apply ws c).2.current := by
  induction ws generalizing c with
  | nil => rfl
  | cons w ws ih =>
    rw [executeAll,execute] at h ⊢
    rw [flushAll]
    cases hw : apply w c.current with
    | ok s =>
      simp only [hw] at h ⊢
      exact ih h
    | error x => simp [hw] at h

theorem executeAll_flush {ws : List W} {s : S} (h : flushAll apply ws c.current = .ok s) :
    (executeAll apply ws c).1 = .ok () := by
  induction ws generalizing c with
  | nil => rfl
  | cons w ws ih =>
    rw [flushAll] at h
    rw [executeAll,execute]
    cases hw : apply w c.current with
    | ok s =>
      simp only [hw] at h ⊢
      exact ih h
    | error x => simp [hw] at h

/-- In an open transaction the block publishes nothing. -/
theorem transaction_inside (hb : c.begun = true) (ws : List W) :
    (c.transaction (executeAll apply ws)).2.close = c.close := by
  unfold transaction
  rw [if_pos hb]
  exact executeAll_committed ws

/-- On its own it publishes what its statements make, or nothing. -/
theorem transaction_own (hb : c.begun = false) (ws : List W)
    (h : (c.transaction (executeAll apply ws)).1 = .ok ()) :
    flushAll apply ws c.current = .ok (c.transaction (executeAll apply ws)).2.close := by
  unfold transaction at *
  simp only [hb] at *
  have hall : (executeAll apply ws { c with begun := true }).1 = .ok () →
      flushAll apply ws c.current =
        .ok (executeAll apply ws { c with begun := true }).2.current := executeAll_ok
  cases hx : executeAll apply ws { c with begun := true } with
  | mk r c' =>
    rw [hx] at h hall
    cases r with
    | ok _ => exact hall rfl
    | error x => cases h

theorem transaction_flush (hb : c.begun = false) {ws : List W} {s : S}
    (h : flushAll apply ws c.current = .ok s) :
    (c.transaction (executeAll apply ws)).1 = .ok () ∧
      (c.transaction (executeAll apply ws)).2.close = s := by
  have hall : (executeAll apply ws { c with begun := true }).1 = .ok () := executeAll_flush h
  have hok : (c.transaction (executeAll apply ws)).1 = .ok () := by
    unfold transaction
    simp only [hb]
    cases hx : executeAll apply ws { c with begun := true } with
    | mk r c' =>
      rw [hx] at hall
      cases r with
      | ok _ => rfl
      | error x => cases hall
  exact ⟨hok,(Except.ok.inj (h.symm.trans (transaction_own hb ws hok))).symm⟩

end

end Connection

end Transact
