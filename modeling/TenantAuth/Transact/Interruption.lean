import TenantAuth.Transact.Rules
set_option autoImplicit false

namespace Transact
variable {D W F X E V α β γ : Type}

/-- The operation after the first `k` raises `e` and does not take place. A transaction that is open
then is left behind; what has been committed and sent stays so. -/
def Prog.failAt (e : E) : Prog D W X E V α → Nat → Prog D W X E V α
  | .pure a, _ => .pure a
  | .raise e', _ => .raise e'
  | _, 0 => .raise e
  | .ask f, k+1 => .ask fun x => (f x).failAt e k
  | .query f, k+1 => .query fun d => (f d).failAt e k
  | .add w p, k+1 => .add w (p.failAt e k)
  | .flush p, k+1 => .flush (p.failAt e k)
  | .commit p, k+1 => .commit (p.failAt e k)
  | .emit v p, k+1 => .emit v (p.failAt e k)

/-- Every path that returns a value takes `i` operations. -/
def Prog.Takes : Prog D W X E V α → Nat → Prop
  | .pure _, i => i = 0
  | .raise _, _ => True
  | _, 0 => False
  | .ask f, i+1 => ∀ x, (f x).Takes i
  | .query f, i+1 => ∀ d, (f d).Takes i
  | .add _ p, i+1 | .flush p, i+1 | .commit p, i+1 | .emit _ p, i+1 => p.Takes i

/-- Every effect that is sent is in `S`. -/
def Prog.Emits (S : V → Prop) : Prog D W X E V α → Prop
  | .pure _ | .raise _ => True
  | .ask f => ∀ x, (f x).Emits S
  | .query f => ∀ d, (f d).Emits S
  | .add _ p | .flush p | .commit p => p.Emits S
  | .emit v p => S v ∧ p.Emits S

section Primitives
variable {S : V → Prop}

@[simp] theorem takes_pure {a : α} {i : Nat} :
    (pure a : Prog D W X E V α).Takes i ↔ i = 0 := Iff.rfl
@[simp] theorem takes_raise (e : E) (i : Nat) : (raise e : Prog D W X E V α).Takes i := by
  cases i <;> trivial
@[simp] theorem takes_reading (f : X → α) : (reading f : Prog D W X E V α).Takes 1 := fun _ => rfl
@[simp] theorem takes_select (f : D → α) : (select f : Prog D W X E V α).Takes 1 := fun _ => rfl
@[simp] theorem takes_add (w : W) : (add w : Prog D W X E V Unit).Takes 1 := rfl
@[simp] theorem takes_commit : (commit : Prog D W X E V Unit).Takes 1 := rfl
@[simp] theorem takes_emit (v : V) : (emit v : Prog D W X E V Unit).Takes 1 := rfl
@[simp] theorem takes_raiseIf (p : Prop) [Decidable p] (e : E) :
    (raiseIf p e : Prog D W X E V Unit).Takes 0 := by
  unfold raiseIf
  split
  · exact takes_raise e 0
  · rfl

@[simp] theorem emits_pure (a : α) : (pure a : Prog D W X E V α).Emits S := trivial
@[simp] theorem emits_raise (e : E) : (raise e : Prog D W X E V α).Emits S := trivial
@[simp] theorem emits_reading (f : X → α) : (reading f : Prog D W X E V α).Emits S :=
  fun _ => trivial
@[simp] theorem emits_select (f : D → α) : (select f : Prog D W X E V α).Emits S :=
  fun _ => trivial
@[simp] theorem emits_add (w : W) : (add w : Prog D W X E V Unit).Emits S := trivial
@[simp] theorem emits_flush : (flush : Prog D W X E V Unit).Emits S := trivial
@[simp] theorem emits_commit : (commit : Prog D W X E V Unit).Emits S := trivial
@[simp] theorem emits_raiseIf (p : Prop) [Decidable p] (e : E) :
    (raiseIf p e : Prog D W X E V Unit).Emits S := by
  unfold raiseIf
  split <;> trivial

end Primitives

section Sequences
variable {p : Prog D W X E V α} {f : α → Prog D W X E V β} {e : E} {i j k : Nat}

theorem bind_assoc_prog (p : Prog D W X E V α) (f : α → Prog D W X E V β)
    (g : β → Prog D W X E V γ) : p >>= f >>= g = p >>= fun a => f a >>= g := by
  change (p.bind f).bind g = p.bind fun a => (f a).bind g
  induction p with
  | pure a => rfl
  | raise e => rfl
  | ask k ih => exact congrArg Prog.ask (funext ih)
  | query k ih => exact congrArg Prog.query (funext ih)
  | add w p ih => exact congrArg (Prog.add w) ih
  | flush p ih => exact congrArg Prog.flush ih
  | commit p ih => exact congrArg Prog.commit ih
  | emit v p ih => exact congrArg (Prog.emit v) ih

theorem Prog.Takes.bind (hp : p.Takes i) (hf : ∀ a, (f a).Takes j) : (p >>= f).Takes (i+j) := by
  change (p.bind f).Takes (i+j)
  induction p generalizing i with
  | pure a =>
    cases hp
    rw [Nat.zero_add]
    exact hf a
  | raise e => exact takes_raise e _
  | ask g ih =>
    cases i with
    | zero => exact hp.elim
    | succ i =>
      rw [Nat.succ_add]
      exact fun x => ih x (hp x)
  | query g ih =>
    cases i with
    | zero => exact hp.elim
    | succ i =>
      rw [Nat.succ_add]
      exact fun x => ih x (hp x)
  | add w p ih | flush p ih | commit p ih | emit v p ih =>
    cases i with
    | zero => exact hp.elim
    | succ i =>
      rw [Nat.succ_add]
      exact ih hp

theorem Prog.Emits.bind {S : V → Prop} (hp : p.Emits S) (hf : ∀ a, (f a).Emits S) :
    (p >>= f).Emits S := by
  change (p.bind f).Emits S
  induction p with
  | pure a => exact hf a
  | raise e => trivial
  | ask k ih => exact fun x => ih x (hp x)
  | query k ih => exact fun d => ih d (hp d)
  | add w k ih | flush k ih | commit k ih => exact ih hp
  | emit v k ih => exact ⟨hp.1,ih hp.2⟩

theorem failAt_bind_lt (hp : p.Takes i) (hk : k < i) :
    (p >>= f).failAt e k = p.failAt e k >>= f := by
  change (p.bind f).failAt e k = (p.failAt e k).bind f
  induction p generalizing i k with
  | pure a =>
    cases hp
    exact absurd hk (Nat.not_lt_zero k)
  | raise e' => cases k <;> rfl
  | ask g ih =>
    cases i with
    | zero => exact hp.elim
    | succ i =>
      cases k with
      | zero => rfl
      | succ k => exact congrArg Prog.ask (funext fun x => ih x (hp x) (Nat.lt_of_succ_lt_succ hk))
  | query g ih =>
    cases i with
    | zero => exact hp.elim
    | succ i =>
      cases k with
      | zero => rfl
      | succ k => exact congrArg Prog.query (funext fun d => ih d (hp d) (Nat.lt_of_succ_lt_succ hk))
  | add w p ih | flush p ih | commit p ih | emit v p ih =>
    cases i with
    | zero => exact hp.elim
    | succ i =>
      cases k with
      | zero => rfl
      | succ k =>
        have hrest := ih hp (Nat.lt_of_succ_lt_succ hk)
        simp only [Prog.bind,Prog.failAt,hrest]

theorem failAt_bind_add (hp : p.Takes i) :
    (p >>= f).failAt e (i+k) = p >>= fun a => (f a).failAt e k := by
  change (p.bind f).failAt e (i+k) = p.bind fun a => (f a).failAt e k
  induction p generalizing i with
  | pure a =>
    cases hp
    rw [Nat.zero_add]
    rfl
  | raise e' => cases h : i+k <;> rfl
  | ask g ih =>
    cases i with
    | zero => exact hp.elim
    | succ i =>
      rw [Nat.succ_add]
      exact congrArg Prog.ask (funext fun x => ih x (hp x))
  | query g ih =>
    cases i with
    | zero => exact hp.elim
    | succ i =>
      rw [Nat.succ_add]
      exact congrArg Prog.query (funext fun d => ih d (hp d))
  | add w p ih | flush p ih | commit p ih | emit v p ih =>
    cases i with
    | zero => exact hp.elim
    | succ i =>
      rw [Nat.succ_add]
      simp only [Prog.bind,Prog.failAt,ih hp]

/-- After its last operation nothing stops a program. -/
theorem failAt_of_takes (hp : p.Takes i) (hk : i ≤ k) : p.failAt e k = p := by
  induction p generalizing i k with
  | pure a => cases k <;> rfl
  | raise e' => cases k <;> rfl
  | ask g ih =>
    cases i with
    | zero => exact hp.elim
    | succ i =>
      obtain ⟨k,rfl⟩ := Nat.exists_eq_succ_of_ne_zero (Nat.ne_zero_of_lt hk)
      exact congrArg Prog.ask (funext fun x => ih x (hp x) (Nat.le_of_succ_le_succ hk))
  | query g ih =>
    cases i with
    | zero => exact hp.elim
    | succ i =>
      obtain ⟨k,rfl⟩ := Nat.exists_eq_succ_of_ne_zero (Nat.ne_zero_of_lt hk)
      exact congrArg Prog.query (funext fun d => ih d (hp d) (Nat.le_of_succ_le_succ hk))
  | add w p ih | flush p ih | commit p ih | emit v p ih =>
    cases i with
    | zero => exact hp.elim
    | succ i =>
      obtain ⟨k,rfl⟩ := Nat.exists_eq_succ_of_ne_zero (Nat.ne_zero_of_lt hk)
      simp only [Prog.failAt,ih hp (Nat.le_of_succ_le_succ hk)]

theorem Prog.Quiet.failAt (hp : p.Quiet) : (p.failAt e k).Quiet := by
  induction p generalizing k with
  | pure a => cases k <;> trivial
  | raise e' => cases k <;> trivial
  | ask g ih =>
    cases k with
    | zero => trivial
    | succ k => exact fun x => ih x (hp x)
  | query g ih =>
    cases k with
    | zero => trivial
    | succ k => exact fun d => ih d (hp d)
  | commit p ih => exact hp.elim
  | add w p ih | flush p ih | emit v p ih =>
    cases k with
    | zero => trivial
    | succ k => exact ih hp

theorem Prog.Writes.failAt {S : W → Prop} (hp : p.Writes S) : (p.failAt e k).Writes S := by
  induction p generalizing k with
  | pure a => cases k <;> trivial
  | raise e' => cases k <;> trivial
  | ask g ih =>
    cases k with
    | zero => trivial
    | succ k => exact fun x => ih x (hp x)
  | query g ih =>
    cases k with
    | zero => trivial
    | succ k => exact fun d => ih d (hp d)
  | add w p ih =>
    cases k with
    | zero => trivial
    | succ k => exact ⟨hp.1,ih hp.2⟩
  | flush p ih | commit p ih | emit v p ih =>
    cases k with
    | zero => trivial
    | succ k => exact ih hp

end Sequences

section Runs
variable {apply : W → D → Except F D} {o : Nat → X} {p : Prog D W X E V α} {e : E} {i k : Nat}

theorem failAt_isOk (hp : p.Takes i) (hk : k < i) (c : Conn D W V) :
    ((p.failAt e k).exec apply o c).1.isOk = false := by
  induction p generalizing i k c with
  | pure a =>
    cases hp
    exact absurd hk (Nat.not_lt_zero k)
  | raise e' => cases k <;> rfl
  | ask g ih =>
    cases i with
    | zero => exact hp.elim
    | succ i =>
      cases k with
      | zero => rfl
      | succ k => exact ih _ (hp _) (Nat.lt_of_succ_lt_succ hk) _
  | query g ih =>
    cases i with
    | zero => exact hp.elim
    | succ i =>
      cases k with
      | zero => rfl
      | succ k =>
        cases h : c.flushed apply with
        | error f => simp [Prog.failAt,Prog.exec,h]
        | ok c' =>
          simp only [Prog.failAt,Prog.exec,h]
          exact ih _ (hp _) (Nat.lt_of_succ_lt_succ hk) _
  | add w p ih | emit v p ih =>
    cases i with
    | zero => exact hp.elim
    | succ i =>
      cases k with
      | zero => rfl
      | succ k => exact ih hp (Nat.lt_of_succ_lt_succ hk) _
  | flush p ih | commit p ih =>
    cases i with
    | zero => exact hp.elim
    | succ i =>
      cases k with
      | zero => rfl
      | succ k =>
        cases h : c.flushed apply with
        | error f => simp [Prog.failAt,Prog.exec,h]
        | ok c' =>
          simp only [Prog.failAt,Prog.exec,h]
          exact ih hp (Nat.lt_of_succ_lt_succ hk) _

theorem flushed_sent {c c' : Conn D W V} (h : c.flushed apply = .ok c') : c'.sent = c.sent := by
  unfold Conn.flushed at h
  split at h
  · cases h; rfl
  · cases h

theorem Prog.Emits.exec {S : V → Prop} (hp : p.Emits S) (c : Conn D W V) :
    ∃ ms, (p.exec apply o c).2.sent = c.sent ++ ms ∧ ∀ m ∈ ms, S m := by
  induction p generalizing c with
  | pure a => exact ⟨[],by simp [Prog.exec]⟩
  | raise e => exact ⟨[],by simp [Prog.exec]⟩
  | ask k ih => exact ih _ (hp _) { c with taken := c.taken+1 }
  | add w k ih => exact ih hp { c with pend := c.pend ++ [w] }
  | query k ih =>
    cases h : c.flushed apply with
    | error f => exact ⟨[],by simp [Prog.exec,h]⟩
    | ok c' =>
      obtain ⟨ms,hms,hs⟩ := ih c'.view (hp _) c'
      exact ⟨ms,by simp only [Prog.exec,h,hms,flushed_sent h],hs⟩
  | flush k ih =>
    cases h : c.flushed apply with
    | error f => exact ⟨[],by simp [Prog.exec,h]⟩
    | ok c' =>
      obtain ⟨ms,hms,hs⟩ := ih hp c'
      exact ⟨ms,by simp only [Prog.exec,h,hms,flushed_sent h],hs⟩
  | commit k ih =>
    cases h : c.flushed apply with
    | error f => exact ⟨[],by simp [Prog.exec,h]⟩
    | ok c' =>
      obtain ⟨ms,hms,hs⟩ := ih hp { c' with db := c'.view }
      have hkept : c'.sent = c.sent := flushed_sent h
      refine ⟨ms,?_,hs⟩
      simp only [Prog.exec,h]
      exact hms.trans (congrArg (· ++ ms) hkept)
  | emit v k ih =>
    obtain ⟨ms,hms,hs⟩ := ih hp.2 { c with sent := c.sent ++ [v] }
    refine ⟨v :: ms,by simp [Prog.exec,hms],fun m hm => ?_⟩
    rcases List.mem_cons.mp hm with rfl | hm
    · exact hp.1
    · exact hs m hm

theorem exec_sent (p : Prog D W X E V α) (c : Conn D W V) :
    ∃ ms, (p.exec apply o c).2.sent = c.sent ++ ms := by
  have hany : p.Emits fun _ => True := by
    induction p with
    | pure a => trivial
    | raise e => trivial
    | ask k ih => exact ih
    | query k ih => exact ih
    | add w k ih => exact ih
    | flush k ih => exact ih
    | commit k ih => exact ih
    | emit v k ih => exact ⟨trivial,ih⟩
  obtain ⟨ms,hms,-⟩ := hany.exec c
  exact ⟨ms,hms⟩

end Runs

end Transact
