import TenantAuth.Transact.Interleaving
set_option autoImplicit false

namespace Transact
variable {D W F X E V α β : Type}

/-- The writes stop on both states with the same violation, or lead to two in `K`. -/
def FlushAlike (apply : W → D → Except F D) (ws : List W) (d d' : D) (K : D → D → Prop) : Prop :=
  (∃ f, flushAll apply ws d = .error f ∧ flushAll apply ws d' = .error f) ∨
    ∃ v v', flushAll apply ws d = .ok v ∧ flushAll apply ws d' = .ok v' ∧ K v v'

/-- Wherever the program stands, with the writes `ws` queued, on the views `v` and `v'`: both runs
go on with the same program, and end with a value only where `Q` holds. -/
def Prog.Alike (apply : W → D → Except F D) (A : X → Prop) (R : D → D → Prop)
    (Q : α → List W → D → D → Prop) : Prog D W X E V α → List W → D → D → Prop
  | .pure a, ws, v, v' => Q a ws v v'
  | .raise _, _, _, _ => True
  | .ask k, ws, v, v' => ∀ x, A x → (k x).Alike apply A R Q ws v v'
  | .query k, ws, v, v' =>
    FlushAlike apply ws v v' fun u u' => k u = k u' ∧ (k u).Alike apply A R Q [] u u'
  | .add w k, ws, v, v' => k.Alike apply A R Q (ws ++ [w]) v v'
  | .flush k, ws, v, v' => FlushAlike apply ws v v' fun u u' => k.Alike apply A R Q [] u u'
  | .commit k, ws, v, v' =>
    FlushAlike apply ws v v' fun u u' => R u u' ∧ k.Alike apply A R Q [] u u'
  | .emit _ k, ws, v, v' => k.Alike apply A R Q ws v v'

section Rules
variable {apply : W → D → Except F D} {A : X → Prop} {R : D → D → Prop}
  {Q : α → List W → D → D → Prop} {K K' : D → D → Prop} {ws : List W} {v v' : D}

theorem flushAlike_nil (h : K v v') : FlushAlike apply [] v v' K := .inr ⟨v,v',rfl,rfl,h⟩

theorem FlushAlike.mono (h : FlushAlike apply ws v v' K) (hK : ∀ {u u'}, K u u' → K' u u') :
    FlushAlike apply ws v v' K' := by
  rcases h with hstop | ⟨u,u',hu,hu',hk⟩
  · exact .inl hstop
  · exact .inr ⟨u,u',hu,hu',hK hk⟩

@[simp] theorem alike_pure {a : α} :
    (pure a : Prog D W X E V α).Alike apply A R Q ws v v' ↔ Q a ws v v' := Iff.rfl

@[simp] theorem alike_raise {e : E} :
    (raise e : Prog D W X E V α).Alike apply A R Q ws v v' ↔ True := Iff.rfl

@[simp] theorem alike_raiseIf {p : Prop} [Decidable p] {e : E}
    {Q : Unit → List W → D → D → Prop} :
    (raiseIf p e : Prog D W X E V Unit).Alike apply A R Q ws v v' ↔ (¬ p → Q () ws v v') := by
  unfold raiseIf
  by_cases h : p
  · simp only [h,not_true_eq_false,false_imp_iff]
    exact Iff.rfl
  · simp only [h,not_false_eq_true,true_imp_iff]
    exact Iff.rfl

@[simp] theorem alike_reading {f : X → α} :
    (reading f : Prog D W X E V α).Alike apply A R Q ws v v' ↔ ∀ x, A x → Q (f x) ws v v' :=
  Iff.rfl

@[simp] theorem alike_add {w : W} {Q : Unit → List W → D → D → Prop} :
    (add w : Prog D W X E V Unit).Alike apply A R Q ws v v' ↔ Q () (ws ++ [w]) v v' := Iff.rfl

@[simp] theorem alike_flush {Q : Unit → List W → D → D → Prop} :
    (flush : Prog D W X E V Unit).Alike apply A R Q ws v v' ↔
      FlushAlike apply ws v v' fun u u' => Q () [] u u' := Iff.rfl

@[simp] theorem alike_commit {Q : Unit → List W → D → D → Prop} :
    (commit : Prog D W X E V Unit).Alike apply A R Q ws v v' ↔
      FlushAlike apply ws v v' fun u u' => R u u' ∧ Q () [] u u' := Iff.rfl

theorem alike_select {f : D → α}
    (h : FlushAlike apply ws v v' fun u u' => f u = f u' ∧ Q (f u) [] u u') :
    (select f : Prog D W X E V α).Alike apply A R Q ws v v' :=
  FlushAlike.mono h fun hu => ⟨congrArg Prog.pure hu.1,hu.2⟩

theorem alike_bind {p : Prog D W X E V β} {f : β → Prog D W X E V α}
    (h : p.Alike apply A R (fun b ws v v' => (f b).Alike apply A R Q ws v v') ws v v') :
    (p >>= f).Alike apply A R Q ws v v' := by
  change (p.bind f).Alike apply A R Q ws v v'
  induction p generalizing ws v v' with
  | pure b => exact h
  | raise e => exact h
  | ask k ih => exact fun x hx => ih x (h x hx)
  | query k ih =>
    exact FlushAlike.mono h fun hu => ⟨congrArg (Prog.bind · f) hu.1,ih _ hu.2⟩
  | add w k ih => exact ih h
  | flush k ih => exact FlushAlike.mono h fun hu => ih hu
  | commit k ih => exact FlushAlike.mono h fun hu => ⟨hu.1,ih hu.2⟩
  | emit s k ih => exact ih h

end Rules

section Soundness
variable {apply : W → D → Except F D} {A : X → Prop} {R : D → D → Prop}
  {Q : α → List W → D → D → Prop} {ws : List W} {d d' v v' : D} {o o' : Nat → X} {n n' : Nat}

theorem Prog.Alike.exec {p : Prog D W X E V α} (h : p.Alike apply A R Q ws v v') (hr : R d d')
    (hA : ∀ k, A (o (n+k))) (ho : ∀ k, o' (n'+k) = o (n+k)) (s s' : List V) :
    (p.exec apply o ⟨d,v,ws,n,s⟩).1 = (p.exec apply o' ⟨d',v',ws,n',s'⟩).1 ∧
      R (p.exec apply o ⟨d,v,ws,n,s⟩).2.db (p.exec apply o' ⟨d',v',ws,n',s'⟩).2.db := by
  induction p generalizing ws d d' v v' n n' s s' with
  | pure a => exact ⟨rfl,hr⟩
  | raise e => exact ⟨rfl,hr⟩
  | ask k ih =>
    have he : o' n' = o n := ho 0
    have hA' : ∀ j, A (o (n+1+j)) := fun j => by
      rw [Nat.add_assoc]
      exact hA (1+j)
    have ho' : ∀ j, o' (n'+1+j) = o (n+1+j) := fun j => by
      rw [Nat.add_assoc,Nat.add_assoc]
      exact ho (1+j)
    simp only [Prog.exec,he]
    exact ih (o n) (h _ (hA 0)) hr hA' ho' s s'
  | query k ih =>
    rcases h with ⟨f,hv,hv'⟩ | ⟨u,u',hv,hv',hk⟩
    · simp only [Prog.exec,Conn.flushed,hv,hv']
      exact ⟨trivial,hr⟩
    · simp only [Prog.exec,Conn.flushed,hv,hv']
      rw [← hk.1]
      exact ih u hk.2 hr hA ho s s'
  | add w k ih => exact ih h hr hA ho s s'
  | flush k ih =>
    rcases h with ⟨f,hv,hv'⟩ | ⟨u,u',hv,hv',hk⟩
    · simp only [Prog.exec,Conn.flushed,hv,hv']
      exact ⟨trivial,hr⟩
    · simp only [Prog.exec,Conn.flushed,hv,hv']
      exact ih hk hr hA ho s s'
  | commit k ih =>
    rcases h with ⟨f,hv,hv'⟩ | ⟨u,u',hv,hv',hk⟩
    · simp only [Prog.exec,Conn.flushed,hv,hv']
      exact ⟨trivial,hr⟩
    · simp only [Prog.exec,Conn.flushed,hv,hv']
      exact ih hk.2 hk.1 hA ho s s'
  | emit e k ih => exact ih h hr hA ho _ _

end Soundness

end Transact
