import TenantAuth.Transact.Rules
set_option autoImplicit false

namespace Transact

section
variable {D W F X E V α β : Type} {B : E → Prop}

/-- A value, or an exception in `B`. -/
inductive Outcome.Within (B : E → Prop) : Outcome E F α → Prop
  | ok (a : α) : Within B (.ok a)
  | raised {e : E} (h : B e) : Within B (.raised e)

@[simp] theorem within_ok (a : α) : (Outcome.ok a : Outcome E F α).Within B := .ok a
@[simp] theorem within_raised (e : E) :
    (Outcome.raised e : Outcome E F α).Within B ↔ B e :=
  ⟨fun h => by cases h; assumption,.raised⟩
@[simp] theorem within_fault (f : F) : ¬ (Outcome.fault f : Outcome E F α).Within B :=
  fun h => by cases h

theorem Outcome.Within.of_isOk {r : Outcome E F α} (h : r.isOk = true) : r.Within B := by
  cases r with
  | ok a => exact .ok a
  | raised e => cases h
  | fault f => cases h

variable {apply : W → D → Except F D} {o : Nat → X} {c : Conn D W V}

theorem within_bind {p : Prog D W X E V α} {f : α → Prog D W X E V β} :
    ((p >>= f).exec apply o c).1.Within B ↔ (p.exec apply o c).1.Within B ∧
      ∀ a c', p.exec apply o c = (.ok a,c') → ((f a).exec apply o c').1.Within B := by
  rw [exec_bind]
  cases h : p.exec apply o c with
  | mk r c' =>
    cases r with
    | ok a => simp
    | raised e => simp
    | fault x => simp

theorem within_bind_of {p : Prog D W X E V α} {f : α → Prog D W X E V β}
    (h : ∀ a c', p.exec apply o c = (.ok a,c') → ((f a).exec apply o c').1.Within B) :
    ((p >>= f).exec apply o c).1.Within B ↔ (p.exec apply o c).1.Within B := by
  rw [within_bind]
  exact ⟨And.left,fun hp => ⟨hp,h⟩⟩

theorem within_bind_pure {p : Prog D W X E V α} {f : α → β} :
    ((p >>= fun a => pure (f a)).exec apply o c).1.Within B ↔ (p.exec apply o c).1.Within B :=
  within_bind_of fun _ _ _ => .ok _

theorem within_commit_bind {d v : D} {ws : List W} {n : Nat} {s : List V}
    {g : Unit → Prog D W X E V β} :
    ((commit >>= g).exec apply o ⟨d,v,ws,n,s⟩).1.Within B ↔
      ∃ v', flushAll apply ws v = .ok v' ∧ ((g ()).exec apply o ⟨v',v',[],n,s⟩).1.Within B := by
  rw [exec_commit_bind]
  cases flushAll apply ws v <;> simp

theorem within_commit {d v : D} {ws : List W} {n : Nat} {s : List V} :
    ((commit : Prog D W X E V Unit).exec apply o ⟨d,v,ws,n,s⟩).1.Within B ↔
      ∃ v', flushAll apply ws v = .ok v' := by
  rw [exec_commit]
  unfold Conn.flushed
  cases flushAll apply ws v <;> simp

end

end Transact
