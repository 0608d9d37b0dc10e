import TenantAuth.Transact.Interleaving
set_option autoImplicit false

namespace Transact
variable {D W F X E V α β ι : Type}

section Assertions
variable (apply : W → D → Except F D) (R : X → Prop) (J : D → Prop)

/-- Where its readings are in `R` and its queries see what its queued writes make of states in `J`,
the program ends with a value only where `Q` holds, and until then it commits and sends nothing. -/
def Prog.Passes (Q : α → List W → Prop) : Prog D W X E V α → List W → Prop
  | .pure a, ws => Q a ws
  | .raise _, _ => True
  | .ask k, ws => ∀ x, R x → (k x).Passes Q ws
  | .query k, ws => ∀ d v, J d → flushAll apply ws d = .ok v → (k v).Passes Q ws
  | .add w k, ws => k.Passes Q (ws ++ [w])
  | .flush k, ws => k.Passes Q ws
  | .commit _, _ | .emit _ _, _ => False

def Prog.Barred (p : Prog D W X E V α) (ws : List W) : Prop := p.Passes apply R J (fun _ _ => False) ws

def Session.Barred : Session D W F X E V α → Prop
  | .running p own pend => p.Barred apply R J (own ++ pend)
  | .closed r => r.isOk = false

variable {apply R J} {Q : α → List W → Prop} {ws : List W}

@[simp] theorem passes_pure {a : α} :
    (pure a : Prog D W X E V α).Passes apply R J Q ws ↔ Q a ws := Iff.rfl

@[simp] theorem passes_raise {e : E} :
    (raise e : Prog D W X E V α).Passes apply R J Q ws ↔ True := Iff.rfl

@[simp] theorem passes_raiseIf {p : Prop} [Decidable p] {e : E} {Q : Unit → List W → Prop} :
    (raiseIf p e : Prog D W X E V Unit).Passes apply R J Q ws ↔ (¬ p → Q () ws) := by
  unfold raiseIf
  by_cases hp : p <;> simp [hp,Prog.Passes]

@[simp] theorem passes_reading {f : X → α} :
    (reading f : Prog D W X E V α).Passes apply R J Q ws ↔ ∀ x, R x → Q (f x) ws := Iff.rfl

@[simp] theorem passes_select {f : D → α} :
    (select f : Prog D W X E V α).Passes apply R J Q ws ↔
      ∀ d v, J d → flushAll apply ws d = .ok v → Q (f v) ws := Iff.rfl

@[simp] theorem passes_add {w : W} {Q : Unit → List W → Prop} :
    (add w : Prog D W X E V Unit).Passes apply R J Q ws ↔ Q () (ws ++ [w]) := Iff.rfl

@[simp] theorem passes_flush {Q : Unit → List W → Prop} :
    (flush : Prog D W X E V Unit).Passes apply R J Q ws ↔ Q () ws := Iff.rfl

@[simp] theorem passes_bind {p : Prog D W X E V β} {f : β → Prog D W X E V α} :
    (p >>= f).Passes apply R J Q ws ↔
      p.Passes apply R J (fun b ws => (f b).Passes apply R J Q ws) ws := by
  change (p.bind f).Passes apply R J Q ws ↔ _
  induction p generalizing ws with
  | pure _ | raise _ | commit _ _ | emit _ _ _ => exact Iff.rfl
  | ask k ih => exact forall_congr' fun x => forall_congr' fun _ => ih x
  | query k ih =>
    refine forall_congr' fun d => forall_congr' fun v => ?_
    exact forall_congr' fun _ => forall_congr' fun _ => ih v
  | add w k ih | flush k ih => exact ih

theorem Prog.Passes.mono {Q' : α → List W → Prop} {p : Prog D W X E V α}
    (hQ : ∀ a ws, Q a ws → Q' a ws) (h : p.Passes apply R J Q ws) : p.Passes apply R J Q' ws := by
  induction p generalizing ws with
  | pure a => exact hQ a ws h
  | raise _ => trivial
  | commit _ _ | emit _ _ _ => exact h
  | ask k ih => exact fun x hx => ih x (h x hx)
  | query k ih => exact fun d v hd hf => ih v (h d v hd hf)
  | add w k ih | flush k ih => exact ih h

theorem Prog.Barred.bind {p : Prog D W X E V β} (h : p.Barred apply R J ws)
    (f : β → Prog D W X E V α) : (p >>= f).Barred apply R J ws :=
  passes_bind.mpr (h.mono fun _ _ hf => hf.elim)

theorem Prog.Passes.barred {p : Prog D W X E V β} {f : β → Prog D W X E V α}
    {Q : β → List W → Prop} (h : p.Passes apply R J Q ws)
    (hf : ∀ b ws, Q b ws → (f b).Barred apply R J ws) : (p >>= f).Barred apply R J ws :=
  passes_bind.mpr (h.mono hf)

end Assertions

section Runs
variable {apply : W → D → Except F D} {waits : W → W → Bool} {o : Nat → X}
  {prog : ι → Prog D W X E V α} {R : X → Prop} {J : D → Prop} {I : D → Prop} {w w' : World D V}
  {C : System D W F X E V α ι → Move ι → Prop} {s s' : System D W F X E V α ι}
  {x x' : Session D W F X E V α} {i : ι} {k : Nat}

theorem Session.Steps.taken_le (hn : x.Steps apply o w x' w') : w.taken ≤ w'.taken := by
  cases hn with
  | asked => exact Nat.le_succ _
  | _ => exact Nat.le_refl _

theorem System.move_taken_le {m : Move ι} (hm : s.move apply waits o prog m = some s') :
    s.world.taken ≤ s'.world.taken := by
  cases m with
  | arrive i =>
    cases hm
    exact Nat.le_refl _
  | run k =>
    obtain ⟨_,_,_,-,hstep,-⟩ := System.run_step hm
    exact hstep.taken_le

/-- A step that reads in `R` and sees a state in `J` leaves the session barred, and the world to the
others. -/
theorem Session.Steps.barred (hn : x.Steps apply o w x' w') (hR : R (o w.taken)) (hJ : J w.db)
    (hx : x.Barred apply R J) : x'.Barred apply R J ∧ w'.db = w.db ∧ w'.sent = w.sent := by
  cases hn with
  | ended => exact hx.elim
  | raised | failed _ => exact ⟨rfl,rfl,rfl⟩
  | asked => exact ⟨hx _ hR,rfl,rfl⟩
  | queried hf =>
    refine ⟨?_,rfl,rfl⟩
    simp only [Session.Barred,List.append_nil]
    exact hx _ _ hJ hf
  | added =>
    refine ⟨?_,rfl,rfl⟩
    simp only [Session.Barred,← List.append_assoc]
    exact hx
  | flushed =>
    refine ⟨?_,rfl,rfl⟩
    simp only [Session.Barred,List.append_nil]
    exact hx
  | committed _ | emitted => exact hx.elim

theorem Session.Barred.succeeded (h : x.Barred apply R J) : x.succeeded = false := by
  cases x with
  | running _ _ _ => rfl
  | closed r => exact h

/-- A session whose own steps see only states in `J` stays barred. -/
theorem Reach.barred (hk : s.sessions[k]? = some (i,x)) (hx : x.Barred apply R J)
    (hR : ∀ n, s.world.taken ≤ n → R (o n))
    (hJ : ∀ {s : System D W F X E V α ι}, C s (.run k) → I s.world.db → J s.world.db)
    (h : Reach apply waits o prog C I s s') :
    s.world.taken ≤ s'.world.taken ∧
      ∃ x', s'.sessions[k]? = some (i,x') ∧ x'.Barred apply R J := by
  induction h with
  | start _ => exact ⟨Nat.le_refl _,x,hk,hx⟩
  | move h hc hm _ ih =>
    obtain ⟨htaken,y,hy,hyb⟩ := ih
    refine ⟨Nat.le_trans htaken (System.move_taken_le hm),?_⟩
    obtain ⟨y',hy',hstep⟩ := System.move_session hm hy
    rcases hstep with rfl | ⟨rfl,hstep⟩
    · exact ⟨_,hy',hyb⟩
    · exact ⟨y',hy',(hstep.barred (hR _ htaken) (hJ hc h.inv) hyb).1⟩

theorem Prog.writes_any (p : Prog D W X E V α) : p.Writes fun _ => True := by
  induction p with
  | pure _ | raise _ => trivial
  | ask _ ih | query _ ih => exact fun x => ih x
  | add _ _ ih => exact ⟨trivial,ih⟩
  | flush _ ih | commit _ ih | emit _ _ ih => exact ih

theorem Reach.kept {K : D → Prop} (hk : Keeps apply (fun _ => True) fun d d' => K d → K d')
    (hK : K s.world.db) (h : Reach apply waits o prog C I s s') :
    Reach apply waits o prog C K s s' := by
  have hlabelled : s.Labelled fun _ _ => True := by
    rintro ⟨j,y⟩ -
    cases y with
    | running p own pend => exact ⟨p.writes_any,fun _ _ => trivial⟩
    | closed r => trivial
  refine h.within ⟨hk.refl,hk.trans,fun _ ha => hk.write trivial ha⟩ hlabelled ?_ hK
  exact fun i => (prog i).writes_any

theorem System.move_barred (hk : s.sessions[k]? = some (i,x)) (hx : x.Barred apply R J)
    (hR : R (o s.world.taken)) (hJ : J s.world.db) (hm : s.move apply waits o prog (.run k) = some s') :
    s'.world.db = s.world.db ∧ s'.world.sent = s.world.sent := by
  obtain ⟨j,y,y',hy,hstep,-⟩ := System.run_step hm
  obtain ⟨rfl,rfl⟩ := Prod.mk.inj (Option.some.inj (hk.symm.trans hy))
  exact (hstep.barred hR hJ hx).2

end Runs

end Transact
