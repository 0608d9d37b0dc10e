import TenantAuth.Transact.Locks
set_option autoImplicit false

/-! Flushes that send their statements one by one. Each statement waits by itself, so a session may
hold a part of what its flush locks while it waits for the rest. -/

namespace Transact
variable {D W F X E V α β ρ ν : Type}

section Statements

/-- Every write by itself, then the program. -/
def Prog.sending (p : Prog D W X E V α) : List W → Prog D W X E V α
  | [] => p
  | w :: ws => .add w (.flush (p.sending ws))

/-- The program, with the writes `ws` queued. Each flush sends them one by one, as `order` puts
them. -/
def Prog.stepwise (order : List W → List W) : Prog D W X E V α → List W → Prog D W X E V α
  | .pure a, _ => .pure a
  | .raise e, _ => .raise e
  | .ask k, ws => .ask fun x => (k x).stepwise order ws
  | .query k, ws => Prog.sending (.query fun d => (k d).stepwise order []) (order ws)
  | .add w k, ws => k.stepwise order (ws ++ [w])
  | .flush k, ws => (k.stepwise order []).sending (order ws)
  | .commit k, ws => Prog.sending (.commit (k.stepwise order [])) (order ws)
  | .emit v k, ws => .emit v (k.stepwise order ws)

end Statements

section Programs
variable {apply : W → D → Except F D} {waits : W → W → Bool} (L : Locking apply waits X ρ ν)
  (order : List W → List W)

/-- The locks of `w` rank above those of `v`, or are under a name of the session's own. -/
def Locking.Behind (mine : ν → Prop) (v w : W) : Prop :=
  ∀ r ∈ L.locks w, L.Under mine r ∨ ∀ q ∈ L.locks v, L.rank q < L.rank r

/-- Sent one by one, each ranks above those before it, and all do what they do at once. -/
structure Locking.Spreads (mine : ν → Prop) (ws : List W) : Prop where
  behind : (order ws).Pairwise (L.Behind mine)
  same : ∀ d d', flushAll apply (order ws) d = .ok d' ↔ flushAll apply ws d = .ok d'

/-- What the program queues is allowed, and can be sent one by one; names are good until the next
commit. At its end `Q` holds of the value, the names, and what has been sent and what is queued. -/
def Prog.Staged (Q : α → (ν → Prop) → List W → List W → Prop) :
    Prog D W X E V α → (ν → Prop) → List W → List W → Prop
  | .pure a, mine, own, pend => Q a mine own pend
  | .raise _, _, _, _ => True
  | .ask k, mine, own, pend => ∀ x, (k x).Staged Q (fun n => mine n ∨ n = L.draw x) own pend
  | .query k, mine, own, pend => L.Spreads order mine pend ∧
    ∀ d, (k d).Staged Q mine (own ++ order pend) []
  | .add w k, mine, own, pend => L.Allows mine own w ∧ k.Staged Q mine own (pend ++ [w])
  | .flush k, mine, own, pend => L.Spreads order mine pend ∧ k.Staged Q mine (own ++ order pend) []
  | .commit k, mine, _, pend => L.Spreads order mine pend ∧ k.Staged Q (fun _ => False) [] []
  | .emit _ k, mine, own, pend => k.Staged Q mine own pend

variable {L order} {Q : α → (ν → Prop) → List W → List W → Prop} {mine : ν → Prop}
  {own pend ws : List W}

theorem spreads_self (h : order ws = ws) (hb : ws.Pairwise (L.Behind mine)) :
    L.Spreads order mine ws :=
  ⟨by rwa [h],fun d d' => by rw [h]⟩

theorem staged_bind {p : Prog D W X E V β} {f : β → Prog D W X E V α} :
    (p >>= f).Staged L order Q mine own pend ↔ p.Staged L order
      (fun b mine own pend => (f b).Staged L order Q mine own pend) mine own pend := by
  change (p.bind f).Staged L order Q mine own pend ↔ _
  induction p generalizing mine own pend with
  | pure _ | raise _ => exact Iff.rfl
  | ask k ih => exact forall_congr' fun x => ih x
  | query k ih => exact and_congr_right fun _ => forall_congr' fun d => ih d
  | add w k ih | flush k ih | commit k ih => exact and_congr_right fun _ => ih
  | emit _ k ih => exact ih

theorem Prog.Staged.mono {Q' : α → (ν → Prop) → List W → List W → Prop} {p : Prog D W X E V α}
    (hQ : ∀ a mine own pend, Q a mine own pend → Q' a mine own pend)
    (h : p.Staged L order Q mine own pend) : p.Staged L order Q' mine own pend := by
  induction p generalizing mine own pend with
  | pure a => exact hQ a _ _ _ h
  | raise _ => trivial
  | ask k ih => exact fun x => ih x (h x)
  | query k ih => exact ⟨h.1,fun d => ih d (h.2 d)⟩
  | add w k ih | flush k ih | commit k ih => exact ⟨h.1,ih h.2⟩
  | emit _ k ih => exact ih h

theorem Prog.Quiet.staged {p : Prog D W X E V α} (hnil : order [] = []) (hq : p.Quiet)
    (hw : p.Writes fun _ => False)
    (hQ : ∀ a mine', (∀ n, mine n → mine' n) → Q a mine' own []) :
    p.Staged L order Q mine own [] := by
  have hspreads : ∀ mine, L.Spreads order mine [] := fun _ => spreads_self hnil .nil
  induction p generalizing mine with
  | pure a => exact hQ a mine fun _ h => h
  | raise _ => trivial
  | ask k ih =>
    refine fun x => ih x (hq x) (hw x) fun a mine' hm => ?_
    exact hQ a mine' fun n hn => hm n (.inl hn)
  | query k ih =>
    refine ⟨hspreads _,fun d => ?_⟩
    rw [hnil,List.append_nil]
    exact ih d (hq d) (hw d) hQ
  | add w k ih => exact hw.1.elim
  | flush k ih =>
    refine ⟨hspreads _,?_⟩
    rw [hnil,List.append_nil]
    exact ih hq hw hQ
  | commit k ih => exact hq.elim
  | emit _ k ih => exact ih hq hw hQ

theorem Prog.Orderly.sending {p : Prog D W X E V α} (hws : ∀ w ∈ ws, L.Allows mine own w)
    (hb : ws.Pairwise (L.Behind mine)) (h : p.Orderly L mine (own ++ ws) []) :
    (p.sending ws).Orderly L mine own [] := by
  induction ws generalizing own with
  | nil =>
    rw [List.append_nil] at h
    exact h
  | cons w ws ih =>
    obtain ⟨hw,hrest⟩ := List.forall_mem_cons.mp hws
    obtain ⟨hfirst,hb⟩ := List.pairwise_cons.mp hb
    refine ⟨hw,ih (fun v hv r hr => ?_) hb (by simpa using h)⟩
    rcases hrest v hv r hr with hmine | ⟨hn,habove⟩
    · exact .inl hmine
    rcases hfirst v hv r hr with hmine | hbehind
    · exact .inl hmine
    · refine .inr ⟨hn,fun u hu => ?_⟩
      rcases List.mem_append.mp hu with hu | hu
      · exact habove u hu
      · exact List.mem_singleton.mp hu ▸ hbehind

theorem Prog.Staged.orderly {p : Prog D W X E V α} (hmem : ∀ ws, ∀ w ∈ order ws, w ∈ ws)
    (h : p.Staged L order Q mine own pend) (hpend : ∀ w ∈ pend, L.Allows mine own w) :
    (p.stepwise order pend).Orderly L mine own [] := by
  have hsent : ∀ {mine own pend}, (∀ w ∈ pend, L.Allows mine own w) →
      ∀ w ∈ order pend, L.Allows mine own w := fun h w hw => h w (hmem _ w hw)
  induction p generalizing mine own pend with
  | pure _ | raise _ => trivial
  | ask k ih =>
    exact fun x => ih x (h x) fun w hw => (hpend w hw).mono fun _ => .inl
  | query k ih =>
    refine .sending (hsent hpend) h.1.behind fun d => ?_
    rw [List.append_nil]
    exact ih d (h.2 d) (List.forall_mem_nil _)
  | add w k ih =>
    refine ih h.2 fun v hv => ?_
    rcases List.mem_append.mp hv with hv | hv
    · exact hpend v hv
    · exact List.mem_singleton.mp hv ▸ h.1
  | flush k ih => exact .sending (hsent hpend) h.1.behind (ih h.2 (List.forall_mem_nil _))
  | commit k ih => exact .sending (hsent hpend) h.1.behind (ih h.2 (List.forall_mem_nil _))
  | emit _ k ih => exact ih h hpend

end Programs

section Serial
variable {apply : W → D → Except F D} {waits : W → W → Bool} {L : Locking apply waits X ρ ν}
  {order : List W → List W} {o : Nat → X} {Q : α → (ν → Prop) → List W → List W → Prop}
  {mine : ν → Prop} {own pend ws : List W} {p : Prog D W X E V α} {d v : D} {n : Nat} {s : List V}

/-- The same end, but perhaps with another violation, and the same left behind. -/
def Alike (x y : Outcome E F α × Conn D W V) : Prop :=
  (x.1 = y.1 ∨ ∃ f f', x.1 = .fault f ∧ y.1 = .fault f') ∧
    x.2.db = y.2.db ∧ x.2.taken = y.2.taken ∧ x.2.sent = y.2.sent

theorem exec_sending (apply : W → D → Except F D) (o : Nat → X) (p : Prog D W X E V α) (ws : List W)
    (d v : D) (n : Nat) (s : List V) :
    match flushAll apply ws v with
    | .ok v' => (p.sending ws).exec apply o ⟨d,v,[],n,s⟩ = p.exec apply o ⟨d,v',[],n,s⟩
    | .error f => ∃ v' pend, (p.sending ws).exec apply o ⟨d,v,[],n,s⟩ =
      (.fault f,⟨d,v',pend,n,s⟩) := by
  induction ws generalizing v with
  | nil => rfl
  | cons w ws ih =>
    simp only [Prog.sending,Prog.exec,Conn.flushed,List.nil_append,flushAll]
    cases apply w v with
    | error f => exact ⟨v,[w],rfl⟩
    | ok v1 => exact ih v1

theorem alike_sending {q : Prog D W X E V α} {c : Conn D W V}
    (hs : ∀ v', flushAll apply (order pend) v = .ok v' ↔ flushAll apply pend v = .ok v')
    (hfault : ∀ f, flushAll apply pend v = .error f → q.exec apply o c = (.fault f,⟨d,v,pend,n,s⟩))
    (hok : ∀ v', flushAll apply pend v = .ok v' →
      Alike (p.exec apply o ⟨d,v',[],n,s⟩) (q.exec apply o c)) :
    Alike ((p.sending (order pend)).exec apply o ⟨d,v,[],n,s⟩) (q.exec apply o c) := by
  have hsending := exec_sending apply o p (order pend) d v n s
  cases ho : flushAll apply (order pend) v with
  | ok v' =>
    rw [ho] at hsending
    simp only [hsending]
    exact hok v' ((hs v').mp ho)
  | error f =>
    rw [ho] at hsending
    obtain ⟨v',pend',he⟩ := hsending
    cases hp : flushAll apply pend v with
    | ok v1 => cases ho.symm.trans ((hs v1).mpr hp)
    | error f' =>
      rw [he,hfault f' hp]
      exact ⟨.inr ⟨f,f',rfl,rfl⟩,rfl,rfl,rfl⟩

theorem exec_stepwise (h : p.Staged L order Q mine own pend) :
    Alike ((p.stepwise order pend).exec apply o ⟨d,v,[],n,s⟩) (p.exec apply o ⟨d,v,pend,n,s⟩) := by
  induction p generalizing mine own pend d v n s with
  | pure _ | raise _ => exact ⟨.inl rfl,rfl,rfl,rfl⟩
  | ask k ih => exact ih _ (h _)
  | query k ih =>
    refine alike_sending (h.1.same v) (fun f hf => ?_) fun v' hf => ?_
    · simp [Prog.exec,Conn.flushed,hf]
    · simp only [Prog.exec,Conn.flushed,hf,flushAll]
      exact ih v' (h.2 v')
  | add w k ih => exact ih h.2
  | flush k ih =>
    refine alike_sending (h.1.same v) (fun f hf => ?_) fun v' hf => ?_
    · simp [Prog.exec,Conn.flushed,hf]
    · simp only [Prog.exec,Conn.flushed,hf]
      exact ih h.2
  | commit k ih =>
    refine alike_sending (h.1.same v) (fun f hf => ?_) fun v' hf => ?_
    · simp [Prog.exec,Conn.flushed,hf]
    · simp only [Prog.exec,Conn.flushed,hf,flushAll]
      exact ih h.2
  | emit v k ih => exact ih h

theorem serve_stepwise {w : World D V} (h : p.Staged L order Q mine own []) :
    ((serve apply o (p.stepwise order []) w).1 = (serve apply o p w).1 ∨
      ∃ f f', (serve apply o (p.stepwise order []) w).1 = .fault f ∧
        (serve apply o p w).1 = .fault f') ∧
    (serve apply o (p.stepwise order []) w).2 = (serve apply o p w).2 := by
  obtain ⟨hr,hdb,htaken,hsent⟩ :=
    exec_stepwise (o := o) (d := w.db) (v := w.db) (n := w.taken) (s := w.sent) h
  exact ⟨hr,by simp only [serve,hdb,htaken,hsent]⟩

end Serial

end Transact
