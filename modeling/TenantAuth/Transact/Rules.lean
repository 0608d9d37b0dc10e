import TenantAuth.Transact.Prog
set_option autoImplicit false

namespace Transact

section Equations
variable {D W F X E V α β : Type} (apply : W → D → Except F D) (o : Nat → X)

@[simp] theorem exec_pure (a : α) (c : Conn D W V) :
    (pure a : Prog D W X E V α).exec apply o c = (.ok a,c) := rfl

@[simp] theorem exec_raise (e : E) (c : Conn D W V) :
    (raise e : Prog D W X E V α).exec apply o c = (.raised e,c) := rfl

@[simp] theorem exec_raiseIf (p : Prop) [Decidable p] (e : E) (c : Conn D W V) :
    (raiseIf p e : Prog D W X E V Unit).exec apply o c =
      if p then (.raised e,c) else (.ok (),c) := by
  unfold raiseIf; split <;> rfl

@[simp] theorem exec_reading (f : X → β) (c : Conn D W V) :
    (reading f : Prog D W X E V β).exec apply o c =
      (.ok (f (o c.taken)),{ c with taken := c.taken+1 }) := rfl

@[simp] theorem exec_select (f : D → β) (c : Conn D W V) :
    (select f : Prog D W X E V β).exec apply o c =
      match c.flushed apply with
      | .ok c' => (.ok (f c'.view),c')
      | .error x => (.fault x,c) := by
  cases h : c.flushed apply <;> simp [select,Prog.exec,h]

@[simp] theorem exec_add (w : W) (c : Conn D W V) :
    (add w : Prog D W X E V Unit).exec apply o c =
      (.ok (),{ c with pend := c.pend ++ [w] }) := rfl

@[simp] theorem exec_flush (c : Conn D W V) :
    (flush : Prog D W X E V Unit).exec apply o c =
      match c.flushed apply with
      | .ok c' => (.ok (),c')
      | .error x => (.fault x,c) := by
  cases h : c.flushed apply <;> simp [flush,Prog.exec,h]

@[simp] theorem exec_commit (c : Conn D W V) :
    (commit : Prog D W X E V Unit).exec apply o c =
      match c.flushed apply with
      | .ok c' => (.ok (),{ c' with db := c'.view })
      | .error x => (.fault x,c) := by
  cases h : c.flushed apply <;> simp [commit,Prog.exec,h]

@[simp] theorem exec_emit (v : V) (c : Conn D W V) :
    (emit v : Prog D W X E V Unit).exec apply o c =
      (.ok (),{ c with sent := c.sent ++ [v] }) := rfl

section Outcomes

@[simp] theorem isOk_ok (a : α) : (Outcome.ok a : Outcome E F α).isOk = true := rfl
@[simp] theorem isOk_raised (e : E) : (Outcome.raised e : Outcome E F α).isOk = false := rfl
@[simp] theorem isOk_fault (f : F) : (Outcome.fault f : Outcome E F α).isOk = false := rfl

end Outcomes

theorem exec_bind_pure_ok {p : Prog D W X E V α} {f : α → β} {c : Conn D W V} {b : β} :
    ((p >>= fun a => pure (f a)).exec apply o c).1 = .ok b ↔
      ∃ a, (p.exec apply o c).1 = .ok a ∧ f a = b := by
  rw [exec_bind]
  cases h : p.exec apply o c with
  | mk r c' => cases r <;> simp

theorem exec_bind_pure {p : Prog D W X E V α} {f : α → β} {c : Conn D W V} :
    ((p >>= fun a => pure (f a)).exec apply o c).2 = (p.exec apply o c).2 ∧
      ((p >>= fun a => pure (f a)).exec apply o c).1.isOk = (p.exec apply o c).1.isOk := by
  rw [exec_bind]
  cases h : p.exec apply o c with
  | mk r c' => cases r <;> exact ⟨rfl,rfl⟩

theorem exec_bind_failed {p : Prog D W X E V α} (f : α → Prog D W X E V β) {c : Conn D W V}
    (h : (p.exec apply o c).1.isOk = false) :
    ((p >>= f).exec apply o c).1.isOk = false ∧
      ((p >>= f).exec apply o c).2 = (p.exec apply o c).2 := by
  rw [exec_bind]
  cases hr : p.exec apply o c with
  | mk r c' =>
    cases r with
    | ok a => simp [hr] at h
    | raised e => exact ⟨rfl,rfl⟩
    | fault x => exact ⟨rfl,rfl⟩

variable (d v : D) (ws : List W) (n : Nat) (s : List V)

@[simp] theorem flushAll_nil : flushAll apply [] v = .ok v := rfl

@[simp] theorem exec_pure_bind (a : α) (g : α → Prog D W X E V β) (c : Conn D W V) :
    (pure a >>= g).exec apply o c = (g a).exec apply o c := rfl

@[simp] theorem exec_raise_bind (e : E) (g : α → Prog D W X E V β) (c : Conn D W V) :
    (raise e >>= g).exec apply o c = (.raised e,c) := rfl

@[simp] theorem exec_raiseIf_bind (p : Prop) [Decidable p] (e : E)
    (g : Unit → Prog D W X E V β) (c : Conn D W V) :
    (raiseIf p e >>= g).exec apply o c =
      if p then (.raised e,c) else (g ()).exec apply o c := by
  unfold raiseIf; split <;> rfl

@[simp] theorem exec_reading_bind (f : X → α) (g : α → Prog D W X E V β) :
    (reading f >>= g).exec apply o ⟨d,v,ws,n,s⟩ =
      (g (f (o n))).exec apply o ⟨d,v,ws,n+1,s⟩ := rfl

@[simp] theorem exec_add_bind (w : W) (g : Unit → Prog D W X E V β) :
    (add w >>= g).exec apply o ⟨d,v,ws,n,s⟩ =
      (g ()).exec apply o ⟨d,v,ws ++ [w],n,s⟩ := rfl

@[simp] theorem exec_select_bind (f : D → α) (g : α → Prog D W X E V β) :
    (select f >>= g).exec apply o ⟨d,v,ws,n,s⟩ =
      match flushAll apply ws v with
      | .ok v' => (g (f v')).exec apply o ⟨d,v',[],n,s⟩
      | .error x => (.fault x,⟨d,v,ws,n,s⟩) := by
  rw [exec_bind]
  cases h : flushAll apply ws v <;> simp [Conn.flushed,h]

@[simp] theorem exec_flush_bind (g : Unit → Prog D W X E V β) :
    (flush >>= g).exec apply o ⟨d,v,ws,n,s⟩ =
      match flushAll apply ws v with
      | .ok v' => (g ()).exec apply o ⟨d,v',[],n,s⟩
      | .error x => (.fault x,⟨d,v,ws,n,s⟩) := by
  rw [exec_bind]
  cases h : flushAll apply ws v <;> simp [Conn.flushed,h]

@[simp] theorem exec_commit_bind (g : Unit → Prog D W X E V β) :
    (commit >>= g).exec apply o ⟨d,v,ws,n,s⟩ =
      match flushAll apply ws v with
      | .ok v' => (g ()).exec apply o ⟨v',v',[],n,s⟩
      | .error x => (.fault x,⟨d,v,ws,n,s⟩) := by
  rw [exec_bind]
  cases h : flushAll apply ws v <;> simp [Conn.flushed,h]

end Equations

section Footprint
variable {D W F X E V α β : Type} (S : W → Prop)

/-- Every write the program queues, on every path, is in `S`. -/
def Prog.Writes : Prog D W X E V α → Prop
  | .pure _ | .raise _ => True
  | .ask k => ∀ x, (k x).Writes
  | .query k => ∀ d, (k d).Writes
  | .add w k => S w ∧ k.Writes
  | .flush k | .commit k | .emit _ k => k.Writes

@[simp] theorem writes_pure (a : α) : (pure a : Prog D W X E V α).Writes S := trivial
@[simp] theorem writes_raise (e : E) : (raise e : Prog D W X E V α).Writes S := trivial
@[simp] theorem writes_reading (f : X → β) : (reading f : Prog D W X E V β).Writes S :=
  fun _ => trivial
@[simp] theorem writes_select (f : D → β) : (select f : Prog D W X E V β).Writes S :=
  fun _ => trivial
@[simp] theorem writes_flush : (flush : Prog D W X E V Unit).Writes S := trivial
@[simp] theorem writes_commit : (commit : Prog D W X E V Unit).Writes S := trivial
@[simp] theorem writes_emit (v : V) : (emit v : Prog D W X E V Unit).Writes S := trivial
@[simp] theorem writes_add (w : W) : (add w : Prog D W X E V Unit).Writes S ↔ S w :=
  ⟨And.left,fun h => ⟨h,trivial⟩⟩

@[simp] theorem writes_raiseIf (p : Prop) [Decidable p] (e : E) :
    (raiseIf p e : Prog D W X E V Unit).Writes S := by
  unfold raiseIf; split <;> trivial

theorem Prog.Writes.bind {S : W → Prop} {p : Prog D W X E V α} {f : α → Prog D W X E V β}
    (hp : p.Writes S) (hf : ∀ a, (f a).Writes S) : (p >>= f).Writes S := by
  change (p.bind f).Writes S
  induction p with
  | pure a => exact hf a
  | raise e => trivial
  | ask k ih => exact fun x => ih x (hp x)
  | query k ih => exact fun d => ih d (hp d)
  | add w k ih => exact ⟨hp.1,ih hp.2⟩
  | flush k ih => exact ih hp
  | commit k ih => exact ih hp
  | emit v k ih => exact ih hp

/-- Every write that it queues is in `S` while the states that its queries in `A` see are in
`J`. -/
def Prog.WritesOn (A : Prog D W X E V α → Prop) (J : D → Prop) (S : W → Prop) :
    Prog D W X E V α → Prop
  | .pure _ | .raise _ => True
  | .ask k => ∀ x, (k x).WritesOn A J S
  | .query k => ∀ d, (A (.query k) → J d) → (k d).WritesOn A J S
  | .add w k => S w ∧ k.WritesOn A J S
  | .flush k | .commit k | .emit _ k => k.WritesOn A J S

theorem Prog.Writes.on {A : Prog D W X E V α → Prop} {J : D → Prop} {S : W → Prop}
    {p : Prog D W X E V α} (h : p.Writes S) : p.WritesOn A J S := by
  induction p with
  | pure a => trivial
  | raise e => trivial
  | ask k ih => exact fun x => ih x (h x)
  | query k ih => exact fun d _ => ih d (h d)
  | add w k ih => exact ⟨h.1,ih h.2⟩
  | flush k ih => exact ih h
  | commit k ih => exact ih h
  | emit v k ih => exact ih h

theorem Prog.Writes.bindOn {A : Prog D W X E V β → Prop} {J : D → Prop} {S : W → Prop}
    {p : Prog D W X E V α} {f : α → Prog D W X E V β} (hp : p.Writes S)
    (hf : ∀ a, (f a).WritesOn A J S) : (p >>= f).WritesOn A J S := by
  change (p.bind f).WritesOn A J S
  induction p with
  | pure a => exact hf a
  | raise e => trivial
  | ask k ih => exact fun x => ih x (hp x)
  | query k ih => exact fun d _ => ih d (hp d)
  | add w k ih => exact ⟨hp.1,ih hp.2⟩
  | flush k ih => exact ih hp
  | commit k ih => exact ih hp
  | emit v k ih => exact ih hp

end Footprint

section Relations
variable {D W F X E V α β : Type} {apply : W → D → Except F D} {S : W → Prop} {R : D → D → Prop}

/-- `R` is a preorder that no write in `S` leaves. -/
structure Keeps (apply : W → D → Except F D) (S : W → Prop) (R : D → D → Prop) : Prop where
  refl : ∀ d, R d d
  trans : ∀ {a b c}, R a b → R b c → R a c
  write : ∀ {w d d'}, S w → apply w d = .ok d' → R d d'

theorem Keeps.mono {S' : W → Prop} (h : Keeps apply S R) (hs : ∀ {w}, S' w → S w) :
    Keeps apply S' R := ⟨h.refl,h.trans,fun hw ha => h.write (hs hw) ha⟩

/-- The relation of a predicate that no write in `S` breaks. -/
theorem Keeps.ofInv {I : D → Prop} (h : ∀ {w d d'}, S w → apply w d = .ok d' → I d → I d') :
    Keeps apply S (fun d d' => I d → I d') :=
  ⟨fun _ => id,fun h1 h2 hi => h2 (h1 hi),h⟩

theorem flushAll_rel (hk : Keeps apply S R) {ws : List W} {d d' : D}
    (hs : ∀ w ∈ ws, S w) (h : flushAll apply ws d = .ok d') : R d d' := by
  induction ws generalizing d with
  | nil => cases h; exact hk.refl _
  | cons w ws ih =>
    cases ha : apply w d with
    | error f => simp [flushAll,ha] at h
    | ok e =>
      simp only [flushAll,ha] at h
      have h1 := hk.write (hs w (by simp)) ha
      exact hk.trans h1 (ih (fun v hv => hs v (by simp [hv])) h)

theorem flushAll_origin (rows : D → List β) (brings : W → β → Prop)
    (h : ∀ {w d d' x}, apply w d = .ok d' → x ∈ rows d' → x ∈ rows d ∨ brings w x) {ws : List W}
    {d d' : D} {x : β} (hf : flushAll apply ws d = .ok d') (hx : x ∈ rows d') :
    x ∈ rows d ∨ ∃ w ∈ ws, brings w x := by
  induction ws generalizing d with
  | nil =>
    cases hf
    exact .inl hx
  | cons w ws ih =>
    cases ha : apply w d with
    | error f => simp [flushAll,ha] at hf
    | ok e =>
      simp only [flushAll,ha] at hf
      rcases ih hf with hx | ⟨v,hv,hb⟩
      · rcases h ha hx with hx | hb
        · exact .inl hx
        · exact .inr ⟨w,List.mem_cons_self,hb⟩
      · exact .inr ⟨v,List.mem_cons_of_mem _ hv,hb⟩

theorem flushAll_append_iff {ws vs : List W} {d d' : D} :
    flushAll apply (ws ++ vs) d = .ok d' ↔
      ∃ e, flushAll apply ws d = .ok e ∧ flushAll apply vs e = .ok d' := by
  rw [flushAll_append]
  cases flushAll apply ws d <;> simp

theorem keeps_flushAll :
    Keeps apply S fun d d' => ∃ ws, (∀ w ∈ ws, S w) ∧ flushAll apply ws d = .ok d' where
  refl _ := ⟨[],by simp,rfl⟩
  trans := by
    rintro a b c ⟨ws,hws,hab⟩ ⟨vs,hvs,hbc⟩
    refine ⟨ws ++ vs,fun w hw => ?_,flushAll_append_iff.mpr ⟨b,hab,hbc⟩⟩
    exact (List.mem_append.mp hw).elim (hws w) (hvs w)
  write {w d d'} hw ha := ⟨[w],by simpa using hw,by simp [flushAll,ha]⟩

/-- A program moves the committed state only along what its writes keep. -/
theorem Prog.Writes.exec_rel (hk : Keeps apply S R) {o : Nat → X} {p : Prog D W X E V α}
    (hp : p.Writes S) {c : Conn D W V} (hs : ∀ w ∈ c.pend, S w) (hr : R c.db c.view) :
    R c.db (p.exec apply o c).2.db := by
  induction p generalizing c with
  | pure a => exact hk.refl _
  | raise e => exact hk.refl _
  | ask k ih => exact ih _ (hp _) (c := { c with taken := c.taken+1 }) hs hr
  | query k ih =>
    simp only [Prog.exec,Conn.flushed]
    cases hf : flushAll apply c.pend c.view with
    | error f => exact hk.refl _
    | ok v =>
      exact ih v (hp v) (c := { c with view := v, pend := [] }) (by simp)
        (hk.trans hr (flushAll_rel hk hs hf))
  | add w k ih =>
    refine ih hp.2 (c := { c with pend := c.pend ++ [w] }) (fun v hv => ?_) hr
    rcases List.mem_append.mp hv with hv | hv
    · exact hs v hv
    · exact List.mem_singleton.mp hv ▸ hp.1
  | flush k ih =>
    simp only [Prog.exec,Conn.flushed]
    cases hf : flushAll apply c.pend c.view with
    | error f => exact hk.refl _
    | ok v =>
      exact ih hp (c := { c with view := v, pend := [] }) (by simp)
        (hk.trans hr (flushAll_rel hk hs hf))
  | commit k ih =>
    simp only [Prog.exec,Conn.flushed]
    cases hf : flushAll apply c.pend c.view with
    | error f => exact hk.refl _
    | ok v =>
      exact hk.trans (hk.trans hr (flushAll_rel hk hs hf))
        (ih hp (c := { c with db := v, view := v, pend := [] }) (by simp) (hk.refl v))
  | emit v k ih => exact ih hp (c := { c with sent := c.sent ++ [v] }) hs hr

theorem exec_taken_le (apply : W → D → Except F D) (o : Nat → X) (p : Prog D W X E V α)
    (c : Conn D W V) : c.taken ≤ (p.exec apply o c).2.taken := by
  have hf : ∀ {c c' : Conn D W V}, c.flushed apply = .ok c' → c'.taken = c.taken := by
    intro c c' h
    unfold Conn.flushed at h
    split at h
    · cases h; rfl
    · cases h
  induction p generalizing c with
  | pure a => exact Nat.le_refl _
  | raise e => exact Nat.le_refl _
  | ask k ih => exact Nat.le_of_succ_le (ih _ { c with taken := c.taken+1 })
  | query k ih =>
    cases h : c.flushed apply with
    | error f => simp [Prog.exec,h]
    | ok c' => simp only [Prog.exec,h]; rw [← hf h]; exact ih _ _
  | add w k ih => exact ih { c with pend := c.pend ++ [w] }
  | flush k ih =>
    cases h : c.flushed apply with
    | error f => simp [Prog.exec,h]
    | ok c' => simp only [Prog.exec,h]; rw [← hf h]; exact ih _
  | commit k ih =>
    cases h : c.flushed apply with
    | error f => simp [Prog.exec,h]
    | ok c' => simp only [Prog.exec,h]; rw [← hf h]; exact ih { c' with db := c'.view }
  | emit v k ih => exact ih { c with sent := c.sent ++ [v] }

theorem exec_bind_taken_le (apply : W → D → Except F D) (o : Nat → X) (p : Prog D W X E V α)
    (f : α → Prog D W X E V β) (c : Conn D W V) :
    (p.exec apply o c).2.taken ≤ ((p >>= f).exec apply o c).2.taken := by
  rw [exec_bind]
  rcases p.exec apply o c with ⟨r,c'⟩
  cases r with
  | ok a => exact exec_taken_le apply o (f a) c'
  | raised e => exact Nat.le_refl _
  | fault x => exact Nat.le_refl _

end Relations

section Atomicity
variable {D W F X E V α β : Type}

/-- No path commits. -/
def Prog.Quiet : Prog D W X E V α → Prop
  | .pure _ | .raise _ => True
  | .ask k => ∀ x, (k x).Quiet
  | .query k => ∀ d, (k d).Quiet
  | .add _ k | .flush k | .emit _ k => k.Quiet
  | .commit _ => False

/-- No path raises an exception in `B`. -/
def Prog.Never (B : E → Prop) : Prog D W X E V α → Prop
  | .pure _ => True
  | .raise e => ¬ B e
  | .ask k => ∀ x, (k x).Never B
  | .query k => ∀ d, (k d).Never B
  | .add _ k | .flush k | .emit _ k | .commit k => k.Never B

/-- An exception in `B` is raised before the first commit of its path or not at all. -/
def Prog.Early (B : E → Prop) : Prog D W X E V α → Prop
  | .pure _ | .raise _ => True
  | .ask k => ∀ x, (k x).Early B
  | .query k => ∀ d, (k d).Early B
  | .add _ k | .flush k | .emit _ k => k.Early B
  | .commit k => k.Never B

section Primitives
variable {B : E → Prop}

@[simp] theorem quiet_pure (a : α) : (pure a : Prog D W X E V α).Quiet := trivial
@[simp] theorem quiet_raise (e : E) : (raise e : Prog D W X E V α).Quiet := trivial
@[simp] theorem quiet_reading (f : X → β) : (reading f : Prog D W X E V β).Quiet :=
  fun _ => trivial
@[simp] theorem quiet_select (f : D → β) : (select f : Prog D W X E V β).Quiet :=
  fun _ => trivial
@[simp] theorem quiet_add (w : W) : (add w : Prog D W X E V Unit).Quiet := trivial
@[simp] theorem quiet_flush : (flush : Prog D W X E V Unit).Quiet := trivial
@[simp] theorem quiet_emit (v : V) : (emit v : Prog D W X E V Unit).Quiet := trivial

@[simp] theorem quiet_raiseIf (p : Prop) [Decidable p] (e : E) :
    (raiseIf p e : Prog D W X E V Unit).Quiet := by
  unfold raiseIf; split <;> trivial

@[simp] theorem never_pure (a : α) : (pure a : Prog D W X E V α).Never B := trivial
@[simp] theorem never_raise (e : E) : (raise e : Prog D W X E V α).Never B ↔ ¬ B e := Iff.rfl
@[simp] theorem never_reading (f : X → β) : (reading f : Prog D W X E V β).Never B :=
  fun _ => trivial
@[simp] theorem never_select (f : D → β) : (select f : Prog D W X E V β).Never B :=
  fun _ => trivial
@[simp] theorem never_add (w : W) : (add w : Prog D W X E V Unit).Never B := trivial
@[simp] theorem never_flush : (flush : Prog D W X E V Unit).Never B := trivial
@[simp] theorem never_commit : (commit : Prog D W X E V Unit).Never B := trivial
@[simp] theorem never_emit (v : V) : (emit v : Prog D W X E V Unit).Never B := trivial

@[simp] theorem early_pure (a : α) : (pure a : Prog D W X E V α).Early B := trivial
@[simp] theorem early_raise (e : E) : (raise e : Prog D W X E V α).Early B := trivial
@[simp] theorem early_reading (f : X → β) : (reading f : Prog D W X E V β).Early B :=
  fun _ => trivial
@[simp] theorem early_select (f : D → β) : (select f : Prog D W X E V β).Early B :=
  fun _ => trivial
@[simp] theorem early_commit : (commit : Prog D W X E V Unit).Early B := trivial

end Primitives

theorem Prog.Never.bind {B : E → Prop} {p : Prog D W X E V α} {f : α → Prog D W X E V β}
    (hp : p.Never B) (hf : ∀ a, (f a).Never B) : (p >>= f).Never B := by
  change (p.bind f).Never B
  induction p with
  | pure a => exact hf a
  | raise e => exact hp
  | ask k ih => exact fun x => ih x (hp x)
  | query k ih => exact fun d => ih d (hp d)
  | add w k ih => exact ih hp
  | flush k ih => exact ih hp
  | commit k ih => exact ih hp
  | emit v k ih => exact ih hp

theorem Prog.Quiet.bind {p : Prog D W X E V α} {f : α → Prog D W X E V β}
    (hp : p.Quiet) (hf : ∀ a, (f a).Quiet) : (p >>= f).Quiet := by
  change (p.bind f).Quiet
  induction p with
  | pure a => exact hf a
  | raise e => trivial
  | ask k ih => exact fun x => ih x (hp x)
  | query k ih => exact fun d => ih d (hp d)
  | add w k ih => exact ih hp
  | flush k ih => exact ih hp
  | commit k ih => exact hp.elim
  | emit v k ih => exact ih hp

/-- Before the first commit anything may raise; what follows is checked again. -/
theorem Prog.Quiet.early_bind {B : E → Prop} {p : Prog D W X E V α}
    {f : α → Prog D W X E V β} (hp : p.Quiet) (hf : ∀ a, (f a).Early B) :
    (p >>= f).Early B := by
  change (p.bind f).Early B
  induction p with
  | pure a => exact hf a
  | raise e => trivial
  | ask k ih => exact fun x => ih x (hp x)
  | query k ih => exact fun d => ih d (hp d)
  | add w k ih => exact ih hp
  | flush k ih => exact ih hp
  | commit k ih => exact hp.elim
  | emit v k ih => exact ih hp

theorem Prog.Early.bind {B : E → Prop} {p : Prog D W X E V α} {f : α → Prog D W X E V β}
    (hp : p.Early B) (hf : ∀ a, (f a).Never B) : (p >>= f).Early B := by
  change (p.bind f).Early B
  induction p with
  | pure a =>
    have h := hf a
    change (f a).Early B
    generalize f a = q at h
    induction q with
    | pure b => trivial
    | raise e => trivial
    | ask k ih => exact fun x => ih x (h x)
    | query k ih => exact fun d => ih d (h d)
    | add w k ih => exact ih h
    | flush k ih => exact ih h
    | commit k ih => exact h
    | emit v k ih => exact ih h
  | raise e => trivial
  | ask k ih => exact fun x => ih x (hp x)
  | query k ih => exact fun d => ih d (hp d)
  | add w k ih => exact ih hp
  | flush k ih => exact ih hp
  | commit k ih => exact Prog.Never.bind hp hf
  | emit v k ih => exact ih hp

variable {apply : W → D → Except F D} {o : Nat → X}

theorem flushed_db {c c' : Conn D W V} (h : c.flushed apply = .ok c') : c'.db = c.db := by
  unfold Conn.flushed at h
  split at h
  · cases h; rfl
  · cases h

theorem Prog.Quiet.exec_db {p : Prog D W X E V α} (hp : p.Quiet) (c : Conn D W V) :
    (p.exec apply o c).2.db = c.db := by
  induction p generalizing c with
  | pure a => rfl
  | raise e => rfl
  | ask k ih => exact ih _ (hp _) _
  | query k ih =>
    cases h : c.flushed apply with
    | error f => simp [Prog.exec,h]
    | ok c' => simp only [Prog.exec,h]; rw [ih _ (hp _),flushed_db h]
  | add w k ih => exact ih hp { c with pend := c.pend ++ [w] }
  | flush k ih =>
    cases h : c.flushed apply with
    | error f => simp [Prog.exec,h]
    | ok c' => simp only [Prog.exec,h]; rw [ih hp,flushed_db h]
  | commit k ih => exact hp.elim
  | emit v k ih => exact ih hp { c with sent := c.sent ++ [v] }

/-- After the last commit of a program the committed database is final. -/
theorem exec_bind_quiet {p : Prog D W X E V α} {f : α → Prog D W X E V β}
    (hf : ∀ a, (f a).Quiet) (c : Conn D W V) :
    ((p >>= f).exec apply o c).2.db = (p.exec apply o c).2.db := by
  rw [exec_bind]
  cases h : p.exec apply o c with
  | mk r c' =>
    cases r with
    | ok a => exact (hf a).exec_db c'
    | raised e => rfl
    | fault x => rfl

theorem Prog.Never.exec_ne {B : E → Prop} {p : Prog D W X E V α} (hp : p.Never B)
    {c : Conn D W V} {e : E} (he : (p.exec apply o c).1 = .raised e) : ¬ B e := by
  induction p generalizing c with
  | pure a => cases he
  | raise e' => cases he; exact hp
  | ask k ih => exact ih _ (hp _) he
  | query k ih =>
    cases h : c.flushed apply with
    | error f => simp [Prog.exec,h] at he
    | ok c' => simp only [Prog.exec,h] at he; exact ih _ (hp _) he
  | add w k ih => exact ih hp he
  | flush k ih =>
    cases h : c.flushed apply with
    | error f => simp [Prog.exec,h] at he
    | ok c' => simp only [Prog.exec,h] at he; exact ih hp he
  | commit k ih =>
    cases h : c.flushed apply with
    | error f => simp [Prog.exec,h] at he
    | ok c' => simp only [Prog.exec,h] at he; exact ih hp he
  | emit v k ih => exact ih hp he

theorem Prog.Early.exec_db {B : E → Prop} {p : Prog D W X E V α} (hp : p.Early B)
    {c : Conn D W V} {e : E} (he : (p.exec apply o c).1 = .raised e) (hb : B e) :
    (p.exec apply o c).2.db = c.db := by
  induction p generalizing c with
  | pure a => rfl
  | raise e' => rfl
  | ask k ih => exact ih _ (hp _) he
  | query k ih =>
    cases h : c.flushed apply with
    | error f => simp [Prog.exec,h]
    | ok c' => simp only [Prog.exec,h] at he ⊢; rw [ih _ (hp _) he,flushed_db h]
  | add w k ih => exact ih hp he
  | flush k ih =>
    cases h : c.flushed apply with
    | error f => simp [Prog.exec,h]
    | ok c' => simp only [Prog.exec,h] at he ⊢; rw [ih hp he,flushed_db h]
  | commit k ih =>
    cases h : c.flushed apply with
    | error f => simp [Prog.exec,h]
    | ok c' => simp only [Prog.exec,h] at he; exact absurd hb (Prog.Never.exec_ne hp he)
  | emit v k ih => exact ih hp he

end Atomicity

section Worlds
variable {D W F X E V α : Type}

/-- What outlives a session: the committed database, the readings used up, the
effects sent. -/
structure World (D V : Type) where
  db : D
  taken : Nat
  sent : List V

/-- Open a session, run the program, close the session. Whatever is not committed
by then is rolled back. -/
def serve (apply : W → D → Except F D) (o : Nat → X) (p : Prog D W X E V α)
    (w : World D V) : Outcome E F α × World D V :=
  match p.exec apply o ⟨w.db,w.db,[],w.taken,w.sent⟩ with
  | (r,c) => (r,⟨c.db,c.taken,c.sent⟩)

variable {apply : W → D → Except F D} {o : Nat → X} {p : Prog D W X E V α}

theorem Prog.Early.serve_db {B : E → Prop} (hp : p.Early B) {w : World D V} {e : E}
    (he : (serve apply o p w).1 = .raised e) (hb : B e) :
    (serve apply o p w).2.db = w.db :=
  Prog.Early.exec_db hp he hb

end Worlds

section Transcripts
variable {σ ι ρ β : Type}

/-- What is asked in a run, with the answers. -/
def transcript (step : σ → ι → ρ × σ) : σ → List ι → List (ι × ρ)
  | _, [] => []
  | s, i :: is => (i,(step s i).1) :: transcript step (step s i).2 is

/-- The last thing that a transcript tells. -/
def lastWord (tells : ι × ρ → Option β) : List (ι × ρ) → Option β
  | [] => none
  | e :: h =>
    match lastWord tells h with
    | some b => some b
    | none => tells e

variable {step : σ → ι → ρ × σ} {tells : ι × ρ → Option β}

/-- One step changes what is read to what is said, and to nothing else: so does a run. -/
theorem reads_run (reads : σ → β)
    (h : ∀ s i, reads (step s i).2 = (tells (i,(step s i).1)).getD (reads s)) (s : σ)
    (is : List ι) :
    reads (is.foldl (fun s i => (step s i).2) s) =
      (lastWord tells (transcript step s is)).getD (reads s) := by
  induction is generalizing s with
  | nil => rfl
  | cons i is ih =>
    rw [List.foldl_cons,ih,transcript,lastWord,h]
    cases lastWord tells (transcript step (step s i).2 is) <;> rfl

end Transcripts

end Transact
