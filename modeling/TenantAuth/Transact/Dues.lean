import TenantAuth.Transact.Guarding
set_option autoImplicit false

namespace Transact
variable {D W F X E V α β ι κ : Type}

section Assertions
variable (apply : W → D → Except F D) (C : D → D → Prop)

/-- The program does not end with a value but behind a commit within `C`. -/
def Prog.Due : Prog D W X E V α → List W → Prop
  | .pure _, _ => False
  | .raise _, _ => True
  | .ask k, ws => ∀ x, (k x).Due ws
  | .query k, ws => ∀ d v, flushAll apply ws d = .ok v → (k v).Due ws
  | .add w k, ws => k.Due (ws ++ [w])
  | .flush k, ws | .emit _ k, ws => k.Due ws
  | .commit k, ws => ∀ d v, flushAll apply ws d = .ok v → C d v ∨ k.Due []

def Session.Due : Session D W F X E V α → Prop
  | .running p own pend => p.Due apply C (own ++ pend)
  | .closed r => r.isOk = false

variable {apply C} {ws : List W}

theorem due_commit_bind {f : Unit → Prog D W X E V α}
    (h : ∀ d v, flushAll apply ws d = .ok v → C d v) :
    (commit >>= f).Due apply C ws := fun d v hf => .inl (h d v hf)

theorem Prog.Due.bind {p : Prog D W X E V β} (h : p.Due apply C ws) (f : β → Prog D W X E V α) :
    (p >>= f).Due apply C ws := by
  change (p.bind f).Due apply C ws
  induction p generalizing ws with
  | pure _ => exact h.elim
  | raise _ => trivial
  | ask _ ih => exact fun x => ih x (h x)
  | query _ ih => exact fun d v hf => ih v (h d v hf)
  | add _ _ ih | flush _ ih | emit _ _ ih => exact ih h
  | commit _ ih => exact fun d v hf => (h d v hf).imp_right ih

theorem Prog.Passes.due {R : X → Prop} (hR : ∀ x, R x) {Q : β → List W → Prop}
    {p : Prog D W X E V β} {f : β → Prog D W X E V α}
    (h : p.Passes apply R (fun _ => True) Q ws) (hf : ∀ b ws, Q b ws → (f b).Due apply C ws) :
    (p >>= f).Due apply C ws := by
  change (p.bind f).Due apply C ws
  induction p generalizing ws with
  | pure b => exact hf b ws h
  | raise _ => trivial
  | ask _ ih => exact fun x => ih x (h x (hR x))
  | query _ ih => exact fun d v hv => ih v (h d v trivial hv)
  | add _ _ ih | flush _ ih => exact ih h
  | commit _ _ | emit _ _ _ => exact h.elim

end Assertions

section Runs
variable {apply : W → D → Except F D} {waits : W → W → Bool} {o : Nat → X}
  {prog : ι → Prog D W X E V α} {M : System D W F X E V α ι → Move ι → Prop} {I : D → Prop}
  {C : D → D → Prop} {s₀ s s' : System D W F X E V α ι} {x x' : Session D W F X E V α}
  {w w' : World D V}

theorem Session.Due.succeeded (h : x.Due apply C) : x.succeeded = false := by
  cases x with
  | running _ _ _ => rfl
  | closed r => exact h

theorem Session.Steps.due (hn : x.Steps apply o w x' w') (hx : x.Due apply C) :
    x'.Due apply C ∨ C w.db w'.db := by
  cases hn with
  | ended => exact hx.elim
  | raised | failed _ => exact .inl rfl
  | asked => exact .inl (hx _)
  | @queried k own pend v hf =>
    refine .inl ?_
    change (k v).Due apply C (own ++ pend ++ [])
    rw [List.append_nil]
    exact hx _ v hf
  | @added u k own pend =>
    refine .inl ?_
    change k.Due apply C (own ++ (pend ++ [u]))
    rw [← List.append_assoc]
    exact hx
  | @flushed k own pend =>
    refine .inl ?_
    change k.Due apply C (own ++ pend ++ [])
    rw [List.append_nil]
    exact hx
  | committed hf => exact (hx _ _ hf).symm
  | emitted => exact .inl hx

/-- The commit takes the name, which was free. -/
def Takes (taken : κ → D → Prop) (k : κ) (d v : D) : Prop := ¬ taken k d ∧ taken k v

variable {key : ι → Option κ} {taken : κ → D → Prop}

/-- Of the sessions that want a name all but one still owe its commit, and all while it is free. -/
structure Owed (apply : W → D → Except F D) (key : ι → Option κ) (taken : κ → D → Prop)
    (s : System D W F X E V α ι) : Prop where
  each : ∀ x ∈ s.sessions, ∀ k, key x.1 = some k →
    x.2.Due apply (Takes taken k) ∨ taken k s.world.db
  both : s.sessions.Pairwise fun x y => ∀ k, key x.1 = some k → key y.1 = some k →
    x.2.Due apply (Takes taken k) ∨ y.2.Due apply (Takes taken k)

theorem Owed.arrive {i : ι} (h : Owed apply key taken s)
    (hdue : ∀ k, key i = some k → (prog i).Due apply (Takes taken k) []) :
    Owed apply key taken { s with sessions := s.sessions ++ [(i,.running (prog i) [] [])] } := by
  constructor
  · intro x hx k hk
    rcases List.mem_append.mp hx with hx | hx
    · exact h.each x hx k hk
    · obtain rfl := List.mem_singleton.mp hx
      exact .inl (hdue k hk)
  · refine List.pairwise_append.mpr ⟨h.both,List.pairwise_singleton _ _,fun x _ y hy k _ hk => ?_⟩
    obtain rfl := List.mem_singleton.mp hy
    exact .inr (hdue k hk)

theorem Owed.run {n : Nat} (hstay : ∀ k, taken k s.world.db → taken k s'.world.db)
    (hm : s.move apply waits o prog (.run n) = some s') (h : Owed apply key taken s) :
    Owed apply key taken s' := by
  obtain ⟨i,x,x',hx,hstep,hset⟩ := System.run_step hm
  obtain ⟨hlt,hget⟩ := List.getElem?_eq_some_iff.mp hx
  -- What the moving session still owes, or the name has been taken just now.
  have hmoved : ∀ k, x.Due apply (Takes taken k) → x'.Due apply (Takes taken k) ∨
      ¬ taken k s.world.db ∧ taken k s'.world.db := fun k hd => hstep.due hd
  have hpair : ∀ y ∈ s.sessions, ∀ k, key i = some k → key y.1 = some k →
      x.Due apply (Takes taken k) ∨ y.2.Due apply (Takes taken k) →
      x'.Due apply (Takes taken k) ∨ y.2.Due apply (Takes taken k) := by
    intro y hy k _ hky hxy
    rcases hxy with hxd | hyd
    · rcases hmoved k hxd with hxd' | ⟨hfree,-⟩
      · exact .inl hxd'
      · exact .inr ((h.each y hy k hky).resolve_right hfree)
    · exact .inr hyd
  constructor
  · intro y hy k hk
    rw [hset] at hy
    rcases List.mem_or_eq_of_mem_set hy with hy | rfl
    · exact (h.each y hy k hk).imp_right (hstay k)
    · rcases h.each _ (List.mem_of_getElem? hx) k hk with hd | ht
      · exact (hmoved k hd).imp_right And.right
      · exact .inr (hstay k ht)
  · rw [hset]
    have hboth := List.pairwise_iff_getElem.mp h.both
    refine List.pairwise_iff_getElem.mpr fun a b ha hb hab k hka hkb => ?_
    simp only [List.length_set] at ha hb
    have hold := hboth a b ha hb hab k
    simp only [List.getElem_set] at hka hkb ⊢
    by_cases hna : n = a
    · have hnb : n ≠ b := by omega
      subst hna
      rw [if_pos rfl] at hka ⊢
      rw [if_neg hnb] at hkb ⊢
      rw [hget] at hold
      exact hpair _ (List.getElem_mem _) k hka hkb (hold hka hkb)
    · rw [if_neg hna] at hka ⊢
      by_cases hnb : n = b
      · subst hnb
        rw [if_pos rfl] at hkb ⊢
        rw [hget] at hold
        exact (hpair _ (List.getElem_mem _) k hkb hka (hold hka hkb).symm).symm
      · rw [if_neg hnb] at hkb ⊢
        exact hold hka hkb

theorem Reach.owed (hdue : ∀ i k, key i = some k → (prog i).Due apply (Takes taken k) [])
    (h0 : s₀.sessions = [])
    (hstay : ∀ {s s' : System D W F X E V α ι} {m : Move ι}, Reach apply waits o prog M I s₀ s →
      M s m → s.move apply waits o prog m = some s' →
      ∀ k, taken k s.world.db → taken k s'.world.db)
    (h : Reach apply waits o prog M I s₀ s) : Owed apply key taken s := by
  induction h with
  | start _ =>
    refine ⟨fun x hx => ?_,?_⟩
    · rw [h0] at hx
      cases hx
    · rw [h0]
      exact .nil
  | @move s s' m h hc hm _ ih =>
    cases m with
    | arrive i =>
      cases hm
      exact ih.arrive (hdue i)
    | run n => exact ih.run (hstay h hc hm) hm

/-- No two sessions that want one name have succeeded, and where one has, the name is taken. -/
theorem Owed.once (h : Owed apply key taken s) :
    (∀ x ∈ s.sessions, ∀ k, key x.1 = some k → x.2.succeeded = true → taken k s.world.db) ∧
    s.sessions.Pairwise fun x y => ∀ k, key x.1 = some k → key y.1 = some k →
      ¬ (x.2.succeeded = true ∧ y.2.succeeded = true) := by
  refine ⟨fun x hx k hk hs => (h.each x hx k hk).resolve_left fun hd => ?_,?_⟩
  · exact Bool.false_ne_true (hd.succeeded.symm.trans hs)
  · refine h.both.imp fun {x y} hxy k hkx hky hs => ?_
    rcases hxy k hkx hky with hd | hd
    · exact Bool.false_ne_true (hd.succeeded.symm.trans hs.1)
    · exact Bool.false_ne_true (hd.succeeded.symm.trans hs.2)

end Runs

end Transact
