import TenantAuth.Transact.Interleaving
set_option autoImplicit false

/-! Sessions that commit once. Up to its commit a session may fail; behind it, it ends with a value,
whatever the others do. What it commits claims keys that were free, and what is taken stays so:
no two sessions that succeed have claimed one key. -/

namespace Transact
variable {D W F X E V α β ι κ : Type}

section Assertions
variable (apply : W → D → Except F D) (R : D → D → Prop)

/-- Nothing is written any more, and the end is a value in `Z`, if the others move along `R`. -/
def Prog.Settled (Z : α → Prop) : Prog D W X E V α → D → Prop
  | .pure a, _ => Z a
  | .raise _, _ | .add _ _, _ | .commit _, _ => False
  | .ask k, d => ∀ x, (k x).Settled Z d
  | .query k, d => ∀ d', R d d' → (k d').Settled Z d'
  | .flush k, d | .emit _ k, d => k.Settled Z d

/-- There is no end with a value but behind one commit, which settles the program: on `Z d v`,
where it leads from `d` to `v`. -/
def Prog.Once (Z : D → D → α → Prop) : Prog D W X E V α → List W → D → Prop
  | .pure _, _, _ => False
  | .raise _, _, _ => True
  | .ask k, ws, d => ∀ x, (k x).Once Z ws d
  | .query k, ws, d => ∀ d' v, R d d' → flushAll apply ws d' = .ok v → (k v).Once Z ws d'
  | .add w k, ws, d => k.Once Z (ws ++ [w]) d
  | .flush k, ws, d | .emit _ k, ws, d => k.Once Z ws d
  | .commit k, ws, d => ∀ d' v, R d d' → flushAll apply ws d' = .ok v → R d' v →
    k.Settled R (Z d' v) v

variable {apply R} {Z : D → D → α → Prop} {ws : List W} {d d' : D}

@[simp] theorem settled_pure {Z : α → Prop} {a : α} :
    (pure a : Prog D W X E V α).Settled R Z d ↔ Z a := Iff.rfl

@[simp] theorem settled_select_bind {Z : α → Prop} {g : D → β} {f : β → Prog D W X E V α} :
    (select g >>= f).Settled R Z d ↔ ∀ d', R d d' → (f (g d')).Settled R Z d' := Iff.rfl

@[simp] theorem once_raise {e : E} :
    (raise e : Prog D W X E V α).Once apply R Z ws d ↔ True := Iff.rfl

@[simp] theorem once_commit_bind {f : Unit → Prog D W X E V α} :
    (commit >>= f).Once apply R Z ws d ↔ ∀ d' v, R d d' → flushAll apply ws d' = .ok v →
      R d' v → (f ()).Settled R (Z d' v) v := Iff.rfl

theorem once_bind {p : Prog D W X E V β} {f : β → Prog D W X E V α} (hp : p.Quiet) :
    (p >>= f).Once apply R Z ws d ↔
      p.Holds apply R (fun b ws d => (f b).Once apply R Z ws d) ws d := by
  change (p.bind f).Once apply R Z ws d ↔ _
  induction p generalizing ws d with
  | pure b => exact Iff.rfl
  | raise e => exact Iff.rfl
  | ask k ih => exact forall_congr' fun x => ih x (hp x)
  | query k ih =>
    exact forall_congr' fun d' => forall_congr' fun v => imp_congr_right fun _ =>
      imp_congr_right fun _ => ih v (hp v)
  | add w k ih => exact ih hp
  | flush k ih => exact ih hp
  | commit k ih => exact hp.elim
  | emit v k ih => exact ih hp

theorem settled_bind_pure {p : Prog D W X E V β} {g : β → α} {Z : α → Prop} :
    (p >>= fun b => pure (g b)).Settled R Z d ↔ p.Settled R (fun b => Z (g b)) d := by
  change (p.bind fun b => .pure (g b)).Settled R Z d ↔ _
  induction p generalizing d with
  | pure b => exact Iff.rfl
  | raise e => exact Iff.rfl
  | ask k ih => exact forall_congr' fun x => ih x
  | query k ih => exact forall_congr' fun d' => imp_congr_right fun _ => ih d'
  | add w k ih => exact Iff.rfl
  | flush k ih => exact ih
  | commit k ih => exact Iff.rfl
  | emit v k ih => exact ih

theorem once_bind_pure {p : Prog D W X E V β} {g : β → α} :
    (p >>= fun b => pure (g b)).Once apply R Z ws d ↔
      p.Once apply R (fun d v b => Z d v (g b)) ws d := by
  change (p.bind fun b => .pure (g b)).Once apply R Z ws d ↔ _
  induction p generalizing ws d with
  | pure b => exact Iff.rfl
  | raise e => exact Iff.rfl
  | ask k ih => exact forall_congr' fun x => ih x
  | query k ih =>
    exact forall_congr' fun d' => forall_congr' fun v => imp_congr_right fun _ =>
      imp_congr_right fun _ => ih v
  | add w k ih => exact ih
  | flush k ih => exact ih
  | commit k ih =>
    exact forall_congr' fun d' => forall_congr' fun v => imp_congr_right fun _ =>
      imp_congr_right fun _ => imp_congr_right fun _ => settled_bind_pure
  | emit v k ih => exact ih

theorem Prog.Settled.mono {Z Z' : α → Prop} {p : Prog D W X E V α} (hZ : ∀ a, Z a → Z' a)
    (h : p.Settled R Z d) : p.Settled R Z' d := by
  induction p generalizing d with
  | pure a => exact hZ a h
  | raise e => exact h
  | ask k ih => exact fun x => ih x (h x)
  | query k ih => exact fun d' hd' => ih d' (h d' hd')
  | add w k ih => exact h
  | flush k ih => exact ih h
  | commit k ih => exact h
  | emit v k ih => exact ih h

theorem Prog.Once.mono {Z' : D → D → α → Prop} {p : Prog D W X E V α}
    (hZ : ∀ {d v a}, Z d v a → Z' d v a) (h : p.Once apply R Z ws d) : p.Once apply R Z' ws d := by
  induction p generalizing ws d with
  | pure a => exact h
  | raise e => trivial
  | ask k ih => exact fun x => ih x (h x)
  | query k ih => exact fun d' v hd' hf => ih v (h d' v hd' hf)
  | add w k ih => exact ih h
  | flush k ih => exact ih h
  | commit k ih => exact fun d' v hd' hf hv => (h d' v hd' hf hv).mono fun _ hz => hZ hz
  | emit v k ih => exact ih h

theorem Prog.Settled.stable {Z : α → Prop} {p : Prog D W X E V α}
    (hR : ∀ {a b c}, R a b → R b c → R a c) (hd : R d d') (h : p.Settled R Z d) :
    p.Settled R Z d' := by
  induction p generalizing d d' with
  | pure a => exact h
  | raise e => exact h
  | ask k ih => exact fun x => ih x hd (h x)
  | query k ih => exact fun d1 h1 => h d1 (hR hd h1)
  | add w k ih => exact h
  | flush k ih => exact ih hd h
  | commit k ih => exact h
  | emit v k ih => exact ih hd h

theorem Prog.Once.stable {p : Prog D W X E V α} (hR : ∀ {a b c}, R a b → R b c → R a c)
    (hd : R d d') (h : p.Once apply R Z ws d) : p.Once apply R Z ws d' := by
  induction p generalizing ws d d' with
  | pure a => exact h
  | raise e => trivial
  | ask k ih => exact fun x => ih x hd (h x)
  | query k ih => exact fun d1 v h1 => h d1 v (hR hd h1)
  | add w k ih => exact ih hd h
  | flush k ih => exact ih hd h
  | commit k ih => exact fun d1 v h1 => h d1 v (hR hd h1)
  | emit v k ih => exact ih hd h

end Assertions

section Sessions
variable {apply : W → D → Except F D} {o : Nat → X} {R : D → D → Prop} {Z : D → D → α → Prop}
  {w w' : World D V} {x x' : Session D W F X E V α} {d d' : D}

/-- The session has committed: it is at its end with a value in `Z`, or on its way there. -/
def Session.Settles (R : D → D → Prop) (Z : α → Prop) (d : D) : Session D W F X E V α → Prop
  | .running p own pend => own = [] ∧ pend = [] ∧ p.Settled R Z d
  | .closed (.ok a) => Z a
  | .closed (.raised _) | .closed (.fault _) => False

/-- The session has not committed: it is on its way there, or has failed. -/
def Session.Pending (apply : W → D → Except F D) (R : D → D → Prop) (Z : D → D → α → Prop) (d : D) :
    Session D W F X E V α → Prop
  | .running p own pend => p.Once apply R Z (own ++ pend) d
  | .closed (.ok _) => False
  | .closed (.raised _) | .closed (.fault _) => True

theorem Session.Settles.stable {Z : α → Prop} (hR : ∀ {a b c}, R a b → R b c → R a c)
    (hd : R d d') (h : x.Settles R Z d) : x.Settles R Z d' := by
  cases x with
  | running p own pend => exact ⟨h.1,h.2.1,h.2.2.stable hR hd⟩
  | closed r => cases r <;> exact h

theorem Session.Pending.stable (hR : ∀ {a b c}, R a b → R b c → R a c) (hd : R d d')
    (h : x.Pending apply R Z d) : x.Pending apply R Z d' := by
  cases x with
  | running p own pend => exact Prog.Once.stable hR hd h
  | closed r => cases r <;> exact h

theorem Session.Steps.settles {Z : α → Prop} (hn : x.Steps apply o w x' w') (hr : R w.db w.db)
    (hx : x.Settles R Z w.db) : x'.Settles R Z w'.db ∧ w'.db = w.db := by
  cases hn with
  | ended => exact ⟨hx.2.2,rfl⟩
  | raised | added | committed => exact hx.2.2.elim
  | asked => exact ⟨⟨hx.1,hx.2.1,hx.2.2 _⟩,rfl⟩
  | queried hf =>
    obtain ⟨rfl,rfl,hx⟩ := hx
    cases hf
    exact ⟨⟨rfl,rfl,hx _ hr⟩,rfl⟩
  | flushed =>
    obtain ⟨rfl,rfl,hx⟩ := hx
    exact ⟨⟨rfl,rfl,hx⟩,rfl⟩
  | emitted => exact ⟨hx,rfl⟩
  | failed hf =>
    obtain ⟨rfl,rfl,-⟩ := hx
    cases hf

theorem Session.Steps.pending (hn : x.Steps apply o w x' w') (hr : R w.db w.db)
    (hg : R w.db w'.db) (hx : x.Pending apply R Z w.db) :
    (x'.Pending apply R Z w'.db ∧ w'.db = w.db) ∨ x'.Settles R (Z w.db w'.db) w'.db := by
  cases hn with
  | ended => exact hx.elim
  | raised | failed => exact .inl ⟨trivial,rfl⟩
  | asked => exact .inl ⟨hx _,rfl⟩
  | @queried k own pend v hf =>
    refine .inl ⟨?_,rfl⟩
    change (k v).Once apply R Z (own ++ pend ++ []) w.db
    rw [List.append_nil]
    exact hx _ v hr hf
  | @added u k own pend =>
    refine .inl ⟨?_,rfl⟩
    change k.Once apply R Z (own ++ (pend ++ [u])) w.db
    rw [← List.append_assoc]
    exact hx
  | @flushed k own pend =>
    refine .inl ⟨?_,rfl⟩
    change k.Once apply R Z (own ++ pend ++ []) w.db
    rw [List.append_nil]
    exact hx
  | committed hf => exact .inr ⟨rfl,rfl,hx _ _ hr hf hg⟩
  | emitted => exact .inl ⟨hx,rfl⟩

end Sessions

/-- What a success claims: the key of its value, if it has one, is taken from then on; and what
else holds of the value. -/
structure Claim (D ι α κ : Type) where
  key : ι → α → Option κ
  taken : κ → D → Prop
  good : ι → α → D → Prop

/-- The commit from `d` to `v` claims the key of the value. -/
def Claim.Made (c : Claim D ι α κ) (i : ι) (d v : D) (a : α) : Prop :=
  c.good i a v ∧ ∀ k, c.key i a = some k → ¬ c.taken k d ∧ c.taken k v

section Systems
variable {c : Claim D ι α κ} {apply : W → D → Except F D} {waits : W → W → Bool} {o : Nat → X}
  {prog : ι → Prog D W X E V α} {S : W → Prop} {G : D → D → Prop} {I : D → Prop}
  {C : System D W F X E V α ι → Move ι → Prop} {s₀ s s' : System D W F X E V α ι}
  {R : D → D → Prop} {d d' d₀ d₁ : D} {x y : ι × Session D W F X E V α}

/-- Programs that commit once, with a claim, and never give back what is taken. -/
structure ClaimsOnce (c : Claim D ι α κ) (apply : W → D → Except F D) (prog : ι → Prog D W X E V α)
    (S : W → Prop) (G : D → D → Prop) (I : D → Prop) : Prop where
  keeps : Keeps apply S G
  writes : ∀ i, (prog i).Writes S
  taken : ∀ {k d d'}, Within G I d d' → c.taken k d → c.taken k d'
  good : ∀ {i a d d'}, Within G I d d' → c.good i a d → c.good i a d'
  once : ∀ {i d}, I d → (prog i).Once apply (Within G I) (c.Made i) [] d

/-- The session has committed, from `d₀` to `d₁`. -/
structure CommittedAt (c : Claim D ι α κ) (R : D → D → Prop) (d : D)
    (x : ι × Session D W F X E V α) (d₀ d₁ : D) : Prop where
  settles : x.2.Settles R (c.Made x.1 d₀ d₁) d
  later : R d₁ d

/-- One of the two has not committed, or one had before the other did. -/
def InTurn (c : Claim D ι α κ) (apply : W → D → Except F D) (R : D → D → Prop) (d : D)
    (x y : ι × Session D W F X E V α) : Prop :=
  x.2.Pending apply R (c.Made x.1) d ∨ y.2.Pending apply R (c.Made y.1) d ∨
    ∃ d₀ d₁ e₀ e₁, CommittedAt c R d x d₀ d₁ ∧ CommittedAt c R d y e₀ e₁ ∧ (R d₁ e₀ ∨ R e₁ d₀)

/-- Every session has committed or not, and those that have did so in turn. -/
structure Sequenced (c : Claim D ι α κ) (apply : W → D → Except F D) (R : D → D → Prop)
    (s : System D W F X E V α ι) : Prop where
  each : ∀ x ∈ s.sessions, x.2.Pending apply R (c.Made x.1) s.world.db ∨
    ∃ d₀ d₁, CommittedAt c R s.world.db x d₀ d₁
  both : s.sessions.Pairwise (InTurn c apply R s.world.db)

theorem CommittedAt.stable (hR : ∀ {a b c}, R a b → R b c → R a c) (hd : R d d')
    (h : CommittedAt c R d x d₀ d₁) : CommittedAt c R d' x d₀ d₁ :=
  ⟨h.settles.stable hR hd,hR h.later hd⟩

theorem InTurn.symm (h : InTurn c apply R d x y) : InTurn c apply R d y x := by
  rcases h with hx | hy | ⟨d₀,d₁,e₀,e₁,hx,hy,he⟩
  · exact .inr (.inl hx)
  · exact .inl hy
  · exact .inr (.inr ⟨e₀,e₁,d₀,d₁,hy,hx,he.symm⟩)

theorem InTurn.stable (hR : ∀ {a b c}, R a b → R b c → R a c) (hd : R d d')
    (h : InTurn c apply R d x y) : InTurn c apply R d' x y := by
  rcases h with hx | hy | ⟨d₀,d₁,e₀,e₁,hx,hy,he⟩
  · exact .inl (hx.stable hR hd)
  · exact .inr (.inl (hy.stable hR hd))
  · exact .inr (.inr ⟨d₀,d₁,e₀,e₁,hx.stable hR hd,hy.stable hR hd,he⟩)

section Moves
variable {i : ι} {w w' : World D V} {z z' : Session D W F X E V α}

theorem Session.Steps.committed_or (hn : z.Steps apply o w z' w') (hr : R w.db w.db)
    (hr' : R w'.db w'.db) (hg : R w.db w'.db) (hz : z.Pending apply R (c.Made i) w.db) :
    z'.Pending apply R (c.Made i) w'.db ∨ CommittedAt c R w'.db (i,z') w.db w'.db := by
  rcases hn.pending hr hg hz with ⟨h,-⟩ | h
  · exact .inl h
  · exact .inr ⟨h,hr'⟩

theorem CommittedAt.step (hR : ∀ {a b c}, R a b → R b c → R a c) (hn : z.Steps apply o w z' w')
    (hr : R w.db w.db) (hg : R w.db w'.db) (h : CommittedAt c R w.db (i,z) d₀ d₁) :
    CommittedAt c R w'.db (i,z') d₀ d₁ :=
  ⟨(hn.settles hr h.settles).1,hR h.later hg⟩

theorem InTurn.step (hR : ∀ {a b c}, R a b → R b c → R a c) (hn : z.Steps apply o w z' w')
    (hr : R w.db w.db) (hr' : R w'.db w'.db) (hg : R w.db w'.db)
    (hy : y.2.Pending apply R (c.Made y.1) w.db ∨ ∃ e₀ e₁, CommittedAt c R w.db y e₀ e₁)
    (h : InTurn c apply R w.db (i,z) y) : InTurn c apply R w'.db (i,z') y := by
  rcases h with hz | hy | ⟨d₀,d₁,e₀,e₁,hz,hy,he⟩
  · rcases hn.committed_or hr hr' hg hz with hz' | hz'
    · exact .inl hz'
    · rcases hy with hy | ⟨e₀,e₁,hy⟩
      · exact .inr (.inl (hy.stable hR hg))
      · -- It commits now, from a state that is later than the other's commit.
        exact .inr (.inr ⟨_,_,e₀,e₁,hz',hy.stable hR hg,.inr hy.later⟩)
  · exact .inr (.inl (hy.stable hR hg))
  · exact .inr (.inr ⟨d₀,d₁,e₀,e₁,hz.step hR hn hr hg,hy.stable hR hg,he⟩)

end Moves

theorem Sequenced.run {k : Nat} (hR : ∀ {a b c}, R a b → R b c → R a c)
    (hr : R s.world.db s.world.db) (hr' : R s'.world.db s'.world.db)
    (hg : R s.world.db s'.world.db) (h : Sequenced c apply R s)
    (hm : s.move apply waits o prog (.run k) = some s') : Sequenced c apply R s' := by
  obtain ⟨i,z,z',hz,hstep,hset⟩ := System.run_step hm
  obtain ⟨hlt,hget⟩ := List.getElem?_eq_some_iff.mp hz
  refine ⟨fun y hy => ?_,?_⟩
  · rw [hset] at hy
    rcases List.mem_or_eq_of_mem_set hy with hy | rfl
    · rcases h.each y hy with hp | ⟨d₀,d₁,hc⟩
      · exact .inl (hp.stable hR hg)
      · exact .inr ⟨d₀,d₁,hc.stable hR hg⟩
    · rcases h.each _ (List.mem_of_getElem? hz) with hp | ⟨d₀,d₁,hc⟩
      · rcases hstep.committed_or hr hr' hg hp with hp' | hc
        · exact .inl hp'
        · exact .inr ⟨_,_,hc⟩
      · exact .inr ⟨d₀,d₁,hc.step hR hstep hr hg⟩
  · rw [hset]
    have hpair := List.pairwise_iff_getElem.mp h.both
    refine List.pairwise_iff_getElem.mpr fun a b ha hb hab => ?_
    simp only [List.length_set] at ha hb
    have hold := hpair a b ha hb hab
    simp only [List.getElem_set]
    by_cases hka : k = a
    · have hkb : k ≠ b := by omega
      subst hka
      rw [hget] at hold
      rw [if_pos rfl,if_neg hkb]
      exact hold.step hR hstep hr hr' hg (h.each _ (List.getElem_mem _))
    · by_cases hkb : k = b
      · subst hkb
        rw [hget] at hold
        rw [if_neg hka,if_pos rfl]
        have hturn : InTurn c apply R s'.world.db (i,z') s.sessions[a] :=
          hold.symm.step hR hstep hr hr' hg (h.each _ (List.getElem_mem _))
        exact hturn.symm
      · rw [if_neg hka,if_neg hkb]
        exact hold.stable hR hg

theorem ClaimsOnce.along (hc : ClaimsOnce c apply prog S G I) {m : Move ι}
    (hs : s.Labelled fun _ : ι => S) (hm : s.move apply waits o prog m = some s') :
    G s.world.db s'.world.db := by
  have hk : Keeps apply (fun w => ∃ _ : ι, S w) G := hc.keeps.mono fun ⟨_,hw⟩ => hw
  exact hs.along hk hc.writes hm

/-- In every run the sessions are in turn. -/
theorem Reach.sequenced (hc : ClaimsOnce c apply prog S G I) (h0 : s₀.sessions = [])
    (h : Reach apply waits o prog C I s₀ s) : Sequenced c apply (Within G I) s := by
  induction h with
  | start _ =>
    constructor
    · intro x hx
      rw [h0] at hx
      cases hx
    · rw [h0]
      exact .nil
  | @move s s' m h hm' hm hi' ih =>
    cases m with
    | arrive i =>
      cases hm
      have hnew : (prog i).Once apply (Within G I) (c.Made i) [] s.world.db := hc.once h.inv
      refine ⟨fun x hx => ?_,?_⟩
      · rcases List.mem_append.mp hx with hx | hx
        · exact ih.each x hx
        · rw [List.mem_singleton.mp hx]
          exact .inl hnew
      · refine List.pairwise_append.mpr ⟨ih.both,List.pairwise_singleton _ _,fun x _ y hy => ?_⟩
        rw [List.mem_singleton.mp hy]
        exact .inr (.inl hnew)
    | run k =>
      have hg : G s.world.db s'.world.db := hc.along (h.labelled (.start h0) hc.writes) hm
      exact ih.run (within_trans hc.keeps) ⟨hc.keeps.refl _,h.inv⟩ ⟨hc.keeps.refl _,hi'⟩ ⟨hg,hi'⟩ hm

/-- No two sessions that have succeeded have claimed the same key. -/
theorem Reach.claimed (hc : ClaimsOnce c apply prog S G I) (h0 : s₀.sessions = [])
    (h : Reach apply waits o prog C I s₀ s) :
    s.sessions.Pairwise fun x y => ∀ a b k, x.2 = .closed (.ok a) → y.2 = .closed (.ok b) →
      c.key x.1 a = some k → c.key y.1 b ≠ some k := by
  refine (h.sequenced hc h0).both.imp fun {x y} hxy a b k hx hy hkx hky => ?_
  obtain ⟨i,x⟩ := x
  obtain ⟨j,y⟩ := y
  simp only at hx hy
  subst hx hy
  rcases hxy with hp | hp | ⟨d₀,d₁,e₀,e₁,hx,hy,he⟩
  · exact hp
  · exact hp
  · obtain ⟨hfree,htaken⟩ := hx.settles.2 k hkx
    obtain ⟨hfree',htaken'⟩ := hy.settles.2 k hky
    rcases he with he | he
    · exact hfree' (hc.taken he htaken)
    · exact hfree (hc.taken he htaken')

theorem Reach.good (hc : ClaimsOnce c apply prog S G I) (h0 : s₀.sessions = [])
    (h : Reach apply waits o prog C I s₀ s) {x : ι × Session D W F X E V α} (hx : x ∈ s.sessions)
    {a : α} (ha : x.2 = .closed (.ok a)) : c.good x.1 a s.world.db := by
  obtain ⟨i,x⟩ := x
  simp only at ha
  subst ha
  rcases (h.sequenced hc h0).each _ hx with hp | ⟨d₀,d₁,hset,hlater⟩
  · exact hp.elim
  · exact hc.good hlater hset.1

theorem Reach.settles (hc : ClaimsOnce c apply prog S G I) (hs : s.Labelled fun _ : ι => S)
    {k : Nat} {i : ι} {x : Session D W F X E V α} {Z : α → Prop}
    (hk : s.sessions[k]? = some (i,x)) (hx : x.Settles (Within G I) Z s.world.db)
    (h : Reach apply waits o prog C I s s') :
    ∃ x', s'.sessions[k]? = some (i,x') ∧ x'.Settles (Within G I) Z s'.world.db := by
  induction h with
  | start _ => exact ⟨x,hk,hx⟩
  | @move s1 s2 m h _ hm hi ih =>
    obtain ⟨y,hy,hset⟩ := ih
    have hr : Within G I s1.world.db s1.world.db := ⟨hc.keeps.refl _,h.inv⟩
    have hg : Within G I s1.world.db s2.world.db :=
      ⟨hc.along (h.labelled hs hc.writes) hm,hi⟩
    obtain ⟨y',hy',hstep⟩ := System.move_session hm hy
    rcases hstep with rfl | ⟨-,hstep⟩
    · exact ⟨_,hy',hset.stable (within_trans hc.keeps) hg⟩
    · exact ⟨y',hy',(hstep.settles hr hset).1⟩

theorem Reach.unchanged (hc : ClaimsOnce c apply prog S G I) (h0 : s₀.sessions = [])
    (h : Reach apply waits o prog C I s₀ s) {k : Nat}
    (hm : s.move apply waits o prog (.run k) = some s')
    {s'' : System D W F X E V α ι} (h' : Reach apply waits o prog C I s' s'') {i : ι}
    {r : Outcome E F α} (hr : s''.sessions[k]? = some (i,.closed r)) (hno : r.isOk = false) :
    s'.world.db = s.world.db := by
  have hs : s.Labelled fun _ : ι => S := h.labelled (.start h0) hc.writes
  obtain ⟨hs',-⟩ := hs.move hc.writes hm
  obtain ⟨j,z,z',hz,hstep,hset⟩ := System.run_step hm
  obtain ⟨hlt,-⟩ := List.getElem?_eq_some_iff.mp hz
  have hz' : s'.sessions[k]? = some (j,z') := by simp [hset,hlt]
  have hrefl : Within G I s.world.db s.world.db := ⟨hc.keeps.refl _,h.inv⟩
  have hg : Within G I s.world.db s'.world.db := ⟨hc.along hs hm,h'.inv_start⟩
  rcases (h.sequenced hc h0).each _ (List.mem_of_getElem? hz) with hp | ⟨d₀,d₁,hset,-⟩
  · rcases hstep.pending hrefl hg hp with ⟨-,hsame⟩ | hset
    · exact hsame
    · -- It has committed with this move: it can only succeed.
      obtain ⟨y,hy,hend⟩ := h'.settles hc hs' hz' hset
      obtain ⟨-,rfl⟩ := Prod.mk.inj (Option.some.inj (hy.symm.trans hr))
      cases r with
      | ok a => cases hno
      | raised e => exact hend.elim
      | fault f => exact hend.elim
  · exact (hstep.settles hrefl hset).2

end Systems

end Transact
