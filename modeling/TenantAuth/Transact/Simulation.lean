import TenantAuth.Transact.Interleaving
set_option autoImplicit false

/-! The same programs on two databases. The writes go to the second by another way, and what is
read there is read as a state of the first. The second keeps step with the first. -/

namespace Transact
variable {D D' W F F' X E V α ι T : Type}

/-- The program on a database whose states are read by `read`. -/
def Prog.over (read : D' → D) : Prog D W X E V α → Prog D' W X E V α
  | .pure a => .pure a
  | .raise e => .raise e
  | .ask k => .ask fun x => (k x).over read
  | .query k => .query fun g => (k (read g)).over read
  | .add w k => .add w (k.over read)
  | .flush k => .flush (k.over read)
  | .commit k => .commit (k.over read)
  | .emit v k => .emit v (k.over read)

/-- What a session has still to flush again or to flush. -/
def Session.queue : Session D W F X E V α → List W
  | .running _ own pend => own ++ pend
  | .closed _ => []

/-- Each write is good when its turn comes. -/
def Along (apply : W → D → Except F D) (good : W → D → Prop) : List W → D → Prop
  | [],_ => True
  | w :: ws,d => good w d ∧ ∀ d', apply w d = .ok d' → Along apply good ws d'

instance Along.decidable {apply : W → D → Except F D} {good : W → D → Prop}
    [∀ w d, Decidable (good w d)] : (ws : List W) → (d : D) → Decidable (Along apply good ws d)
  | [],_ => .isTrue trivial
  | w :: ws,d =>
    match h : apply w d with
    | .error _ => decidable_of_iff (good w d) ⟨fun hg => ⟨hg,fun _ hd => by simp [h] at hd⟩,And.left⟩
    | .ok d' =>
      have : Decidable (Along apply good ws d') := Along.decidable ws d'
      decidable_of_iff (good w d ∧ Along apply good ws d')
        (and_congr_right fun _ => ⟨fun hd _ he => Except.ok.inj (h.symm.trans he) ▸ hd,fun hd => hd d' h⟩)

/-- The session that moves has good writes only. -/
def Minds (apply : W → D → Except F D) (good : W → D → Prop) (read : D' → D)
    (s : System D' W F' X E V α ι) : Move ι → Prop
  | .arrive _ => True
  | .run k => ∀ x, s.sessions[k]? = some x → Along apply good x.2.queue (read s.world.db)

instance {apply : W → D → Except F D} {good : W → D → Prop} {read : D' → D}
    [∀ w d, Decidable (good w d)] (s : System D' W F' X E V α ι) (m : Move ι) :
    Decidable (Minds apply good read s m) :=
  match m with
  | .arrive _ => .isTrue trivial
  | .run k => inferInstanceAs (Decidable (∀ x, s.sessions[k]? = some x →
      Along apply good x.2.queue (read s.world.db)))

/-- `g` stands for `d` if `rep g d`. The writes in `S` that are good do on the second database, at
any time `t`, what they do on the first. -/
structure Implements (apply : W → D → Except F D) (send : T → W → D' → Except F' D')
    (rep : D' → D → Prop) (read : D' → D) (S : W → Prop) (good : W → D → Prop) : Prop where
  read : ∀ {g d}, rep g d → read g = d
  ok : ∀ {t w g d d'}, rep g d → S w → good w d → apply w d = .ok d' →
    ∃ g', send t w g = .ok g' ∧ rep g' d'
  error : ∀ {t w g d f}, rep g d → S w → good w d → apply w d = .error f →
    ∃ f', send t w g = .error f'

/-- A session and the same session on the second database. -/
inductive Session.Mirrors (read : D' → D) :
    Session D W F X E V α → Session D' W F' X E V α → Prop
  | running (p : Prog D W X E V α) (own pend : List W) :
    Mirrors read (.running p own pend) (.running (p.over read) own pend)
  | ended (a : α) : Mirrors read (.closed (.ok a)) (.closed (.ok a))
  | raised (e : E) : Mirrors read (.closed (.raised e)) (.closed (.raised e))
  | fault (f : F) (f' : F') : Mirrors read (.closed (.fault f)) (.closed (.fault f'))

structure World.Mirrors (rep : D' → D → Prop) (w : World D V) (w' : World D' V) : Prop where
  db : rep w'.db w.db
  taken : w'.taken = w.taken
  sent : w'.sent = w.sent

structure System.Mirrors (rep : D' → D → Prop) (read : D' → D) (s : System D W F X E V α ι)
    (s' : System D' W F' X E V α ι) : Prop where
  world : s.world.Mirrors rep s'.world
  sessions : List.Forall₂ (fun x x' => x'.1 = x.1 ∧ x.2.Mirrors read x'.2) s.sessions s'.sessions

section Lists
variable {γ δ : Type} {r : γ → δ → Prop} {l : List γ} {l' : List δ}

theorem forall₂_getElem? (h : List.Forall₂ r l l') (k : Nat) : Option.Rel r l[k]? l'[k]? := by
  induction h generalizing k with
  | nil => exact .none
  | cons hr _ ih =>
    cases k with
    | zero => exact .some hr
    | succ k => simpa using ih k

theorem forall₂_set (h : List.Forall₂ r l l') {a : γ} {b : δ} (hr : r a b) (k : Nat) :
    List.Forall₂ r (l.set k a) (l'.set k b) := by
  induction h generalizing k with
  | nil => exact .nil
  | cons hr' htail ih =>
    cases k with
    | zero => exact .cons hr htail
    | succ k => exact .cons hr' (ih k)

theorem forall₂_eraseIdx (h : List.Forall₂ r l l') (k : Nat) :
    List.Forall₂ r (l.eraseIdx k) (l'.eraseIdx k) := by
  induction h generalizing k with
  | nil => exact .nil
  | cons hr htail ih =>
    cases k with
    | zero => exact htail
    | succ k => exact .cons hr (ih k)

end Lists

section Moves
variable {apply : W → D → Except F D} {send : T → W → D' → Except F' D'} {rep : D' → D → Prop}
  {read : D' → D} {S : W → Prop} {good : W → D → Prop} {waits : W → W → Bool} {o : Nat → X}
  {prog : ι → Prog D W X E V α} {t : T} {ws others : List W} {g : D'} {d d' : D}
  {x : Session D W F X E V α} {x' : Session D' W F' X E V α} {w : World D V} {w' : World D' V}
  {s : System D W F X E V α ι} {s' : System D' W F' X E V α ι} {m : Move ι}

theorem Implements.flush_ok (h : Implements apply send rep read S good) (hr : rep g d)
    (hS : ∀ w ∈ ws, S w) (hg : Along apply good ws d) (hf : flushAll apply ws d = .ok d') :
    ∃ g', flushAll (send t) ws g = .ok g' ∧ rep g' d' := by
  induction ws generalizing d g with
  | nil =>
    cases hf
    exact ⟨g,rfl,hr⟩
  | cons w ws ih =>
    unfold flushAll at hf
    cases hw : apply w d with
    | error f => simp [hw] at hf
    | ok d1 =>
      simp only [hw] at hf
      obtain ⟨g1,hsend,hr1⟩ := h.ok (t := t) hr (hS w List.mem_cons_self) hg.1 hw
      obtain ⟨g',hrest,hr'⟩ := ih hr1 (fun v hv => hS v (List.mem_cons_of_mem _ hv)) (hg.2 d1 hw) hf
      exact ⟨g',by simp [flushAll,hsend,hrest],hr'⟩

theorem Implements.flush_error (h : Implements apply send rep read S good) {f : F} (hr : rep g d)
    (hS : ∀ w ∈ ws, S w) (hg : Along apply good ws d) (hf : flushAll apply ws d = .error f) :
    ∃ f', flushAll (send t) ws g = .error f' := by
  induction ws generalizing d g with
  | nil => cases hf
  | cons w ws ih =>
    unfold flushAll at hf
    cases hw : apply w d with
    | error f1 =>
      obtain ⟨f',hsend⟩ := h.error (t := t) hr (hS w List.mem_cons_self) hg.1 hw
      exact ⟨f',by simp [flushAll,hsend]⟩
    | ok d1 =>
      simp only [hw] at hf
      obtain ⟨g1,hsend,hr1⟩ := h.ok (t := t) hr (hS w List.mem_cons_self) hg.1 hw
      obtain ⟨f',hrest⟩ := ih hr1 (fun v hv => hS v (List.mem_cons_of_mem _ hv)) (hg.2 d1 hw) hf
      exact ⟨f',by simp [flushAll,hsend,hrest]⟩

theorem Session.Mirrors.own (h : x.Mirrors read x') : x'.own = x.own := by
  cases h <;> rfl

theorem Session.Mirrors.queue (h : x.Mirrors read x') : x'.queue = x.queue := by
  cases h <;> rfl

theorem Session.Mirrors.next (h : Implements apply send rep read S good) (hx : x.Mirrors read x')
    (hS : x.Writes S) (hw : w.Mirrors rep w') (hg : Along apply good x.queue w.db) :
    Option.Rel (fun y y' => y.1.Mirrors read y'.1 ∧ y.2.Mirrors rep y'.2)
      (x.next apply waits o others w) (x'.next (send t) waits o others w') := by
  cases hx with
  | ended | raised | fault => exact .none
  | running p own pend =>
    obtain ⟨-,hS⟩ := hS
    cases p with
    | pure a => exact .some ⟨.ended a,hw⟩
    | raise e => exact .some ⟨.raised e,hw⟩
    | ask k =>
      simp only [Session.next,Prog.over,hw.taken]
      exact .some ⟨.running _ _ _,hw.db,rfl,hw.sent⟩
    | add v k => exact .some ⟨.running _ _ _,hw⟩
    | emit v k => exact .some ⟨.running _ _ _,hw.db,hw.taken,congrArg (· ++ [v]) hw.sent⟩
    | query k =>
      simp only [Session.next,Prog.over]
      split
      · exact .none
      cases hf : flushAll apply (own ++ pend) w.db with
      | ok v =>
        obtain ⟨g',hflush,hr⟩ := h.flush_ok (t := t) hw.db hS hg hf
        simp only [hflush,h.read hr]
        exact .some ⟨.running _ _ _,hw⟩
      | error f =>
        obtain ⟨f',hflush⟩ := h.flush_error (t := t) hw.db hS hg hf
        simp only [hflush]
        exact .some ⟨.fault _ _,hw⟩
    | flush k =>
      simp only [Session.next,Prog.over]
      split
      · exact .none
      cases hf : flushAll apply (own ++ pend) w.db with
      | ok v =>
        obtain ⟨g',hflush,hr⟩ := h.flush_ok (t := t) hw.db hS hg hf
        simp only [hflush]
        exact .some ⟨.running _ _ _,hw⟩
      | error f =>
        obtain ⟨f',hflush⟩ := h.flush_error (t := t) hw.db hS hg hf
        simp only [hflush]
        exact .some ⟨.fault _ _,hw⟩
    | commit k =>
      simp only [Session.next,Prog.over]
      split
      · exact .none
      cases hf : flushAll apply (own ++ pend) w.db with
      | ok v =>
        obtain ⟨g',hflush,hr⟩ := h.flush_ok (t := t) hw.db hS hg hf
        simp only [hflush]
        exact .some ⟨.running _ _ _,hr,hw.taken,hw.sent⟩
      | error f =>
        obtain ⟨f',hflush⟩ := h.flush_error (t := t) hw.db hS hg hf
        simp only [hflush]
        exact .some ⟨.fault _ _,hw⟩

theorem System.Mirrors.owned (hs : s.Mirrors rep read s') (k : Nat) :
    ((s'.sessions.eraseIdx k).flatMap fun y => y.2.own) =
      (s.sessions.eraseIdx k).flatMap fun y => y.2.own := by
  refine (List.forall₂_eq_eq_eq ▸ List.rel_flatMap (forall₂_eraseIdx hs.sessions k) ?_ :
    (s.sessions.eraseIdx k).flatMap (fun y => y.2.own) = _).symm
  intro y y' hy
  rw [List.forall₂_eq_eq_eq]
  exact hy.2.own.symm

theorem System.Mirrors.running (hs : s.Mirrors rep read s') : s'.running = s.running := by
  have hall := hs.sessions
  unfold System.running
  generalize s.sessions = l at hall ⊢
  generalize s'.sessions = l' at hall ⊢
  induction hall with
  | nil => rfl
  | @cons y y' l l' hy _ ih =>
    obtain ⟨i,x⟩ := y
    obtain ⟨j,x'⟩ := y'
    obtain ⟨rfl,hx⟩ := hy
    cases hx <;> simpa [Session.isRunning] using ih

theorem System.Mirrors.minds (h : Implements apply send rep read S good)
    (hs : s.Mirrors rep read s') :
    Minds apply good read s' m ↔ Minds apply good id s m := by
  cases m with
  | arrive i => exact Iff.rfl
  | run k =>
    have hk := forall₂_getElem? hs.sessions k
    simp only [Minds,h.read hs.world.db,id]
    generalize s.sessions[k]? = a at hk ⊢
    generalize s'.sessions[k]? = a' at hk ⊢
    cases hk with
    | none => simp
    | some hx => simp [hx.2.queue]

theorem System.Mirrors.move (h : Implements apply send rep read S good)
    (hs : s.Mirrors rep read s') (hS : s.Labelled fun _ => S) (hg : Minds apply good id s m) :
    Option.Rel (System.Mirrors rep read) (s.move apply waits o prog m)
      (s'.move (send t) waits o (fun i => (prog i).over read) m) := by
  cases m with
  | arrive i =>
    exact .some ⟨hs.world,List.rel_append hs.sessions (.cons ⟨rfl,.running _ _ _⟩ .nil)⟩
  | run k =>
    have hk := forall₂_getElem? hs.sessions k
    have hin : ∀ y, s.sessions[k]? = some y → y.2.Writes S ∧
        Along apply good y.2.queue s.world.db := fun y hy =>
      ⟨hS y (List.mem_of_getElem? hy),hg y hy⟩
    simp only [System.move,hs.owned k]
    generalize s.sessions[k]? = a at hk hin ⊢
    generalize s'.sessions[k]? = a' at hk ⊢
    cases hk with
    | none => exact .none
    | @some y y' hy =>
      obtain ⟨i,x⟩ := y
      obtain ⟨j,x'⟩ := y'
      obtain ⟨rfl,hx⟩ := hy
      obtain ⟨hwrites,halong⟩ := hin _ rfl
      have hnext : Option.Rel _ (x.next apply waits o
          ((s.sessions.eraseIdx k).flatMap fun y => y.2.own) s.world) (x'.next (send t) waits o
          ((s.sessions.eraseIdx k).flatMap fun y => y.2.own) s'.world) :=
        hx.next h hwrites hs.world halong
      simp only
      generalize x.next apply waits o _ s.world = b at hnext ⊢
      generalize x'.next (send t) waits o _ s'.world = b' at hnext ⊢
      cases hnext with
      | none => exact .none
      | some hy => exact .some ⟨hy.2,forall₂_set hs.sessions ⟨rfl,hy.1⟩ k⟩

/-- What moves lead to on the second database, whose clock may show anything. -/
inductive Served (send : T → W → D' → Except F' D') (waits : W → W → Bool) (o : Nat → X)
    (prog : ι → Prog D' W X E V α) (C : System D' W F' X E V α ι → Move ι → Prop)
    (s₀ : System D' W F' X E V α ι) : System D' W F' X E V α ι → Prop
  | start : Served send waits o prog C s₀ s₀
  | move {s s' : System D' W F' X E V α ι} {m : Move ι} (t : T)
      (h : Served send waits o prog C s₀ s) (hc : C s m)
      (hm : s.move (send t) waits o prog m = some s') : Served send waits o prog C s₀ s'

variable {s₀ : System D W F X E V α ι} {s₀' : System D' W F' X E V α ι} {I : D → Prop}
  {C : List ι → Move ι → Prop}

/-- Every run has a mirror. -/
theorem Reach.served (h : Implements apply send rep read S good) (t : T)
    (hprog : ∀ i, (prog i).Writes S) (hS : s₀.Labelled fun _ => S) (h0 : s₀.Mirrors rep read s₀')
    (hrun : Reach apply waits o prog (fun s m => Minds apply good id s m ∧ C s.running m) I s₀ s) :
    ∃ s', Served send waits o (fun i => (prog i).over read)
      (fun s m => Minds apply good read s m ∧ C s.running m) s₀' s' ∧ s.Mirrors rep read s' := by
  induction hrun with
  | start _ => exact ⟨s₀',.start,h0⟩
  | @move s s1 m hrun hc hm _ ih =>
    obtain ⟨s',hserved,hs⟩ := ih
    have hmove : Option.Rel _ (s.move apply waits o prog m)
        (s'.move (send t) waits o (fun i => (prog i).over read) m) :=
      hs.move h (hrun.labelled hS hprog) hc.1
    rw [hm] at hmove
    generalize hm' : s'.move (send t) waits o (fun i => (prog i).over read) m = a at hmove
    cases hmove with
    | some hs1 =>
      exact ⟨_,.move t hserved ⟨(hs.minds h).mpr hc.1,hs.running ▸ hc.2⟩ hm',hs1⟩

/-- And every run on the second database is the mirror of one. -/
theorem Served.reach (h : Implements apply send rep read S good)
    (hprog : ∀ i, (prog i).Writes S) (hS : s₀.Labelled fun _ => S) (h0 : s₀.Mirrors rep read s₀')
    (hI : ∀ {g d}, rep g d → I d)
    (hrun : Served send waits o (fun i => (prog i).over read)
      (fun s m => Minds apply good read s m ∧ C s.running m) s₀' s') :
    ∃ s, Reach apply waits o prog (fun s m => Minds apply good id s m ∧ C s.running m) I s₀ s ∧
      s.Mirrors rep read s' := by
  induction hrun with
  | start => exact ⟨s₀,.start (hI h0.world.db),h0⟩
  | @move s' s1' m t hrun hc hm ih =>
    obtain ⟨s,hreach,hs⟩ := ih
    have hmind := (hs.minds h).mp hc.1
    have hmove : Option.Rel _ (s.move apply waits o prog m)
        (s'.move (send t) waits o (fun i => (prog i).over read) m) :=
      hs.move h (hreach.labelled hS hprog) hmind
    rw [hm] at hmove
    generalize hm' : s.move apply waits o prog m = a at hmove
    cases hmove with
    | some hs1 => exact ⟨_,.move hreach ⟨hmind,hs.running ▸ hc.2⟩ hm' (hI hs1.world.db),hs1⟩

end Moves

end Transact
