import Mathlib.Data.List.Forall2
import Mathlib.Logic.Relation
import TenantAuth.Transact.Rules
set_option autoImplicit false

/-! Sessions that run at the same time. The level is READ COMMITTED: a query sees what is
committed at that moment and the session's own writes; a write that gets in the way of
another session's uncommitted write waits until that session is closed or has committed. -/

namespace Transact
variable {D W F X E V α β ι κ : Type}

/-- A session is running, with the writes it has sent and those it has queued, or closed. -/
inductive Session (D W F X E V α : Type) where
  | running (p : Prog D W X E V α) (own pend : List W)
  | closed (r : Outcome E F α)

def Session.own : Session D W F X E V α → List W
  | .running _ own _ => own
  | .closed _ => []

def Session.isRunning : Session D W F X E V α → Bool
  | .running _ _ _ => true
  | .closed _ => false

def Session.succeeded : Session D W F X E V α → Bool
  | .closed r => r.isOk
  | .running _ _ _ => false

section Steps
variable (apply : W → D → Except F D) (waits : W → W → Bool) (o : Nat → X)

def blocked (others pend : List W) : Bool := pend.any fun w => others.any (waits w)

/-- One step of a session beside the uncommitted writes of the others, if it need not wait. -/
def Session.next (others : List W) (w : World D V) :
    Session D W F X E V α → Option (Session D W F X E V α × World D V)
  | .running (.pure a) _ _ => some (.closed (.ok a),w)
  | .running (.raise e) _ _ => some (.closed (.raised e),w)
  | .running (.ask k) own pend =>
    some (.running (k (o w.taken)) own pend,{ w with taken := w.taken+1 })
  | .running (.query k) own pend =>
    if blocked waits others pend then none else
    match flushAll apply (own ++ pend) w.db with
    | .ok v => some (.running (k v) (own ++ pend) [],w)
    | .error f => some (.closed (.fault f),w)
  | .running (.add x k) own pend => some (.running k own (pend ++ [x]),w)
  | .running (.flush k) own pend =>
    if blocked waits others pend then none else
    match flushAll apply (own ++ pend) w.db with
    | .ok _ => some (.running k (own ++ pend) [],w)
    | .error f => some (.closed (.fault f),w)
  | .running (.commit k) own pend =>
    if blocked waits others pend then none else
    match flushAll apply (own ++ pend) w.db with
    | .ok v => some (.running k [] [],{ w with db := v })
    | .error f => some (.closed (.fault f),w)
  | .running (.emit v k) own pend => some (.running k own pend,{ w with sent := w.sent ++ [v] })
  | .closed _ => none

/-- All sessions, each with what it was opened for, and what they share. -/
structure System (D W F X E V α ι : Type) where
  world : World D V
  sessions : List (ι × Session D W F X E V α)

/-- What the sessions that have not ended were opened for. -/
def System.running (s : System D W F X E V α ι) : List ι :=
  (s.sessions.filter fun x => x.2.isRunning).map Prod.fst

inductive Move (ι : Type) where
  | arrive (i : ι)
  | run (k : Nat)
  deriving DecidableEq, Repr

variable (prog : ι → Prog D W X E V α)

def System.move (s : System D W F X E V α ι) : Move ι → Option (System D W F X E V α ι)
  | .arrive i => some { s with sessions := s.sessions ++ [(i,.running (prog i) [] [])] }
  | .run k =>
    match s.sessions[k]? with
    | none => none
    | some (i,x) =>
      match x.next apply waits o ((s.sessions.eraseIdx k).flatMap fun y => y.2.own) s.world with
      | none => none
      | some (x',w') => some ⟨w',s.sessions.set k (i,x')⟩

/-- The systems that moves within `C` lead to through committed states within `I`. -/
inductive Reach (C : System D W F X E V α ι → Move ι → Prop) (I : D → Prop)
    (s₀ : System D W F X E V α ι) : System D W F X E V α ι → Prop
  | start (h : I s₀.world.db) : Reach C I s₀ s₀
  | move {s s' : System D W F X E V α ι} {m : Move ι} (h : Reach C I s₀ s) (hc : C s m)
      (hm : s.move apply waits o prog m = some s') (hi : I s'.world.db) : Reach C I s₀ s'

/-- Moves one after the other, as long as each `may` be made, none has to wait, and `ok` holds
of what is committed. -/
def System.play (may : System D W F X E V α ι → Move ι → Bool) (ok : D → Bool)
    (s : System D W F X E V α ι) : List (Move ι) → Option (System D W F X E V α ι)
  | [] => some s
  | m :: ms =>
    if may s m then
      match s.move apply waits o prog m with
      | none => none
      | some s' => if ok s'.world.db then s'.play may ok ms else none
    else none

variable {apply waits o prog}

theorem System.play_reach {C : System D W F X E V α ι → Move ι → Prop} {I : D → Prop}
    {may : System D W F X E V α ι → Move ι → Bool} {ok : D → Bool}
    (hmay : ∀ s m, may s m = true → C s m) (hok : ∀ d, ok d = true → I d)
    {s₀ s s' : System D W F X E V α ι} {ms : List (Move ι)} (h : Reach apply waits o prog C I s₀ s)
    (hp : s.play apply waits o prog may ok ms = some s') : Reach apply waits o prog C I s₀ s' := by
  induction ms generalizing s with
  | nil => cases hp; exact h
  | cons m ms ih =>
    rw [System.play] at hp
    split at hp
    · rename_i hm
      split at hp
      · cases hp
      rename_i s1 hs
      split at hp
      · rename_i h1
        exact ih (.move h (hmay _ _ hm) hs (hok _ h1)) hp
      · cases hp
    · cases hp

theorem flushAll_append_ok {ws : List W} {d d' : D} (h : flushAll apply ws d = .ok d')
    (vs : List W) :
    flushAll apply (ws ++ vs) d = flushAll apply vs d' := by
  rw [flushAll_append,h]

theorem Session.solo (p : Prog D W X E V α) {own pend : List W} {w : World D V} {view : D}
    (hv : flushAll apply own w.db = .ok view) :
    Relation.ReflTransGen
      (fun x x' : Session D W F X E V α × World D V => x.1.next apply waits o [] x.2 = some x')
      (.running p own pend,w)
      (.closed (p.exec apply o ⟨w.db,view,pend,w.taken,w.sent⟩).1,
        ⟨(p.exec apply o ⟨w.db,view,pend,w.taken,w.sent⟩).2.db,
          (p.exec apply o ⟨w.db,view,pend,w.taken,w.sent⟩).2.taken,
          (p.exec apply o ⟨w.db,view,pend,w.taken,w.sent⟩).2.sent⟩) := by
  have hfree : ∀ ws, blocked waits [] ws = false := fun ws => by simp [blocked]
  induction p generalizing own pend w view with
  | pure a => exact .single rfl
  | raise e => exact .single rfl
  | ask k ih => exact .head rfl (ih _ hv)
  | add v k ih => exact .head rfl (ih hv)
  | emit v k ih => exact .head rfl (ih (w := { w with sent := w.sent ++ [v] }) hv)
  | query k ih =>
    have hjoin := flushAll_append_ok hv pend
    cases hf : flushAll apply pend view with
    | ok v =>
      rw [hf] at hjoin
      simp only [Prog.exec,Conn.flushed,hf]
      refine .head ?_ (ih v hjoin)
      simp [Session.next,hfree,hjoin]
    | error f =>
      rw [hf] at hjoin
      simp only [Prog.exec,Conn.flushed,hf]
      refine .single ?_
      simp [Session.next,hfree,hjoin]
  | flush k ih =>
    have hjoin := flushAll_append_ok hv pend
    cases hf : flushAll apply pend view with
    | ok v =>
      rw [hf] at hjoin
      simp only [Prog.exec,Conn.flushed,hf]
      refine .head ?_ (ih hjoin)
      simp [Session.next,hfree,hjoin]
    | error f =>
      rw [hf] at hjoin
      simp only [Prog.exec,Conn.flushed,hf]
      refine .single ?_
      simp [Session.next,hfree,hjoin]
  | commit k ih =>
    have hjoin := flushAll_append_ok hv pend
    cases hf : flushAll apply pend view with
    | ok v =>
      rw [hf] at hjoin
      simp only [Prog.exec,Conn.flushed,hf]
      refine .head ?_ (ih (show flushAll apply [] v = .ok v from rfl) (w := { w with db := v }))
      simp [Session.next,hfree,hjoin]
    | error f =>
      rw [hf] at hjoin
      simp only [Prog.exec,Conn.flushed,hf]
      refine .single ?_
      simp [Session.next,hfree,hjoin]

/-- A session that is opened and closed alone is served. -/
theorem Session.solo_serve (p : Prog D W X E V α) (w : World D V) :
    Relation.ReflTransGen
      (fun x x' : Session D W F X E V α × World D V => x.1.next apply waits o [] x.2 = some x')
      (.running p [] [],w) (.closed (serve apply o p w).1,(serve apply o p w).2) :=
  Session.solo p rfl

end Steps

section Rely
variable (apply : W → D → Except F D) (R : D → D → Prop)

/-- Wherever the program stands, with the writes `ws` of its own, on the committed state `d`:
if the others only move the committed state along `R`, it ends with a value only where `Q`
holds. -/
def Prog.Holds (Q : α → List W → D → Prop) : Prog D W X E V α → List W → D → Prop
  | .pure a, ws, d => Q a ws d
  | .raise _, _, _ => True
  | .ask k, ws, d => ∀ x, (k x).Holds Q ws d
  | .query k, ws, d => ∀ d' v, R d d' → flushAll apply ws d' = .ok v → (k v).Holds Q ws d'
  | .add w k, ws, d => k.Holds Q (ws ++ [w]) d
  | .flush k, ws, d => k.Holds Q ws d
  | .commit k, ws, d => ∀ d' v, R d d' → flushAll apply ws d' = .ok v → R d' v → k.Holds Q [] v
  | .emit _ k, ws, d => k.Holds Q ws d

variable {apply R} {Q : α → List W → D → Prop} {ws : List W} {d : D}

@[simp] theorem holds_pure {a : α} :
    (pure a : Prog D W X E V α).Holds apply R Q ws d ↔ Q a ws d := Iff.rfl

@[simp] theorem holds_raise {e : E} :
    (raise e : Prog D W X E V α).Holds apply R Q ws d ↔ True := Iff.rfl

@[simp] theorem holds_raiseIf {p : Prop} [Decidable p] {e : E} {Q : Unit → List W → D → Prop} :
    (raiseIf p e : Prog D W X E V Unit).Holds apply R Q ws d ↔ (¬ p → Q () ws d) := by
  unfold raiseIf
  split
  · rename_i hp
    exact ⟨fun _ hn => absurd hp hn,fun _ => trivial⟩
  · rename_i hp
    exact ⟨fun h _ => h,fun h => h hp⟩

@[simp] theorem holds_reading {f : X → α} :
    (reading f : Prog D W X E V α).Holds apply R Q ws d ↔ ∀ x, Q (f x) ws d := Iff.rfl

@[simp] theorem holds_select {f : D → α} :
    (select f : Prog D W X E V α).Holds apply R Q ws d ↔
      ∀ d' v, R d d' → flushAll apply ws d' = .ok v → Q (f v) ws d' := Iff.rfl

@[simp] theorem holds_add {w : W} {Q : Unit → List W → D → Prop} :
    (add w : Prog D W X E V Unit).Holds apply R Q ws d ↔ Q () (ws ++ [w]) d := Iff.rfl

@[simp] theorem holds_flush {Q : Unit → List W → D → Prop} :
    (flush : Prog D W X E V Unit).Holds apply R Q ws d ↔ Q () ws d := Iff.rfl

@[simp] theorem holds_commit {Q : Unit → List W → D → Prop} :
    (commit : Prog D W X E V Unit).Holds apply R Q ws d ↔
      ∀ d' v, R d d' → flushAll apply ws d' = .ok v → R d' v → Q () [] v := Iff.rfl

@[simp] theorem holds_bind {p : Prog D W X E V β} {f : β → Prog D W X E V α} :
    (p >>= f).Holds apply R Q ws d ↔
      p.Holds apply R (fun b ws d => (f b).Holds apply R Q ws d) ws d := by
  change (p.bind f).Holds apply R Q ws d ↔ _
  induction p generalizing ws d with
  | pure b => exact Iff.rfl
  | raise e => exact Iff.rfl
  | ask k ih => exact forall_congr' fun x => ih x
  | query k ih =>
    exact forall_congr' fun d' => forall_congr' fun v => imp_congr_right fun _ =>
      imp_congr_right fun _ => ih v
  | add w k ih => exact ih
  | flush k ih => exact ih
  | commit k ih =>
    exact forall_congr' fun d' => forall_congr' fun v => imp_congr_right fun _ =>
      imp_congr_right fun _ => imp_congr_right fun _ => ih
  | emit v k ih => exact ih

/-- What the others do keeps the assertion, if it keeps its end. -/
theorem Prog.Holds.stable {p : Prog D W X E V α} {d' : D}
    (hR : ∀ {a b c}, R a b → R b c → R a c)
    (hQ : ∀ {a ws d d'}, R d d' → Q a ws d → Q a ws d') (hd : R d d')
    (h : p.Holds apply R Q ws d) : p.Holds apply R Q ws d' := by
  induction p generalizing ws d d' with
  | pure a => exact hQ hd h
  | raise e => trivial
  | ask k ih => exact fun x => ih x hd (h x)
  | query k ih => exact fun d1 v h1 => h d1 v (hR hd h1)
  | add w k ih => exact ih hd h
  | flush k ih => exact ih hd h
  | commit k ih => exact fun d1 v h1 => h d1 v (hR hd h1)
  | emit v k ih => exact ih hd h

end Rely

section Soundness
variable {apply : W → D → Except F D} {waits : W → W → Bool} {o : Nat → X} {S : W → Prop}
  {G R : D → D → Prop} {I : D → Prop} {Q : α → D → Prop} {others : List W} {w w' : World D V}
  {x x' : Session D W F X E V α}

def Session.Writes (S : W → Prop) : Session D W F X E V α → Prop
  | .running p own pend => p.Writes S ∧ ∀ w ∈ own ++ pend, S w
  | .closed _ => True

/-- The session ends with a value only where `Q` holds, if the others move along `R`. -/
def Session.Holds (apply : W → D → Except F D) (R : D → D → Prop) (Q : α → D → Prop) (d : D) :
    Session D W F X E V α → Prop
  | .running p own pend => p.Holds apply R (fun a _ d => Q a d) (own ++ pend) d
  | .closed (.ok a) => Q a d
  | .closed (.raised _) | .closed (.fault _) => True

/-- The step that each kind of program takes. -/
inductive Session.Steps (apply : W → D → Except F D) (o : Nat → X) (w : World D V) :
    Session D W F X E V α → Session D W F X E V α → World D V → Prop
  | ended {a : α} {own pend : List W} :
    Steps apply o w (.running (.pure a) own pend) (.closed (.ok a)) w
  | raised {e : E} {own pend : List W} :
    Steps apply o w (.running (.raise e) own pend) (.closed (.raised e)) w
  | asked {k : X → Prog D W X E V α} {own pend : List W} :
    Steps apply o w (.running (.ask k) own pend) (.running (k (o w.taken)) own pend)
      { w with taken := w.taken+1 }
  | queried {k : D → Prog D W X E V α} {own pend : List W} {v : D}
      (hf : flushAll apply (own ++ pend) w.db = .ok v) :
    Steps apply o w (.running (.query k) own pend) (.running (k v) (own ++ pend) []) w
  | added {u : W} {k : Prog D W X E V α} {own pend : List W} :
    Steps apply o w (.running (.add u k) own pend) (.running k own (pend ++ [u])) w
  | flushed {k : Prog D W X E V α} {own pend : List W} :
    Steps apply o w (.running (.flush k) own pend) (.running k (own ++ pend) []) w
  | committed {k : Prog D W X E V α} {own pend : List W} {v : D}
      (hf : flushAll apply (own ++ pend) w.db = .ok v) :
    Steps apply o w (.running (.commit k) own pend) (.running k [] []) { w with db := v }
  | emitted {u : V} {k : Prog D W X E V α} {own pend : List W} :
    Steps apply o w (.running (.emit u k) own pend) (.running k own pend)
      { w with sent := w.sent ++ [u] }
  | failed {p : Prog D W X E V α} {own pend : List W} {f : F}
      (hf : flushAll apply (own ++ pend) w.db = .error f) :
    Steps apply o w (.running p own pend) (.closed (.fault f)) w

theorem Session.next_steps (hn : x.next apply waits o others w = some (x',w')) :
    x.Steps apply o w x' w' := by
  cases x with
  | closed r => cases hn
  | running p own pend =>
    cases p with
    | pure a => cases hn; exact .ended
    | raise e => cases hn; exact .raised
    | ask k => cases hn; exact .asked
    | add u k => cases hn; exact .added
    | emit u k => cases hn; exact .emitted
    | query k =>
      simp only [Session.next] at hn
      split at hn
      · cases hn
      split at hn
      · rename_i v hf
        cases hn
        exact .queried hf
      · rename_i hf
        cases hn
        exact .failed hf
    | flush k =>
      simp only [Session.next] at hn
      split at hn
      · cases hn
      split at hn
      · cases hn
        exact .flushed
      · rename_i hf
        cases hn
        exact .failed hf
    | commit k =>
      simp only [Session.next] at hn
      split at hn
      · cases hn
      split at hn
      · rename_i v hf
        cases hn
        exact .committed hf
      · rename_i hf
        cases hn
        exact .failed hf

theorem Session.Steps.isRunning (hn : x.Steps apply o w x' w') : x.isRunning = true := by
  cases hn <;> rfl

theorem Session.Steps.commits (hn : x.Steps apply o w x' w') (hx : x.Writes S) :
    x'.Writes S ∧ ∃ ws, (∀ v ∈ ws, S v) ∧ flushAll apply ws w.db = .ok w'.db := by
  have hnone : ∃ ws, (∀ v ∈ ws, S v) ∧ flushAll apply ws w.db = .ok w.db :=
    ⟨[],List.forall_mem_nil _,rfl⟩
  cases hn with
  | ended | raised | failed => exact ⟨trivial,hnone⟩
  | asked => exact ⟨⟨hx.1 _,hx.2⟩,hnone⟩
  | queried => exact ⟨⟨hx.1 _,by simpa using hx.2⟩,hnone⟩
  | @added u k own pend =>
    refine ⟨⟨hx.1.2,fun v hv => ?_⟩,hnone⟩
    rw [← List.append_assoc] at hv
    rcases List.mem_append.mp hv with hv | hv
    · exact hx.2 v hv
    · exact List.mem_singleton.mp hv ▸ hx.1.1
  | flushed => exact ⟨⟨hx.1,by simpa using hx.2⟩,hnone⟩
  | committed hf => exact ⟨⟨hx.1,by simp⟩,_,hx.2,hf⟩
  | emitted => exact ⟨hx,hnone⟩

theorem Session.Steps.writes (hn : x.Steps apply o w x' w') (hk : Keeps apply S G)
    (hx : x.Writes S) : x'.Writes S ∧ G w.db w'.db := by
  obtain ⟨hx',ws,hs,hf⟩ := hn.commits hx
  exact ⟨hx',flushAll_rel hk hs hf⟩

/-- The program that is left is in `A`. -/
def Session.At (A : Prog D W X E V α → Prop) : Session D W F X E V α → Prop
  | .running p _ _ => A p
  | .closed _ => False

def Session.WritesOn (A : Prog D W X E V α → Prop) (J : D → Prop) (S : W → Prop) :
    Session D W F X E V α → Prop
  | .running p own pend => p.WritesOn A J S ∧ ∀ w ∈ own ++ pend, S w
  | .closed _ => True

theorem Session.Steps.writesOn {A : Prog D W X E V α → Prop} {J : D → Prop}
    (hn : x.Steps apply o w x' w') (hk : Keeps apply S fun d d' => J d → J d')
    (hJ : x.At A → J w.db) (hx : x.WritesOn A J S) : x'.WritesOn A J S := by
  cases hn with
  | ended | raised | failed => trivial
  | asked => exact ⟨hx.1 _,hx.2⟩
  | queried hf => exact ⟨hx.1 _ fun ha => flushAll_rel hk hx.2 hf (hJ ha),by simpa using hx.2⟩
  | @added u k own pend =>
    refine ⟨hx.1.2,fun v hv => ?_⟩
    rw [← List.append_assoc] at hv
    rcases List.mem_append.mp hv with hv | hv
    · exact hx.2 v hv
    · exact List.mem_singleton.mp hv ▸ hx.1.1
  | flushed => exact ⟨hx.1,by simpa using hx.2⟩
  | committed _ => exact ⟨hx.1,by simp⟩
  | emitted => exact hx

theorem Session.Steps.commitsOn {A : Prog D W X E V α → Prop} {J : D → Prop}
    (hn : x.Steps apply o w x' w') (hx : x.WritesOn A J S) :
    ∃ ws, (∀ v ∈ ws, S v) ∧ flushAll apply ws w.db = .ok w'.db := by
  cases hn with
  | committed hf => exact ⟨_,hx.2,hf⟩
  | _ => exact ⟨[],List.forall_mem_nil _,rfl⟩

theorem Session.Steps.holds (hn : x.Steps apply o w x' w') (hr : R w.db w.db)
    (hg : R w.db w'.db) (hx : x.Holds apply R Q w.db) : x'.Holds apply R Q w'.db := by
  cases hn with
  | ended => exact hx
  | raised | failed => exact trivial
  | asked => exact hx _
  | @queried k own pend v hf =>
    change (k v).Holds apply R _ (own ++ pend ++ []) w.db
    rw [List.append_nil]
    exact hx _ v hr hf
  | @added u k own pend =>
    change k.Holds apply R _ (own ++ (pend ++ [u])) w.db
    rw [← List.append_assoc]
    exact hx
  | @flushed k own pend =>
    change k.Holds apply R _ (own ++ pend ++ []) w.db
    rw [List.append_nil]
    exact hx
  | committed hf => exact hx _ _ hr hf hg
  | emitted => exact hx

theorem Session.Holds.stable {d d' : D} (hR : ∀ {a b c}, R a b → R b c → R a c)
    (hQ : ∀ {a d d'}, R d d' → Q a d → Q a d') (hd : R d d') (hx : x.Holds apply R Q d) :
    x.Holds apply R Q d' := by
  cases x with
  | running p own pend => exact Prog.Holds.stable hR hQ hd hx
  | closed r =>
    cases r with
    | ok a => exact hQ hd hx
    | raised e => trivial
    | fault f => trivial

end Soundness

section Positions
variable {apply : W → D → Except F D} {waits : W → W → Bool} {o : Nat → X}
  {prog : ι → Prog D W X E V α} {C : System D W F X E V α ι → Move ι → Prop} {I : D → Prop}
  {s s' : System D W F X E V α ι} {m : Move ι} {i : ι} {k : Nat} {x : Session D W F X E V α}

/-- A move of one session is a step of it in its place. -/
theorem System.run_step (hm : s.move apply waits o prog (.run k) = some s') :
    ∃ i x x', s.sessions[k]? = some (i,x) ∧ x.Steps apply o s.world x' s'.world ∧
      s'.sessions = s.sessions.set k (i,x') := by
  simp only [System.move] at hm
  split at hm
  · cases hm
  rename_i i x hx
  split at hm
  · cases hm
  rename_i x' w' hn
  cases hm
  exact ⟨i,x,x',hx,Session.next_steps hn,rfl⟩

theorem System.move_session (hm : s.move apply waits o prog m = some s')
    (hk : s.sessions[k]? = some (i,x)) :
    ∃ x', s'.sessions[k]? = some (i,x') ∧
      (x' = x ∨ m = .run k ∧ x.Steps apply o s.world x' s'.world) := by
  obtain ⟨hlt,-⟩ := List.getElem?_eq_some_iff.mp hk
  cases m with
  | arrive j =>
    cases hm
    exact ⟨x,by rw [List.getElem?_append_left hlt,hk],.inl rfl⟩
  | run j =>
    obtain ⟨i',y,y',hy,hstep,hs⟩ := System.run_step hm
    rw [hs]
    by_cases hjk : j = k
    · subst hjk
      obtain ⟨rfl,rfl⟩ := Prod.mk.inj (Option.some.inj (hk.symm.trans hy))
      exact ⟨y',by simp [hlt],.inr ⟨rfl,hstep⟩⟩
    · exact ⟨x,by simp [hjk,hk],.inl rfl⟩

theorem Reach.writesOn {A : Prog D W X E V α → Prop} {J : D → Prop} {S : W → Prop}
    (hk : Keeps apply S fun d d' => J d → J d') (hx : s.sessions[k]? = some (i,x))
    (hw : x.WritesOn A J S)
    (h : Reach apply waits o prog
      (fun s m => m = .run k → (∃ j y, s.sessions[k]? = some (j,y) ∧ y.At A) → J s.world.db) I
      s s') :
    ∃ x', s'.sessions[k]? = some (i,x') ∧ x'.WritesOn A J S := by
  induction h with
  | start _ => exact ⟨x,hx,hw⟩
  | move _ hJ hm _ ih =>
    obtain ⟨y,hy,hyw⟩ := ih
    obtain ⟨y',hy',hstep⟩ := System.move_session hm hy
    rcases hstep with rfl | ⟨rfl,hstep⟩
    · exact ⟨_,hy',hyw⟩
    · exact ⟨y',hy',hstep.writesOn hk (fun ha => hJ rfl ⟨i,y,hy,ha⟩) hyw⟩

end Positions

section Labels
variable {apply : W → D → Except F D} {waits : W → W → Bool} {o : Nat → X}
  {prog : ι → Prog D W X E V α} {C : System D W F X E V α ι → Move ι → Prop} {I : D → Prop}
  {S : ι → W → Prop} {s s' : System D W F X E V α ι} {m : Move ι}

/-- What the session was opened for that makes the move. -/
def System.actor (s : System D W F X E V α ι) : Move ι → Option ι
  | .arrive _ => none
  | .run k => s.sessions[k]?.map Prod.fst

/-- Every session keeps to the writes of what it was opened for. -/
def System.Labelled (S : ι → W → Prop) (s : System D W F X E V α ι) : Prop :=
  ∀ x ∈ s.sessions, x.2.Writes (S x.1)

theorem System.Labelled.start (h0 : s.sessions = []) : s.Labelled S := by
  intro x hx
  rw [h0] at hx
  cases hx

theorem System.Labelled.move (hs : s.Labelled S) (hprog : ∀ i, (prog i).Writes (S i))
    (hm : s.move apply waits o prog m = some s') :
    s'.Labelled S ∧ ∃ ws, (∀ w ∈ ws, ∃ i, s.actor m = some i ∧ S i w) ∧
      flushAll apply ws s.world.db = .ok s'.world.db := by
  cases m with
  | arrive i =>
    cases hm
    refine ⟨fun x hx => ?_,[],List.forall_mem_nil _,rfl⟩
    rcases List.mem_append.mp hx with hx | hx
    · exact hs x hx
    · rw [List.mem_singleton.mp hx]
      exact ⟨hprog i,List.forall_mem_nil _⟩
  | run k =>
    obtain ⟨i,x,x',hx,hstep,hset⟩ := System.run_step hm
    obtain ⟨hx',ws,hws,hf⟩ := hstep.commits (hs _ (List.mem_of_getElem? hx))
    refine ⟨fun y hy => ?_,ws,fun w hw => ⟨i,by simp [actor,hx],hws w hw⟩,hf⟩
    rw [hset] at hy
    rcases List.mem_or_eq_of_mem_set hy with hy | rfl
    · exact hs y hy
    · exact hx'

theorem System.Labelled.along {G : D → D → Prop} (hk : Keeps apply (fun w => ∃ i, S i w) G)
    (hs : s.Labelled S) (hprog : ∀ i, (prog i).Writes (S i))
    (hm : s.move apply waits o prog m = some s') : G s.world.db s'.world.db := by
  obtain ⟨-,ws,hws,hf⟩ := hs.move hprog hm
  refine flushAll_rel hk (fun w hw => ?_) hf
  obtain ⟨i,-,hi⟩ := hws w hw
  exact ⟨i,hi⟩

theorem Reach.inv_start {s₀ : System D W F X E V α ι} (h : Reach apply waits o prog C I s₀ s) :
    I s₀.world.db := by
  induction h with
  | start hi => exact hi
  | move _ _ _ _ ih => exact ih

theorem Reach.inv {s₀ : System D W F X E V α ι} (h : Reach apply waits o prog C I s₀ s) :
    I s.world.db := by
  cases h with
  | start hi => exact hi
  | move _ _ _ hi => exact hi

theorem Reach.labelled {s₀ : System D W F X E V α ι} (hs : s₀.Labelled S)
    (hprog : ∀ i, (prog i).Writes (S i)) (h : Reach apply waits o prog C I s₀ s) :
    s.Labelled S := by
  induction h with
  | start _ => exact hs
  | move _ _ hm _ ih => exact (ih.move hprog hm).1

/-- What the writes of all sessions keep, a run keeps. -/
theorem Reach.along {G : D → D → Prop} (hk : Keeps apply (fun w => ∃ i, S i w) G)
    {s₀ : System D W F X E V α ι} (hs : s₀.Labelled S) (hprog : ∀ i, (prog i).Writes (S i))
    (h : Reach apply waits o prog C I s₀ s) : G s₀.world.db s.world.db := by
  induction h with
  | start _ => exact hk.refl _
  | move h _ hm _ ih => exact hk.trans ih ((h.labelled hs hprog).along hk hprog hm)

/-- An invariant of the writes holds in every state of a run. -/
theorem Reach.within {J : D → Prop} (hk : Keeps apply (fun w => ∃ i, S i w) fun d d' => J d → J d')
    {s₀ : System D W F X E V α ι} (hs : s₀.Labelled S) (hprog : ∀ i, (prog i).Writes (S i))
    (hJ : J s₀.world.db) (h : Reach apply waits o prog C I s₀ s) :
    Reach apply waits o prog C J s₀ s := by
  induction h with
  | start _ => exact .start hJ
  | move h hc hm hi ih => exact .move ih hc hm (Reach.along hk hs hprog (.move h hc hm hi) hJ)

end Labels

section AtMostOnce
variable {apply : W → D → Except F D} {waits : W → W → Bool} {o : Nat → X} {S : W → Prop}
  {prog : ι → Prog D W X E V α} {G : D → D → Prop} {I : D → Prop}

/-- Along `G`, and within `I`. -/
def Within (G : D → D → Prop) (I : D → Prop) (d d' : D) : Prop := G d d' ∧ I d'

/-- What one move makes of a session: the same session, further on. -/
structure Evolves (apply : W → D → Except F D) (R : D → D → Prop) (d d' : D)
    (x x' : ι × Session D W F X E V α) : Prop where
  label : x'.1 = x.1
  closed : x.2.isRunning = false → x'.2 = x.2
  holds : ∀ Q : α → D → Prop, (∀ {a d d'}, R d d' → Q a d → Q a d') →
    x.2.Holds apply R Q d → x'.2.Holds apply R Q d'

theorem pairwise_of_forall₂ {γ : Type} {r r' : γ → γ → Prop} {e : γ → γ → Prop} {l l' : List γ}
    (he : List.Forall₂ e l l') (h : ∀ {a b a' b'}, e a a' → e b b' → r a b → r' a' b')
    (hp : l.Pairwise r) : l'.Pairwise r' := by
  obtain ⟨hlen,hget⟩ := List.forall₂_iff_get.mp he
  rw [List.pairwise_iff_getElem] at hp ⊢
  intro i j hi hj hij
  exact h (hget i (hlen ▸ hi) hi) (hget j (hlen ▸ hj) hj) (hp i j (hlen ▸ hi) (hlen ▸ hj) hij)

theorem forall_of_forall₂ {γ : Type} {r r' : γ → Prop} {e : γ → γ → Prop} {l l' : List γ}
    (he : List.Forall₂ e l l') (h : ∀ {a a'}, e a a' → r a → r' a') (hp : ∀ a ∈ l, r a) :
    ∀ a ∈ l', r' a := by
  obtain ⟨hlen,hget⟩ := List.forall₂_iff_get.mp he
  intro a ha
  obtain ⟨i,hi,rfl⟩ := List.getElem_of_mem ha
  exact h (hget i (hlen ▸ hi) hi) (hp _ (List.getElem_mem _))

theorem within_trans (hk : Keeps apply S G) {a b c : D} (h1 : Within G I a b)
    (h2 : Within G I b c) : Within G I a c := ⟨hk.trans h1.1 h2.1,h2.2⟩

theorem System.run_evolves (hk : Keeps apply S G) {s s' : System D W F X E V α ι} {k : Nat}
    (hs : ∀ x ∈ s.sessions, x.2.Writes S) (hi : I s.world.db) (hi' : I s'.world.db)
    (hm : s.move apply waits o prog (.run k) = some s') :
    (∀ x ∈ s'.sessions, x.2.Writes S) ∧
      List.Forall₂ (Evolves apply (Within G I) s.world.db s'.world.db) s.sessions s'.sessions := by
  obtain ⟨i,x,x',hx,hstep,hset⟩ := System.run_step hm
  obtain ⟨hlt,hget⟩ := List.getElem?_eq_some_iff.mp hx
  obtain ⟨hwrites,hg⟩ := hstep.writes hk (hs _ (List.mem_of_getElem? hx))
  have hr : Within G I s.world.db s.world.db := ⟨hk.refl _,hi⟩
  have hg : Within G I s.world.db s'.world.db := ⟨hg,hi'⟩
  rw [hset]
  refine ⟨fun y hy => ?_,List.forall₂_iff_get.mpr ⟨by simp,fun j hj hj' => ?_⟩⟩
  · rcases List.mem_or_eq_of_mem_set hy with hy | rfl
    · exact hs y hy
    · exact hwrites
  · simp only [List.get_eq_getElem,List.getElem_set]
    split
    · rename_i hkj
      subst hkj
      rw [hget]
      refine ⟨rfl,fun hc => ?_,fun Q _ hQ => hstep.holds hr hg hQ⟩
      exact absurd (hc.symm.trans hstep.isRunning) (by simp)
    · exact ⟨rfl,fun _ => rfl,fun Q hQ hx => hx.stable (within_trans hk) hQ hg⟩

variable (key : ι → Option κ) (spent : κ → D → Prop)

/-- Nothing that is running has the key of the session that arrives. -/
def Alone (s : System D W F X E V α ι) : Move ι → Prop
  | .arrive i => ∀ x ∈ s.sessions, x.2.isRunning = true → key i ≠ none → key x.1 ≠ key i
  | .run _ => True

instance [DecidableEq κ] (s : System D W F X E V α ι) (m : Move ι) : Decidable (Alone key s m) :=
  match m with
  | .arrive i => inferInstanceAs (Decidable
      (∀ x ∈ s.sessions, x.2.isRunning = true → key i ≠ none → key x.1 ≠ key i))
  | .run _ => .isTrue trivial

/-- Programs that spend their key when they end with a value, and end with none when they
begin after it is spent. -/
structure Spends (apply : W → D → Except F D) (prog : ι → Prog D W X E V α) (S : W → Prop)
    (G : D → D → Prop) (I : D → Prop) : Prop where
  keeps : Keeps apply S G
  writes : ∀ i, (prog i).Writes S
  stable : ∀ {c d d'}, Within G I d d' → spent c d → spent c d'
  spends : ∀ {i c d}, key i = some c → I d →
    (prog i).Holds apply (Within G I) (fun _ _ d => spent c d) [] d
  once : ∀ {i c d}, key i = some c → I d → spent c d →
    (prog i).Holds apply (Within G I) (fun _ _ _ => False) [] d

/-- Of two sessions with one key, in the order they arrived, the first has failed or the
second cannot succeed. -/
def Excludes (apply : W → D → Except F D) (R : D → D → Prop) (d : D)
    (x y : ι × Session D W F X E V α) : Prop :=
  ∀ c, key x.1 = some c → key y.1 = some c →
    (x.2.isRunning = false ∧ x.2.succeeded = false) ∨ y.2.Holds apply R (fun _ _ => False) d

variable {key spent}

theorem Reach.excludes (hp : Spends key spent apply prog S G I)
    {s₀ s : System D W F X E V α ι} (h0 : s₀.sessions = [])
    (h : Reach apply waits o prog (Alone key) I s₀ s) :
    I s.world.db ∧ (∀ x ∈ s.sessions, x.2.Writes S) ∧
      (∀ x ∈ s.sessions, ∀ c, key x.1 = some c →
        x.2.Holds apply (Within G I) (fun _ d => spent c d) s.world.db) ∧
      s.sessions.Pairwise (Excludes key apply (Within G I) s.world.db) := by
  induction h with
  | start h => simp [h0,h]
  | @move s s' m h hc hm hi' ih =>
    obtain ⟨hi,hs,hspent,hpair⟩ := ih
    cases m with
    | arrive i =>
      cases hm
      refine ⟨hi',fun x hx => ?_,fun x hx c hkey => ?_,?_⟩
      · rcases List.mem_append.mp hx with hx | hx
        · exact hs x hx
        · rw [List.mem_singleton.mp hx]
          exact ⟨hp.writes i,by simp⟩
      · rcases List.mem_append.mp hx with hx | hx
        · exact hspent x hx c hkey
        · rw [List.mem_singleton.mp hx] at hkey ⊢
          exact hp.spends hkey hi
      · refine List.pairwise_append.mpr ⟨hpair,List.pairwise_singleton _ _,?_⟩
        intro x hx y hy c hkx hky
        rw [List.mem_singleton.mp hy] at hky ⊢
        cases hr : x.2.isRunning with
        | true => exact absurd (hkx.trans hky.symm) (hc x hx hr (by simp [hky]))
        | false =>
          cases hok : x.2.succeeded with
          | false => exact .inl ⟨rfl,rfl⟩
          | true =>
            -- The earlier one has succeeded, so the key is spent.
            have hsp : spent c s.world.db := by
              have hh := hspent x hx c hkx
              revert hok hh
              rcases x.2 with _ | (_ | _ | _) <;> simp [Session.succeeded,Session.Holds,Outcome.isOk]
            exact .inr (hp.once hky hi hsp)
    | run k =>
      obtain ⟨hs',he⟩ := System.run_evolves hp.keeps hs hi hi' hm
      refine ⟨hi',hs',?_,?_⟩
      · refine forall_of_forall₂ he (fun {x x'} hx hh c hkey => ?_) hspent
        exact hx.holds _ (fun hd hsp => hp.stable hd hsp) (hh c (hx.label ▸ hkey))
      · refine pairwise_of_forall₂ he (fun {x y x' y'} hx hy hh c hkx hky => ?_) hpair
        rcases hh c (hx.label ▸ hkx) (hy.label ▸ hky) with hfail | hdoom
        · rw [hx.closed hfail.1]
          exact .inl hfail
        · exact .inr (hy.holds _ (fun _ => id) hdoom)

/-- When sessions with one key never run at the same time, at most one of them succeeds. -/
theorem Reach.atMostOnce (hp : Spends key spent apply prog S G I)
    {s₀ s : System D W F X E V α ι} (h0 : s₀.sessions = [])
    (h : Reach apply waits o prog (Alone key) I s₀ s) :
    s.sessions.Pairwise fun x y => ∀ c, key x.1 = some c → key y.1 = some c →
      ¬ (x.2.succeeded = true ∧ y.2.succeeded = true) := by
  refine (Reach.excludes hp h0 h).2.2.2.imp fun {x y} hxy c hkx hky hok => ?_
  rcases hxy c hkx hky with hfail | hdoom
  · simp [hok.1] at hfail
  · obtain ⟨-,hy⟩ := hok
    revert hy hdoom
    rcases y.2 with _ | (_ | _ | _) <;> simp [Session.succeeded,Session.Holds,Outcome.isOk]

end AtMostOnce

end Transact
