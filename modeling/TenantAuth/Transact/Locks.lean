import TenantAuth.Transact.Interleaving
import Mathlib.Algebra.BigOperators.Group.List.Basic
import Mathlib.Data.Set.Finite.Lemmas
import Mathlib.Logic.Hydra
import Mathlib.Tactic.Abel
set_option autoImplicit false

/-! Sessions that never wait for each other in a circle. A lock that a session asks for is under a
name of its own or ranks above all that it holds; so whoever holds a lock of the highest rank can
go on, and all sessions can be brought to their ends. -/

namespace Transact
variable {D W F X E V α β ι ρ ν : Type}

/-- What writes lock: a lock may be that of a new row, have a name in it, and ranks in the order in
which locks are asked for. A reading offers a name, and a state has the names of its rows. A write
finds what it does not make, and no name appears but with the write that makes its row. -/
structure Locking (apply : W → D → Except F D) (waits : W → W → Bool) (X ρ ν : Type) where
  locks : W → List ρ
  isNew : W → ρ → Bool
  name : ρ → Option ν
  rank : ρ → Nat
  draw : X → ν
  has : D → ν → Prop
  meets : ∀ {w w'}, waits w w' = true → ∃ r ∈ locks w, r ∈ locks w'
  found : ∀ {w d d' r n}, apply w d = .ok d' → r ∈ locks w → isNew w r = false →
    name r = some n → has d n
  made : ∀ {w d d' n}, apply w d = .ok d' → has d' n →
    has d n ∨ ∃ r ∈ locks w, isNew w r = true ∧ name r = some n

section Programs
variable {apply : W → D → Except F D} {waits : W → W → Bool} (L : Locking apply waits X ρ ν)

/-- The lock has a name of the session's own in it. -/
def Locking.Under (mine : ν → Prop) (r : ρ) : Prop := ∃ n, L.name r = some n ∧ mine n

/-- The lock ranks above all that the session holds. -/
def Locking.Above (own : List W) (r : ρ) : Prop := ∀ v ∈ own, ∀ q ∈ L.locks v, L.rank q < L.rank r

def Locking.Allows (mine : ν → Prop) (own : List W) (w : W) : Prop :=
  ∀ r ∈ L.locks w, L.Under mine r ∨ L.isNew w r = false ∧ L.Above own r

/-- What the program queues is allowed, and names are good until the next commit. -/
def Prog.Orderly : Prog D W X E V α → (ν → Prop) → List W → List W → Prop
  | .pure _, _, _, _ | .raise _, _, _, _ => True
  | .ask k, mine, own, pend => ∀ x, (k x).Orderly (fun n => mine n ∨ n = L.draw x) own pend
  | .query k, mine, own, pend => ∀ d, (k d).Orderly mine (own ++ pend) []
  | .add w k, mine, own, pend => L.Allows mine own w ∧ k.Orderly mine own (pend ++ [w])
  | .flush k, mine, own, pend => k.Orderly mine (own ++ pend) []
  | .commit k, _, _, _ => k.Orderly (fun _ => False) [] []
  | .emit _ k, mine, own, pend => k.Orderly mine own pend

def Session.Orderly (mine : ν → Prop) : Session D W F X E V α → Prop
  | .running p own pend => p.Orderly L mine own pend ∧
      (∀ w ∈ own, ∀ r ∈ L.locks w, L.isNew w r = true → L.Under mine r) ∧
      ∀ w ∈ pend, L.Allows mine own w
  | .closed _ => True

end Programs

section Flushes
variable {apply : W → D → Except F D} {waits : W → W → Bool} {L : Locking apply waits X ρ ν}
  {ws : List W} {d d' : D} {w : W} {r : ρ} {n : ν}

theorem Locking.made_flush (hf : flushAll apply ws d = .ok d') (h : L.has d' n) :
    L.has d n ∨ ∃ w ∈ ws, ∃ r ∈ L.locks w, L.isNew w r = true ∧ L.name r = some n := by
  induction ws generalizing d with
  | nil =>
    cases hf
    exact .inl h
  | cons u ws ih =>
    unfold flushAll at hf
    cases hu : apply u d with
    | error e => simp [hu] at hf
    | ok d1 =>
      simp only [hu] at hf
      rcases ih hf with h1 | ⟨w,hw,hr⟩
      · exact (L.made hu h1).imp_right fun h => ⟨u,List.mem_cons_self,h⟩
      · exact .inr ⟨w,List.mem_cons_of_mem _ hw,hr⟩

theorem Locking.found_flush (hf : flushAll apply ws d = .ok d') (hw : w ∈ ws)
    (hr : r ∈ L.locks w) (hn : L.isNew w r = false) (hname : L.name r = some n) :
    L.has d n ∨ ∃ w ∈ ws, ∃ r ∈ L.locks w, L.isNew w r = true ∧ L.name r = some n := by
  induction ws generalizing d with
  | nil => cases hw
  | cons u ws ih =>
    unfold flushAll at hf
    cases hu : apply u d with
    | error e => simp [hu] at hf
    | ok d1 =>
      simp only [hu] at hf
      rcases List.mem_cons.mp hw with rfl | hw
      · exact .inl (L.found hu hr hn hname)
      · rcases ih hf hw with h1 | ⟨v,hv,hvr⟩
        · exact (L.made hu h1).imp_right fun h => ⟨u,List.mem_cons_self,h⟩
        · exact .inr ⟨v,List.mem_cons_of_mem _ hv,hvr⟩

end Flushes

section Systems
variable {apply : W → D → Except F D} {waits : W → W → Bool} (L : Locking apply waits X ρ ν)
  (o : Nat → X)

def Locking.Offered (M : Nat → Prop) (n : ν) : Prop := ∃ i, M i ∧ L.draw (o i) = n

/-- The readings whose names the session may yet use: those that it has made since its last commit
and those that are still to come. -/
def System.Spare (s : System D W F X E V α ι) (N : Nat → Nat → Prop) (k i : Nat) : Prop :=
  N k i ∨ s.world.taken ≤ i

/-- Each session has readings of its own, and nobody else has used the names that they offer. -/
structure Apart (N : Nat → Nat → Prop) (s : System D W F X E V α ι) : Prop where
  drawn : ∀ {k i}, N k i → k < s.sessions.length ∧ i < s.world.taken
  apart : ∀ {j k i}, N j i → N k i → j = k
  orderly : ∀ {k l} {x : Session D W F X E V α}, s.sessions[k]? = some (l,x) →
    x.Orderly L (L.Offered o (N k))
  unused : ∀ {n}, L.has s.world.db n → ∀ {k i}, s.Spare N k i → L.draw (o i) ≠ n
  held : ∀ {k l} {x : Session D W F X E V α} {w r n}, s.sessions[k]? = some (l,x) → w ∈ x.own →
    r ∈ L.locks w → L.name r = some n → ∀ {j i}, j ≠ k → s.Spare N j i → L.draw (o i) ≠ n

variable {L o} {prog : ι → Prog D W X E V α} {s s' : System D W F X E V α ι} {N : Nat → Nat → Prop}
  {k : Nat} {l : ι} {x x' : Session D W F X E V α} {w' : World D V} {M : Nat → Prop}

theorem Apart.step (hinj : Function.Injective fun i => L.draw (o i)) (h : Apart L o N s)
    (hx : s.sessions[k]? = some (l,x)) (htaken : s.world.taken ≤ w'.taken)
    (hM : ∀ i, M i → i < w'.taken ∧ s.Spare N k i) (hord : x'.Orderly L (L.Offered o M))
    (hhas : ∀ n, L.has w'.db n → L.has s.world.db n ∨ ∃ i, N k i ∧ ¬ M i ∧ L.draw (o i) = n)
    (hown : ∀ w ∈ x'.own, ∀ r ∈ L.locks w, ∀ n, L.name r = some n →
      L.has s.world.db n ∨ (∃ i, N k i ∧ L.draw (o i) = n) ∨ w ∈ x.own) :
    Apart L o (fun j i => if j = k then M i else N j i) ⟨w',s.sessions.set k (l,x')⟩ := by
  obtain ⟨hlt,-⟩ := List.getElem?_eq_some_iff.mp hx
  -- Nobody gains a reading that was another's.
  have hspare : ∀ {j i}, System.Spare (⟨w',s.sessions.set k (l,x')⟩ : System D W F X E V α ι)
      (fun j i => if j = k then M i else N j i) j i → s.Spare N j i := by
    intro j i hs
    rcases hs with hs | hs
    · by_cases hj : j = k
      · subst hj
        exact (hM i (by simpa using hs)).2
      · exact .inl (by simpa [hj] using hs)
    · exact .inr (Nat.le_trans htaken hs)
  have hforeign : ∀ {j i n}, j ≠ k → s.Spare N j i → (∃ m, N k m ∧ L.draw (o m) = n) →
      L.draw (o i) ≠ n := by
    rintro j i n hj hs ⟨m,hm,hr⟩ he
    obtain rfl : i = m := hinj (he.trans hr.symm)
    rcases hs with hs | hs
    · exact hj (h.apart hs hm)
    · exact absurd (h.drawn hm).2 (by omega)
  constructor
  · intro j i hN
    simp only [List.length_set]
    by_cases hj : j = k
    · subst hj
      exact ⟨hlt,(hM i (by simpa using hN)).1⟩
    · have hN : N j i := by simpa [hj] using hN
      exact ⟨(h.drawn hN).1,Nat.lt_of_lt_of_le (h.drawn hN).2 htaken⟩
  · intro a b i ha hb
    by_cases hak : a = k
    · by_cases hbk : b = k
      · exact hak.trans hbk.symm
      · have hb : N b i := by simpa [hbk] using hb
        rcases (hM i (by simpa [hak] using ha)).2 with hs | hs
        · exact hak.trans (h.apart hs hb)
        · exact absurd (h.drawn hb).2 (by omega)
    · have ha : N a i := by simpa [hak] using ha
      by_cases hbk : b = k
      · rcases (hM i (by simpa [hbk] using hb)).2 with hs | hs
        · exact (h.apart ha hs).trans hbk.symm
        · exact absurd (h.drawn ha).2 (by omega)
      · exact h.apart ha (by simpa [hbk] using hb)
  · intro j l' y hy
    by_cases hj : j = k
    · subst hj
      simp only [List.getElem?_set_self hlt,Option.some.injEq,Prod.mk.injEq] at hy
      obtain ⟨-,rfl⟩ := hy
      simpa using hord
    · rw [List.getElem?_set_ne (Ne.symm hj)] at hy
      simpa [hj] using h.orderly hy
  · intro n hn j i hs he
    rcases hhas n hn with hold | ⟨m,hm,hno,hmr⟩
    · exact h.unused hold (hspare hs) he
    · by_cases hj : j = k
      · subst hj
        obtain rfl : i = m := hinj (he.trans hmr.symm)
        rcases hs with hs | hs
        · exact hno (by simpa using hs)
        · exact absurd (Nat.lt_of_lt_of_le (h.drawn hm).2 htaken) (Nat.not_lt.mpr hs)
      · exact hforeign hj (hspare hs) ⟨m,hm,hmr⟩ he
  · intro a l' y w r n hy hw hr hn j i hj hs
    by_cases hak : a = k
    · subst hak
      simp only [List.getElem?_set_self hlt,Option.some.injEq,Prod.mk.injEq] at hy
      obtain ⟨-,rfl⟩ := hy
      rcases hown w hw r hr n hn with hold | hnew | hold
      · exact h.unused hold (hspare hs)
      · exact hforeign hj (hspare hs) hnew
      · exact h.held hx hold hr hn hj (hspare hs)
    · rw [List.getElem?_set_ne (Ne.symm hak)] at hy
      exact h.held hy hw hr hn hj (hspare hs)

theorem offered_none : L.Offered o (fun _ => False) = fun _ => False := by
  funext n
  simp [Locking.Offered]

theorem offered_next (M : Nat → Prop) (t : Nat) :
    (fun n => L.Offered o M n ∨ n = L.draw (o t)) = L.Offered o fun i => M i ∨ i = t := by
  funext n
  have hn : n = L.draw (o t) ↔ L.draw (o t) = n := eq_comm
  simp only [Locking.Offered,or_and_right,exists_or,exists_eq_left,hn]

theorem Session.Orderly.new {p : Prog D W X E V α} {own pend : List W} {mine : ν → Prop}
    (h : (Session.running p own pend : Session D W F X E V α).Orderly L mine) {w : W} {r : ρ}
    (hw : w ∈ own ++ pend) (hr : r ∈ L.locks w) (hn : L.isNew w r = true) : L.Under mine r := by
  rcases List.mem_append.mp hw with hw | hw
  · exact h.2.1 w hw r hr hn
  · rcases h.2.2 w hw r hr with hm | ⟨hno,-⟩
    · exact hm
    · exact absurd (hno.symm.trans hn) (by simp)

theorem Locking.Under.mono {mine mine' : ν → Prop} {r : ρ} (hm : ∀ n, mine n → mine' n)
    (h : L.Under mine r) : L.Under mine' r := h.imp fun n => And.imp_right (hm n)

theorem Locking.Allows.mono {mine mine' : ν → Prop} {own : List W} {w : W}
    (hm : ∀ n, mine n → mine' n) (h : L.Allows mine own w) : L.Allows mine' own w :=
  fun r hr => (h r hr).imp_left (.mono hm)

theorem Session.Orderly.offered {p : Prog D W X E V α} {own pend : List W} {n : ν}
    (h : (Session.running p own pend : Session D W F X E V α).Orderly L (L.Offered o (N k)))
    (hmade : ∃ w ∈ own ++ pend, ∃ r ∈ L.locks w, L.isNew w r = true ∧ L.name r = some n) :
    ∃ i, N k i ∧ L.draw (o i) = n := by
  obtain ⟨w,hw,r,hr,hnew,hn⟩ := hmade
  obtain ⟨m,hm,hoff⟩ := h.new hw hr hnew
  exact Option.some.inj (hm.symm.trans hn) ▸ hoff

/-- The locks that a session holds behind a flush: on what was there before, on what it has made, or
held before. -/
theorem Session.Orderly.held {p : Prog D W X E V α} {own pend : List W} {v : D} {w : W} {r : ρ}
    {n : ν} (h : (Session.running p own pend : Session D W F X E V α).Orderly L (L.Offered o (N k)))
    (hf : flushAll apply (own ++ pend) s.world.db = .ok v) (hw : w ∈ own ++ pend)
    (hr : r ∈ L.locks w) (hn : L.name r = some n) :
    L.has s.world.db n ∨ (∃ i, N k i ∧ L.draw (o i) = n) ∨ w ∈ own := by
  cases hnew : L.isNew w r with
  | true => exact .inr (.inl (h.offered ⟨w,hw,r,hr,hnew,hn⟩))
  | false => exact (L.found_flush hf hw hr hnew hn).imp_right fun hm => .inl (h.offered hm)

theorem Apart.run (hinj : Function.Injective fun i => L.draw (o i)) (h : Apart L o N s)
    (hm : s.move apply waits o prog (.run k) = some s') : ∃ N, Apart L o N s' := by
  simp only [System.move] at hm
  split at hm
  · cases hm
  rename_i l x hx
  split at hm
  · cases hm
  rename_i x' w' hn
  cases hm
  have hord := h.orderly hx
  -- A session that makes no use of the database keeps what it has.
  have hquiet : x'.Orderly L (L.Offered o (N k)) → w' = s.world →
      (∀ w ∈ x'.own, w ∈ x.own) → ∃ N, Apart L o N ⟨w',s.sessions.set k (l,x')⟩ := by
    rintro hord' rfl hown
    exact ⟨_,h.step hinj hx (Nat.le_refl _) (fun i hi => ⟨(h.drawn hi).2,.inl hi⟩) hord'
      (fun r hr => .inl hr) fun w hw r _ n _ => .inr (.inr (hown w hw))⟩
  have hclosed : ∀ r, x' = .closed r → w' = s.world →
      ∃ N, Apart L o N ⟨w',s.sessions.set k (l,x')⟩ := by
    rintro r rfl hw
    exact hquiet trivial hw fun _ hw => by cases hw
  cases x with
  | closed r => cases hn
  | running p own pend =>
    have hsent : ∀ {q : Prog D W X E V α} {v : D}, flushAll apply (own ++ pend) s.world.db = .ok v →
        q.Orderly L (L.Offered o (N k)) (own ++ pend) [] →
        ∃ N, Apart L o N ⟨s.world,s.sessions.set k (l,.running q (own ++ pend) [])⟩ := by
      intro q v hf hq
      refine ⟨_,h.step hinj hx (Nat.le_refl _) (fun i hi => ⟨(h.drawn hi).2,.inl hi⟩)
        ⟨hq,fun w hw r hr hnew => hord.new hw hr hnew,List.forall_mem_nil _⟩ (fun n hn => .inl hn)
        fun w hw r hr n hn => hord.held hf hw hr hn⟩
    cases p with
    | pure a =>
      cases hn
      exact hclosed _ rfl rfl
    | raise e =>
      cases hn
      exact hclosed _ rfl rfl
    | ask kk =>
      cases hn
      have hp := hord.1 (o s.world.taken)
      rw [offered_next] at hp
      have hmore : ∀ n, L.Offered o (N k) n →
          L.Offered o (fun i => N k i ∨ i = s.world.taken) n := by
        rintro n ⟨i,hi,he⟩
        exact ⟨i,.inl hi,he⟩
      refine ⟨_,h.step hinj hx (Nat.le_succ _) (M := fun i => N k i ∨ i = s.world.taken) ?_
        ⟨hp,fun w hw r hr hnew => (hord.2.1 w hw r hr hnew).mono hmore,
          fun w hw => (hord.2.2 w hw).mono hmore⟩ (fun n hn => .inl hn)
        fun w hw r _ n _ => .inr (.inr hw)⟩
      rintro i (hi | rfl)
      · exact ⟨Nat.lt_succ_of_lt (h.drawn hi).2,.inl hi⟩
      · exact ⟨Nat.lt_succ_self _,.inr (Nat.le_refl _)⟩
    | query kk =>
      simp only [Session.next] at hn
      split at hn
      · cases hn
      split at hn
      · rename_i v hf
        cases hn
        exact hsent hf (hord.1 v)
      · cases hn
        exact hclosed _ rfl rfl
    | add u kk =>
      cases hn
      refine hquiet ⟨hord.1.2,hord.2.1,fun w hw => ?_⟩ rfl fun _ hw => hw
      rcases List.mem_append.mp hw with hw | hw
      · exact hord.2.2 w hw
      · exact List.mem_singleton.mp hw ▸ hord.1.1
    | flush kk =>
      simp only [Session.next] at hn
      split at hn
      · cases hn
      split at hn
      · rename_i v hf
        cases hn
        exact hsent hf hord.1
      · cases hn
        exact hclosed _ rfl rfl
    | commit kk =>
      simp only [Session.next] at hn
      split at hn
      · cases hn
      split at hn
      · rename_i v hf
        cases hn
        have hp : kk.Orderly L (L.Offered o fun _ => False) [] [] := by
          rw [offered_none]
          exact hord.1
        refine ⟨_,h.step hinj hx (Nat.le_refl _) (M := fun _ => False) (fun i hi => hi.elim)
          ⟨hp,List.forall_mem_nil _,List.forall_mem_nil _⟩ (fun n hn => ?_)
          fun w hw => by cases hw⟩
        refine (L.made_flush hf hn).imp_right fun hmade => ?_
        obtain ⟨i,hi,he⟩ := hord.offered hmade
        exact ⟨i,hi,id,he⟩
      · cases hn
        exact hclosed _ rfl rfl
    | emit u kk =>
      cases hn
      exact ⟨_,h.step hinj hx (Nat.le_refl _) (fun i hi => ⟨(h.drawn hi).2,.inl hi⟩) hord
        (fun n hn => .inl hn) fun w hw r _ n _ => .inr (.inr hw)⟩

theorem Apart.move (hinj : Function.Injective fun i => L.draw (o i))
    (hprog : ∀ l, (prog l).Orderly L (fun _ => False) [] [])
    (h : Apart L o N s) {m : Move ι} (hm : s.move apply waits o prog m = some s') :
    ∃ N, Apart L o N s' := by
  cases m with
  | run k => exact h.run hinj hm
  | arrive l =>
    cases hm
    have hnone : N s.sessions.length = fun _ => False := by
      funext i
      exact eq_false fun hi => Nat.lt_irrefl _ (h.drawn hi).1
    have hcases : ∀ {k l'} {x : Session D W F X E V α},
        (s.sessions ++ [(l,.running (prog l) [] [])])[k]? = some (l',x) →
          s.sessions[k]? = some (l',x) ∨
            k = s.sessions.length ∧ l' = l ∧ x = .running (prog l) [] [] := by
      intro k l' x hk
      rcases Nat.lt_or_ge k s.sessions.length with hlt | hge
      · rw [List.getElem?_append_left hlt] at hk
        exact .inl hk
      · rw [List.getElem?_append_right hge] at hk
        obtain ⟨h0,he⟩ := List.getElem?_eq_some_iff.mp hk
        simp only [List.length_singleton] at h0
        simp only [List.getElem_singleton,Prod.mk.injEq] at he
        exact .inr ⟨by omega,he.1.symm,he.2.symm⟩
    refine ⟨N,fun hi => ?_,h.apart,fun {k l' x} hk => ?_,h.unused,fun {k l' x w r n} hk hw => ?_⟩
    · simp only [List.length_append,List.length_singleton]
      exact ⟨Nat.lt_succ_of_lt (h.drawn hi).1,(h.drawn hi).2⟩
    · rcases hcases hk with hk | ⟨rfl,rfl,rfl⟩
      · exact h.orderly hk
      · rw [hnone,offered_none]
        exact ⟨hprog _,List.forall_mem_nil _,List.forall_mem_nil _⟩
    · rcases hcases hk with hk | ⟨rfl,rfl,rfl⟩
      · exact h.held hk hw
      · cases hw

end Systems

section Progress
variable {apply : W → D → Except F D} {waits : W → W → Bool} {L : Locking apply waits X ρ ν}
  {o : Nat → X} {prog : ι → Prog D W X E V α} {s s' s₀ : System D W F X E V α ι}
  {N : Nat → Nat → Prop} {k : Nat} {l : ι} {x : Session D W F X E V α} {p : Prog D W X E V α}
  {own pend others : List W} {w : World D V}

theorem Session.next_isSome (hb : blocked waits others pend = false) :
    ((Session.running p own pend : Session D W F X E V α).next apply waits o others w).isSome =
      true := by
  cases p with
  | query kk | flush kk | commit kk =>
    simp only [Session.next,hb,Bool.false_eq_true,if_false]
    split <;> rfl
  | _ => rfl

/-- Who waits for another asks for a lock that the other holds, and that ranks above all of his
own. -/
theorem Apart.waiting (h : Apart L o N s) (hk : s.sessions[k]? = some (l,.running p own pend))
    (hb : blocked waits ((s.sessions.eraseIdx k).flatMap fun y => y.2.own) pend = true) :
    ∃ r, (∃ y ∈ s.sessions, ∃ v ∈ y.2.own, r ∈ L.locks v) ∧ L.Above own r := by
  obtain ⟨w,hw,hany⟩ := List.any_eq_true.mp hb
  obtain ⟨v,hv,hwait⟩ := List.any_eq_true.mp hany
  obtain ⟨y,hy,hyown⟩ := List.mem_flatMap.mp hv
  obtain ⟨j,hj,hjy⟩ := List.mem_eraseIdx_iff_getElem?.mp hy
  obtain ⟨r,hr,hr'⟩ := L.meets hwait
  rcases (h.orderly hk).2.2 w hw r hr with ⟨n,hn,i,hi,he⟩ | ⟨-,habove⟩
  · exact absurd he (h.held hjy hyown hr' hn (Ne.symm hj) (.inl hi))
  · exact ⟨r,⟨y,List.mem_of_getElem? hjy,v,hyown,hr'⟩,habove⟩

theorem System.free (hk : s.sessions[k]? = some (l,.running p own pend))
    (hb : blocked waits ((s.sessions.eraseIdx k).flatMap fun y => y.2.own) pend = false) :
    (s.move apply waits o prog (.run k)).isSome = true := by
  have hnext : ((Session.running p own pend).next apply waits o
      ((s.sessions.eraseIdx k).flatMap fun y => y.2.own) s.world).isSome = true :=
    Session.next_isSome hb
  obtain ⟨z,hz⟩ := Option.isSome_iff_exists.mp hnext
  simp only [System.move,hk,hz,Option.isSome_some]

/-- Some session can go on, as long as one is running. -/
theorem Apart.progress (h : Apart L o N s) (hrun : ∃ x ∈ s.sessions, x.2.isRunning = true) :
    ∃ k, (s.move apply waits o prog (.run k)).isSome = true := by
  let locks := s.sessions.flatMap fun y => y.2.own.flatMap L.locks
  have hmem : ∀ {r}, r ∈ locks ↔ ∃ y ∈ s.sessions, ∃ v ∈ y.2.own, r ∈ L.locks v := by
    simp [locks,List.mem_flatMap]
  -- One that is running, and holds a lock of the highest rank if any is held.
  obtain ⟨⟨l,y⟩,hy,hyrun,htop⟩ : ∃ y ∈ s.sessions, y.2.isRunning = true ∧
      ∀ r ∈ locks, ∃ v ∈ y.2.own, ∃ q ∈ L.locks v, L.rank r ≤ L.rank q := by
    by_cases hnone : ∃ r, r ∈ locks
    · obtain ⟨r,hr,hmax⟩ := Set.exists_max_image {r | r ∈ locks} L.rank locks.finite_toSet hnone
      obtain ⟨y,hy,v,hv,hrv⟩ := hmem.mp hr
      refine ⟨y,hy,?_,fun q hq => ⟨v,hv,r,hrv,hmax q hq⟩⟩
      cases hx : y.2 with
      | running p own pend => rfl
      | closed x =>
        rw [hx] at hv
        cases hv
    · obtain ⟨y,hy,hyrun⟩ := hrun
      exact ⟨y,hy,hyrun,fun r hr => absurd ⟨r,hr⟩ hnone⟩
  obtain ⟨k,hk⟩ := List.mem_iff_getElem?.mp hy
  cases y with
  | closed x => cases hyrun
  | running p own pend =>
    refine ⟨k,System.free hk (Bool.eq_false_iff.mpr fun hb => ?_)⟩
    obtain ⟨r,hr,habove⟩ := h.waiting hk hb
    obtain ⟨v,hv,q,hq,hle⟩ := htop r (hmem.mpr hr)
    exact absurd (habove v hv q hq) (Nat.not_lt.mpr hle)

abbrev Onward (apply : W → D → Except F D) (waits : W → W → Bool) (o : Nat → X)
    (prog : ι → Prog D W X E V α) (s s' : System D W F X E V α ι) : Prop :=
  Reach apply waits o prog (fun _ m => ∃ k, m = .run k) (fun _ => True) s s'

theorem Onward.trans {a b c : System D W F X E V α ι} (h1 : Onward apply waits o prog a b)
    (h2 : Onward apply waits o prog b c) : Onward apply waits o prog a c := by
  induction h2 with
  | start _ => exact h1
  | move _ hc hm _ ih => exact .move ih hc hm trivial

/-- What is left of a program behind its next step. -/
inductive Prog.Rest : Prog D W X E V α → Prog D W X E V α → Prop
  | ask (k : X → Prog D W X E V α) (x : X) : Rest (k x) (.ask k)
  | query (k : D → Prog D W X E V α) (d : D) : Rest (k d) (.query k)
  | add (w : W) (k : Prog D W X E V α) : Rest k (.add w k)
  | flush (k : Prog D W X E V α) : Rest k (.flush k)
  | commit (k : Prog D W X E V α) : Rest k (.commit k)
  | emit (v : V) (k : Prog D W X E V α) : Rest k (.emit v k)

theorem Prog.rest_wf : WellFounded (Prog.Rest : Prog D W X E V α → Prog D W X E V α → Prop) := by
  refine ⟨fun p => ?_⟩
  induction p with
  | pure _ | raise _ =>
    refine ⟨_,fun q hq => ?_⟩
    cases hq
  | ask _ ih | query _ ih =>
    refine ⟨_,fun q hq => ?_⟩
    cases hq
    exact ih _
  | add _ _ ih | flush _ ih | commit _ ih | emit _ _ ih =>
    refine ⟨_,fun q hq => ?_⟩
    cases hq
    exact ih

def Session.rest : Session D W F X E V α → Multiset (Prog D W X E V α)
  | .running p _ _ => {p}
  | .closed _ => 0

def System.rest (s : System D W F X E V α ι) : Multiset (Prog D W X E V α) :=
  (s.sessions.map fun y => y.2.rest).sum

theorem Session.Steps.rest {w' : World D V}
    (hn : (Session.running p own pend : Session D W F X E V α).Steps apply o w x w') :
    ∀ q ∈ x.rest, q.Rest p := by
  cases hn with
  | ended | raised | failed _ => exact fun q hq => absurd hq (Multiset.notMem_zero q)
  | asked | queried _ | added | flushed | committed _ | emitted =>
    intro q hq
    rw [Multiset.mem_singleton.mp hq]
    constructor

/-- A step leaves less. -/
theorem System.rest_lt (hm : s.move apply waits o prog (.run k) = some s') :
    Relation.CutExpand Prog.Rest s'.rest s.rest := by
  obtain ⟨l,x,x',hk,hstep,hs'⟩ := System.run_step hm
  cases x with
  | closed r => cases hstep
  | running p own pend =>
    obtain ⟨hlt,hget⟩ := List.getElem?_eq_some_iff.mp hk
    have hset : ∀ y : ι × Session D W F X E V α,
        ((s.sessions.set k y).map fun y => y.2.rest).sum =
          ((s.sessions.map fun y => y.2.rest).take k).sum + y.2.rest +
            ((s.sessions.map fun y => y.2.rest).drop (k + 1)).sum := by
      intro y
      rw [List.map_set,List.sum_set,if_pos (by simpa using hlt)]
    have hbefore := hset (l,.running p own pend)
    rw [← hget,List.set_getElem_self,hget] at hbefore
    refine ⟨x'.rest,p,hstep.rest,?_⟩
    unfold System.rest
    rw [hs',hset,hbefore]
    change _ + x'.rest + _ + {p} = _ + {p} + _ + x'.rest
    abel

/-- Steps can be taken until all sessions have ended. -/
theorem Apart.finishes (hinj : Function.Injective fun i => L.draw (o i)) (h : Apart L o N s) :
    ∃ s', Onward apply waits o prog s s' ∧ ∀ x ∈ s'.sessions, x.2.isRunning = false := by
  -- On what is left of the sessions.
  induction hrest : s.rest using Prog.rest_wf.cutExpand.induction generalizing s N with
  | _ rest ih =>
    by_cases hrun : ∃ x ∈ s.sessions, x.2.isRunning = true
    · obtain ⟨k,hk⟩ := h.progress hrun
      obtain ⟨s1,hm⟩ := Option.isSome_iff_exists.mp hk
      obtain ⟨_,h1⟩ := h.run hinj hm
      obtain ⟨s',hs',hdone⟩ := ih s1.rest (hrest ▸ System.rest_lt hm) h1 rfl
      have hfirst : Onward apply waits o prog s s1 := .move (.start trivial) ⟨k,rfl⟩ hm trivial
      exact ⟨s',hfirst.trans hs',hdone⟩
    · refine ⟨s,.start trivial,fun x hx => ?_⟩
      exact Bool.eq_false_iff.mpr fun hx' => hrun ⟨x,hx,hx'⟩

theorem Reach.apart {C : System D W F X E V α ι → Move ι → Prop} {I : D → Prop}
    (hinj : Function.Injective fun i => L.draw (o i))
    (hprog : ∀ l, (prog l).Orderly L (fun _ => False) [] [])
    (h0 : s₀.sessions = [])
    (hfresh : ∀ n, L.has s₀.world.db n → ∀ i, s₀.world.taken ≤ i → L.draw (o i) ≠ n)
    (h : Reach apply waits o prog C I s₀ s) : ∃ N, Apart L o N s := by
  induction h with
  | start _ =>
    refine ⟨fun _ _ => False,fun h => h.elim,fun h => h.elim,fun hk => ?_,fun hr _ i hs => ?_,
      fun hk => ?_⟩
    · simp [h0] at hk
    · exact hfresh _ hr i (hs.resolve_left id)
    · simp [h0] at hk
  | move _ _ hm _ ih =>
    obtain ⟨_,hN⟩ := ih
    exact hN.move hinj hprog hm

end Progress

end Transact
