import TenantAuth.Transact.Interleaving
import TenantAuth.Transact.Table
set_option autoImplicit false

namespace Transact

section Rows
variable {ρ κ : Type} [DecidableEq κ] {R R' : ρ → ρ → Prop} {Born Born' Dies Dies' : ρ → Prop}
  {l l' l'' : List ρ}

/-- From `l` to `l'` the rows have changed within `R`; those that are gone could die, and those
that are new could be born, each with changes before and behind. -/
structure Delta (R : ρ → ρ → Prop) (Born Dies : ρ → Prop) (l l' : List ρ) : Prop where
  kept : ∀ r ∈ l, ∃ r', (r' ∈ l' ∨ Dies r') ∧ R r r'
  found : ∀ r' ∈ l', ∃ r, (r ∈ l ∨ Born r) ∧ R r r'

theorem Delta.refl (hR : ∀ r, R r r) (l : List ρ) : Delta R Born Dies l l :=
  ⟨fun r hr => ⟨r,.inl hr,hR r⟩,fun r hr => ⟨r,.inl hr,hR r⟩⟩

theorem Delta.trans (hR : ∀ {a b c}, R a b → R b c → R a c) (h1 : Delta R Born Dies l l')
    (h2 : Delta R Born Dies l' l'') : Delta R Born Dies l l'' := by
  constructor
  · intro r hr
    obtain ⟨a,ha | ha,hra⟩ := h1.kept r hr
    · obtain ⟨b,hb,hab⟩ := h2.kept a ha
      exact ⟨b,hb,hR hra hab⟩
    · exact ⟨a,.inr ha,hra⟩
  · intro r hr
    obtain ⟨b,hb | hb,hbr⟩ := h2.found r hr
    · obtain ⟨a,ha,hab⟩ := h1.found b hb
      exact ⟨a,ha,hR hab hbr⟩
    · exact ⟨b,.inr hb,hbr⟩

theorem Delta.mono (hR : ∀ {a b}, R a b → R' a b) (hb : ∀ {a}, Born a → Born' a)
    (hd : ∀ {a}, Dies a → Dies' a) (h : Delta R Born Dies l l') : Delta R' Born' Dies' l l' := by
  constructor
  · intro r hr
    obtain ⟨a,ha,hra⟩ := h.kept r hr
    exact ⟨a,ha.imp_right hd,hR hra⟩
  · intro r hr
    obtain ⟨a,ha,har⟩ := h.found r hr
    exact ⟨a,ha.imp_right hb,hR har⟩

theorem Delta.append (hR : ∀ r, R r r) {a : ρ} (ha : Born a) : Delta R Born Dies l (l ++ [a]) := by
  constructor
  · exact fun r hr => ⟨r,.inl (List.mem_append_left _ hr),hR r⟩
  · intro r hr
    rcases List.mem_append.mp hr with hr | hr
    · exact ⟨r,.inl hr,hR r⟩
    · exact ⟨r,.inr (List.mem_singleton.mp hr ▸ ha),hR r⟩

theorem Delta.update (hR : ∀ r, R r r) {key : ρ → κ} {k : κ} {f : ρ → ρ}
    (hf : ∀ r, key r = k → R r (f r)) : Delta R Born Dies l (update key k f l) := by
  constructor
  · intro r hr
    obtain ⟨b,hb,hrb⟩ := exists_mem_update hr (hf r) (hR r)
    exact ⟨b,.inl hb,hrb⟩
  · intro r hr
    rcases mem_update.mp hr with ⟨a,ha,hk,rfl⟩ | ⟨hr,-⟩
    · exact ⟨a,.inl ha,hf a hk⟩
    · exact ⟨r,.inl hr,hR r⟩

theorem Delta.delete (hR : ∀ r, R r r) {key : ρ → κ} {k : κ} (hd : ∀ r, key r = k → Dies r) :
    Delta R Born Dies l (delete key k l) := by
  constructor
  · intro r hr
    by_cases hk : key r = k
    · exact ⟨r,.inr (hd r hk),hR r⟩
    · exact ⟨r,.inl (mem_delete.mpr ⟨hr,hk⟩),hR r⟩
  · exact fun r hr => ⟨r,.inl (mem_delete.mp hr).1,hR r⟩

end Rows

section Runs
variable {D W F X E V α ι : Type} {apply : W → D → Except F D} {waits : W → W → Bool} {o : Nat → X}
  {prog : ι → Prog D W X E V α} {C : System D W F X E V α ι → Move ι → Prop} {I : D → Prop}
  {S : ι → W → Prop} {G : (ι → Prop) → D → D → Prop} {s₀ s s' : System D W F X E V α ι} {m : Move ι}

theorem Prog.Writes.and {S T : W → Prop} {p : Prog D W X E V α} (hs : p.Writes S)
    (ht : p.Writes T) : p.Writes fun w => S w ∧ T w := by
  induction p with
  | pure _ | raise _ => trivial
  | ask _ ih | query _ ih => exact fun x => ih x (hs x) (ht x)
  | add _ _ ih => exact ⟨⟨hs.1,ht.1⟩,ih hs.2 ht.2⟩
  | flush _ ih | commit _ ih | emit _ _ ih => exact ih hs ht

theorem Prog.Writes.mono {S T : W → Prop} {p : Prog D W X E V α} (h : ∀ w, S w → T w)
    (hs : p.Writes S) : p.Writes T := by
  induction p with
  | pure _ | raise _ => trivial
  | ask _ ih | query _ ih => exact fun x => ih x (hs x)
  | add _ _ ih => exact ⟨h _ hs.1,ih hs.2⟩
  | flush _ ih | commit _ ih | emit _ _ ih => exact ih hs

/-- What one of the sessions has been opened for. -/
def System.Opened (s : System D W F X E V α ι) (i : ι) : Prop := ∃ x ∈ s.sessions, x.1 = i

theorem System.actor_opened {i : ι} (h : s.actor m = some i) : s.Opened i := by
  cases m with
  | arrive _ => cases h
  | run k =>
    obtain ⟨x,hx,rfl⟩ := Option.map_eq_some_iff.mp h
    exact ⟨x,List.mem_of_getElem? hx,rfl⟩

theorem System.Opened.move {i : ι} (h : s.Opened i) (hm : s.move apply waits o prog m = some s') :
    s'.Opened i := by
  obtain ⟨x,hx,rfl⟩ := h
  obtain ⟨j,hj⟩ := List.mem_iff_getElem?.mp hx
  obtain ⟨x',hx',-⟩ := System.move_session hm hj
  exact ⟨_,List.mem_of_getElem? hx',rfl⟩

theorem System.Labelled.attributed (hs : s.Labelled S) (hprog : ∀ i, (prog i).Writes (S i))
    (hk : ∀ A, Keeps apply (fun w => ∃ i, A i ∧ S i w) (G A))
    (hm : s.move apply waits o prog m = some s') :
    G (fun i => s.actor m = some i) s.world.db s'.world.db := by
  obtain ⟨-,ws,hws,hf⟩ := hs.move hprog hm
  exact flushAll_rel (hk _) hws hf

theorem Reach.attributed (hs : s₀.Labelled S) (hprog : ∀ i, (prog i).Writes (S i))
    (hk : ∀ A, Keeps apply (fun w => ∃ i, A i ∧ S i w) (G A))
    (hmono : ∀ {A B : ι → Prop} {d d' : D}, (∀ i, A i → B i) → G A d d' → G B d d')
    (h : Reach apply waits o prog C I s₀ s) : G s.Opened s₀.world.db s.world.db := by
  induction h with
  | start _ => exact (hk _).refl _
  | move h _ hm _ ih =>
    have hmove := (h.labelled hs hprog).attributed hprog hk hm
    refine (hk _).trans (hmono (fun i hi => hi.move hm) ih) (hmono (fun i hi => ?_) hmove)
    exact (System.actor_opened hi).move hm

end Runs

end Transact
