import TenantAuth.Transact.Dues
import TenantAuth.Attribution
set_option autoImplicit false

namespace TenantAuth
open Transact

section Keys
variable (P : Platform)

def Request.newSlug (q : Request) : Option String :=
  match q.route with
  | .tenant (.createTenant _ slug) => some (P.lower (strip slug))
  | _ => none

def Request.newEmail (q : Request) : Option String :=
  match q.route with
  | .auth (.register payload) => some (P.lower payload.email)
  | _ => none

end Keys

def SlugTaken (slug : String) (d : DB) : Prop := slug ∈ d.tenants.map Tenant.slug

def EmailTaken (email : String) (d : DB) : Prop := email ∈ d.users.map User.email

section Programs
variable {P : Platform} {q : Request} {k : String}

theorem takes_slug {t : Tenant} {ws : List Write} (hws : ∀ w ∈ ws, Table.tenants ∉ w.touches)
    (d v : DB) (hf : flushAll Write.apply (.insertTenant t :: ws) d = .ok v) :
    Takes SlugTaken t.slug d v := by
  obtain ⟨hv,hf⟩ := flushAll_cons.mp hf
  have hsame : SameIn .tenants _ v := flushAll_frame hws hf
  simp only [Write.violation,firstViolation_eq_none,List.forall_mem_cons,vacant_iff] at hv
  refine ⟨hv.2.2.2.1,?_⟩
  simp only [SameIn] at hsame
  unfold SlugTaken
  rw [hsame]
  simp [Write.effect]

theorem takes_email {u : User} (d v : DB) (hf : flushAll Write.apply [.insertUser u] d = .ok v) :
    Takes EmailTaken u.email d v := by
  obtain ⟨hv,rfl⟩ := flushAll_single.mp hf
  simp only [Write.violation,firstViolation_eq_none,List.forall_mem_cons,vacant_iff] at hv
  refine ⟨hv.2.2.2.2.1,?_⟩
  simp [EmailTaken,Write.effect]

theorem since_zero (x : Reading) : Since 0 x := Nat.zero_le _

theorem passes_addTenant {name slug : String} {u : UUID} :
    (TenantService.addTenant P name slug u).Passes Write.apply (Since 0) (fun _ => True)
      (fun _ ws => ∃ t m, ws = [.insertTenant t,.insertMember m] ∧ t.slug = P.lower (strip slug))
      [] := by
  unfold TenantService.addTenant uuid4
  simp only [passes_bind,passes_reading,passes_now,passes_add,passes_flush,passes_scalar]
  intro x _ y _ d v _ _
  cases v.roles.find? _ with
  | none => trivial
  | some role =>
    simp only [passes_bind,passes_reading,passes_now,passes_add,passes_pure]
    exact fun _ _ _ _ => ⟨_,_,rfl,rfl⟩

theorem passes_hashPassword {password : String} :
    (hashPassword P password).Passes Write.apply (Since 0) (fun _ => True)
      (fun _ ws => ws = []) [] := by
  unfold hashPassword
  simp only [passes_bind,passes_reading]
  intro x _
  cases P.hashpw password x.salt with
  | none => trivial
  | some hash => rfl

theorem due_createTenant (hk : q.newSlug P = some k) :
    (q.endpoint P).Due Write.apply (Takes SlugTaken k) [] := by
  unfold Request.newSlug at hk
  split at hk
  · rename_i name slug hq
    cases hk
    simp only [Request.endpoint,hq]
    have hcur : (getCurrentUser P q.authorization).Passes Write.apply (Since 0)
        (fun _ => True) (fun _ ws => ws = []) [] := passes_getCurrentUser fun _ _ _ _ _ _ => rfl
    refine hcur.due since_zero fun user _ hws => ?_
    subst hws
    refine Prog.Due.bind (passes_addTenant.due since_zero fun id ws hws => ?_) _
    obtain ⟨t,m,rfl,ht⟩ := hws
    rw [← ht]
    cases P.settings.multiTenantMode with
    | schema => exact due_commit_bind (takes_slug (by simp [Write.touches]))
    | row => exact due_commit_bind (takes_slug (by simp [Write.touches]))
  · cases hk

theorem due_register (hk : q.newEmail P = some k) :
    (q.endpoint P).Due Write.apply (Takes EmailTaken k) [] := by
  unfold Request.newEmail at hk
  split at hk
  · rename_i payload hq
    cases hk
    simp only [Request.endpoint,hq]
    refine Prog.Due.bind ?_ _
    refine Prog.Passes.due since_zero (Q := fun _ ws => ws = []) (fun _ _ _ _ => rfl)
      fun existing _ hws => ?_
    subst hws
    refine (passes_appErrorIf.mpr fun _ => rfl).due since_zero (Q := fun _ ws => ws = [])
      fun _ _ hws => ?_
    subst hws
    refine passes_hashPassword.due since_zero fun hash _ hws => ?_
    subst hws
    exact fun _ _ => due_commit_bind takes_email
  · cases hk

end Programs

section Runs
variable {P : Platform} {o : Readings}
  {s₀ s : System DB Write Fault Reading Exc Mail Body Request}

theorem SlugTaken.changes {A : Route → Prop} {k : String} {d d' : DB} (hc : Changes P A d d')
    (h : SlugTaken k d) : SlugTaken k d' := by
  obtain ⟨t,ht,rfl⟩ := List.mem_map.mp h
  obtain ⟨t',ht' | hno,he⟩ := hc.tenants.kept t ht
  · exact List.mem_map.mpr ⟨t',ht',he.slug⟩
  · exact hno.elim

theorem EmailTaken.changes {A : Route → Prop} {k : String} {d d' : DB} (hc : Changes P A d d')
    (hA : ∀ u, ¬ A (.admin (.deleteUser u))) (h : EmailTaken k d) : EmailTaken k d' := by
  obtain ⟨u,hu,rfl⟩ := List.mem_map.mp h
  obtain ⟨u',hu' | hno,he⟩ := hc.users.kept u hu
  · exact List.mem_map.mpr ⟨u',hu',he.email⟩
  · exact (hA _ hno).elim

/-- In every interleaving of any requests in which no deletion of a user runs beside a creation of a
tenant, at most one creation succeeds for each slug, and in every one in which no deletion of a
user makes a move, at most one registration for each email. The tenant and the user of a success are
there from then on. -/
theorem names_unique (h0 : s₀.sessions = []) :
    (Reach Write.apply Write.waitsFor o.read (Request.endpoint P)
        (fun s m => Separate s.running m = true) (fun _ => True) s₀ s →
      (∀ x ∈ s.sessions, ∀ k, x.1.newSlug P = some k → x.2.succeeded = true →
        SlugTaken k s.world.db) ∧
      s.sessions.Pairwise fun x y => ∀ k, x.1.newSlug P = some k → y.1.newSlug P = some k →
        ¬ (x.2.succeeded = true ∧ y.2.succeeded = true)) ∧
    (Reach Write.apply Write.waitsFor o.read (Request.endpoint P)
        (fun s m => ∀ q, s.actor m = some q → q.deletesUser = false) (fun _ => True) s₀ s →
      (∀ x ∈ s.sessions, ∀ k, x.1.newEmail P = some k → x.2.succeeded = true →
        EmailTaken k s.world.db) ∧
      s.sessions.Pairwise fun x y => ∀ k, x.1.newEmail P = some k → y.1.newEmail P = some k →
        ¬ (x.2.succeeded = true ∧ y.2.succeeded = true)) := by
  refine ⟨fun h => ?_,fun h => ?_⟩
  · refine (h.owed (fun q k hk => due_createTenant hk) h0 fun {s s' m} hr _ hm k hk => ?_).once
    exact hk.changes ((hr.labelled (.start h0) Request.mayWrite).attributed Request.mayWrite
      keeps_changes hm)
  · refine (h.owed (fun q k hk => due_register hk) h0 fun {s s' m} hr hc hm k hk => ?_).once
    refine hk.changes ((hr.labelled (.start h0) Request.mayWrite).attributed Request.mayWrite
      keeps_changes hm) ?_
    rintro u ⟨q,hq,hroute⟩
    have hno := hc q hq
    simp [Request.deletesUser,hroute] at hno

end Runs

section Guest
open Seed

def Seed.rivals : List (Move Request) :=
  [.arrive (request 1 (.tenant (.createTenant "C" " c "))),
    .arrive (request 2 (.tenant (.createTenant "C2" "C"))),
    .arrive { route := .auth (.register ⟨"New@example.com","pw","A","B"⟩) },
    .arrive { route := .auth (.register ⟨"new@example.com","pw2","A","B"⟩) }]

/-- Each of them is on its way to its row before its rival is there, and waits for its commit. -/
def Seed.rivalry : Option (System DB Write Fault Reading Exc Mail Body Request) :=
  System.play Write.apply Write.waitsFor (readings 0).read (Request.endpoint (plainPlatform {}))
    (fun s m => Separate s.running m && (s.actor m).all fun q => !q.deletesUser) (fun _ => true)
    ⟨twoTenants,[]⟩
    (rivals ++ List.replicate 5 (.run 2) ++ List.replicate 5 (.run 3) ++
      List.replicate 9 (.run 2) ++ [.run 3] ++ List.replicate 7 (.run 0) ++
      List.replicate 5 (.run 1) ++ List.replicate 10 (.run 0) ++ [.run 1])

theorem names_unique_rivals :
    ∃ s, rivalry = some s ∧ s.sessions.map (fun x => x.2.succeeded) = [true,false,true,false] ∧
      (s.sessions.Pairwise fun x y => ∀ k, x.1.newSlug (plainPlatform {}) = some k →
        y.1.newSlug (plainPlatform {}) = some k → ¬ (x.2.succeeded = true ∧ y.2.succeeded = true)) ∧
      s.sessions.Pairwise fun x y => ∀ k, x.1.newEmail (plainPlatform {}) = some k →
        y.1.newEmail (plainPlatform {}) = some k →
        ¬ (x.2.succeeded = true ∧ y.2.succeeded = true) := by
  have hrun : rivalry.map (fun s => s.sessions.map fun x => x.2.succeeded) =
      some [true,false,true,false] := by decide +kernel
  obtain ⟨s,hs,hview⟩ := Option.map_eq_some_iff.mp hrun
  have hreach : Reach Write.apply Write.waitsFor (readings 0).read
      (Request.endpoint (plainPlatform {})) (fun s m => Separate s.running m = true) (fun _ => True)
      ⟨twoTenants,[]⟩ s :=
    System.play_reach (fun _ _ hm => (Bool.and_eq_true_iff.mp hm).1) (fun _ _ => trivial)
      (.start trivial) hs
  have hkept : Reach Write.apply Write.waitsFor (readings 0).read
      (Request.endpoint (plainPlatform {}))
      (fun s m => ∀ q, s.actor m = some q → q.deletesUser = false) (fun _ => True)
      ⟨twoTenants,[]⟩ s := by
    refine System.play_reach (fun s m hm q hq => ?_) (fun _ _ => trivial) (.start trivial) hs
    simpa [hq] using (Bool.and_eq_true_iff.mp hm).2
  exact ⟨s,hs,hview,((names_unique rfl).1 hreach).2,((names_unique rfl).2 hkept).2⟩

end Guest

end TenantAuth
