import Mathlib.Data.List.Induction
import TenantAuth.AuditTrail
import TenantAuth.Tenancy
set_option autoImplicit false

/-! Who is left to manage a tenant. It is created with an admin; an admin can give himself
another role or remove himself, and a user can be deleted, whether or not he is the last one. -/

namespace TenantAuth
open Transact

/-- A user who exists is an admin of the tenant by the rows, and so for the guard. -/
def Administered (d : DB) (t : UUID) : Prop :=
  ∃ u ∈ d.users, IsTenantAdmin d t u.id ∧ (adminMembership d t u.id).isOk = true

def SoleAdmin (d : DB) (t u : UUID) : Prop :=
  IsTenantAdmin d t u ∧ ∀ u', IsTenantAdmin d t u' → u' = u

/-- The request takes the tenant its only admin: he gives himself another role, removes
himself, or is deleted. -/
def Orphans (P : Platform) (o : Readings) (w : World DB Mail) (q : Request) (t : UUID) : Prop :=
  ¬ Administered (handle P o w q).2.db t ∧ ∃ u, SoleAdmin w.db t u ∧
    ((∃ a, ActsAs P o w q a ∧ a.id = u ∧
        ((∃ roleId, q.route = .tenant (.updateMemberRole t u roleId)) ∨
          q.route = .tenant (.removeMember t u))) ∨
      q.route = .admin (.deleteUser u))

section Steps
variable {P : Platform} {o : Readings} {w : World DB Mail} {q : Request} {d d' : DB} {t u : UUID}

theorem IsTenantAdmin.administered (hw : d.Wf) (h : IsTenantAdmin d t u) : Administered d t := by
  obtain ⟨m,hm,ht,hu,hrest⟩ := h
  obtain ⟨user,huser,hid⟩ := List.mem_map.mp (hw.memberUser (List.mem_map_of_mem hm))
  have hadmin : IsTenantAdmin d t user.id := ⟨m,hm,ht,hid.symm,hrest⟩
  obtain ⟨m',hm'⟩ := hadmin.guard hw
  exact ⟨user,huser,hadmin,by rw [hm']; rfl⟩

theorem IsTenantAdmin.kept (hroles : SameIn .roles d d')
    (hkept : ∀ m ∈ d.members, m.tenantId = t → m.userId = u → m ∈ d'.members)
    (h : IsTenantAdmin d t u) : IsTenantAdmin d' t u := by
  obtain ⟨m,hm,ht,hu,hact,r,hr,hid,hname⟩ := h
  simp only [SameIn] at hroles
  exact ⟨m,hkept m hm ht hu,ht,hu,hact,r,hroles ▸ hr,hid,hname⟩

/-- What is active after a request was active before it or has just been created, with an
admin: nothing makes a tenant active again. -/
theorem active_before (hw : w.db.Wf) {x : Tenant} (hx : x ∈ (handle P o w q).2.db.tenants)
    (hact : x.isActive = true) :
    (∃ y ∈ w.db.tenants, y.id = x.id ∧ y.isActive = true) ∨
      Administered (handle P o w q).2.db x.id := by
  have hwf := handle_wf (P := P) (o := o) hw q
  have hroles : SameIn .roles w.db (handle P o w q).2.db := handle_frame P o w q (by simp)
  have hstep := handle_tenancy (P := P) (o := o) (q := q) hw
  generalize (handle P o w q).2.db = d' at hx hwf hroles hstep
  generalize hT : d'.tenants = T at hx hstep
  generalize hM : d'.members = M at hstep
  generalize d'.invitations = I at hstep
  simp only [SameIn] at hroles
  cases hstep with
  | created hq ha hr hnew =>
    rcases List.mem_append.mp hx with hx | hx
    · exact .inl ⟨x,hx,rfl,hact⟩
    · cases List.mem_singleton.mp hx
      have hname := List.find?_some hr
      simp only [decide_eq_true_eq] at hname
      refine .inr (IsTenantAdmin.administered hwf ⟨_,hM ▸ List.mem_append_right _
        (List.mem_singleton_self _),rfl,rfl,rfl,_,hroles ▸ List.mem_of_find?_eq_some hr,rfl,
          .inl hname⟩)
  | assigned hq ha hadmin ht hp =>
    rcases mem_update.mp hx with ⟨_,-,-,rfl⟩ | ⟨hx,-⟩
    · obtain ⟨hmem,-,hon⟩ := TenantService.activeTenant_mem ht
      exact .inl ⟨_,hmem,hp.id.symm,hon⟩
    · exact .inl ⟨x,hx,rfl,hact⟩
  | _ => exact .inl ⟨x,hx,rfl,hact⟩

/-- Where the last admin goes, he goes by one of the three ways. -/
theorem administered_or_orphaned (hw : w.db.Wf) (h : Administered w.db t) :
    Administered (handle P o w q).2.db t ∨ Orphans P o w q t := by
  by_cases hno : Administered (handle P o w q).2.db t
  · exact .inl hno
  refine .inr ⟨hno,?_⟩
  obtain ⟨v,-,hv,-⟩ := h
  have hwf := handle_wf (P := P) (o := o) hw q
  have hroles : SameIn .roles w.db (handle P o w q).2.db := handle_frame P o w q (by simp)
  have hstep := handle_tenancy (P := P) (o := o) (q := q) hw
  generalize (handle P o w q).2.db = d' at hno hwf hroles hstep
  generalize d'.tenants = T at hstep
  generalize hM : d'.members = M at hstep
  generalize d'.invitations = I at hstep
  -- No admin's row is kept, or the tenant would still have an admin.
  have hgone : ∀ {v}, IsTenantAdmin w.db t v →
      ∃ m ∈ w.db.members, m.tenantId = t ∧ m.userId = v ∧ m ∉ M := by
    intro v hv
    by_contra hall
    refine hno (IsTenantAdmin.administered hwf (hv.kept hroles fun m hm ht hu => ?_))
    by_contra hm'
    exact hall ⟨m,hm,ht,hu,hM ▸ hm'⟩
  -- Where only the row of one member is written, he is the only admin.
  have hsole : ∀ {t' u' : UUID} {a : User} {m m' : TenantMember},
      M = update TenantMember.id m.id (fun _ => m') w.db.members →
      membershipOf w.db t' u' = some m → IsTenantAdmin w.db t' a.id →
      t' = t ∧ a.id = u' ∧ SoleAdmin w.db t u' := by
    intro t' u' a m m' hd hm ha
    have hmem := TenantService.membershipOf_mem hm
    have hone : ∀ {v}, IsTenantAdmin w.db t v → t' = t ∧ v = u' := by
      intro v hv
      obtain ⟨x,hx,hxt,hxu,hxm⟩ := hgone hv
      have hk : x.id = m.id := by
        by_contra hk
        exact hxm (hd ▸ mem_update.mpr (.inr ⟨hx,hk⟩))
      cases eq_of_key hw.memberKey hx hmem.1 hk
      exact ⟨hmem.2.1.symm.trans hxt,hxu.symm.trans hmem.2.2.1⟩
    obtain ⟨rfl,rfl⟩ := hone hv
    exact ⟨rfl,(hone ha).2,hv,fun v' hv' => (hone hv').2⟩
  obtain ⟨m,hm,hmt,hmu,hnot⟩ := hgone hv
  cases hstep with
  | same => exact absurd hm hnot
  | invited => exact absurd hm hnot
  | assigned => exact absurd hm hnot
  | created => exact absurd (List.mem_append_left _ hm) hnot
  | joined => exact absurd (List.mem_append_left _ hm) hnot
  | userDeleted hq =>
    have hone : ∀ {v}, IsTenantAdmin w.db t v → v = _ := fun hv => by
      obtain ⟨x,hx,-,rfl,hxm⟩ := hgone hv
      by_contra hk
      exact hxm (mem_delete.mpr ⟨hx,hk⟩)
    obtain rfl := hone hv
    exact ⟨_,⟨hv,fun v' hv' => hone hv'⟩,.inr hq⟩
  | roleChanged hq ha hadmin hm hr =>
    obtain ⟨rfl,hu,hs⟩ := hsole rfl hm hadmin
    exact ⟨_,hs,.inl ⟨_,ha,hu,.inl ⟨_,hq⟩⟩⟩
  | removed hq ha hadmin hm =>
    obtain ⟨rfl,hu,hs⟩ := hsole rfl hm hadmin
    exact ⟨_,hs,.inl ⟨_,ha,hu,.inr hq⟩⟩

end Steps

section Runs
variable {P : Platform} {o : Readings} {w : World DB Mail}

/-- In every run from a deployment an active tenant has an admin, unless a request of the run
took it its only one. -/
theorem administered_unless_orphaned (hw : Deployed w.db) (qs : List Request) :
    ∀ x ∈ (after P o w qs).db.tenants, x.isActive = true →
      Administered (after P o w qs).db x.id ∨
        ∃ qs₁ q qs₂, qs = qs₁ ++ q :: qs₂ ∧ Orphans P o (after P o w qs₁) q x.id := by
  induction qs using List.reverseRecOn with
  | nil =>
    intro x hx
    rw [TenantAuth.after,List.foldl_nil,hw.tenants] at hx
    cases hx
  | append_singleton qs q ih =>
    intro x hx hact
    have hwf := ((Reachable.start (P := P) (o := o) hw).after qs).wf
    rw [after_append] at hx ⊢
    rcases active_before hwf hx hact with ⟨y,hy,hid,hyact⟩ | hadm
    · rcases ih y hy hyact with hadm | ⟨qs₁,q₁,qs₂,rfl,ho⟩
      · rcases administered_or_orphaned hwf (hid ▸ hadm) with hadm | ho
        · exact .inl hadm
        · exact .inr ⟨qs,q,[],rfl,ho⟩
      · exact .inr ⟨qs₁,q₁,qs₂ ++ [q],by simp,hid ▸ ho⟩
    · exact .inl hadm

/-- The guest becomes an admin of 1010 beside its owner. The owner removes himself, and then the
guest. -/
theorem administered_unless_orphaned_removals :
    let qs := [Seed.request 1 (.tenant (.createTenant "A" "a")),
      Seed.request 1 (.tenant (.createTenant "B" "b")),
      Seed.request 1 (.tenant (.inviteMember 1010 "guest@example.com" Seed.tenantAdmin)),
      Seed.accepting 1010,Seed.request 1 (.tenant (.removeMember 1010 1)),
      Seed.request 2 (.tenant (.removeMember 1010 2))]
    ∃ qs₁ q qs₂, qs = qs₁ ++ q :: qs₂ ∧ Orphans (plainPlatform {}) (Seed.readings 0)
      (after (plainPlatform {}) (Seed.readings 0) (Seed.world []) qs₁) q 1010 := by
  intro qs
  have hw : Deployed (Seed.world []).db := Seed.deployed_world (by simp) (by simp) (by simp)
  have hx : ∃ x ∈ (after (plainPlatform {}) (Seed.readings 0) (Seed.world []) qs).db.tenants,
      x.isActive = true ∧ x.id = 1010 := by decide +kernel
  obtain ⟨x,hx,hact,hid⟩ := hx
  have hnone : ¬ Administered
      (after (plainPlatform {}) (Seed.readings 0) (Seed.world []) qs).db 1010 := by
    have hno : ∀ u ∈ (after (plainPlatform {}) (Seed.readings 0) (Seed.world []) qs).db.users,
        (adminMembership (after (plainPlatform {}) (Seed.readings 0) (Seed.world []) qs).db 1010
          u.id).isOk = false := by decide +kernel
    rintro ⟨u,hu,-,hok⟩
    rw [hno u hu] at hok
    cases hok
  have hrun := administered_unless_orphaned (o := Seed.readings 0) hw qs x hx hact
  rw [hid] at hrun
  exact hrun.resolve_left hnone

/-- The owner of 1002 removes himself. -/
theorem administered_fails :
    ¬ ∀ (P : Platform) (o : Readings) (w : World DB Mail), Reachable P o w →
      ∀ x ∈ w.db.tenants, x.isActive = true → Administered w.db x.id := by
  intro h
  let w := (handle (plainPlatform {}) (Seed.readings 0) Seed.twoTenants
    (Seed.request 1 (.tenant (.removeMember 1002 1)))).2
  have hx : ∃ x ∈ w.db.tenants, x.isActive = true ∧ x.id = 1002 := by decide +kernel
  obtain ⟨x,hx,hact,hid⟩ := hx
  obtain ⟨u,hu,-,hok⟩ := h _ _ w (Seed.reachable_twoTenants.serve _) x hx hact
  have hnone : ∀ u ∈ w.db.users, (adminMembership w.db 1002 u.id).isOk = false := by decide +kernel
  rw [hid,hnone u hu] at hok
  cases hok

end Runs

end TenantAuth
