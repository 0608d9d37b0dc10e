import Mathlib.Data.List.Induction
import TenantAuth.Provenance
import TenantAuth.TenantIsolation
set_option autoImplicit false

namespace TenantAuth
open Transact

/-- The role is one of those that `require_tenant_admin` asks for. -/
def AdminRole (d : DB) (roleId : UUID) : Prop :=
  ∃ role ∈ d.roles, role.id = roleId ∧ (role.name = "tenant_admin" ∨ role.name = "super_admin")

/-- An active seat with such a role. -/
def AdminSeat (d : DB) (tenantId userId roleId : UUID) : Prop :=
  AdminRole d roleId ∧ ∃ m ∈ d.members,
    m.tenantId = tenantId ∧ m.userId = userId ∧ m.isActive = true ∧ m.roleId = roleId

/-- What one can have in a tenant: a membership with a role, or an invitation to it. -/
inductive Holding where
  | seat (userId roleId : UUID)
  | offer (email : String) (roleId : UUID)
  deriving DecidableEq, Repr

section Chains
variable (P : Platform) (o : Readings) (w : World DB Mail) (t : UUID)

/-- The seat or offer in the tenant goes back, over the requests served from `w` on, to its
founding: each has been stored by the request that made it, and whoever made an offer or changed a
role sat as an admin of the tenant then, on a seat that was backed itself. -/
inductive Backed : List Request → Holding → Prop
  | founded {qs : List Request} {q : Request} {name slug : String} {a : User} {role : Role}
      (hq : q.route = .tenant (.createTenant name slug)) (ha : ActsAs P o (after P o w qs) q a)
      (hnew : t ∉ (after P o w qs).db.tenants.map Tenant.id)
      (howner : (t,a.id) ∈ owners (after P o w (qs ++ [q])).db)
      (hrole : TenantService.adminRole (after P o w qs).db = some role) :
    Backed (qs ++ [q]) (.seat a.id role.id)
  | offered {qs : List Request} {q : Request} {email : String} {roleId r : UUID} {a : User}
      {i : TenantInvitation} (hq : q.route = .tenant (.inviteMember t email roleId))
      (ha : ActsAs P o (after P o w qs) q a) (hadmin : AdminSeat (after P o w qs).db t a.id r)
      (hback : Backed qs (.seat a.id r))
      (hnew : i.id ∉ (after P o w qs).db.invitations.map TenantInvitation.id)
      (hmade : i ∈ (after P o w (qs ++ [q])).db.invitations)
      (hi : i.tenantId = t ∧ i.email = P.lower (strip email) ∧ i.roleId = roleId) :
    Backed (qs ++ [q]) (.offer i.email i.roleId)
  | accepted {qs : List Request} {q : Request} {t' : UUID} {token : String} {a : User}
      {inv : TenantInvitation} (hq : q.route = .tenant (.acceptInvitation t' token))
      (ha : ActsAs P o (after P o w qs) q a)
      (hinv : inv.tenantId = t ∧ inv.tokenHash = P.sha256 token)
      (hjoin : Joins P (after P o w qs).db (after P o w (qs ++ [q])).db a
        (o.read (endpointStart P (after P o w qs) q + 1)).now inv)
      (hback : Backed qs (.offer inv.email inv.roleId)) : Backed (qs ++ [q]) (.seat a.id inv.roleId)
  | appointed {qs : List Request} {q : Request} {u roleId r : UUID} {a : User} {m : TenantMember}
      (hq : q.route = .tenant (.updateMemberRole t u roleId))
      (ha : ActsAs P o (after P o w qs) q a) (hadmin : AdminSeat (after P o w qs).db t a.id r)
      (hback : Backed qs (.seat a.id r)) (hm : membershipOf (after P o w qs).db t u = some m)
      (hseat : Backed qs (.seat u m.roleId))
      (hmade : { m with roleId := roleId } ∈ (after P o w (qs ++ [q])).db.members) :
    Backed (qs ++ [q]) (.seat u roleId)
  | later {qs : List Request} {q : Request} {h : Holding} (hback : Backed qs h) :
    Backed (qs ++ [q]) h

end Chains

/-- The seats and the offers of the database are backed. -/
structure Legitimate (P : Platform) (o : Readings) (w : World DB Mail) (qs : List Request)
    (d : DB) : Prop where
  seats : ∀ m ∈ d.members, Backed P o w m.tenantId qs (.seat m.userId m.roleId)
  offers : ∀ i ∈ d.invitations, Backed P o w i.tenantId qs (.offer i.email i.roleId)

section Steps
variable {P : Platform} {o : Readings} {w : World DB Mail} {qs : List Request} {q : Request}
  {d d' : DB}

theorem Legitimate.later (h : Legitimate P o w qs d) : Legitimate P o w (qs ++ [q]) d :=
  ⟨fun m hm => (h.seats m hm).later,fun i hi => (h.offers i hi).later⟩

theorem Legitimate.congr (h : Legitimate P o w qs d) (hm : SameIn .members d d')
    (hi : SameIn .invitations d d') : Legitimate P o w qs d' :=
  ⟨fun m hm' => h.seats m (hm ▸ hm'),fun i hi' => h.offers i (hi ▸ hi')⟩

theorem Legitimate.admin {t u : UUID} (h : Legitimate P o w qs d) (ha : IsTenantAdmin d t u) :
    ∃ r, AdminSeat d t u r ∧ Backed P o w t qs (.seat u r) := by
  obtain ⟨m,hm,rfl,rfl,hactive,role,hrole,hid,hname⟩ := ha
  exact ⟨m.roleId,⟨⟨role,hrole,hid,hname⟩,m,hm,rfl,rfl,hactive,rfl⟩,h.seats m hm⟩

theorem Legitimate.invitation {n : Nat} {t roleId : UUID} {email : String} {a : User}
    (h : Legitimate P o w qs (after P o w qs).db)
    (hq : q.route = .tenant (.inviteMember t email roleId)) (ha : ActsAs P o (after P o w qs) q a)
    (hadmin : IsTenantAdmin (after P o w qs).db t a.id)
    (hf : flushAll Write.apply
      [.insertInvitation (TenantService.newInvitation P o.read n t email roleId)]
      (after P o w qs).db = .ok (after P o w (qs ++ [q])).db) :
    Legitimate P o w (qs ++ [q]) (after P o w (qs ++ [q])).db := by
  obtain ⟨hv,hd⟩ := flushAll_single.mp hf
  simp only [Write.violation,firstViolation_eq_none,List.forall_mem_cons,vacant_iff] at hv
  have hmade : TenantService.newInvitation P o.read n t email roleId ∈
      (after P o w (qs ++ [q])).db.invitations := by
    rw [hd]
    exact List.mem_append_right _ (List.mem_singleton_self _)
  refine ⟨fun m hm => ?_,fun i hi => ?_⟩
  · rw [hd] at hm
    exact h.later.seats m hm
  · rw [hd] at hi
    rcases List.mem_append.mp hi with hi | hi
    · exact h.later.offers i hi
    · obtain ⟨r,hr,hback⟩ := h.admin hadmin
      rw [List.mem_singleton.mp hi]
      exact .offered hq ha hr hback hv.2.1 hmade ⟨rfl,rfl,rfl⟩

theorem Legitimate.acceptance {t : UUID} {token : String} {a : User} {inv : TenantInvitation}
    (h : Legitimate P o w qs (after P o w qs).db) (hw : (after P o w qs).db.Wf)
    (hq : q.route = .tenant (.acceptInvitation t token)) (ha : ActsAs P o (after P o w qs) q a)
    (hc : TenantService.Acceptable P (after P o w qs).db token a.id
      (o.read (endpointStart P (after P o w qs) q + 1)).now inv)
    (hf : flushAll Write.apply
      (TenantService.acceptance o.read (endpointStart P (after P o w qs) q + 1) a.id inv)
      (after P o w qs).db = .ok (after P o w (qs ++ [q])).db) :
    Legitimate P o w (qs ++ [q]) (after P o w (qs ++ [q])).db := by
  obtain ⟨-,-,hd⟩ := TenantService.acceptance_flush hf
  have hjoin := acceptance_joins hw (authenticate_ok ha).1 hc hf
  refine ⟨fun m hm => ?_,fun i hi => ?_⟩
  · rw [hd] at hm
    rcases List.mem_append.mp hm with hm | hm
    · exact h.later.seats m hm
    · have hp := List.find?_some hc.pending
      simp only [decide_eq_true_eq] at hp
      rw [List.mem_singleton.mp hm]
      exact .accepted hq ha ⟨rfl,hp.1⟩ hjoin (h.offers inv hjoin.pending.1)
  · rw [hd] at hi
    rcases mem_update.mp hi with ⟨i',hi',-,rfl⟩ | ⟨hi',-⟩
    · exact h.later.offers i' hi'
    · exact h.later.offers i hi'

theorem Legitimate.assignment {t u roleId : UUID} {a : User} {m : TenantMember}
    (h : Legitimate P o w qs (after P o w qs).db) (hw : (after P o w qs).db.Wf)
    (hq : q.route = .tenant (.updateMemberRole t u roleId))
    (ha : ActsAs P o (after P o w qs) q a) (hadmin : IsTenantAdmin (after P o w qs).db t a.id)
    (hm : membershipOf (after P o w qs).db t u = some m)
    (hf : flushAll Write.apply (TenantService.memberWrites m { roleId := some roleId })
      (after P o w qs).db = .ok (after P o w (qs ++ [q])).db) :
    Legitimate P o w (qs ++ [q]) (after P o w (qs ++ [q])).db := by
  obtain ⟨hmem,rfl,rfl,-⟩ := TenantService.membershipOf_mem hm
  unfold TenantService.memberWrites at hf
  split at hf
  · exact Except.ok.inj hf ▸ h.later
  rename_i hchanges
  obtain ⟨-,hd⟩ := flushAll_single.mp hf
  refine ⟨fun x hx => ?_,fun i hi => ?_⟩
  · have hx' := hx
    rw [hd] at hx'
    rcases mem_update.mp hx' with ⟨y,hy,hk,rfl⟩ | ⟨hx',-⟩
    · obtain rfl : y = m := eq_of_key hw.memberKey hy hmem hk
      obtain ⟨r,hr,hback⟩ := h.admin hadmin
      simp only [TenantMemberPatch.apply,TenantMemberPatch.diff,changed] at hx ⊢
      split
      · exact h.later.seats y hy
      · rename_i hne
        refine .appointed hq ha hr hback hm (h.seats y hy) ?_
        simpa [hne] using hx
    · exact h.later.seats x hx'
  · rw [hd] at hi
    exact h.later.offers i hi

theorem Legitimate.removal {m : TenantMember} (h : Legitimate P o w qs d)
    (hf : flushAll Write.apply (TenantService.memberWrites m { isActive := some false }) d =
      .ok d') : Legitimate P o w qs d' := by
  unfold TenantService.memberWrites at hf
  split at hf
  · cases hf
    exact h
  obtain ⟨-,rfl⟩ := flushAll_single.mp hf
  refine ⟨fun x hx => ?_,h.offers⟩
  rcases mem_update.mp hx with ⟨y,hy,-,rfl⟩ | ⟨hx,-⟩
  · exact h.seats y hy
  · exact h.seats x hx

theorem Legitimate.founding {n : Nat} {name slug : String} {a : User} {role : Role}
    (h : Legitimate P o w qs (after P o w qs).db)
    (hq : q.route = .tenant (.createTenant name slug)) (ha : ActsAs P o (after P o w qs) q a)
    (hrole : TenantService.adminRole (after P o w qs).db = some role)
    (hf : flushAll Write.apply (TenantService.creation P o.read n name slug a.id role)
      (after P o w qs).db = .ok (after P o w (qs ++ [q])).db) :
    Legitimate P o w (qs ++ [q]) (after P o w (qs ++ [q])).db := by
  obtain ⟨hnew,hd⟩ := TenantService.creation_flush hf
  have howner : ((o.read n).uuid,a.id) ∈ owners (after P o w (qs ++ [q])).db := by
    rw [hd]
    exact List.mem_map.mpr ⟨_,List.mem_append_right _ (List.mem_singleton_self _),rfl⟩
  refine ⟨fun m hm => ?_,fun i hi => ?_⟩
  · rw [hd] at hm
    rcases List.mem_append.mp hm with hm | hm
    · exact h.later.seats m hm
    · rw [List.mem_singleton.mp hm]
      exact .founded hq ha hnew howner hrole
  · rw [hd] at hi
    exact h.later.offers i hi

/-- A request leaves everything that is stored of seats and offers backed. -/
theorem Legitimate.handle (h : Legitimate P o w qs (after P o w qs).db)
    (hw : (after P o w qs).db.Wf) (q : Request) :
    Legitimate P o w (qs ++ [q]) (after P o w (qs ++ [q])).db := by
  obtain ⟨ws,hc,hf⟩ := handle_commits P o (after P o w qs) q
  rw [show (TenantAuth.handle P o (after P o w qs) q).2 = after P o w (qs ++ [q]) from
    (after_append [q]).symm] at hf
  cases hc with
  | idle => exact Except.ok.inj hf ▸ h.later
  | auth _ hc => exact h.later.congr (hc.frame (by simp) hf) (hc.frame (by simp) hf)
  | admin _ _ hc =>
    cases hc with
    | nothing => exact Except.ok.inj hf ▸ h.later
    | deleteUser _ =>
      rw [(flushAll_single.mp hf).2]
      exact ⟨fun m hm => h.later.seats m (mem_delete.mp hm).1,h.later.offers⟩
    | updateUser _ =>
      obtain ⟨f,-,hd⟩ := AuthService.userWrites_flush hf
      rw [hd]
      exact h.later.congr rfl rfl
    | _ =>
      rw [(flushAll_single.mp hf).2]
      exact h.later.congr rfl rfl
  | tenant hq ha hc =>
    cases hc with
    | nothing => exact Except.ok.inj hf ▸ h.later
    | createTenant hrole => exact h.founding hq ha hrole hf
    | updateTenant _ _ | deleteTenant _ _ =>
      obtain ⟨f,-,hd⟩ := TenantService.tenantWrites_flush hf
      rw [hd]
      exact h.later.congr rfl rfl
    | inviteMember hadmin _ => exact h.invitation hq ha hadmin hf
    | acceptInvitation hacc => exact h.acceptance hw hq ha hacc hf
    | updateMemberRole hadmin hm _ => exact h.assignment hw hq ha hadmin hm hf
    | removeMember _ _ => exact h.later.removal hf

end Steps

section Runs
variable {P : Platform} {o : Readings} {w : World DB Mail} {qs : List Request}

/-- In every run from a deployment, whatever users are deleted, every membership and every invitation
of a tenant is backed: by its founding, or by an admin whose own seat is. So is the seat of whoever
passes `require_tenant_admin`. -/
theorem seats_backed (hw : Deployed w.db) :
    (∀ m ∈ (after P o w qs).db.members,
      Backed P o w m.tenantId qs (.seat m.userId m.roleId)) ∧
    (∀ i ∈ (after P o w qs).db.invitations,
      Backed P o w i.tenantId qs (.offer i.email i.roleId)) ∧
    ∀ t u, IsTenantAdmin (after P o w qs).db t u →
      ∃ r, AdminSeat (after P o w qs).db t u r ∧ Backed P o w t qs (.seat u r) := by
  have hrun : Legitimate P o w qs (after P o w qs).db := by
    induction qs using List.reverseRecOn with
    | nil => exact ⟨by simp [after,hw.members],by simp [after,hw.invitations]⟩
    | append_singleton qs q ih => exact ih.handle ((Reachable.start hw).after qs).wf q
  exact ⟨hrun.seats,hrun.offers,fun _ _ => hrun.admin⟩

/-- The owner founds the tenant 1002 and invites the guest, who accepts. -/
theorem seats_backed_guest :
    Backed (plainPlatform {}) (Seed.readings 0) (Seed.world []) 1002
      [Seed.request 1 (.tenant (.createTenant "A" "a")),
        Seed.request 1 (.tenant (.inviteMember 1002 "guest@example.com" Seed.tenantMember)),
        Seed.request 2 (.tenant (.acceptInvitation 1002 "ssssssssss"))]
      (.seat 2 Seed.tenantMember) := by
  have hw : Deployed (Seed.world []).db := Seed.deployed_world (by simp) (by simp) (by simp)
  exact (seats_backed hw).1 ⟨1019,1002,2,Seed.tenantMember,true,0⟩ (by decide +kernel)

end Runs

end TenantAuth
