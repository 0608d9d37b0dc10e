import TenantAuth.AuditTrail
import TenantAuth.Tenancy
set_option autoImplicit false

/-! What becomes of a deactivated tenant. `update_tenant` and `delete_tenant` look for an
active tenant; inviting, accepting, changing a role and removing go by the membership or the
invitation alone. -/

namespace TenantAuth
open Transact

/-- The rows that the route is to write belong to the tenant, and its operation never asks
whether that tenant is active. -/
def TenantRoute.Reaches (P : Platform) (d : DB) (t : UUID) : TenantRoute → Prop
  | .inviteMember x _ _ | .removeMember x _ => x = t
  | .acceptInvitation _ token => ∃ inv, d.invitations.find? (fun i =>
      i.tokenHash = P.sha256 token ∧ i.acceptedAt = none) = some inv ∧ inv.tenantId = t
  | .updateMemberRole x u roleId => x = t ∧ ∀ m ∈ membershipOf d t u, m.roleId ≠ roleId
  | .createTenant _ _ | .listMyTenants | .getTenant _ | .updateTenant _ _ _ | .deleteTenant _
  | .listMembers _ => False

def Deactivated (d : DB) (t : UUID) : Prop :=
  ∃ tenant ∈ d.tenants, tenant.id = t ∧ tenant.isActive = false

section Endpoints
variable {P : Platform} {o : Nat → Reading} {n : Nat} {d : DB} {s : List Mail} {a : User} {t : UUID}

theorem endpoint_reaches {r : TenantRoute} (hw : d.Wf) (hp : r.Passes P o n d a)
    (hr : r.Reaches P d t) :
    tenantRows t ((r.endpoint P a).exec Write.apply o ⟨d,d,[],n,s⟩).2.db ≠ tenantRows t d := by
  cases r with
  | createTenant | listMyTenants | getTenant | updateTenant | deleteTenant | listMembers =>
    exact hr.elim
  | inviteMember x email roleId =>
    obtain ⟨ha,⟨role,hrole⟩,d',hf⟩ := hp
    cases hr
    simp only [TenantRoute.endpoint,TenantRouter.inviteMember]
    rw [exec_guarded_db hw ha fun _ => quiet_logged _ _ _ _ _,
      TenantService.inviteMember_exec o n s hrole hf,(flushAll_single.mp hf).2]
    simp [tenantRows,Write.effect,List.filter_append,TenantService.newInvitation]
  | acceptInvitation x token =>
    obtain ⟨inv,hc,d',hf⟩ := hp
    obtain ⟨inv',hfind,ht⟩ := hr
    cases hc.pending.symm.trans hfind
    simp only [TenantRoute.endpoint,TenantRouter.acceptInvitation]
    rw [exec_bind_quiet fun _ => quiet_logged _ _ _ _ _,
      TenantService.acceptInvitation_exec P o d n s hc hf,(TenantService.acceptance_flush hf).2.2]
    simp [tenantRows,List.filter_append,TenantService.newMember,ht]
  | updateMemberRole x u roleId =>
    obtain ⟨ha,⟨role,hrole⟩,m,hm,d',hf⟩ := hp
    obtain ⟨rfl,hne⟩ := hr
    obtain ⟨hmem,ht,-⟩ := TenantService.membershipOf_mem hm
    obtain ⟨m',he⟩ := TenantService.updateMemberRole_exec o n s hm hrole hf
    simp only [TenantRoute.endpoint,TenantRouter.updateMemberRole]
    rw [exec_guarded_db hw ha fun _ => quiet_logged _ _ _ _ _,he,
      memberWrites_apply hw.memberKey hmem hf]
    refine fun h => filter_update_ne hmem (by simpa using ht) ?_ (congrArg (·.2.1) h)
    exact fun h => hne m hm (congrArg TenantMember.roleId h).symm
  | removeMember x u =>
    obtain ⟨ha,m,hm,d',hf⟩ := hp
    cases hr
    obtain ⟨hmem,ht,-,hact⟩ := TenantService.membershipOf_mem hm
    simp only [TenantRoute.endpoint,TenantRouter.removeMember]
    rw [exec_guarded_db hw ha fun _ => quiet_logged _ _ _ _ _,
      TenantService.removeMember_exec o n s hm hf,memberWrites_apply hw.memberKey hmem hf]
    refine fun h => filter_update_ne hmem (by simpa using ht) ?_ (congrArg (·.2.1) h)
    intro h
    have hfalse : (false : Bool) = m.isActive := congrArg TenantMember.isActive h
    rw [hact] at hfalse
    cases hfalse

end Endpoints

section Requests
variable {P : Platform} {o : Readings} {w : World DB Mail} {q : Request} {t : UUID}

theorem Deactivated.ne (hw : w.db.Wf) (h : Deactivated w.db t) {x : UUID} {tenant : Tenant}
    (hx : activeTenant w.db x = some tenant) : tenant.id ≠ t := by
  obtain ⟨tenant',hmem',hid,hoff⟩ := h
  obtain ⟨hmem,-,hon⟩ := TenantService.activeTenant_mem hx
  intro he
  rw [eq_of_key hw.tenantKey hmem' hmem (hid.trans he.symm),hon] at hoff
  cases hoff

theorem not_reaches_tenantRows (hw : w.db.Wf) (h : Deactivated w.db t) {r : TenantRoute}
    (hq : q.route = .tenant r) (hr : ¬ r.Reaches P w.db t) :
    tenantRows t (handle P o w q).2.db = tenantRows t w.db := by
  have hstep := handle_tenancy (P := P) (o := o) (q := q) hw
  simp only [tenantRows]
  generalize (handle P o w q).2.db.tenants = T at hstep ⊢
  generalize (handle P o w q).2.db.members = M at hstep ⊢
  generalize (handle P o w q).2.db.invitations = I at hstep ⊢
  have hroute : ∀ {r'}, q.route = .tenant r' → r = r' := fun h => Route.tenant.inj (hq.symm.trans h)
  have hpresent : t ∈ w.db.tenants.map Tenant.id := by
    obtain ⟨tenant,hmem,hid,-⟩ := h
    exact List.mem_map.mpr ⟨tenant,hmem,hid⟩
  -- A member row of another tenant stays out of the selection, whatever is put in its place.
  have hmember : ∀ {m m' : TenantMember}, m ∈ w.db.members → m.tenantId ≠ t →
      m'.tenantId = m.tenantId →
      (update TenantMember.id m.id (fun _ => m') w.db.members).filter (·.tenantId = t) =
        w.db.members.filter (·.tenantId = t) := by
    intro m m' hm hne he
    refine filter_update fun b hb hk => ?_
    rw [eq_of_key hw.memberKey hb hm hk]
    simp [hne,he]
  cases hstep with
  | same => rfl
  | @created _ _ _ _ n hq' ha hrole hnew =>
    have hne : (o.read n).uuid ≠ t := fun he => hnew (he ▸ hpresent)
    simp [List.filter_append,TenantService.newTenant,TenantService.ownerMember,hne]
  | assigned hq' ha hadmin htenant hp =>
    have hne := h.ne hw htenant
    rw [filter_update fun b hb hk => ?_]
    simp [hk,hp.id,hne]
  | invited hq' ha hadmin hinv =>
    cases hroute hq'
    have hne : _ ≠ t := hr
    simp [List.filter_append,hinv.1,hne]
  | @joined _ _ _ inv _ _ hq' ha hacc hpair =>
    cases hroute hq'
    have hne : inv.tenantId ≠ t := fun he => hr ⟨inv,hacc.pending,he⟩
    refine Prod.ext rfl (Prod.ext ?_ (filter_update fun i hi hk => ?_))
    · simp [List.filter_append,TenantService.newMember,hne]
    · rw [eq_of_key hw.invitationKey hi (List.mem_of_find?_eq_some hacc.pending) hk]
      simp [hne]
  | @roleChanged x u roleId _ m _ hq' ha hadmin hm hrole =>
    cases hroute hq'
    obtain ⟨hmem,ht,-⟩ := TenantService.membershipOf_mem hm
    refine Prod.ext rfl (Prod.ext ?_ rfl)
    by_cases hx : x = t
    · have hsame : { m with roleId := roleId } = m := by
        by_contra hne
        refine hr ⟨hx,fun m' hm' he => hne ?_⟩
        cases (hx ▸ hm).symm.trans hm'
        rw [← he]
      rw [hsame,update_self hw.memberKey hmem]
    · exact hmember hmem (fun he => hx (ht.symm.trans he)) rfl
  | removed hq' ha hadmin hm =>
    cases hroute hq'
    obtain ⟨hmem,ht,-⟩ := TenantService.membershipOf_mem hm
    exact Prod.ext rfl (Prod.ext (hmember hmem (fun he => hr (ht.symm.trans he)) rfl) rfl)
  | userDeleted hq' => cases hq.symm.trans hq'

/-- A tenant request leaves the rows of a deactivated tenant alone unless it gets to the commit
of one of the four operations that do not ask for an active tenant. -/
theorem frozen_iff (hw : Reachable P o w) (h : Deactivated w.db t) {r : TenantRoute}
    (hq : q.route = .tenant r) :
    tenantRows t (handle P o w q).2.db = tenantRows t w.db ↔
      ¬ (Admits P q (o.read w.taken).now w.db ∧ ∃ a, ActsAs P o w q a ∧
        r.Passes P o.read (endpointStart P w q + 1) w.db a ∧ r.Reaches P w.db t) := by
  constructor
  · rintro hsame ⟨hadm,a,ha,hp,hr⟩
    rw [handle_tenant hq hadm ha] at hsame
    exact endpoint_reaches (s := w.sent) hw.wf hp hr hsame
  · intro hno
    by_cases hr : r.Reaches P w.db t
    · have hm : r.Mutates := by cases r <;> first | exact hr.elim | trivial
      rw [(handle_stops hq hm fun hp => hno ?_).2]
      obtain ⟨hadm,a,ha,hp⟩ := hp
      exact ⟨hadm,a,ha,hp,hr⟩
    · exact not_reaches_tenantRows hw.wf h hq hr

/-- The owner renames 1010 after its deletion. -/
theorem frozen_iff_renaming :
    let w := (handle (plainPlatform {}) (Seed.readings 0) Seed.twoTenants
      (Seed.request 1 (.tenant (.deleteTenant 1010)))).2
    tenantRows 1010 (handle (plainPlatform {}) (Seed.readings 0) w
      (Seed.request 1 (.tenant (.updateTenant 1010 (some "C") none)))).2.db =
        tenantRows 1010 w.db := by
  intro w
  have hoff : Deactivated w.db 1010 := by
    unfold Deactivated
    decide +kernel
  refine (frozen_iff (Seed.reachable_twoTenants.serve _) hoff rfl).mpr ?_
  rintro ⟨-,a,-,-,hr⟩
  exact hr

/-- The guest accepts an invitation of 1010 that was sent before its deletion. -/
theorem frozen_iff_fails :
    ¬ ∀ (P : Platform) (o : Readings) (w : World DB Mail) (q : Request) (r : TenantRoute)
      (t : UUID), Reachable P o w → Deactivated w.db t → q.route = .tenant r →
      tenantRows t (handle P o w q).2.db = tenantRows t w.db := by
  intro h
  let w := (handle (plainPlatform {}) (Seed.readings 0) Seed.twoTenants
    (Seed.request 1 (.tenant (.deleteTenant 1010)))).2
  have hoff : Deactivated w.db 1010 := by
    unfold Deactivated
    decide +kernel
  have hsame := h (plainPlatform {}) (Seed.readings 0) w (Seed.accepting 1010) _ 1010
    (Seed.reachable_twoTenants.serve _) hoff rfl
  revert hsame
  decide +kernel

end Requests

end TenantAuth
