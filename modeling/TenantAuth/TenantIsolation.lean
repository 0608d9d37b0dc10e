import TenantAuth.Provenance
import TenantAuth.Seed
set_option autoImplicit false

namespace TenantAuth
open Transact

/-- The rows that belong to a tenant: its own, its members', its invitations'. -/
def tenantRows (t : UUID) (d : DB) :
    List Tenant × List TenantMember × List TenantInvitation :=
  (d.tenants.filter (·.id = t),d.members.filter (·.tenantId = t),
    d.invitations.filter (·.tenantId = t))

/-- The tenant a tenant route is addressed to. -/
def TenantRoute.path : TenantRoute → Option UUID
  | .createTenant _ _ | .listMyTenants => none
  | .getTenant t | .updateTenant t _ _ | .deleteTenant t | .listMembers t
  | .inviteMember t _ _ | .acceptInvitation t _ | .updateMemberRole t _ _
  | .removeMember t _ => some t

/-- From `d` to `d'` a pending invitation to the user's own email is marked as accepted and
its membership row for the user is added, and nothing else. -/
structure Joins (P : Platform) (d d' : DB) (a : User) (t : Nat) (inv : TenantInvitation) :
    Prop where
  pending : inv ∈ d.invitations ∧ inv.acceptedAt = none
  unexpired : t ≤ inv.expiresAt
  addressed : P.lower inv.email = P.lower a.email
  exact : ∃ acceptedAt id joinedAt, d' = { d with
    invitations := update TenantInvitation.id inv.id
      (fun i => { i with acceptedAt := some acceptedAt }) d.invitations
    members := d.members ++ [⟨id,inv.tenantId,a.id,inv.roleId,true,joinedAt⟩] }

section Rows
variable {d d' : DB}

theorem tenantRows_congr (ht : SameIn .tenants d d') (hm : SameIn .members d d')
    (hi : SameIn .invitations d d') (t : UUID) : tenantRows t d' = tenantRows t d := by
  simp only [SameIn] at ht hm hi
  simp only [tenantRows,ht,hm,hi]

theorem tenantRows_setTenant {tenant : Tenant} {f : Tenant → Tenant} {t : UUID}
    (hf : ∀ r, (f r).id = r.id) (ht : t ≠ tenant.id) :
    tenantRows t { d with tenants := update Tenant.id tenant.id f d.tenants } =
      tenantRows t d := by
  unfold tenantRows
  rw [filter_update]
  intro r _ hk
  simp [hf,hk,ht.symm]

theorem tenantRows_setMember (hw : d.Wf) {m : TenantMember} {f : TenantMember → TenantMember}
    {t : UUID} (hm : m ∈ d.members) (hf : ∀ r, (f r).tenantId = r.tenantId)
    (ht : t ≠ m.tenantId) :
    tenantRows t { d with members := update TenantMember.id m.id f d.members } =
      tenantRows t d := by
  unfold tenantRows
  rw [filter_update]
  intro r hr hk
  rw [eq_of_key hw.memberKey hr hm hk]
  simp [hf,ht.symm]

theorem acceptance_tenantRows (hw : d.Wf) {o : Nat → Reading} {n : Nat} {u : UUID}
    {inv : TenantInvitation} (hinv : inv ∈ d.invitations)
    (hf : flushAll Write.apply (TenantService.acceptance o n u inv) d = .ok d') {t : UUID}
    (ht : t ≠ inv.tenantId) : tenantRows t d' = tenantRows t d := by
  obtain ⟨-,-,hd⟩ := TenantService.acceptance_flush hf
  have hmarked : (update TenantInvitation.id inv.id
      (fun i => { i with acceptedAt := some (o (n+1)).now }) d.invitations).filter
        (·.tenantId = t) = d.invitations.filter (·.tenantId = t) := by
    refine filter_update fun i hi hk => ?_
    rw [eq_of_key hw.invitationKey hi hinv hk]
    simp [ht.symm]
  rw [hd]
  simp [tenantRows,List.filter_append,TenantService.newMember,ht.symm,hmarked]

theorem acceptance_joins {P : Platform} (hw : d.Wf) {a : User} (ha : a ∈ d.users) {token : String}
    {o : Nat → Reading} {n : Nat} {inv : TenantInvitation}
    (hc : TenantService.Acceptable P d token a.id (o n).now inv)
    (hf : flushAll Write.apply (TenantService.acceptance o n a.id inv) d = .ok d') :
    Joins P d d' a (o n).now inv := by
  obtain ⟨-,-,hd⟩ := TenantService.acceptance_flush hf
  have hpending : inv.acceptedAt = none := by
    have hp := List.find?_some hc.pending
    simp only [decide_eq_true_eq] at hp
    exact hp.2
  have haddr : P.lower inv.email = P.lower a.email := by
    obtain ⟨u,hu,hmail⟩ := hc.addressed
    have hid : u.id = a.id := by simpa using List.find?_some hu
    rw [eq_of_key hw.userKey ha (List.mem_of_find?_eq_some hu) hid.symm]
    exact hmail.symm
  exact ⟨⟨List.mem_of_find?_eq_some hc.pending,hpending⟩,hc.unexpired,haddr,_,_,_,hd⟩

theorem TenantCommit.confined {P : Platform} {o : Readings} {n : Nat} {a : User}
    {r : TenantRoute} {ws : List Write} (h : TenantCommit P o.read n d a r ws) (hw : d.Wf)
    (ha : a ∈ d.users) (hf : flushAll Write.apply ws d = .ok d') :
    (∀ t, tenantRows t d' = tenantRows t d) ∨
      ∃ x, (∀ t, t ≠ x → tenantRows t d' = tenantRows t d) ∧
        ((r.path = some x ∧ IsTenantAdmin d x a.id) ∨
          (∃ path token inv, r = .acceptInvitation path token ∧ inv.tenantId = x ∧
            Joins P d d' a (o.read n).now inv) ∨
          ∃ name slug, r = .createTenant name slug ∧ x ∉ d.tenants.map Tenant.id ∧
            (x,a.id) ∈ owners d') := by
  cases h with
  | nothing => exact .inl fun t => by rw [← Except.ok.inj hf]
  | createTenant hr =>
    obtain ⟨hid,hd⟩ := TenantService.creation_flush hf
    refine .inr ⟨(o.read n).uuid,fun t ht => ?_,.inr (.inr ⟨_,_,rfl,hid,?_⟩)⟩
    · rw [hd]
      simp [tenantRows,List.filter_append,TenantService.newTenant,TenantService.ownerMember,
        ht.symm]
    · rw [hd]
      simp [owners,TenantService.newTenant]
  | updateTenant hadmin htenant | deleteTenant hadmin htenant =>
    obtain ⟨f,hkeys,rfl⟩ := TenantService.tenantWrites_flush hf
    obtain ⟨-,hid,-⟩ := TenantService.activeTenant_mem htenant
    exact .inr ⟨_,fun t ht => tenantRows_setTenant (fun r => (hkeys r).1) (hid ▸ ht),
      .inl ⟨rfl,hadmin⟩⟩
  | inviteMember hadmin _ =>
    obtain ⟨-,rfl⟩ := flushAll_single.mp hf
    refine .inr ⟨_,fun t ht => ?_,.inl ⟨rfl,hadmin⟩⟩
    simp [tenantRows,Write.effect,List.filter_append,TenantService.newInvitation,ht.symm]
  | acceptInvitation hc =>
    rename_i path token inv
    have hinv := List.mem_of_find?_eq_some hc.pending
    exact .inr ⟨inv.tenantId,fun t ht => acceptance_tenantRows hw hinv hf ht,
      .inr (.inl ⟨path,token,inv,rfl,rfl,acceptance_joins hw ha hc hf⟩)⟩
  | updateMemberRole hadmin hm _ | removeMember hadmin hm =>
    obtain ⟨f,hkeys,rfl⟩ := TenantService.memberWrites_flush hf
    obtain ⟨hmem,ht,-⟩ := TenantService.membershipOf_mem hm
    exact .inr ⟨_,fun t ht' => tenantRows_setMember hw hmem (fun r => (hkeys r).2.1) (ht ▸ ht'),
      .inl ⟨rfl,hadmin⟩⟩

end Rows

section Requests
variable {P : Platform} {o : Readings} {w : World DB Mail} {q : Request}

/-- Of the routes of the auth and admin routers, only the deletion of a user reaches the
rows of a tenant. -/
theorem AdminCommit.tenantRows {o : Nat → Reading} {n : Nat} {d d' : DB} {r : AdminRoute}
    {ws : List Write} (h : AdminCommit o n d r ws) (hf : flushAll Write.apply ws d = .ok d')
    (hr : ∀ id, r ≠ .deleteUser id) (t : UUID) : tenantRows t d' = tenantRows t d := by
  have ht : SameIn .tenants d d' := h.frame hr (by simp) hf
  have hm : SameIn .members d d' := h.frame hr (by simp) hf
  have hi : SameIn .invitations d d' := h.frame hr (by simp) hf
  exact tenantRows_congr ht hm hi t

/-- A tenant request that changes rows of a tenant is an admin's at its path, an invited
user's, or the creator's. -/
theorem handle_tenantRows (hw : w.db.Wf) {r : TenantRoute} {t : UUID} (hq : q.route = .tenant r)
    (hne : tenantRows t (handle P o w q).2.db ≠ tenantRows t w.db) :
    ∃ a, ActsAs P o w q a ∧
      ((r.path = some t ∧ IsTenantAdmin w.db t a.id) ∨
        (∃ path token inv, r = .acceptInvitation path token ∧ inv.tenantId = t ∧
          Joins P w.db (handle P o w q).2.db a (o.read (endpointStart P w q + 1)).now inv) ∨
        ∃ name slug, r = .createTenant name slug ∧ t ∉ w.db.tenants.map Tenant.id ∧
          (t,a.id) ∈ owners (handle P o w q).2.db) := by
  obtain ⟨ws,hc,hf⟩ := handle_commits P o w q
  cases hc with
  | idle => exact absurd (congrArg _ (Except.ok.inj hf).symm) hne
  | auth hq' => rw [hq] at hq'; cases hq'
  | admin hq' => rw [hq] at hq'; cases hq'
  | tenant hq' ha hc =>
    rw [hq] at hq'
    cases hq'
    rcases hc.confined hw (authenticate_ok ha).1 hf with hsame | ⟨x,hsame,hright⟩
    · exact absurd (hsame t) hne
    · have hx : t = x := by
        by_contra hx
        exact hne (hsame t hx)
      exact ⟨_,ha,hx ▸ hright⟩

/-- A request changes rows of a tenant only for one of four kinds of user: an admin of
the tenant, somebody who joins it with an invitation to his own email, its creator, or
somebody who may delete users. -/
theorem tenant_write_authorized (hr : Reachable P o w) {t : UUID}
    (hne : tenantRows t (handle P o w q).2.db ≠ tenantRows t w.db) :
    ∃ a, ActsAs P o w q a ∧
      (IsTenantAdmin w.db t a.id ∨
        (∃ path token inv, q.route = .tenant (.acceptInvitation path token) ∧
          inv.tenantId = t ∧
          Joins P w.db (handle P o w q).2.db a (o.read (endpointStart P w q + 1)).now inv) ∨
        (∃ name slug, q.route = .tenant (.createTenant name slug) ∧
          t ∉ w.db.tenants.map Tenant.id ∧ (t,a.id) ∈ owners (handle P o w q).2.db) ∨
        ∃ id, q.route = .admin (.deleteUser id) ∧
          "users.delete" ∈ permissionNames w.db a.id) := by
  obtain ⟨ws,hc,hf⟩ := handle_commits P o w q
  cases hc with
  | idle => exact absurd (congrArg _ (Except.ok.inj hf).symm) hne
  | auth _ hc =>
    exact absurd (tenantRows_congr (hc.frame (by simp) hf) (hc.frame (by simp) hf)
      (hc.frame (by simp) hf) t) hne
  | tenant hq ha hc =>
    obtain ⟨a,ha,hright⟩ := handle_tenantRows hr.wf hq hne
    refine ⟨a,ha,?_⟩
    rcases hright with ⟨-,hadmin⟩ | ⟨path,token,inv,rfl,ht,hjoin⟩ | ⟨name,slug,rfl,hnew,hown⟩
    · exact .inl hadmin
    · exact .inr (.inl ⟨path,token,inv,hq,ht,hjoin⟩)
    · exact .inr (.inr (.inl ⟨name,slug,hq,hnew,hown⟩))
  | admin hq ha hc =>
    rename_i r a
    obtain ⟨hact,hperm⟩ := authorize_ok ha
    refine ⟨a,hact,.inr (.inr (.inr ?_))⟩
    by_cases hdel : ∃ id, r = .deleteUser id
    · obtain ⟨id,rfl⟩ := hdel
      exact ⟨id,hq,hperm⟩
    · exact absurd (hc.tenantRows hf (fun id he => hdel ⟨id,he⟩) t) hne

theorem tenant_write_authorized_accepting :
    ∃ a, ActsAs (plainPlatform {}) (Seed.readings 0) Seed.twoTenants (Seed.accepting 1010) a ∧
      (IsTenantAdmin Seed.twoTenants.db 1010 a.id ∨
        (∃ path token inv, (Seed.accepting 1010).route = .tenant (.acceptInvitation path token) ∧
          inv.tenantId = 1010 ∧ Joins (plainPlatform {}) Seed.twoTenants.db
            (handle (plainPlatform {}) (Seed.readings 0) Seed.twoTenants
              (Seed.accepting 1010)).2.db a 0 inv) ∨
        (∃ name slug, (Seed.accepting 1010).route = .tenant (.createTenant name slug) ∧
          1010 ∉ Seed.twoTenants.db.tenants.map Tenant.id ∧ (1010,a.id) ∈ owners
            (handle (plainPlatform {}) (Seed.readings 0) Seed.twoTenants
              (Seed.accepting 1010)).2.db) ∨
        ∃ id, (Seed.accepting 1010).route = .admin (.deleteUser id) ∧
          "users.delete" ∈ permissionNames Seed.twoTenants.db a.id) :=
  tenant_write_authorized Seed.reachable_twoTenants (by decide +kernel)

/-- The caller accepts, through the path of the tenant `t`, an invitation of another tenant:
the request passes the middleware and authentication, the token is that of a pending and
unexpired invitation to the caller's email, and the caller has had no membership there. -/
def AcceptsElsewhere (P : Platform) (o : Readings) (w : World DB Mail) (q : Request) (t : UUID) :
    Prop :=
  ∃ token a inv, q.route = .tenant (.acceptInvitation t token) ∧
    Admits P q (o.read w.taken).now w.db ∧ ActsAs P o w q a ∧
    TenantService.Acceptable P w.db token a.id (o.read (endpointStart P w q + 1)).now inv ∧
    inv.tenantId ≠ t ∧ (inv.tenantId,a.id) ∉ memberships w.db ∧
    (o.read (endpointStart P w q + 1 + 2)).uuid ∉ w.db.members.map TenantMember.id

theorem acceptance_admitted {o : Nat → Reading} {n : Nat} {d : DB} {u : UUID}
    {inv : TenantInvitation} (hw : d.Wf) (hinv : inv ∈ d.invitations)
    (hu : u ∈ d.users.map User.id) (hpair : (inv.tenantId,u) ∉ memberships d)
    (hid : (o (n+2)).uuid ∉ d.members.map TenantMember.id) :
    ∃ d', flushAll Write.apply (TenantService.acceptance o n u inv) d = .ok d' := by
  refine ⟨_,flushAll_cons.mpr ⟨?_,flushAll_single.mpr ⟨?_,rfl⟩⟩⟩
  · exact firstViolation_found hinv
  · simp only [Write.violation,firstViolation_eq_none,List.forall_mem_cons,vacant_iff,
      present_iff]
    exact ⟨hid,hpair,hw.invitationTenant (List.mem_map_of_mem hinv),hu,
      hw.invitationRole (List.mem_map_of_mem hinv),by simp⟩

/-- A request to a tenant's path changes rows of that tenant only, except when it accepts an
invitation of another tenant: `accept_invitation` never compares the two. -/
theorem path_isolation (hr : Reachable P o w) {r : TenantRoute} {t : UUID}
    (hq : q.route = .tenant r) (ht : r.path = some t) :
    (∀ t', t' ≠ t → tenantRows t' (handle P o w q).2.db = tenantRows t' w.db) ↔
      ¬ AcceptsElsewhere P o w q t := by
  constructor
  · rintro hiso ⟨token,a,inv,hroute,hadm,ha,hacc,hne,hpair,hid⟩
    have hinv := List.mem_of_find?_eq_some hacc.pending
    have hu := List.mem_map_of_mem (f := User.id) (authenticate_ok ha).1
    obtain ⟨d',hf⟩ := acceptance_admitted (o := o.read) hr.wf hinv hu hpair hid
    have hrows := hiso inv.tenantId hne
    have hexec := TenantService.acceptInvitation_exec P o.read w.db (endpointStart P w q + 1)
      w.sent hacc hf
    have hdb : (handle P o w q).2.db = d' := by
      rw [handle_tenant hroute hadm ha]
      simp only [TenantRoute.endpoint,TenantRouter.acceptInvitation]
      rw [exec_bind_quiet fun _ => quiet_logged _ _ _ _ _,hexec]
    obtain ⟨-,-,hd⟩ := TenantService.acceptance_flush hf
    rw [hdb,hd] at hrows
    simp [tenantRows,TenantService.newMember] at hrows
  · intro hnot
    by_cases hgo : Admits P q (o.read w.taken).now w.db ∧ ∃ a, ActsAs P o w q a
    · obtain ⟨hadm,-⟩ := hgo
      obtain ⟨ws,hc,hf⟩ := handle_commits P o w q
      intro t' ht'
      cases hc with
      | idle => rw [← Except.ok.inj hf]
      | auth hq' => rw [hq] at hq'; cases hq'
      | admin hq' => rw [hq] at hq'; cases hq'
      | tenant hq' ha hc =>
        rename_i r' a
        rw [hq] at hq'
        cases hq'
        by_cases hws : ws = []
        · subst hws
          rw [← Except.ok.inj hf]
        by_cases hacc : ∃ token inv, r = .acceptInvitation t token ∧
            TenantService.Acceptable P w.db token a.id (o.read (endpointStart P w q + 1)).now inv ∧
            ws = TenantService.acceptance o.read (endpointStart P w q + 1) a.id inv
        · obtain ⟨token,inv,rfl,hacc,rfl⟩ := hacc
          have hinv := List.mem_of_find?_eq_some hacc.pending
          obtain ⟨hid,hpair,-⟩ := TenantService.acceptance_flush hf
          by_cases hne : inv.tenantId = t
          · exact acceptance_tenantRows hr.wf hinv hf (hne ▸ ht')
          · exact absurd ⟨token,a,inv,hq,hadm,ha,hacc,hne,hpair,hid⟩ hnot
        rcases hc.confined hr.wf (authenticate_ok ha).1 hf with hsame | ⟨x,hsame,hright⟩
        · exact hsame t'
        refine hsame t' fun hx => ?_
        subst hx
        rcases hright with ⟨hpath,-⟩ | ⟨path,token,inv,rfl,-⟩ | ⟨name,slug,rfl,-⟩
        · exact ht' (Option.some.inj (hpath.symm.trans ht))
        · cases ht
          cases hc with
          | nothing => exact hws rfl
          | acceptInvitation h => exact hacc ⟨_,_,rfl,h,rfl⟩
        · cases ht
    · intro t' _
      rw [(handle_tenant_refused hq hgo).2]

/-- Deleting 1002 leaves 1010 alone. -/
theorem path_isolation_deleting :
    tenantRows 1010 (handle (plainPlatform {}) (Seed.readings 0) Seed.twoTenants
      (Seed.request 1 (.tenant (.deleteTenant 1002)))).2.db =
        tenantRows 1010 Seed.twoTenants.db := by
  refine (path_isolation Seed.reachable_twoTenants rfl rfl).mpr ?_ 1010 (by decide)
  rintro ⟨_,_,_,h,_⟩
  cases h

/-- The guest accepts the invitation of 1010 at the path of 1002. -/
theorem path_isolation_fails :
    ¬ ∀ (P : Platform) (o : Readings) (w : World DB Mail) (q : Request) (r : TenantRoute)
      (t : UUID), Reachable P o w → q.route = .tenant r → r.path = some t →
      ∀ t', t' ≠ t → tenantRows t' (handle P o w q).2.db = tenantRows t' w.db := by
  intro h
  have hrows := h (plainPlatform {}) (Seed.readings 0) Seed.twoTenants (Seed.accepting 1002) _ 1002
    Seed.reachable_twoTenants rfl rfl 1010 (by decide)
  revert hrows
  decide +kernel

end Requests

end TenantAuth
