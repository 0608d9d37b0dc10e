import TenantAuth.TenantIsolation
set_option autoImplicit false

/-! The audit trail. Each service commits its own change; the logger flushes its row into a
transaction that nobody commits. So a change is never committed together with its row. -/

namespace TenantAuth
open Transact

/-- The routes that are there to change a tenant. -/
def TenantRoute.Mutates : TenantRoute → Prop
  | .listMyTenants | .getTenant _ | .listMembers _ => False
  | _ => True

def tenantTables (d : DB) : List Tenant × List TenantMember × List TenantInvitation :=
  (d.tenants,d.members,d.invitations)

/-- The audit trail and the change commit together: a success leaves exactly one new audit
row, of the actor and of the tenant whose rows changed; a failure leaves the tables alone. -/
def AuditedTogether (P : Platform) (o : Readings) (w : World DB Mail) (q : Request) : Prop :=
  let x := handle P o w q
  (x.1.isSuccess = true → ∃ a row t, ActsAs P o w q a ∧ row.userId = some a.id ∧
    row.tenantId = some t ∧ x.2.db.auditLogs = w.db.auditLogs ++ [row] ∧
    ∀ t', t' ≠ t → tenantRows t' x.2.db = tenantRows t' w.db) ∧
  (x.1.isSuccess = false → tenantTables x.2.db = tenantTables w.db)

def Admissible (ws : List Write) (d : DB) : Prop := ∃ d', flushAll Write.apply ws d = .ok d'

section Passing
variable (P : Platform) (o : Nat → Reading) (n : Nat) (d : DB) (a : User)

/-- The request of `a` gets as far as the service's commit: it passes the guard and the
service's checks, and its writes are admissible. -/
def TenantRoute.Passes : TenantRoute → Prop
  | .createTenant name slug => ∃ role, TenantService.adminRole d = some role ∧
    Admissible (TenantService.creation P o n name slug a.id role) d
  | .updateTenant t name isActive => IsTenantAdmin d t a.id ∧
    ∃ tenant, activeTenant d t = some tenant ∧
      Admissible (TenantService.tenantWrites tenant
        { name := name.map strip, isActive := isActive } (o n).now) d
  | .deleteTenant t => IsTenantAdmin d t a.id ∧
    ∃ tenant, activeTenant d t = some tenant ∧
      Admissible (TenantService.tenantWrites tenant { isActive := some false } (o n).now) d
  | .inviteMember t email roleId => IsTenantAdmin d t a.id ∧ (∃ role, roleOf d roleId = some role) ∧
    Admissible [.insertInvitation (TenantService.newInvitation P o n t email roleId)] d
  | .acceptInvitation _ token => ∃ inv, TenantService.Acceptable P d token a.id (o n).now inv ∧
    Admissible (TenantService.acceptance o n a.id inv) d
  | .updateMemberRole t u roleId => IsTenantAdmin d t a.id ∧
    (∃ role, roleOf d roleId = some role) ∧
    ∃ m, membershipOf d t u = some m ∧
      Admissible (TenantService.memberWrites m { roleId := some roleId }) d
  | .removeMember t u => IsTenantAdmin d t a.id ∧
    ∃ m, membershipOf d t u = some m ∧
      Admissible (TenantService.memberWrites m { isActive := some false }) d
  | .listMyTenants | .getTenant _ | .listMembers _ => False

end Passing

section Endpoints
variable {P : Platform} {o : Nat → Reading} {n : Nat} {d : DB} {s : List Mail} {a : User}

theorem IsTenantAdmin.guard {t u : UUID} (hw : d.Wf) (h : IsTenantAdmin d t u) :
    ∃ m, adminMembership d t u = .ok m := by
  obtain ⟨m,hm,ht,hu,hact,r,hr,hid,hname⟩ := h
  have hmember : membershipOf d t u = some m := by
    refine find_eq_some_of_unique hm (by simp [ht,hu,hact]) fun m' hm' hp => ?_
    simp only [decide_eq_true_eq] at hp
    exact eq_of_key hw.memberPair hm' hm (by simp [hp.1,hp.2.1,ht,hu])
  have hrole : roleOf d m.roleId = some r := by
    refine find_eq_some_of_unique hr (by simp [hid]) fun r' hr' hp => ?_
    simp only [decide_eq_true_eq] at hp
    exact eq_of_key hw.roleKey hr' hr (hp.trans hid.symm)
  refine ⟨m,?_⟩
  unfold adminMembership
  rcases hname with hname | hname <;> simp [hmember,hrole,hname]

theorem exec_requireTenantAdmin_bind {t : UUID} {p : App Body} (hw : d.Wf)
    (h : IsTenantAdmin d t a.id) :
    (requireTenantAdmin t a >>= fun _ => p).exec Write.apply o ⟨d,d,[],n,s⟩ =
      p.exec Write.apply o ⟨d,d,[],n,s⟩ := by
  obtain ⟨m,hm⟩ := h.guard hw
  rw [exec_bind,requireTenantAdmin_exec,hm]

theorem exec_guarded_db {α : Type} {t : UUID} {p : App α} {f : α → App Body} (hw : d.Wf)
    (h : IsTenantAdmin d t a.id) (hf : ∀ x, (f x).Quiet) :
    ((requireTenantAdmin t a >>= fun _ => p >>= f).exec Write.apply o ⟨d,d,[],n,s⟩).2.db =
      (p.exec Write.apply o ⟨d,d,[],n,s⟩).2.db := by
  rw [exec_requireTenantAdmin_bind hw h,exec_bind_quiet hf]

theorem logged_isOk {action : String} {t : UUID} {u : Option UUID}
    {details : Option (List (String × Detail))} {b : Body} (ha : d.auditLogs = [])
    (ht : t ∈ d.tenants.map Tenant.id) :
    ((AuditLogger.log action (some t) u details >>= fun _ => (pure b : App Body)).exec
      Write.apply o ⟨d,d,[],n,s⟩).1.isOk = true := by
  have hv : ∀ r : AuditLog, r.tenantId = some t → (Write.insertAuditLog r).violation d = none := by
    intro r hr
    simp only [Write.violation,firstViolation_eq_none,List.forall_mem_cons,vacant_iff,ha,hr,
      Option.all_some,present_iff]
    exact ⟨by simp,ht,by simp⟩
  rw [exec_bind]
  unfold AuditLogger.log
  simp only [exec_uuid4_bind,exec_now_bind,exec_add_bind,exec_flush,List.nil_append,Conn.flushed]
  rw [flushAll_single.mpr ⟨hv _ rfl,rfl⟩]
  rfl

theorem activeTenant_present {t : UUID} {tenant : Tenant} {d' : DB} {p : TenantPatch} {now : Nat}
    (h : activeTenant d t = some tenant)
    (hf : flushAll Write.apply (TenantService.tenantWrites tenant p now) d = .ok d') :
    t ∈ d'.tenants.map Tenant.id := by
  obtain ⟨hmem,hid,-⟩ := TenantService.activeTenant_mem h
  obtain ⟨f,hkeys,rfl⟩ := TenantService.tenantWrites_flush hf
  have hmap : (update Tenant.id tenant.id f d.tenants).map Tenant.id = d.tenants.map Tenant.id :=
    map_update Tenant.id _ (fun r => (hkeys r).1) d.tenants
  rw [hmap]
  exact hid ▸ List.mem_map_of_mem hmem

theorem IsTenantAdmin.present {t u : UUID} {d' : DB} (hw : d.Wf) (h : IsTenantAdmin d t u)
    (hf : SameIn .tenants d d') : t ∈ d'.tenants.map Tenant.id := by
  obtain ⟨m,hm,ht,-⟩ := h
  simp only [SameIn] at hf
  rw [hf]
  exact ht ▸ hw.memberTenant (List.mem_map_of_mem hm)

def Stops {α : Type} (p : App α) (o : Nat → Reading) (n : Nat) (d : DB) (s : List Mail) : Prop :=
  (p.exec Write.apply o ⟨d,d,[],n,s⟩).1.isOk = false ∧
    (p.exec Write.apply o ⟨d,d,[],n,s⟩).2.db = d

theorem Stops.bind {α β : Type} {p : App α} (h : Stops p o n d s) (f : α → App β) :
    Stops (p >>= f) o n d s := by
  obtain ⟨hok,hc⟩ := exec_bind_failed Write.apply o f h.1
  exact ⟨hok,by rw [hc]; exact h.2⟩

theorem Stops.guard {t : UUID} {p : App Body} (h : IsTenantAdmin d t a.id → Stops p o n d s) :
    Stops (requireTenantAdmin t a >>= fun _ => p) o n d s := by
  unfold Stops
  rw [exec_bind,requireTenantAdmin_exec]
  cases hm : adminMembership d t a.id with
  | ok m => exact h (adminMembership_ok hm)
  | raised e => exact ⟨rfl,rfl⟩
  | fault f => exact ⟨rfl,rfl⟩

theorem endpoint_stops {r : TenantRoute} (hm : r.Mutates) (hn : ¬ r.Passes P o n d a) :
    Stops (r.endpoint P a) o n d s := by
  cases r with
  | createTenant name slug =>
    simp only [TenantRoute.endpoint,TenantRouter.createTenant]
    refine Stops.bind ?_ _
    rcases TenantService.createTenant_cases P o d n s name slug a.id with
      h | ⟨role,d',hr,hf,-⟩
    · exact h
    · exact absurd ⟨role,hr,d',hf⟩ hn
  | updateTenant t name isActive =>
    simp only [TenantRoute.endpoint,TenantRouter.updateTenant]
    refine Stops.guard fun ha => Stops.bind ?_ _
    rcases TenantService.updateTenant_cases o d n s t name isActive with
      h | ⟨tenant,d',ht,hf,-⟩
    · exact h
    · exact absurd ⟨ha,tenant,ht,d',hf⟩ hn
  | deleteTenant t =>
    simp only [TenantRoute.endpoint,TenantRouter.deleteTenant]
    refine Stops.guard fun ha => Stops.bind ?_ _
    rcases TenantService.deleteTenant_cases o d n s t with h | ⟨tenant,d',ht,hf,-⟩
    · exact h
    · exact absurd ⟨ha,tenant,ht,d',hf⟩ hn
  | inviteMember t email roleId =>
    simp only [TenantRoute.endpoint,TenantRouter.inviteMember]
    refine Stops.guard fun ha => Stops.bind ?_ _
    rcases TenantService.inviteMember_cases P o d n s t email roleId with h | ⟨role,d',hr,hf,-⟩
    · exact h
    · exact absurd ⟨ha,⟨role,hr⟩,d',hf⟩ hn
  | acceptInvitation t token =>
    simp only [TenantRoute.endpoint,TenantRouter.acceptInvitation]
    refine Stops.bind ?_ _
    rcases TenantService.acceptInvitation_cases P o d n s token a.id with h | ⟨inv,d',hc,hf,-⟩
    · exact h
    · exact absurd ⟨inv,hc,d',hf⟩ hn
  | updateMemberRole t u roleId =>
    simp only [TenantRoute.endpoint,TenantRouter.updateMemberRole]
    refine Stops.guard fun ha => Stops.bind ?_ _
    rcases TenantService.updateMemberRole_cases o d n s t u roleId with
      h | ⟨m,role,d',hmem,hr,hf,-⟩
    · exact h
    · exact absurd ⟨ha,⟨role,hr⟩,m,hmem,d',hf⟩ hn
  | removeMember t u =>
    simp only [TenantRoute.endpoint,TenantRouter.removeMember]
    refine Stops.guard fun ha => Stops.bind ?_ _
    rcases TenantService.removeMember_cases o d n s t u with h | ⟨m,d',hmem,hf,-⟩
    · exact h
    · exact absurd ⟨ha,m,hmem,d',hf⟩ hn
  | listMyTenants | getTenant | listMembers => exact hm.elim

theorem endpoint_passes {r : TenantRoute} (hw : d.Wf) (haudit : d.auditLogs = [])
    (hp : r.Passes P o n d a) :
    ((r.endpoint P a).exec Write.apply o ⟨d,d,[],n,s⟩).1.isOk = true ∨
      tenantTables ((r.endpoint P a).exec Write.apply o ⟨d,d,[],n,s⟩).2.db ≠ tenantTables d := by
  cases r with
  | createTenant name slug =>
    obtain ⟨role,hr,d',hf⟩ := hp
    right
    simp only [TenantRoute.endpoint,TenantRouter.createTenant]
    rw [exec_bind_quiet fun _ => quiet_logged _ _ _ _ _,TenantService.createTenant_exec o n s hr hf,
      (TenantService.creation_flush hf).2]
    simp [tenantTables]
  | inviteMember t email roleId =>
    obtain ⟨ha,⟨role,hr⟩,d',hf⟩ := hp
    right
    simp only [TenantRoute.endpoint,TenantRouter.inviteMember]
    rw [exec_requireTenantAdmin_bind hw ha,exec_bind_quiet fun _ => quiet_logged _ _ _ _ _,
      TenantService.inviteMember_exec o n s hr hf,(flushAll_single.mp hf).2]
    simp [tenantTables,Write.effect]
  | acceptInvitation t token =>
    obtain ⟨inv,hc,d',hf⟩ := hp
    right
    simp only [TenantRoute.endpoint,TenantRouter.acceptInvitation]
    rw [exec_bind_quiet fun _ => quiet_logged _ _ _ _ _,
      TenantService.acceptInvitation_exec P o d n s hc hf,(TenantService.acceptance_flush hf).2.2]
    simp [tenantTables]
  | updateTenant t name isActive =>
    obtain ⟨ha,tenant,ht,d',hf⟩ := hp
    left
    obtain ⟨t',he⟩ := TenantService.updateTenant_exec o n s ht hf
    simp only [TenantRoute.endpoint,TenantRouter.updateTenant]
    rw [exec_requireTenantAdmin_bind hw ha,exec_bind,he]
    have hlogs : d'.auditLogs = d.auditLogs :=
      flushAll_frame_ne (t := .auditLogs) (tenantWrites_touches _ _ _) (by simp) hf
    exact logged_isOk (hlogs.trans haudit) (activeTenant_present ht hf)
  | deleteTenant t =>
    obtain ⟨ha,tenant,ht,d',hf⟩ := hp
    left
    simp only [TenantRoute.endpoint,TenantRouter.deleteTenant]
    rw [exec_requireTenantAdmin_bind hw ha,exec_bind,TenantService.deleteTenant_exec o n s ht hf]
    have hlogs : d'.auditLogs = d.auditLogs :=
      flushAll_frame_ne (t := .auditLogs) (tenantWrites_touches _ _ _) (by simp) hf
    exact logged_isOk (hlogs.trans haudit) (activeTenant_present ht hf)
  | updateMemberRole t u roleId =>
    obtain ⟨ha,⟨role,hr⟩,m,hmem,d',hf⟩ := hp
    left
    obtain ⟨m',he⟩ := TenantService.updateMemberRole_exec o n s hmem hr hf
    simp only [TenantRoute.endpoint,TenantRouter.updateMemberRole]
    rw [exec_requireTenantAdmin_bind hw ha,exec_bind,he]
    have hlogs : d'.auditLogs = d.auditLogs :=
      flushAll_frame_ne (t := .auditLogs) (memberWrites_touches _ _) (by simp) hf
    have htenants : SameIn .tenants d d' :=
      flushAll_frame_ne (memberWrites_touches _ _) (by simp) hf
    exact logged_isOk (hlogs.trans haudit) (ha.present hw htenants)
  | removeMember t u =>
    obtain ⟨ha,m,hmem,d',hf⟩ := hp
    left
    simp only [TenantRoute.endpoint,TenantRouter.removeMember]
    rw [exec_requireTenantAdmin_bind hw ha,exec_bind,TenantService.removeMember_exec o n s hmem hf]
    have hlogs : d'.auditLogs = d.auditLogs :=
      flushAll_frame_ne (t := .auditLogs) (memberWrites_touches _ _) (by simp) hf
    have htenants : SameIn .tenants d d' :=
      flushAll_frame_ne (memberWrites_touches _ _) (by simp) hf
    exact logged_isOk (hlogs.trans haudit) (ha.present hw htenants)
  | listMyTenants | getTenant | listMembers => exact hp.elim

end Endpoints

section Requests
variable {P : Platform} {o : Readings} {w : World DB Mail} {q : Request}

theorem Reachable.auditLogs (h : Reachable P o w) : w.db.auditLogs = [] := by
  induction h with
  | start h => exact h.auditLogs
  | serve _ q ih => exact (handle_auditLogs P o _ q).trans ih

/-- A mutating request that does not get as far as the service's commit fails and changes
nothing. -/
theorem handle_stops {r : TenantRoute} (hq : q.route = .tenant r) (hm : r.Mutates)
    (hnp : ¬ (Admits P q (o.read w.taken).now w.db ∧
      ∃ a, ActsAs P o w q a ∧ r.Passes P o.read (endpointStart P w q + 1) w.db a)) :
    (handle P o w q).1.isSuccess = false ∧ (handle P o w q).2.db = w.db := by
  by_cases hgo : Admits P q (o.read w.taken).now w.db ∧ ∃ a, ActsAs P o w q a
  · obtain ⟨hadm,a,ha⟩ := hgo
    obtain ⟨hno,hdb⟩ := endpoint_stops (s := w.sent) hm fun hp => hnp ⟨hadm,a,ha,hp⟩
    rw [handle_tenant hq hadm ha]
    exact ⟨(respond_isSuccess _ _).trans hno,hdb⟩
  · exact handle_tenant_refused hq hgo

/-- A mutating request commits its change and its audit row together just when it does not
get as far as the service's commit. -/
theorem audited_together_iff (hr : Reachable P o w) {r : TenantRoute} (hq : q.route = .tenant r)
    (hm : r.Mutates) :
    AuditedTogether P o w q ↔
      ¬ (Admits P q (o.read w.taken).now w.db ∧
        ∃ a, ActsAs P o w q a ∧ r.Passes P o.read (endpointStart P w q + 1) w.db a) := by
  have hnolog := handle_auditLogs P o w q
  constructor
  · rintro ⟨hsuccess,hfailure⟩ ⟨hadm,a,ha,hp⟩
    have hno : (handle P o w q).1.isSuccess = false := by
      cases hs : (handle P o w q).1.isSuccess with
      | false => rfl
      | true =>
        obtain ⟨-,row,-,-,-,-,hlogs,-⟩ := hsuccess hs
        rw [hnolog] at hlogs
        simp at hlogs
    have hsame := hfailure hno
    rw [handle_tenant hq hadm ha] at hno hsame
    rcases endpoint_passes (s := w.sent) hr.wf hr.auditLogs hp with hok | hne
    · simp [respond_isSuccess,hok] at hno
    · exact hne hsame
  · intro hnp
    obtain ⟨hno,hdb⟩ := handle_stops hq hm hnp
    exact ⟨fun hs => by simp [hno] at hs,fun _ => by rw [hdb]⟩

/-- The owner of 1002 invites for a role that does not exist. -/
theorem audited_together_iff_roleless :
    AuditedTogether (plainPlatform {}) (Seed.readings 0) Seed.twoTenants
      (Seed.request 1 (.tenant (.inviteMember 1002 "guest@example.com" 7))) := by
  refine (audited_together_iff (r := .inviteMember 1002 "guest@example.com" 7)
    Seed.reachable_twoTenants rfl trivial).mpr ?_
  rintro ⟨-,a,-,-,⟨role,hrole⟩,-⟩
  have hnone : roleOf Seed.twoTenants.db 7 = none := by decide +kernel
  rw [hnone] at hrole
  cases hrole

/-- The owner renames a tenant and no audit row is committed. -/
theorem audited_together_fails :
    ¬ ∀ (P : Platform) (o : Readings) (w : World DB Mail) (q : Request) (r : TenantRoute),
      Reachable P o w → q.route = .tenant r → r.Mutates → AuditedTogether P o w q := by
  intro h
  have hs := (h (plainPlatform {}) (Seed.readings 0) Seed.twoTenants
    (Seed.request 1 (.tenant (.updateTenant 1002 (some "C") none))) _
    Seed.reachable_twoTenants rfl trivial).1 (by decide +kernel)
  obtain ⟨a,row,t,-,-,-,hlogs,-⟩ := hs
  rw [handle_auditLogs] at hlogs
  simp at hlogs

/-- The path names no tenant: the audit row is rejected, the acceptance stays. -/
example :
    let x := handle (plainPlatform {}) (Seed.readings 0) Seed.twoTenants (Seed.accepting 7)
    x.1 = unhandledException ∧ tenantTables x.2.db ≠ tenantTables Seed.twoTenants.db := by
  decide +kernel

end Requests

end TenantAuth
