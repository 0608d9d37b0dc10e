import TenantAuth.Guards
set_option autoImplicit false

namespace TenantAuth
open Transact

namespace TenantService
variable (P : Platform) (o : Nat → Reading) (d v : DB) (ws : List Write) (n : Nat) (s : List Mail)

theorem quiet_refreshRow {α : Type} (table : DB → List α) (p : α → Bool) :
    (refreshRow table p).Quiet :=
  Prog.Quiet.bind (quiet_scalar _ _) fun r => by cases r <;> simp

theorem quiet_runMigrations (t : UUID) :
    (TenantSchemaService.runMigrationsForSchema t).Quiet :=
  Prog.Quiet.bind (quiet_reading _) fun b => by cases b <;> simp

section Equations
variable {β : Type}

theorem exec_getMembership_bind (t u : UUID) (g : Option TenantMember → App β) :
    (getMembership t u >>= g).exec Write.apply o ⟨d,v,ws,n,s⟩ =
      match flushAll Write.apply ws v with
      | .ok v' => (g (membershipOf v' t u)).exec Write.apply o ⟨d,v',[],n,s⟩
      | .error x => (.fault x,⟨d,v,ws,n,s⟩) :=
  exec_scalar_bind ..

theorem exec_getTenant_bind (t : UUID) (g : Option Tenant → App β) :
    (getTenant t >>= g).exec Write.apply o ⟨d,v,ws,n,s⟩ =
      match flushAll Write.apply ws v with
      | .ok v' => (g (activeTenant v' t)).exec Write.apply o ⟨d,v',[],n,s⟩
      | .error x => (.fault x,⟨d,v,ws,n,s⟩) :=
  exec_scalar_bind ..

theorem exec_createSchema_bind (t : UUID) (g : String → App β) :
    (TenantSchemaService.createSchema t >>= g).exec Write.apply o ⟨d,v,ws,n,s⟩ =
      match flushAll Write.apply (ws ++ [.createSchema (TenantSchemaService.buildSchemaName t)])
        v with
      | .ok v' => (g (TenantSchemaService.buildSchemaName t)).exec Write.apply o ⟨d,v',[],n,s⟩
      | .error x =>
        (.fault x,⟨d,v,ws ++ [.createSchema (TenantSchemaService.buildSchemaName t)],n,s⟩) := by
  rw [exec_bind]
  unfold TenantSchemaService.createSchema
  simp only [exec_add_bind,exec_flush_bind]
  cases flushAll Write.apply _ v <;> rfl

theorem exec_runMigrations_bind (t : UUID) (g : String → App β) :
    (TenantSchemaService.runMigrationsForSchema t >>= g).exec Write.apply o ⟨d,v,ws,n,s⟩ =
      match (o n).migrated with
      | true => (g (TenantSchemaService.buildSchemaName t)).exec Write.apply o ⟨d,v,ws,n+1,s⟩
      | false => (.raised .calledProcessError,⟨d,v,ws,n+1,s⟩) := by
  rw [exec_bind]
  unfold TenantSchemaService.runMigrationsForSchema
  rw [exec_reading_bind]
  cases (o n).migrated <;> rfl

def tenantWrites (t : Tenant) (p : TenantPatch) (now : Nat) : List Write :=
  if p.diff t = {} then [] else [.updateTenant t.id (p.diff t) now]

def memberWrites (m : TenantMember) (p : TenantMemberPatch) : List Write :=
  if p.diff m = {} then [] else [.updateMember m.id (p.diff m)]

theorem exec_setTenant_bind (t : Tenant) (p : TenantPatch) (g : Unit → App β) :
    (setTenant t p >>= g).exec Write.apply o ⟨d,v,ws,n,s⟩ =
      (g ()).exec Write.apply o ⟨d,v,ws ++ tenantWrites t p (o n).now,n+1,s⟩ := by
  rw [exec_bind]
  unfold setTenant tenantWrites
  rw [exec_now_bind]
  by_cases h : p.diff t = {} <;> simp [h]

theorem exec_setMember_bind (m : TenantMember) (p : TenantMemberPatch) (g : Unit → App β) :
    (setMember m p >>= g).exec Write.apply o ⟨d,v,ws,n,s⟩ =
      (g ()).exec Write.apply o ⟨d,v,ws ++ memberWrites m p,n,s⟩ := by
  rw [exec_bind]
  unfold setMember memberWrites
  by_cases h : p.diff m = {} <;> simp [h]

end Equations

section Flushed
variable {d}

theorem tenantWrites_flush {t : Tenant} {p : TenantPatch} {now : Nat} {d' : DB}
    (h : flushAll Write.apply (tenantWrites t p now) d = .ok d') :
    ∃ f : Tenant → Tenant,
      (∀ r, (f r).id = r.id ∧ (f r).slug = r.slug ∧ (f r).ownerId = r.ownerId) ∧
      d' = { d with tenants := update Tenant.id t.id f d.tenants } := by
  unfold tenantWrites at h
  split at h
  · cases h
    exact ⟨id,by simp,by simp⟩
  · obtain ⟨_,hd⟩ := flushAll_single.mp h
    exact ⟨(p.diff t).apply now,fun _ => ⟨rfl,rfl,rfl⟩,hd⟩

theorem memberWrites_flush {m : TenantMember} {p : TenantMemberPatch} {d' : DB}
    (h : flushAll Write.apply (memberWrites m p) d = .ok d') :
    ∃ f : TenantMember → TenantMember,
      (∀ r, (f r).id = r.id ∧ (f r).tenantId = r.tenantId ∧ (f r).userId = r.userId) ∧
      d' = { d with members := update TenantMember.id m.id f d.members } := by
  unfold memberWrites at h
  split at h
  · cases h
    exact ⟨id,by simp,by simp⟩
  · obtain ⟨_,hd⟩ := flushAll_single.mp h
    exact ⟨(p.diff m).apply,fun _ => ⟨rfl,rfl,rfl⟩,hd⟩

theorem activeTenant_mem {t : UUID} {tenant : Tenant} (h : activeTenant d t = some tenant) :
    tenant ∈ d.tenants ∧ tenant.id = t ∧ tenant.isActive = true :=
  ⟨List.mem_of_find?_eq_some h,by simpa using List.find?_some h⟩

theorem membershipOf_mem {t u : UUID} {m : TenantMember} (h : membershipOf d t u = some m) :
    m ∈ d.members ∧ m.tenantId = t ∧ m.userId = u ∧ m.isActive = true :=
  ⟨List.mem_of_find?_eq_some h,by simpa using List.find?_some h⟩

end Flushed

section Rows

def newTenant (name slug : String) (ownerId : UUID) : Tenant :=
  ⟨(o n).uuid,strip name,P.lower (strip slug),ownerId,true,(o (n+1)).now,(o (n+1)).now⟩

def ownerMember (ownerId : UUID) (role : Role) : TenantMember :=
  ⟨(o (n+2)).uuid,(o n).uuid,ownerId,role.id,true,(o (n+3)).now⟩

def creation (name slug : String) (ownerId : UUID) (role : Role) : List Write :=
  [.insertTenant (newTenant P o n name slug ownerId),.insertMember (ownerMember o n ownerId role)] ++
    match P.settings.multiTenantMode with
    | .schema => [.createSchema (TenantSchemaService.buildSchemaName (o n).uuid)]
    | .row => []

def newInvitation (tenantId : UUID) (email : String) (roleId : UUID) : TenantInvitation :=
  ⟨(o (n+2)).uuid,tenantId,P.lower (strip email),roleId,P.sha256 (o n).secret,
    (o (n+1)).now + timedeltaDays 7,none⟩

def newMember (userId : UUID) (inv : TenantInvitation) : TenantMember :=
  ⟨(o (n+2)).uuid,inv.tenantId,userId,inv.roleId,true,(o (n+3)).now⟩

def acceptance (userId : UUID) (inv : TenantInvitation) : List Write :=
  [.acceptInvitation inv.id (o (n+1)).now,.insertMember (newMember o n userId inv)]

end Rows

/-- The role `create_tenant` gives the owner. -/
def adminRole (d : DB) : Option Role := d.roles.find? fun r => r.name = "tenant_admin"

/-- `accept_invitation` passes its checks at the instant `t` with the invitation `inv`. -/
structure Acceptable (d : DB) (token : String) (userId : UUID) (t : Nat)
    (inv : TenantInvitation) : Prop where
  pending : d.invitations.find? (fun i => i.tokenHash = P.sha256 token ∧ i.acceptedAt = none) =
    some inv
  unexpired : t ≤ inv.expiresAt
  addressed : ∃ u, d.users.find? (fun u => u.id = userId) = some u ∧
    P.lower u.email = P.lower inv.email
  newcomer : membershipOf d inv.tenantId userId = none

/-- The migration subprocess ran, where the mode asks for it. -/
def Migrated : Prop := P.settings.multiTenantMode = .schema → (o (n+4)).migrated = true

theorem addTenant_cases (name slug : String) (ownerId : UUID) :
    let r := (addTenant P name slug ownerId).exec Write.apply o ⟨d,d,[],n,s⟩
    (r.1.isOk = false ∧ r.2.db = d) ∨
      ∃ role d1, adminRole d = some role ∧
        flushAll Write.apply [.insertTenant (newTenant P o n name slug ownerId)] d = .ok d1 ∧
        r = (.ok (o n).uuid,
          ⟨d,d1,[.insertMember (ownerMember o n ownerId role)],n+4,s⟩) := by
  unfold addTenant
  simp only [exec_uuid4_bind,exec_now_bind,exec_add_bind,exec_flush_bind,List.nil_append]
  cases h1 : flushAll Write.apply [.insertTenant _] d with
  | error f => exact .inl ⟨rfl,rfl⟩
  | ok d1 =>
    simp only [exec_scalar_bind,flushAll_nil]
    have hroles : d1.roles = d.roles := by rw [(flushAll_single.mp h1).2]; rfl
    rw [hroles]
    cases hr : adminRole d with
    | none =>
      rw [adminRole] at hr
      rw [hr]
      exact .inl ⟨rfl,rfl⟩
    | some role =>
      rw [adminRole] at hr
      rw [hr]
      exact .inr ⟨role,d1,rfl,h1,rfl⟩

theorem createTenant_cases (name slug : String) (ownerId : UUID) :
    let r := (createTenant P name slug ownerId).exec Write.apply o ⟨d,d,[],n,s⟩
    (r.1.isOk = false ∧ r.2.db = d) ∨
      ∃ role d', adminRole d = some role ∧
        flushAll Write.apply (creation P o n name slug ownerId role) d = .ok d' ∧
        r.2.db = d' ∧
        ((Migrated P o n ∧ ∃ k, r = (.ok (newTenant P o n name slug ownerId),⟨d',d',[],k,s⟩)) ∨
          (¬ Migrated P o n ∧ r.1 = .raised .calledProcessError)) := by
  unfold createTenant
  rcases addTenant_cases P o d n s name slug ownerId with ⟨hok,hdb⟩ | ⟨role,d1,hr,h1,he⟩
  · left
    rw [exec_bind]
    cases hc : (addTenant P name slug ownerId).exec Write.apply o ⟨d,d,[],n,s⟩ with
    | mk r c' =>
      simp only [hc] at hok hdb
      cases r with
      | ok a => cases hok
      | raised e => exact ⟨rfl,hdb⟩
      | fault x => exact ⟨rfl,hdb⟩
  · obtain ⟨hv,hd1⟩ := flushAll_single.mp h1
    have hid : (newTenant P o n name slug ownerId).id ∉ d.tenants.map Tenant.id := by
      simp only [Write.violation,firstViolation_eq_none,List.forall_mem_cons] at hv
      exact vacant_iff.mp hv.2.2.1
    have hfind : (d.tenants ++ [newTenant P o n name slug ownerId]).find?
        (fun t => t.id = (o n).uuid) = some (newTenant P o n name slug ownerId) :=
      find_append_key hid
    rw [exec_bind,he]
    unfold creation Migrated
    cases hmode : P.settings.multiTenantMode with
    | row =>
      simp only [exec_commit_bind]
      cases h2 : flushAll Write.apply [.insertMember _] d1 with
      | error f => exact .inl ⟨rfl,rfl⟩
      | ok d2 =>
        have htenants : d2.tenants = d.tenants ++ [newTenant P o n name slug ownerId] := by
          rw [(flushAll_single.mp h2).2,hd1]; rfl
        refine .inr ⟨role,d2,hr,flushAll_cons.mpr ⟨hv,hd1 ▸ h2⟩,?_,.inl ⟨by simp,n+4,?_⟩⟩
        · simp [htenants,hfind]
        · simp [htenants,hfind]
    | schema =>
      simp only [exec_createSchema_bind,exec_commit_bind,List.cons_append,List.nil_append]
      cases h2 : flushAll Write.apply [.insertMember _,.createSchema _] d1 with
      | error f => exact .inl ⟨rfl,rfl⟩
      | ok d2 =>
        obtain ⟨hv2,h3⟩ := flushAll_cons.mp h2
        have htenants : d2.tenants = d.tenants ++ [newTenant P o n name slug ownerId] := by
          rw [(flushAll_single.mp h3).2,hd1]; rfl
        simp only [flushAll_nil,exec_runMigrations_bind]
        cases hm : (o (n+4)).migrated with
        | true =>
          refine .inr ⟨role,d2,hr,flushAll_cons.mpr ⟨hv,hd1 ▸ h2⟩,?_,.inl ⟨by simp,n+5,?_⟩⟩
          · simp [htenants,hfind]
          · simp [htenants,hfind]
        | false =>
          exact .inr ⟨role,d2,hr,flushAll_cons.mpr ⟨hv,hd1 ▸ h2⟩,rfl,.inr ⟨by simp,rfl⟩⟩

theorem updateTenant_cases (tenantId : UUID) (name : Option String) (isActive : Option Bool) :
    let r := (updateTenant tenantId name isActive).exec Write.apply o ⟨d,d,[],n,s⟩
    (r.1.isOk = false ∧ r.2.db = d) ∨
      ∃ tenant d', activeTenant d tenantId = some tenant ∧
        flushAll Write.apply
          (tenantWrites tenant { name := name.map strip, isActive := isActive } (o n).now) d =
            .ok d' ∧
        ∃ t', r = (.ok t',⟨d',d',[],n+1,s⟩) := by
  unfold updateTenant
  simp only [exec_getTenant_bind,flushAll_nil]
  cases ht : activeTenant d tenantId with
  | none => exact .inl ⟨rfl,rfl⟩
  | some tenant =>
    simp only [exec_setTenant_bind,exec_commit_bind,List.nil_append]
    cases hf : flushAll Write.apply (tenantWrites tenant _ _) d with
    | error f => exact .inl ⟨rfl,rfl⟩
    | ok d' =>
      have hfind : ∃ t', d'.tenants.find? (fun t => t.id = tenant.id) = some t' := by
        obtain ⟨f,hkeys,hd⟩ := tenantWrites_flush hf
        rw [hd]
        exact find_update_isSome (fun r => (hkeys r).1) (activeTenant_mem ht).1 rfl
      obtain ⟨t',ht'⟩ := hfind
      refine .inr ⟨tenant,d',rfl,hf,t',?_⟩
      simp [ht']

theorem deleteTenant_cases (tenantId : UUID) :
    let r := (deleteTenant tenantId).exec Write.apply o ⟨d,d,[],n,s⟩
    (r.1.isOk = false ∧ r.2.db = d) ∨
      ∃ tenant d', activeTenant d tenantId = some tenant ∧
        flushAll Write.apply (tenantWrites tenant { isActive := some false } (o n).now) d =
          .ok d' ∧
        r = (.ok (),⟨d',d',[],n+1,s⟩) := by
  unfold deleteTenant
  simp only [exec_getTenant_bind,flushAll_nil]
  cases ht : activeTenant d tenantId with
  | none => exact .inl ⟨rfl,rfl⟩
  | some tenant =>
    simp only [exec_setTenant_bind,exec_commit,Conn.flushed,List.nil_append]
    cases hf : flushAll Write.apply (tenantWrites tenant _ _) d with
    | error f => exact .inl ⟨rfl,rfl⟩
    | ok d' => exact .inr ⟨tenant,d',rfl,hf,rfl⟩

theorem inviteMember_cases (tenantId : UUID) (email : String) (roleId : UUID) :
    let r := (inviteMember P tenantId email roleId).exec Write.apply o ⟨d,d,[],n,s⟩
    (r.1.isOk = false ∧ r.2.db = d) ∨
      ∃ role d', roleOf d roleId = some role ∧
        flushAll Write.apply [.insertInvitation (newInvitation P o n tenantId email roleId)] d =
          .ok d' ∧
        r = (.ok ⟨newInvitation P o n tenantId email roleId,(o n).secret⟩,⟨d',d',[],n+3,s⟩) := by
  unfold inviteMember roleOf
  simp only [exec_scalar_bind,flushAll_nil]
  cases hr : d.roles.find? _ with
  | none => exact .inl ⟨rfl,rfl⟩
  | some role =>
    simp only [exec_reading_bind,exec_now_bind,exec_uuid4_bind,exec_add_bind,exec_commit_bind,
      List.nil_append]
    cases hf : flushAll Write.apply [.insertInvitation _] d with
    | error f => exact .inl ⟨rfl,rfl⟩
    | ok d' =>
      obtain ⟨hv,hd⟩ := flushAll_single.mp hf
      have hid : (newInvitation P o n tenantId email roleId).id ∉
          d.invitations.map TenantInvitation.id := by
        simp only [Write.violation,firstViolation_eq_none,List.forall_mem_cons] at hv
        exact vacant_iff.mp hv.2.1
      have hfind : d'.invitations.find? (fun i => i.id = (o (n+1+1)).uuid) =
          some (newInvitation P o n tenantId email roleId) := by
        rw [hd]
        exact find_append_key hid
      refine .inr ⟨role,d',rfl,hf,?_⟩
      simp only [exec_refreshRow_bind,hfind]
      rfl

theorem acceptInvitation_cases (token : String) (userId : UUID) :
    let r := (acceptInvitation P token userId).exec Write.apply o ⟨d,d,[],n,s⟩
    (r.1.isOk = false ∧ r.2.db = d) ∨
      ∃ inv d', Acceptable P d token userId (o n).now inv ∧
        flushAll Write.apply (acceptance o n userId inv) d = .ok d' ∧
        r = (.ok (newMember o n userId inv),⟨d',d',[],n+4,s⟩) := by
  unfold acceptInvitation pendingInvitation
  simp only [exec_scalar_bind,flushAll_nil]
  cases hi : d.invitations.find? _ with
  | none => exact .inl ⟨rfl,rfl⟩
  | some inv =>
    simp only [exec_now_bind,exec_appErrorIf_bind,exec_scalar_bind,flushAll_nil,exec_add_bind,
      exec_getMembership_bind,List.nil_append]
    split
    · exact .inl ⟨rfl,rfl⟩
    rename_i hexp
    split
    · exact .inl ⟨rfl,rfl⟩
    rename_i hmail
    cases h1 : flushAll Write.apply [.acceptInvitation _ _] d with
    | error f => exact .inl ⟨rfl,rfl⟩
    | ok d1 =>
      obtain ⟨hv1,hd1⟩ := flushAll_single.mp h1
      have hm : membershipOf d1 inv.tenantId userId = membershipOf d inv.tenantId userId := by
        rw [hd1]; rfl
      simp only [hm,exec_uuid4_bind,exec_now_bind,exec_add_bind,exec_commit_bind,
        List.nil_append]
      cases hn : membershipOf d inv.tenantId userId with
      | some m => exact .inl ⟨rfl,rfl⟩
      | none =>
        simp only [Option.isSome_none,Bool.false_eq_true,if_false]
        cases h2 : flushAll Write.apply [.insertMember _] d1 with
        | error f => exact .inl ⟨rfl,rfl⟩
        | ok d2 =>
          obtain ⟨hv2,hd2⟩ := flushAll_single.mp h2
          have hid : (newMember o n userId inv).id ∉ d1.members.map TenantMember.id := by
            simp only [Write.violation,firstViolation_eq_none,List.forall_mem_cons] at hv2
            exact vacant_iff.mp hv2.1
          have hfind : d2.members.find? (fun m => m.id = (o (n+1+1)).uuid) =
              some (newMember o n userId inv) := by
            rw [hd2]
            exact find_append_key hid
          have haddr : ∃ u, d.users.find? (fun u => u.id = userId) = some u ∧
              P.lower u.email = P.lower inv.email := by
            cases hu : d.users.find? (fun u => u.id = userId) with
            | none => simp [hu] at hmail
            | some u => exact ⟨u,rfl,by simpa [hu] using hmail⟩
          refine .inr ⟨inv,d2,⟨hi,by omega,haddr,hn⟩,?_,?_⟩
          · exact flushAll_cons.mpr ⟨hv1,hd1 ▸ h2⟩
          · simp only [exec_refreshRow,hfind]

theorem acceptInvitation_exec {token : String} {userId : UUID} {inv : TenantInvitation}
    {d' : DB} (h : Acceptable P d token userId (o n).now inv)
    (hf : flushAll Write.apply (acceptance o n userId inv) d = .ok d') :
    (acceptInvitation P token userId).exec Write.apply o ⟨d,d,[],n,s⟩ =
      (.ok (newMember o n userId inv),⟨d',d',[],n+4,s⟩) := by
  obtain ⟨u,hu,hmail⟩ := h.addressed
  obtain ⟨hv1,h2⟩ := flushAll_cons.mp hf
  have hexp : ¬ inv.expiresAt < (o n).now := Nat.not_lt.mpr h.unexpired
  have hf1 : flushAll Write.apply [.acceptInvitation inv.id (o (n+1)).now] d =
      .ok ((Write.acceptInvitation inv.id (o (n+1)).now).effect d) :=
    flushAll_single.mpr ⟨hv1,rfl⟩
  have hm : membershipOf ((Write.acceptInvitation inv.id (o (n+1)).now).effect d)
      inv.tenantId userId = none := h.newcomer
  obtain ⟨hv2,hd⟩ := flushAll_single.mp h2
  have hid : (newMember o n userId inv).id ∉ d.members.map TenantMember.id := by
    simp only [Write.violation,firstViolation_eq_none,List.forall_mem_cons] at hv2
    exact vacant_iff.mp hv2.1
  have hfind : d'.members.find? (fun m => m.id = (o (n+1+1)).uuid) =
      some (newMember o n userId inv) := by
    rw [hd]
    exact find_append_key hid
  rw [newMember] at h2 hfind
  unfold acceptInvitation pendingInvitation
  simp only [exec_scalar_bind,flushAll_nil,h.pending,exec_now_bind,exec_appErrorIf_bind,hexp,
    if_false,hu,Option.any_some,hmail,decide_true,not_true_eq_false,exec_add_bind,
    List.nil_append,exec_getMembership_bind,hf1,hm,Option.isSome_none,Bool.false_eq_true,
    exec_uuid4_bind,exec_commit_bind,h2,exec_refreshRow,hfind]
  rfl

theorem updateMemberRole_cases (tenantId userId roleId : UUID) :
    let r := (updateMemberRole tenantId userId roleId).exec Write.apply o ⟨d,d,[],n,s⟩
    (r.1.isOk = false ∧ r.2.db = d) ∨
      ∃ m role d', membershipOf d tenantId userId = some m ∧ roleOf d roleId = some role ∧
        flushAll Write.apply (memberWrites m { roleId := some roleId }) d = .ok d' ∧
        ∃ m', r = (.ok m',⟨d',d',[],n,s⟩) := by
  unfold updateMemberRole roleOf
  simp only [exec_getMembership_bind,flushAll_nil]
  cases hm : membershipOf d tenantId userId with
  | none => exact .inl ⟨rfl,rfl⟩
  | some m =>
    simp only [exec_scalar_bind,flushAll_nil]
    cases hr : d.roles.find? _ with
    | none => exact .inl ⟨rfl,rfl⟩
    | some role =>
      simp only [exec_setMember_bind,exec_commit_bind,List.nil_append]
      cases hf : flushAll Write.apply (memberWrites m _) d with
      | error f => exact .inl ⟨rfl,rfl⟩
      | ok d' =>
        have hfind : ∃ m', d'.members.find? (fun r => r.id = m.id) = some m' := by
          obtain ⟨f,hkeys,hd⟩ := memberWrites_flush hf
          rw [hd]
          exact find_update_isSome (fun r => (hkeys r).1) (membershipOf_mem hm).1 rfl
        obtain ⟨m',hm'⟩ := hfind
        refine .inr ⟨m,role,d',rfl,rfl,hf,m',?_⟩
        simp [hm']

theorem removeMember_cases (tenantId userId : UUID) :
    let r := (removeMember tenantId userId).exec Write.apply o ⟨d,d,[],n,s⟩
    (r.1.isOk = false ∧ r.2.db = d) ∨
      ∃ m d', membershipOf d tenantId userId = some m ∧
        flushAll Write.apply (memberWrites m { isActive := some false }) d = .ok d' ∧
        r = (.ok (),⟨d',d',[],n,s⟩) := by
  unfold removeMember
  simp only [exec_getMembership_bind,flushAll_nil]
  cases hm : membershipOf d tenantId userId with
  | none => exact .inl ⟨rfl,rfl⟩
  | some m =>
    simp only [exec_setMember_bind,exec_commit,Conn.flushed,List.nil_append]
    cases hf : flushAll Write.apply (memberWrites m _) d with
    | error f => exact .inl ⟨rfl,rfl⟩
    | ok d' => exact .inr ⟨m,d',rfl,hf,rfl⟩

section Forward
variable {P d} {d' : DB}

theorem addTenant_exec {name slug : String} {ownerId : UUID} {role : Role}
    (hr : adminRole d = some role)
    (hv : (Write.insertTenant (newTenant P o n name slug ownerId)).violation d = none) :
    (addTenant P name slug ownerId).exec Write.apply o ⟨d,d,[],n,s⟩ =
      (.ok (o n).uuid,⟨d,(Write.insertTenant (newTenant P o n name slug ownerId)).effect d,
        [.insertMember (ownerMember o n ownerId role)],n+4,s⟩) := by
  have hf : flushAll Write.apply [.insertTenant (newTenant P o n name slug ownerId)] d =
      .ok ((Write.insertTenant (newTenant P o n name slug ownerId)).effect d) :=
    flushAll_single.mpr ⟨hv,rfl⟩
  have hroles : ((Write.insertTenant (newTenant P o n name slug ownerId)).effect d).roles.find?
      (fun r => r.name = "tenant_admin") = some role := hr
  rw [newTenant] at hf hroles
  unfold addTenant
  simp only [exec_uuid4_bind,exec_now_bind,exec_add_bind,exec_flush_bind,List.nil_append,hf,
    exec_scalar_bind,flushAll_nil,hroles]
  rfl

theorem createTenant_exec {name slug : String} {ownerId : UUID} {role : Role}
    (hr : adminRole d = some role)
    (hf : flushAll Write.apply (creation P o n name slug ownerId role) d = .ok d') :
    ((createTenant P name slug ownerId).exec Write.apply o ⟨d,d,[],n,s⟩).2.db = d' := by
  unfold creation at hf
  rw [List.cons_append,flushAll_cons] at hf
  obtain ⟨hv,hf⟩ := hf
  unfold createTenant
  rw [exec_bind,addTenant_exec o n s hr hv]
  cases hmode : P.settings.multiTenantMode with
  | row =>
    simp only [hmode,List.cons_append,List.nil_append] at hf
    simp only [exec_commit_bind,hf]
    exact (quiet_refreshRow _ _).exec_db _
  | schema =>
    simp only [hmode,List.cons_append,List.nil_append] at hf
    simp only [exec_createSchema_bind,List.cons_append,List.nil_append,hf,exec_commit_bind,
      flushAll_nil]
    exact Prog.Quiet.exec_db (Prog.Quiet.bind (quiet_runMigrations _) fun _ =>
      quiet_refreshRow _ _) _

theorem updateTenant_exec {tenantId : UUID} {name : Option String} {isActive : Option Bool}
    {tenant : Tenant} (ht : activeTenant d tenantId = some tenant)
    (hf : flushAll Write.apply
      (tenantWrites tenant { name := name.map strip, isActive := isActive } (o n).now) d =
        .ok d') :
    ∃ t', (updateTenant tenantId name isActive).exec Write.apply o ⟨d,d,[],n,s⟩ =
      (.ok t',⟨d',d',[],n+1,s⟩) := by
  have hfind : ∃ t', d'.tenants.find? (fun t => t.id = tenant.id) = some t' := by
    obtain ⟨f,hkeys,hd⟩ := tenantWrites_flush hf
    rw [hd]
    exact find_update_isSome (fun r => (hkeys r).1) (activeTenant_mem ht).1 rfl
  obtain ⟨t',ht'⟩ := hfind
  refine ⟨t',?_⟩
  unfold updateTenant
  simp only [exec_getTenant_bind,flushAll_nil,ht,exec_setTenant_bind,exec_commit_bind,
    List.nil_append,hf,exec_refreshRow,ht']

theorem deleteTenant_exec {tenantId : UUID} {tenant : Tenant}
    (ht : activeTenant d tenantId = some tenant)
    (hf : flushAll Write.apply (tenantWrites tenant { isActive := some false } (o n).now) d =
      .ok d') :
    (deleteTenant tenantId).exec Write.apply o ⟨d,d,[],n,s⟩ = (.ok (),⟨d',d',[],n+1,s⟩) := by
  unfold deleteTenant
  simp only [exec_getTenant_bind,flushAll_nil,ht,exec_setTenant_bind,exec_commit,Conn.flushed,
    List.nil_append,hf]

theorem inviteMember_exec {tenantId : UUID} {email : String} {roleId : UUID} {role : Role}
    (hr : roleOf d roleId = some role)
    (hf : flushAll Write.apply [.insertInvitation (newInvitation P o n tenantId email roleId)] d =
      .ok d') :
    ((inviteMember P tenantId email roleId).exec Write.apply o ⟨d,d,[],n,s⟩).2.db = d' := by
  rw [roleOf] at hr
  rw [newInvitation] at hf
  unfold inviteMember
  simp only [exec_scalar_bind,flushAll_nil,hr,exec_reading_bind,exec_now_bind,exec_uuid4_bind,
    exec_add_bind,exec_commit_bind,List.nil_append,hf]
  exact Prog.Quiet.exec_db (Prog.Quiet.bind (quiet_refreshRow _ _) fun _ => quiet_pure _) _

theorem updateMemberRole_exec {tenantId userId roleId : UUID} {m : TenantMember} {role : Role}
    (hm : membershipOf d tenantId userId = some m) (hr : roleOf d roleId = some role)
    (hf : flushAll Write.apply (memberWrites m { roleId := some roleId }) d = .ok d') :
    ∃ m', (updateMemberRole tenantId userId roleId).exec Write.apply o ⟨d,d,[],n,s⟩ =
      (.ok m',⟨d',d',[],n,s⟩) := by
  have hfind : ∃ m', d'.members.find? (fun r => r.id = m.id) = some m' := by
    obtain ⟨f,hkeys,hd⟩ := memberWrites_flush hf
    rw [hd]
    exact find_update_isSome (fun r => (hkeys r).1) (membershipOf_mem hm).1 rfl
  obtain ⟨m',hm'⟩ := hfind
  refine ⟨m',?_⟩
  rw [roleOf] at hr
  unfold updateMemberRole
  simp only [exec_getMembership_bind,flushAll_nil,hm,exec_scalar_bind,hr,exec_setMember_bind,
    exec_commit_bind,List.nil_append,hf,exec_refreshRow,hm']

theorem removeMember_exec {tenantId userId : UUID} {m : TenantMember}
    (hm : membershipOf d tenantId userId = some m)
    (hf : flushAll Write.apply (memberWrites m { isActive := some false }) d = .ok d') :
    (removeMember tenantId userId).exec Write.apply o ⟨d,d,[],n,s⟩ = (.ok (),⟨d',d',[],n,s⟩) := by
  unfold removeMember
  simp only [exec_getMembership_bind,flushAll_nil,hm,exec_setMember_bind,exec_commit,Conn.flushed,
    List.nil_append,hf]

end Forward

section Effects
variable {P : Platform} {o : Nat → Reading} {d d' : DB} {n : Nat}

theorem creation_flush {name slug : String} {ownerId : UUID} {role : Role}
    (h : flushAll Write.apply (creation P o n name slug ownerId role) d = .ok d') :
    (newTenant P o n name slug ownerId).id ∉ d.tenants.map Tenant.id ∧
      d' = { d with
        tenants := d.tenants ++ [newTenant P o n name slug ownerId]
        members := d.members ++ [ownerMember o n ownerId role]
        schemas := d'.schemas } := by
  unfold creation at h
  rw [List.cons_append,flushAll_cons] at h
  obtain ⟨hv,h⟩ := h
  rw [List.cons_append,flushAll_cons] at h
  obtain ⟨-,h⟩ := h
  simp only [Write.violation,firstViolation_eq_none,List.forall_mem_cons,vacant_iff] at hv
  refine ⟨hv.2.2.1,?_⟩
  cases hm : P.settings.multiTenantMode with
  | row =>
    rw [hm] at h
    rw [← Except.ok.inj h]
    rfl
  | schema =>
    rw [hm] at h
    obtain ⟨-,rfl⟩ := flushAll_single.mp h
    rfl

theorem acceptance_flush {u : UUID} {inv : TenantInvitation}
    (h : flushAll Write.apply (acceptance o n u inv) d = .ok d') :
    (newMember o n u inv).id ∉ d.members.map TenantMember.id ∧
      (inv.tenantId,u) ∉ d.members.map (fun m => (m.tenantId,m.userId)) ∧
      d' = { d with
        invitations := update TenantInvitation.id inv.id
          (fun i => { i with acceptedAt := some (o (n+1)).now }) d.invitations
        members := d.members ++ [newMember o n u inv] } := by
  unfold acceptance at h
  obtain ⟨-,h⟩ := flushAll_cons.mp h
  obtain ⟨hv,rfl⟩ := flushAll_single.mp h
  simp only [Write.violation,firstViolation_eq_none,List.forall_mem_cons,vacant_iff] at hv
  exact ⟨hv.1,hv.2.1,rfl⟩

end Effects

end TenantService

end TenantAuth
