import TenantAuth.AuthReports
set_option autoImplicit false

namespace TenantAuth
open Transact
open Relational (varchar)

/-- A tenant request of `a` has nothing to stumble over: where its checks let it through, the
constraints do as well. -/
def TenantRoute.Storable (P : Platform) (o : Nat → Reading) (n : Nat) (d : DB) (a : User) :
    TenantRoute → Prop
  | .createTenant name slug => TenantService.Creatable P d name slug a.id
  | .updateTenant t name _ => IsTenantAdmin d t a.id → ∀ tenant, activeTenant d t = some tenant →
    ∀ s, name = some s → strip s = tenant.name ∨ varchar 255 (strip s) = true
  | .inviteMember t email roleId => IsTenantAdmin d t a.id → roleId ∈ d.roles.map Role.id →
    varchar 255 (P.lower (strip email)) = true
  | .acceptInvitation t token => ∀ inv, TenantService.Acceptable P d token a.id (o n).now inv →
    (∀ m ∈ d.members, ¬ (m.tenantId = inv.tenantId ∧ m.userId = a.id)) ∧
      t ∈ d.tenants.map Tenant.id
  | .listMyTenants | .getTenant _ | .listMembers _ | .deleteTenant _ | .updateMemberRole _ _ _
  | .removeMember _ _ => True

@[simp] theorem not_isApp_calledProcessError : ¬ Exc.calledProcessError.IsApp := id

section Services
variable {P : Platform} {o : Nat → Reading} {n : Nat} {d : DB} {s : List Mail} {a : User}

theorem adminMembership_within {t u : UUID} (hw : d.Wf) :
    (adminMembership d t u).Within Exc.IsApp := by
  unfold adminMembership
  cases hm : membershipOf d t u with
  | none => exact within_app
  | some m =>
    have hmem := (TenantService.membershipOf_mem hm).1
    obtain ⟨role,hrole⟩ : ∃ role, roleOf d m.roleId = some role :=
      Option.ne_none_iff_exists'.mp fun hnone =>
        find_key_eq_none.mp hnone (hw.memberRole (List.mem_map_of_mem hmem))
    simp only [hrole]
    split
    · exact within_app
    · exact .ok m

theorem guarded_within {t : UUID} {p : App Body} (hw : d.Wf) :
    ((requireTenantAdmin t a >>= fun _ => p).exec Write.apply o ⟨d,d,[],n,s⟩).1.Within Exc.IsApp ↔
      (IsTenantAdmin d t a.id → (p.exec Write.apply o ⟨d,d,[],n,s⟩).1.Within Exc.IsApp) := by
  by_cases hadmin : IsTenantAdmin d t a.id
  · rw [exec_requireTenantAdmin_bind hw hadmin]
    simp [hadmin]
  · refine iff_of_true ?_ fun h => absurd h hadmin
    have hguard := adminMembership_within (t := t) (u := a.id) hw
    rw [exec_bind,requireTenantAdmin_exec]
    cases hm : adminMembership d t a.id with
    | ok m => exact absurd (adminMembership_ok hm) hadmin
    | raised e =>
      rw [hm] at hguard
      exact .raised ((within_raised e).mp hguard)
    | fault f =>
      rw [hm] at hguard
      exact absurd hguard (within_fault f)

theorem logged_within {action : String} {t : UUID} {u : Option UUID}
    {details : Option (List (String × Detail))} {b : Body} (hempty : d.auditLogs = []) :
    ((AuditLogger.log action (some t) u details >>= fun _ => (pure b : App Body)).exec
      Write.apply o ⟨d,d,[],n,s⟩).1.Within Exc.IsApp ↔ t ∈ d.tenants.map Tenant.id := by
  constructor
  · intro h
    unfold AuditLogger.log at h
    rw [exec_bind] at h
    simp only [exec_uuid4_bind,exec_now_bind,exec_add_bind,exec_flush,List.nil_append,
      Conn.flushed] at h
    cases hf : flushAll Write.apply
        [.insertAuditLog ⟨(o n).uuid,some t,u,action,details,none,(o (n+1)).now⟩] d with
    | error f => simp [hf] at h
    | ok d' =>
      have hv := (flushAll_single.mp hf).1
      simp only [Write.violation,firstViolation_eq_none,List.forall_mem_cons,Option.all_some,
        present_iff] at hv
      exact hv.2.1
  · intro h
    exact .of_isOk (logged_isOk hempty h)

/-- An operation that fails, or leaves the tenant of its audit row in place, ends as it does
without the row. -/
theorem audited_within {α : Type} {p : App α} {action : String} {t : UUID} {u : Option UUID}
    {details : α → Option (List (String × Detail))} {b : α → Body}
    (h : (p.exec Write.apply o ⟨d,d,[],n,s⟩).1.isOk = false ∨
      ∃ x d' k, d'.auditLogs = [] ∧ t ∈ d'.tenants.map Tenant.id ∧
        p.exec Write.apply o ⟨d,d,[],n,s⟩ = (.ok x,⟨d',d',[],k,s⟩)) :
    ((p >>= fun x => AuditLogger.log action (some t) u (details x) >>= fun _ =>
      (pure (b x) : App Body)).exec Write.apply o ⟨d,d,[],n,s⟩).1.Within Exc.IsApp ↔
      (p.exec Write.apply o ⟨d,d,[],n,s⟩).1.Within Exc.IsApp := by
  refine within_bind_of fun x c' he => ?_
  rcases h with hno | ⟨x',d',k,hempty,ht,hok⟩
  · rw [he] at hno
    cases hno
  · rw [he] at hok
    cases hok
    exact (logged_within hempty).mpr ht

namespace TenantService

theorem addTenant_within (hfresh : FreshKeys o n d) {name slug : String} {ownerId : UUID} :
    ((addTenant P name slug ownerId).exec Write.apply o ⟨d,d,[],n,s⟩).1.Within Exc.IsApp ↔
      Creatable P d name slug ownerId := by
  rw [← newTenant_violation_iff (o := o) (n := n) hfresh]
  unfold addTenant
  simp only [exec_uuid4_bind,exec_now_bind,exec_add_bind,exec_flush_bind,List.nil_append]
  cases hf : flushAll Write.apply [.insertTenant ⟨(o n).uuid,strip name,P.lower (strip slug),
      ownerId,true,(o (n+1)).now,(o (n+1)).now⟩] d with
  | error f =>
    have hf : flushAll Write.apply [.insertTenant (newTenant P o n name slug ownerId)] d =
        .error f := hf
    refine iff_of_false (within_fault f) fun hv => ?_
    rw [flushAll_single.mpr ⟨hv,rfl⟩] at hf
    cases hf
  | ok d1 =>
    have hf : flushAll Write.apply [.insertTenant (newTenant P o n name slug ownerId)] d =
        .ok d1 := hf
    refine iff_of_true ?_ (flushAll_single.mp hf).1
    simp only [exec_scalar_bind,flushAll_nil]
    cases d1.roles.find? _ with
    | none => exact within_app
    | some role => exact .ok _

theorem createTenant_within (hw : d.Wf) (hfresh : FreshKeys o n d)
    (hmigrated : ∀ i, (o i).migrated = true) {name slug : String} {ownerId : UUID} :
    ((createTenant P name slug ownerId).exec Write.apply o ⟨d,d,[],n,s⟩).1.Within Exc.IsApp ↔
      Creatable P d name slug ownerId := by
  constructor
  · intro h
    unfold createTenant at h
    rw [within_bind,addTenant_within hfresh] at h
    exact h.1
  · intro hc
    cases hr : adminRole d with
    | none =>
      unfold createTenant
      refine within_bind.mpr ⟨(addTenant_within hfresh).mpr hc,fun id c' he => ?_⟩
      rcases addTenant_cases P o d n s name slug ownerId with ⟨hno,-⟩ | ⟨role,d1,hrole,-,-⟩
      · rw [he] at hno
        cases hno
      · rw [hr] at hrole
        cases hrole
    | some role =>
      obtain ⟨d',hf⟩ := (creation_admissible_iff hw hfresh hr).mpr hc
      have hdb := createTenant_exec o n s hr hf
      rcases createTenant_cases P o d n s name slug ownerId with
        ⟨-,hsame⟩ | ⟨role',d2,-,-,-,⟨-,k,hok⟩ | ⟨hnot,-⟩⟩
      · -- What is committed has the new tenant.
        have htenants : d'.tenants = d.tenants := by rw [← hdb,hsame]
        rw [(creation_flush hf).2] at htenants
        simp at htenants
      · rw [hok]
        exact .ok _
      · exact absurd (fun _ => hmigrated _) hnot

theorem updateTenant_within {t : UUID} {name : Option String} {isActive : Option Bool} :
    ((updateTenant t name isActive).exec Write.apply o ⟨d,d,[],n,s⟩).1.Within Exc.IsApp ↔
      ∀ tenant, activeTenant d t = some tenant →
        ∀ x, name = some x → strip x = tenant.name ∨ varchar 255 (strip x) = true := by
  cases ht : activeTenant d t with
  | none =>
    refine iff_of_true ?_ (by simp)
    unfold updateTenant
    simp only [exec_getTenant_bind,flushAll_nil,ht]
    exact within_app
  | some tenant =>
    have hadmissible : Admissible (tenantWrites tenant
        { name := name.map strip, isActive := isActive } (o n).now) d ↔ _ :=
      tenantWrites_admissible_iff (activeTenant_mem ht).1
    constructor
    · intro h tenant' htenant x hx
      cases htenant
      unfold updateTenant at h
      simp only [exec_getTenant_bind,flushAll_nil,ht,exec_setTenant_bind,List.nil_append] at h
      obtain ⟨d1,hf,-⟩ := within_commit_bind.mp h
      exact hadmissible.mp ⟨d1,hf⟩ (strip x) (by rw [hx]; rfl)
    · intro h
      have hfits : ∀ y, name.map strip = some y → y = tenant.name ∨ varchar 255 y = true := by
        intro y hy
        obtain ⟨x,hx,rfl⟩ := Option.map_eq_some_iff.mp hy
        exact h tenant rfl x hx
      obtain ⟨d1,hf⟩ := hadmissible.mpr hfits
      obtain ⟨t',he⟩ := updateTenant_exec o n s ht hf
      rw [he]
      exact .ok t'

theorem deleteTenant_within {t : UUID} :
    ((deleteTenant t).exec Write.apply o ⟨d,d,[],n,s⟩).1.Within Exc.IsApp := by
  cases ht : activeTenant d t with
  | none =>
    unfold deleteTenant
    simp only [exec_getTenant_bind,flushAll_nil,ht]
    exact within_app
  | some tenant =>
    have hadmissible : Admissible (tenantWrites tenant { isActive := some false } (o n).now) d :=
      (tenantWrites_admissible_iff (activeTenant_mem ht).1).mpr (by simp)
    obtain ⟨d1,hf⟩ := hadmissible
    rw [deleteTenant_exec o n s ht hf]
    exact .ok ()

theorem inviteMember_within (hfresh : FreshKeys o n d) {t roleId : UUID} {email : String}
    (ht : t ∈ d.tenants.map Tenant.id) :
    ((inviteMember P t email roleId).exec Write.apply o ⟨d,d,[],n,s⟩).1.Within Exc.IsApp ↔
      (roleId ∈ d.roles.map Role.id → varchar 255 (P.lower (strip email)) = true) := by
  have hkey : (newInvitation P o n t email roleId).id ∉ d.invitations.map TenantInvitation.id :=
    hfresh.invitations (Nat.le_add_right n 2)
  cases hr : roleOf d roleId with
  | none =>
    rw [roleOf] at hr
    refine iff_of_true ?_ fun h => absurd h (find_key_eq_none.mp hr)
    unfold inviteMember
    simp only [exec_scalar_bind,flushAll_nil,hr]
    exact within_app
  | some role =>
    have hrole : roleId ∈ d.roles.map Role.id := find_key_mem hr
    have hviolation : (Write.insertInvitation (newInvitation P o n t email roleId)).violation d =
        none ↔ _ := newInvitation_violation_iff hfresh ht hrole
    simp only [hrole,forall_const]
    rw [← hviolation]
    constructor
    · intro h
      rw [roleOf] at hr
      unfold inviteMember at h
      simp only [exec_scalar_bind,flushAll_nil,hr,exec_reading_bind,exec_now_bind,exec_uuid4_bind,
        exec_add_bind,List.nil_append] at h
      obtain ⟨d1,hf,-⟩ := within_commit_bind.mp h
      have hf : flushAll Write.apply [.insertInvitation (newInvitation P o n t email roleId)] d =
        .ok d1 := hf
      exact (flushAll_single.mp hf).1
    · intro hv
      have hdb := inviteMember_exec o n s hr (flushAll_single.mpr ⟨hv,rfl⟩)
      rcases inviteMember_cases P o d n s t email roleId with ⟨-,hsame⟩ | ⟨role',d',-,-,he⟩
      · rw [hsame] at hdb
        have hinvitations := congrArg DB.invitations hdb
        simp [Write.effect] at hinvitations
      · rw [he]
        exact .ok _

theorem acceptInvitation_refused {token : String} {userId : UUID}
    (h : ∀ inv, ¬ Acceptable P d token userId (o n).now inv) :
    ((acceptInvitation P token userId).exec Write.apply o ⟨d,d,[],n,s⟩).1.Within Exc.IsApp := by
  unfold acceptInvitation pendingInvitation
  simp only [exec_scalar_bind,flushAll_nil]
  cases hi : d.invitations.find? fun i => i.tokenHash = P.sha256 token ∧ i.acceptedAt = none with
  | none => exact within_app
  | some inv =>
    have hmark : (Write.acceptInvitation inv.id (o (n+1)).now).violation d = none :=
      firstViolation_found (List.mem_of_find?_eq_some hi)
    have hmember : membershipOf ((Write.acceptInvitation inv.id (o (n+1)).now).effect d)
        inv.tenantId userId = membershipOf d inv.tenantId userId := rfl
    simp only [exec_now_bind,exec_appErrorIf_bind,exec_scalar_bind,flushAll_nil,exec_add_bind,
      exec_getMembership_bind,List.nil_append,flushAll_single.mpr ⟨hmark,rfl⟩,hmember]
    split
    · exact within_app
    rename_i hexp
    cases hu : d.users.find? fun u => u.id = userId with
    | none => exact within_app
    | some u =>
      by_cases hmail : P.lower u.email = P.lower inv.email
      · cases hn : membershipOf d inv.tenantId userId with
        | some m =>
          simp only [Option.any_some,hmail,decide_true,not_true_eq_false,if_false]
          exact within_app
        | none => exact absurd ⟨hi,Nat.not_lt.mp hexp,⟨u,hu,hmail⟩,hn⟩ (h inv)
      · simp only [Option.any_some,hmail]
        exact within_app

/-- An acceptance that passes its checks ends well just when its two writes are admitted. -/
theorem acceptInvitation_accepted {token : String} {userId : UUID} {inv : TenantInvitation}
    (h : Acceptable P d token userId (o n).now inv) :
    ((acceptInvitation P token userId).exec Write.apply o ⟨d,d,[],n,s⟩).1.Within Exc.IsApp ↔
      Admissible (acceptance o n userId inv) d := by
  constructor
  · intro hends
    obtain ⟨u,hu,hmail⟩ := h.addressed
    have hexp : ¬ inv.expiresAt < (o n).now := Nat.not_lt.mpr h.unexpired
    have hmark : (Write.acceptInvitation inv.id (o (n+1)).now).violation d = none :=
      firstViolation_found (List.mem_of_find?_eq_some h.pending)
    have hmember : membershipOf ((Write.acceptInvitation inv.id (o (n+1)).now).effect d)
        inv.tenantId userId = none := h.newcomer
    unfold acceptInvitation pendingInvitation at hends
    simp only [exec_scalar_bind,flushAll_nil,h.pending,exec_now_bind,exec_appErrorIf_bind,hexp,
      if_false,hu,Option.any_some,hmail,decide_true,not_true_eq_false,exec_add_bind,
      List.nil_append,exec_getMembership_bind,flushAll_single.mpr ⟨hmark,rfl⟩,hmember,
      Option.isSome_none,Bool.false_eq_true,exec_uuid4_bind] at hends
    obtain ⟨d2,hf,-⟩ := within_commit_bind.mp hends
    exact ⟨d2,flushAll_cons.mpr ⟨hmark,hf⟩⟩
  · rintro ⟨d',hf⟩
    rw [acceptInvitation_exec P o d n s h hf]
    exact .ok _

theorem acceptInvitation_within (hw : d.Wf) (hfresh : FreshKeys o n d) {token : String}
    {userId : UUID} :
    ((acceptInvitation P token userId).exec Write.apply o ⟨d,d,[],n,s⟩).1.Within Exc.IsApp ↔
      ∀ inv, Acceptable P d token userId (o n).now inv →
        ∀ m ∈ d.members, ¬ (m.tenantId = inv.tenantId ∧ m.userId = userId) := by
  by_cases hsome : ∃ inv, Acceptable P d token userId (o n).now inv
  · obtain ⟨inv,hinv⟩ := hsome
    have honly : ∀ inv', Acceptable P d token userId (o n).now inv' → inv' = inv :=
      fun _ h => Option.some.inj (h.pending.symm.trans hinv.pending)
    have huser : userId ∈ d.users.map User.id := by
      obtain ⟨u,hu,-⟩ := hinv.addressed
      exact find_key_mem hu
    rw [acceptInvitation_accepted hinv,
      acceptance_admissible_iff hw hfresh (List.mem_of_find?_eq_some hinv.pending) huser]
    constructor
    · intro h inv' hinv'
      rw [honly inv' hinv']
      exact h
    · exact fun h => h inv hinv
  · have hnone := not_exists.mp hsome
    exact iff_of_true (acceptInvitation_refused hnone) fun inv hinv => absurd hinv (hnone inv)

theorem updateMemberRole_within {t u roleId : UUID} :
    ((updateMemberRole t u roleId).exec Write.apply o ⟨d,d,[],n,s⟩).1.Within Exc.IsApp := by
  cases hm : membershipOf d t u with
  | none =>
    unfold updateMemberRole
    simp only [exec_getMembership_bind,flushAll_nil,hm]
    exact within_app
  | some m =>
    cases hr : roleOf d roleId with
    | none =>
      rw [roleOf] at hr
      unfold updateMemberRole
      simp only [exec_getMembership_bind,flushAll_nil,hm,exec_scalar_bind,hr]
      exact within_app
    | some role =>
      have hrole : roleId ∈ d.roles.map Role.id := find_key_mem hr
      obtain ⟨d',hf⟩ := memberWrites_admissible (p := { roleId := some roleId })
        (membershipOf_mem hm).1 (by simpa using hrole)
      obtain ⟨m',he⟩ := updateMemberRole_exec o n s hm hr hf
      rw [he]
      exact .ok m'

theorem removeMember_within {t u : UUID} :
    ((removeMember t u).exec Write.apply o ⟨d,d,[],n,s⟩).1.Within Exc.IsApp := by
  cases hm : membershipOf d t u with
  | none =>
    unfold removeMember
    simp only [exec_getMembership_bind,flushAll_nil,hm]
    exact within_app
  | some m =>
    obtain ⟨d',hf⟩ := memberWrites_admissible (p := { isActive := some false })
      (membershipOf_mem hm).1 (by simp)
    rw [removeMember_exec o n s hm hf]
    exact .ok ()

end TenantService

end Services

section Endpoints
variable {P : Platform} {o : Nat → Reading} {n : Nat} {d : DB} {s : List Mail} {a : User}

namespace TenantRouter

theorem createTenant_within (hw : d.Wf) (hempty : d.auditLogs = []) (hfresh : FreshKeys o n d)
    (hmigrated : ∀ i, (o i).migrated = true) {name slug : String} :
    ((createTenant P name slug a).exec Write.apply o ⟨d,d,[],n,s⟩).1.Within Exc.IsApp ↔
      TenantService.Creatable P d name slug a.id := by
  refine Iff.trans (within_bind_of fun t c' he => ?_)
    (TenantService.createTenant_within hw hfresh hmigrated)
  rcases TenantService.createTenant_cases P o d n s name slug a.id with
    ⟨hno,-⟩ | ⟨role,d',hr,hf,-,⟨-,k,hok⟩ | ⟨-,hno⟩⟩
  · rw [he] at hno
    cases hno
  · rw [he] at hok
    cases hok
    have hd := (TenantService.creation_flush hf).2
    rw [logged_within (by rw [hd]; exact hempty),hd]
    simp
  · rw [he] at hno
    cases hno

theorem getTenant_within {t : UUID} :
    ((getTenant t a).exec Write.apply o ⟨d,d,[],n,s⟩).1.Within Exc.IsApp := by
  unfold getTenant
  simp only [TenantService.exec_getMembership_bind,flushAll_nil]
  cases membershipOf d t a.id with
  | none => exact within_app
  | some m =>
    simp only [TenantService.exec_getTenant_bind,flushAll_nil]
    cases activeTenant d t with
    | none => exact within_app
    | some tenant => exact .ok _

theorem listMembers_within {t : UUID} :
    ((listMembers t a).exec Write.apply o ⟨d,d,[],n,s⟩).1.Within Exc.IsApp := by
  unfold listMembers
  simp only [TenantService.exec_getMembership_bind,flushAll_nil]
  cases membershipOf d t a.id with
  | none => exact within_app
  | some m => exact .ok _

theorem updateTenant_within (hw : d.Wf) (hempty : d.auditLogs = []) {t : UUID}
    {name : Option String} {isActive : Option Bool} :
    ((updateTenant t name isActive a).exec Write.apply o ⟨d,d,[],n,s⟩).1.Within Exc.IsApp ↔
      TenantRoute.Storable P o n d a (.updateTenant t name isActive) := by
  refine (guarded_within hw).trans (imp_congr_right fun _ => ?_)
  refine (audited_within ?_).trans TenantService.updateTenant_within
  rcases TenantService.updateTenant_cases o d n s t name isActive with
    ⟨hno,-⟩ | ⟨tenant,d',ht,hf,t',hok⟩
  · exact .inl hno
  · have hlogs : d'.auditLogs = d.auditLogs :=
      flushAll_frame_ne (t := .auditLogs) (tenantWrites_touches _ _ _) (by simp) hf
    exact .inr ⟨t',d',_,hlogs.trans hempty,activeTenant_present ht hf,hok⟩

theorem deleteTenant_within (hw : d.Wf) (hempty : d.auditLogs = []) {t : UUID} :
    ((deleteTenant t a).exec Write.apply o ⟨d,d,[],n,s⟩).1.Within Exc.IsApp := by
  refine (guarded_within hw).mpr fun _ => ?_
  refine (audited_within ?_).mpr TenantService.deleteTenant_within
  rcases TenantService.deleteTenant_cases o d n s t with ⟨hno,-⟩ | ⟨tenant,d',ht,hf,hok⟩
  · exact .inl hno
  · have hlogs : d'.auditLogs = d.auditLogs :=
      flushAll_frame_ne (t := .auditLogs) (tenantWrites_touches _ _ _) (by simp) hf
    exact .inr ⟨(),d',_,hlogs.trans hempty,activeTenant_present ht hf,hok⟩

theorem inviteMember_within (hw : d.Wf) (hempty : d.auditLogs = []) (hfresh : FreshKeys o n d)
    {t roleId : UUID} {email : String} :
    ((inviteMember P t email roleId a).exec Write.apply o ⟨d,d,[],n,s⟩).1.Within Exc.IsApp ↔
      TenantRoute.Storable P o n d a (.inviteMember t email roleId) := by
  refine (guarded_within hw).trans (imp_congr_right fun hadmin => ?_)
  refine (audited_within ?_).trans
    (TenantService.inviteMember_within hfresh (hadmin.present hw rfl))
  rcases TenantService.inviteMember_cases P o d n s t email roleId with
    ⟨hno,-⟩ | ⟨role,d',hr,hf,hok⟩
  · exact .inl hno
  · have hd := (flushAll_single.mp hf).2
    exact .inr ⟨_,d',_,by rw [hd]; exact hempty,hadmin.present hw (by rw [hd]; rfl),hok⟩

theorem acceptInvitation_within (hw : d.Wf) (hempty : d.auditLogs = []) (hfresh : FreshKeys o n d)
    {t : UUID} {token : String} :
    ((acceptInvitation P t token a).exec Write.apply o ⟨d,d,[],n,s⟩).1.Within Exc.IsApp ↔
      TenantRoute.Storable P o n d a (.acceptInvitation t token) := by
  refine within_bind.trans ?_
  rw [TenantService.acceptInvitation_within hw hfresh]
  constructor
  · rintro ⟨hfree,hlog⟩ inv hacc
    refine ⟨hfree inv hacc,?_⟩
    have hends : ((TenantService.acceptInvitation P token a.id).exec Write.apply o
        ⟨d,d,[],n,s⟩).1.Within Exc.IsApp := (TenantService.acceptInvitation_within hw hfresh).mpr
      hfree
    obtain ⟨d',hf⟩ := (TenantService.acceptInvitation_accepted hacc).mp hends
    have hlogged := hlog _ _ (TenantService.acceptInvitation_exec P o d n s hacc hf)
    have hd := (TenantService.acceptance_flush hf).2.2
    rw [logged_within (by rw [hd]; exact hempty),hd] at hlogged
    exact hlogged
  · intro h
    refine ⟨fun inv hacc => (h inv hacc).1,fun x c' he => ?_⟩
    rcases TenantService.acceptInvitation_cases P o d n s token a.id with
      ⟨hno,-⟩ | ⟨inv,d',hacc,hf,hok⟩
    · rw [he] at hno
      cases hno
    · rw [he] at hok
      cases hok
      have hd := (TenantService.acceptance_flush hf).2.2
      rw [logged_within (by rw [hd]; exact hempty),hd]
      exact (h inv hacc).2

theorem updateMemberRole_within (hw : d.Wf) (hempty : d.auditLogs = []) {t u roleId : UUID} :
    ((updateMemberRole t u roleId a).exec Write.apply o ⟨d,d,[],n,s⟩).1.Within Exc.IsApp := by
  refine (guarded_within hw).mpr fun hadmin => ?_
  refine (audited_within ?_).mpr TenantService.updateMemberRole_within
  rcases TenantService.updateMemberRole_cases o d n s t u roleId with
    ⟨hno,-⟩ | ⟨m,role,d',hm,hr,hf,m',hok⟩
  · exact .inl hno
  · have hlogs : d'.auditLogs = d.auditLogs :=
      flushAll_frame_ne (t := .auditLogs) (memberWrites_touches _ _) (by simp) hf
    exact .inr ⟨m',d',_,hlogs.trans hempty,
      hadmin.present hw (flushAll_frame_ne (memberWrites_touches _ _) (by simp) hf),hok⟩

theorem removeMember_within (hw : d.Wf) (hempty : d.auditLogs = []) {t u : UUID} :
    ((removeMember t u a).exec Write.apply o ⟨d,d,[],n,s⟩).1.Within Exc.IsApp := by
  refine (guarded_within hw).mpr fun hadmin => ?_
  refine (audited_within ?_).mpr TenantService.removeMember_within
  rcases TenantService.removeMember_cases o d n s t u with ⟨hno,-⟩ | ⟨m,d',hm,hf,hok⟩
  · exact .inl hno
  · have hlogs : d'.auditLogs = d.auditLogs :=
      flushAll_frame_ne (t := .auditLogs) (memberWrites_touches _ _) (by simp) hf
    exact .inr ⟨(),d',_,hlogs.trans hempty,
      hadmin.present hw (flushAll_frame_ne (memberWrites_touches _ _) (by simp) hf),hok⟩

end TenantRouter

theorem TenantRoute.endpoint_within (hw : d.Wf) (hempty : d.auditLogs = [])
    (hfresh : FreshKeys o n d) (hmigrated : ∀ i, (o i).migrated = true) (r : TenantRoute) :
    ((r.endpoint P a).exec Write.apply o ⟨d,d,[],n,s⟩).1.Within Exc.IsApp ↔
      r.Storable P o n d a := by
  cases r with
  | createTenant => exact TenantRouter.createTenant_within hw hempty hfresh hmigrated
  | listMyTenants => exact iff_of_true (.ok _) trivial
  | getTenant => exact iff_of_true TenantRouter.getTenant_within trivial
  | updateTenant => exact TenantRouter.updateTenant_within hw hempty
  | deleteTenant => exact iff_of_true (TenantRouter.deleteTenant_within hw hempty) trivial
  | listMembers => exact iff_of_true TenantRouter.listMembers_within trivial
  | inviteMember => exact TenantRouter.inviteMember_within hw hempty hfresh
  | acceptInvitation => exact TenantRouter.acceptInvitation_within hw hempty hfresh
  | updateMemberRole => exact iff_of_true (TenantRouter.updateMemberRole_within hw hempty) trivial
  | removeMember => exact iff_of_true (TenantRouter.removeMember_within hw hempty) trivial

end Endpoints

end TenantAuth
