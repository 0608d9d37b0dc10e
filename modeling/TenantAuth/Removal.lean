import TenantAuth.AuditTrail
import TenantAuth.ScopedTokens
import TenantAuth.Tenancy
set_option autoImplicit false

namespace TenantAuth
open Transact

section Events
variable (P : Platform) (o : Readings) (w : World DB Mail) (q : Request) (t u : UUID)

def Removes : Prop :=
  q.route = .tenant (.removeMember t u) ∧
    ((handle P o w q).1.isSuccess = true ∨ (handle P o w q).2.db ≠ w.db)

def Rejoins : Prop :=
  ∃ path token a, q.route = .tenant (.acceptInvitation path token) ∧ ActsAs P o w q a ∧ a.id = u ∧
    ∃ m ∈ (handle P o w q).2.db.members, m ∉ w.db.members ∧ m.tenantId = t ∧ m.userId = u

def NeverRejoins : World DB Mail → List Request → Prop
  | _, [] => True
  | w, q :: qs => ¬ Rejoins P o w q t u ∧ NeverRejoins (handle P o w q).2 qs

def BearerOf : Prop :=
  ∃ token i, bearerToken q.authorization = some token ∧
    decodeAt P token (some .access) (o.read w.taken).now = .ok i ∧ i.subject = u

end Events

/-- The tenant is there, and the user has no active membership of it. -/
structure Outside (d : DB) (t u : UUID) : Prop where
  tenant : t ∈ d.tenants.map Tenant.id
  membership : membershipOf d t u = none

section Steps
variable {P : Platform} {o : Readings} {w : World DB Mail} {q : Request} {d : DB} {t u : UUID}

theorem membershipOf_eq_none :
    membershipOf d t u = none ↔
      ∀ m ∈ d.members, m.tenantId = t → m.userId = u → m.isActive = false := by
  simp [membershipOf,List.find?_eq_none]

theorem membershipOf_unique (hw : d.Wf) {m m' : TenantMember} (hm : membershipOf d t u = some m)
    (hm' : m' ∈ d.members) (ht : m'.tenantId = t) (hu : m'.userId = u) : m' = m := by
  obtain ⟨hmem,hmt,hmu,-⟩ := TenantService.membershipOf_mem hm
  exact eq_of_key hw.memberPair hm' hmem (by rw [ht,hu,hmt,hmu])

theorem Removes.outside (hw : w.db.Wf) (h : Removes P o w q t u) :
    Outside (handle P o w q).2.db t u := by
  obtain ⟨hq,hdone⟩ := h
  have hpass : Admits P q (o.read w.taken).now w.db ∧ ∃ a, ActsAs P o w q a ∧
      (TenantRoute.removeMember t u).Passes P o.read (endpointStart P w q + 1) w.db a := by
    by_contra hnp
    obtain ⟨hno,hd⟩ := handle_stops hq trivial hnp
    simp [hno,hd] at hdone
  obtain ⟨hadm,a,ha,hadmin,m,hm,d',hf⟩ := hpass
  have hmem := TenantService.membershipOf_mem hm
  have hd : (handle P o w q).2.db = d' := by
    rw [handle_tenant hq hadm ha]
    simp only [TenantRoute.endpoint,TenantRouter.removeMember]
    rw [exec_guarded_db hw hadmin fun _ => quiet_logged _ _ _ _ _,
      TenantService.removeMember_exec _ _ _ hm hf]
  rw [hd,memberWrites_apply hw.memberKey hmem.1 hf]
  refine ⟨?_,membershipOf_eq_none.mpr fun m' hm' ht hu => ?_⟩
  · exact hmem.2.1 ▸ hw.memberTenant (List.mem_map_of_mem hmem.1)
  · rcases mem_update.mp hm' with ⟨_,-,-,rfl⟩ | ⟨hm',hne⟩
    · rfl
    · exact absurd (congrArg TenantMember.id (membershipOf_unique hw hm hm' ht hu)) hne

theorem Outside.handle (hw : w.db.Wf) (h : Outside w.db t u) (hq : ¬ Rejoins P o w q t u) :
    Outside (handle P o w q).2.db t u := by
  have hout := membershipOf_eq_none.mp h.membership
  have hstep := handle_tenancy (P := P) (o := o) (q := q) hw
  suffices hs : t ∈ (TenantAuth.handle P o w q).2.db.tenants.map Tenant.id ∧
      ∀ m ∈ (TenantAuth.handle P o w q).2.db.members, m.tenantId = t → m.userId = u →
        m.isActive = false from ⟨hs.1,membershipOf_eq_none.mpr hs.2⟩
  generalize hT : (TenantAuth.handle P o w q).2.db.tenants = T at hstep
  generalize hM : (TenantAuth.handle P o w q).2.db.members = M at hstep
  generalize (TenantAuth.handle P o w q).2.db.invitations = I at hstep
  -- The row of an active member is not the user's.
  have hother : ∀ {t' u' : UUID} {m m' : TenantMember}, membershipOf w.db t' u' = some m →
      m'.tenantId = m.tenantId → m'.userId = m.userId →
      ∀ x ∈ update TenantMember.id m.id (fun _ => m') w.db.members, x.tenantId = t →
        x.userId = u → x.isActive = false := by
    intro t' u' m m' hm ht' hu' x hx ht hu
    obtain ⟨hmem,-,-,hact⟩ := TenantService.membershipOf_mem hm
    rcases mem_update.mp hx with ⟨_,-,-,rfl⟩ | ⟨hx,-⟩
    · rw [hout m hmem (ht' ▸ ht) (hu' ▸ hu)] at hact
      cases hact
    · exact hout x hx ht hu
  cases hstep with
  | same => exact ⟨h.tenant,hout⟩
  | invited => exact ⟨h.tenant,hout⟩
  | roleChanged _ _ _ hm => exact ⟨h.tenant,hother hm rfl rfl⟩
  | removed _ _ _ hm => exact ⟨h.tenant,hother hm rfl rfl⟩
  | userDeleted => exact ⟨h.tenant,fun x hx => hout x (mem_delete.mp hx).1⟩
  | assigned _ _ _ _ hp =>
    rw [map_key_update Tenant.id hp.id]
    exact ⟨h.tenant,hout⟩
  | created hq' ha hr hnew =>
    refine ⟨?_,fun x hx ht hu => ?_⟩
    · rw [List.map_append]
      exact List.mem_append_left _ h.tenant
    · rcases List.mem_append.mp hx with hx | hx
      · exact hout x hx ht hu
      · cases List.mem_singleton.mp hx
        subst ht
        exact absurd h.tenant hnew
  | joined hq' ha hacc hpair =>
    refine ⟨h.tenant,fun x hx ht hu => ?_⟩
    rcases List.mem_append.mp hx with hx | hx
    · exact hout x hx ht hu
    · refine absurd ⟨_,_,_,hq',ha,?_,x,hM ▸ List.mem_append_right _ hx,fun hin => ?_,ht,hu⟩ hq
      · cases List.mem_singleton.mp hx
        exact hu
      · cases List.mem_singleton.mp hx
        exact hpair (List.mem_map.mpr ⟨_,hin,rfl⟩)

theorem Outside.after {qs : List Request} (hw : w.db.Wf) (h : Outside w.db t u)
    (hqs : NeverRejoins P o t u w qs) : Outside (TenantAuth.after P o w qs).db t u := by
  induction qs generalizing w with
  | nil => exact h
  | cons q qs ih => exact ih (handle_wf hw q) (h.handle hw hqs.1) hqs.2

end Steps

section Access
variable {P : Platform} {o : Readings} {w : World DB Mail} {q : Request} {d : DB} {t u : UUID}

theorem outside_not_inScope (h : Outside d t u) : ¬ AuthService.InScope d u (some t) := by
  intro hs
  have hsome := hs t rfl
  rw [h.membership] at hsome
  cases hsome

theorem outside_not_issued (h : Outside w.db t u) {tokens : TokenData}
    (hi : Issues P o w q tokens) : ¬ tokens.IsFor P u (some t) := by
  intro hfor
  rcases hi.checked with ⟨payload,x,a,-,hc,rfl⟩ | ⟨token,i,r,-,hc,rfl⟩
  · obtain ⟨rfl,rfl⟩ := pairAt_isFor.mp hfor
    exact outside_not_inScope h hc.scope
  · obtain ⟨hu,hx⟩ := pairAt_isFor.mp hfor
    exact outside_not_inScope h (hx ▸ hu ▸ hc.scope)

theorem outside_not_forwarded (h : Outside w.db t u) (hb : BearerOf P o w q u)
    {context : TenantContext}
    (ha : admission P q.authorization q.xTenantId (o.read w.taken).now w.db =
      .ok (.ok (some context))) : context.tenant.id ≠ t := by
  obtain ⟨token,i,htoken,hdec,rfl⟩ := hb
  unfold admission at ha
  cases hp : parseTenantId P q.xTenantId with
  | error e => simp [hp] at ha
  | ok header =>
    simp only [hp,htoken,hdec,Outcome.ok.injEq,contextAt] at ha
    split at ha
    · cases ha
    cases hx : i.tenantId <|> header with
    | none => simp [hx] at ha
    | some x =>
      simp only [hx] at ha
      cases ht : activeTenant w.db x with
      | none => simp [ht] at ha
      | some tenant =>
        simp only [ht] at ha
        cases hm : membershipOf w.db x i.subject with
        | none => simp [hm] at ha
        | some m =>
          simp only [hm,Except.ok.injEq,Option.some.injEq] at ha
          subst ha
          rintro rfl
          have hout := h.membership
          rw [(TenantService.activeTenant_mem ht).2.1,hm] at hout
          cases hout

theorem outside_not_listed (h : Outside w.db t u) {a : User} (hq : q.route = .tenant .listMyTenants)
    (hadm : Admits P q (o.read w.taken).now w.db) (ha : ActsAs P o w q a) (hu : a.id = u)
    {code : Nat} {tenants : List Tenant}
    (hr : (handle P o w q).1 = .success code (.tenants tenants)) : ∀ x ∈ tenants, x.id ≠ t := by
  intro x hx hid
  rw [handle_tenant hq hadm ha] at hr
  simp only [TenantRoute.endpoint,TenantRouter.listMyTenants,TenantService.listUserTenants,
    exec_select_bind,flushAll_nil,exec_pure,respond,Response.success.injEq,
    Body.tenants.injEq] at hr
  rw [← hr.2,List.mem_mergeSort] at hx
  simp only [TenantService.userTenantJoin,List.mem_flatMap,List.mem_map,List.mem_filter,
    decide_eq_true_eq] at hx
  obtain ⟨x',-,m,⟨hm,hmt,hmu,hact,-⟩,rfl⟩ := hx
  rw [membershipOf_eq_none.mp h.membership m hm (hmt.trans hid) (hmu.trans hu)] at hact
  cases hact

/-- From the removal of a member on, unless he accepts another invitation, no pair of tokens
is issued for him and the tenant, the middleware makes the tenant the context of none of his
requests, every route of the tenant but the acceptance refuses him, and he does not find it
among his tenants. -/
theorem removal_ends_access (hw : Reachable P o w) (hrem : Removes P o w q t u)
    {qs : List Request} (hqs : NeverRejoins P o t u (handle P o w q).2 qs) (q' : Request) :
    let w' := after P o (handle P o w q).2 qs
    (∀ tokens, Issues P o w' q' tokens → ¬ tokens.IsFor P u (some t)) ∧
    (BearerOf P o w' q' u → ∀ context,
      admission P q'.authorization q'.xTenantId (o.read w'.taken).now w'.db =
        .ok (.ok (some context)) → context.tenant.id ≠ t) ∧
    ((∀ a, ActsAs P o w' q' a → a.id = u) → ∀ r, q'.route = .tenant r →
      (r.path = some t → (∀ token, r ≠ .acceptInvitation t token) →
        (handle P o w' q').1 ∈ refusals ∧ (handle P o w' q').2.db = w'.db) ∧
      (r = .listMyTenants → ∀ code tenants,
        (handle P o w' q').1 = .success code (.tenants tenants) → ∀ x ∈ tenants, x.id ≠ t)) := by
  have hwf := (hw.serve q).wf
  have hout := (hrem.outside hw.wf).after hwf hqs
  refine ⟨fun tokens hi => outside_not_issued hout hi,
    fun hb context ha => outside_not_forwarded hout hb ha,
    fun hu r hq => ⟨fun hp hr => ?_,fun hlist code tenants hresp => ?_⟩⟩
  · exact notMember_refused hq hp hr fun a ha => hu a ha ▸ hout.membership
  · obtain ⟨hadm,a,ha⟩ := handle_tenant_success hq (by rw [hresp]; rfl)
    exact outside_not_listed hout (hlist ▸ hq) hadm ha (hu a ha) hresp

/-- The owner of 1010 removes the guest, who has accepted its invitation; no run brings him
back by itself. -/
theorem removal_ends_access_guest :
    let w := (handle (plainPlatform {}) (Seed.readings 0) Seed.twoTenants (Seed.accepting 1010)).2
    let w' := (handle (plainPlatform {}) (Seed.readings 0) w
      (Seed.request 1 (.tenant (.removeMember 1010 2)))).2
    (handle (plainPlatform {}) (Seed.readings 0) w'
      (Seed.request 2 (.tenant (.getTenant 1010)))).1 ∈ refusals := by
  intro w w'
  have hrem : Removes (plainPlatform {}) (Seed.readings 0) w
      (Seed.request 1 (.tenant (.removeMember 1010 2))) 1010 2 := ⟨rfl,.inl (by decide +kernel)⟩
  have hguest : ∀ a, ActsAs (plainPlatform {}) (Seed.readings 0) w'
      (Seed.request 2 (.tenant (.getTenant 1010))) a → a.id = 2 := by
    intro a ha
    have hg : ActsAs (plainPlatform {}) (Seed.readings 0) w'
        (Seed.request 2 (.tenant (.getTenant 1010))) Seed.guest := by
      unfold ActsAs
      decide +kernel
    cases ha.symm.trans hg
    rfl
  have hqs : NeverRejoins (plainPlatform {}) (Seed.readings 0) 1010 2 w' [] := trivial
  have hpath : ∀ token, TenantRoute.getTenant 1010 ≠ .acceptInvitation 1010 token := by simp
  exact (((removal_ends_access (Seed.reachable_twoTenants.serve _) hrem hqs _).2.2
    hguest _ rfl).1 rfl hpath).1

end Access

end TenantAuth
