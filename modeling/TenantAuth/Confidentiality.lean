import TenantAuth.Transact.TwoRuns
import TenantAuth.Invitations
import TenantAuth.ScopedTokens
set_option autoImplicit false

/-! What a request tells of a tenant that its user is no member of: nothing. The request is served
on two states that differ in rows of that tenant only, and the answers and the states behind them
are compared. -/

namespace TenantAuth
open Transact

def hasEmail (P : Platform) (users : List User) (u : UUID) (email : String) : Bool :=
  users.any fun v => v.id = u ∧ P.lower v.email = P.lower email

/-- The state without the rows of the tenant `t`, but for the user's own memberships and the
invitations that are addressed to him. -/
def DB.outside (P : Platform) (t u : UUID) (d : DB) : DB :=
  { d with
    tenants := d.tenants.filter fun r => r.id ≠ t
    members := d.members.filter fun m => m.tenantId ≠ t ∨ m.userId = u
    invitations := d.invitations.filter fun i => i.tenantId ≠ t ∨ hasEmail P d.users u i.email }

/-- The two states agree on everything else. -/
def AgreeOutside (P : Platform) (t u : UUID) (d d' : DB) : Prop :=
  d.outside P t u = d'.outside P t u

instance (P : Platform) (t u : UUID) (d d' : DB) : Decidable (AgreeOutside P t u d d') := by
  unfold AgreeOutside
  infer_instance

section Reads
variable {P : Platform} {t u : UUID} {d d' : DB}

theorem AgreeOutside.congr {β : Type} (h : AgreeOutside P t u d d') (f : DB → β) :
    f (d.outside P t u) = f (d'.outside P t u) := congrArg f h

theorem AgreeOutside.users (h : AgreeOutside P t u d d') : d.users = d'.users := h.congr DB.users

theorem AgreeOutside.roles (h : AgreeOutside P t u d d') : d.roles = d'.roles := h.congr DB.roles

theorem AgreeOutside.auditLogs (h : AgreeOutside P t u d d') : d.auditLogs = d'.auditLogs :=
  h.congr DB.auditLogs

theorem AgreeOutside.find_tenants (h : AgreeOutside P t u d d') {p : Tenant → Bool}
    (hp : ∀ r, p r = true → r.id ≠ t) : d.tenants.find? p = d'.tenants.find? p := by
  have hsel : ∀ l : List Tenant, (l.filter fun r => r.id ≠ t).find? p = l.find? p :=
    fun l => find_filter fun r hr => decide_eq_true (hp r hr)
  have hrows := h.congr fun d => d.tenants.find? p
  simp only [DB.outside,hsel] at hrows
  exact hrows

theorem AgreeOutside.mem_members (h : AgreeOutside P t u d d') {m : TenantMember}
    (hm : m ∈ d.members) (ht : m.tenantId ≠ t ∨ m.userId = u) : m ∈ d'.members := by
  have hin : m ∈ (d.outside P t u).members := List.mem_filter.mpr ⟨hm,decide_eq_true ht⟩
  rw [h.congr DB.members] at hin
  exact (List.mem_filter.mp hin).1

theorem AgreeOutside.filter_members (h : AgreeOutside P t u d d') {p : TenantMember → Bool}
    (hp : ∀ m, p m = true → m.tenantId ≠ t ∨ m.userId = u) :
    d.members.filter p = d'.members.filter p := by
  have hsel : ∀ l : List TenantMember,
      (l.filter fun m => m.tenantId ≠ t ∨ m.userId = u).filter p = l.filter p := by
    intro l
    rw [List.filter_filter]
    refine List.filter_congr fun m _ => ?_
    cases hm : p m with
    | true => simpa using hp m hm
    | false => simp
  have hrows := h.congr fun d => d.members.filter p
  simp only [DB.outside,hsel] at hrows
  exact hrows

theorem AgreeOutside.find_members (h : AgreeOutside P t u d d') {p : TenantMember → Bool}
    (hp : ∀ m, p m = true → m.tenantId ≠ t ∨ m.userId = u) :
    d.members.find? p = d'.members.find? p := by
  rw [← List.head?_filter,h.filter_members hp,List.head?_filter]

theorem AgreeOutside.activeTenant (h : AgreeOutside P t u d d') {x : UUID} (hx : x ≠ t) :
    activeTenant d x = activeTenant d' x :=
  h.find_tenants fun r hr => by
    simp only [decide_eq_true_eq] at hr
    exact hr.1 ▸ hx

theorem AgreeOutside.membershipOf (h : AgreeOutside P t u d d') {x v : UUID}
    (hx : x ≠ t ∨ v = u) : membershipOf d x v = membershipOf d' x v :=
  h.find_members fun m hm => by
    simp only [decide_eq_true_eq] at hm
    rw [hm.1,hm.2.1]
    exact hx

end Reads

/-- A write that is of another tenant, or of the audit log. An UPDATE reaches the row it names. -/
def Write.Outside (t : UUID) : Write → Prop
  | .updateTenant _ _ _ | .updateMember _ _ | .insertAuditLog _ => True
  | .insertInvitation r => r.tenantId ≠ t
  | _ => False

/-- The two states, each with its constraints. -/
structure TwoStates (P : Platform) (t u : UUID) (d d' : DB) : Prop where
  agree : AgreeOutside P t u d d'
  left : d.Wf
  right : d'.Wf

section Writes
variable {P : Platform} {t u x : UUID} {d d' : DB} {w : Write} {K : DB → DB → Prop}

theorem Write.outside_effect (hw : w.Outside t) (d : DB) :
    (w.effect d).outside P t u = w.effect (d.outside P t u) := by
  cases w with
  | updateTenant id p now =>
    have hrows : (update Tenant.id id (p.apply now) d.tenants).filter (fun r => r.id ≠ t) =
        update Tenant.id id (p.apply now) (d.outside P t u).tenants :=
      filter_update_comm fun _ _ => rfl
    exact congrArg (fun l => { d.outside P t u with tenants := l }) hrows
  | updateMember id p =>
    have hrows : (update TenantMember.id id p.apply d.members).filter
        (fun m => m.tenantId ≠ t ∨ m.userId = u) =
        update TenantMember.id id p.apply (d.outside P t u).members :=
      filter_update_comm fun _ _ => rfl
    exact congrArg (fun l => { d.outside P t u with members := l }) hrows
  | insertInvitation r =>
    have hr : r.tenantId ≠ t := hw
    have hrows : (d.invitations ++ [r]).filter (fun i => i.tenantId ≠ t ∨
        hasEmail P d.users u i.email) = (d.outside P t u).invitations ++ [r] := by
      rw [List.filter_append]
      simp [DB.outside,hr]
    exact congrArg (fun l => { d.outside P t u with invitations := l }) hrows
  | insertAuditLog r => rfl
  | _ => exact hw.elim

theorem AgreeOutside.effect (h : AgreeOutside P t u d d') (hw : w.Outside t) :
    AgreeOutside P t u (w.effect d) (w.effect d') := by
  unfold AgreeOutside at h ⊢
  rw [Write.outside_effect hw,Write.outside_effect hw,h]

theorem TwoStates.flush_one (h : TwoStates P t u d d') (hw : w.Outside t)
    (hv : w.violation d = w.violation d')
    (hK : w.violation d = none → w.violation d' = none →
      TwoStates P t u (w.effect d) (w.effect d') → K (w.effect d) (w.effect d')) :
    FlushAlike Write.apply [w] d d' K := by
  cases hd : w.violation d with
  | some f =>
    refine .inl ⟨f,?_,?_⟩
    · simp [flushAll,Write.apply,hd]
    · simp [flushAll,Write.apply,← hv,hd]
  | none =>
    have hd' : w.violation d' = none := hv ▸ hd
    have hok : w.apply d = .ok (w.effect d) := Write.apply_eq_ok.mpr ⟨hd,rfl⟩
    have hok' : w.apply d' = .ok (w.effect d') := Write.apply_eq_ok.mpr ⟨hd',rfl⟩
    refine .inr ⟨_,_,flushAll_single.mpr ⟨hd,rfl⟩,flushAll_single.mpr ⟨hd',rfl⟩,hK hd hd' ?_⟩
    exact ⟨h.agree.effect hw,h.left.apply hok,h.right.apply hok'⟩

theorem AgreeOutside.present_tenant (h : AgreeOutside P t u d d') (hx : x ≠ t) :
    present Tenant.id x d.tenants = present Tenant.id x d'.tenants := by
  have hsome := congrArg Option.isSome
    (h.find_tenants (p := fun r => r.id = x) fun r hr => of_decide_eq_true hr ▸ hx)
  rwa [List.isSome_find?,List.isSome_find?] at hsome

theorem TwoStates.flush_tenant (h : TwoStates P t u d d') {r : Tenant} {p : TenantPatch}
    {now : Nat} (hr : r.id ≠ t) (hK : ∀ {v v'}, TwoStates P t u v v' → K v v') :
    FlushAlike Write.apply (TenantService.tenantWrites r p now) d d' K := by
  unfold TenantService.tenantWrites
  split
  · exact flushAlike_nil (hK h)
  · refine h.flush_one trivial ?_ fun _ _ => hK
    simp only [Write.violation,h.agree.present_tenant hr]

theorem TwoStates.flush_member (h : TwoStates P t u d d') {m : TenantMember}
    {p : TenantMemberPatch} (hm : m ∈ d.members) (ht : m.tenantId ≠ t)
    (hK : ∀ {v v'}, TwoStates P t u v v' →
      (∃ m' ∈ v.members, m'.id = m.id ∧ m'.tenantId = m.tenantId) → K v v') :
    FlushAlike Write.apply (TenantService.memberWrites m p) d d' K := by
  unfold TenantService.memberWrites
  split
  · exact flushAlike_nil (hK h ⟨m,hm,rfl,rfl⟩)
  · have hin : m ∈ d'.members := h.agree.mem_members hm (.inl ht)
    have hpresent : ∀ {l : List TenantMember}, m ∈ l → present TenantMember.id m.id l = true :=
      fun hm => present_iff.mpr (List.mem_map_of_mem hm)
    refine h.flush_one trivial ?_ fun _ _ h' => hK h'
      ⟨_,mem_update.mpr (.inl ⟨m,hm,rfl,rfl⟩),rfl,rfl⟩
    simp only [Write.violation,h.agree.roles,hpresent hm,hpresent hin]

theorem TwoStates.find_member (h : TwoStates P t u d d') {m : TenantMember} (hm : m ∈ d.members)
    (ht : m.tenantId ≠ t) :
    d.members.find? (fun r => r.id = m.id) = d'.members.find? (fun r => r.id = m.id) := by
  have hfind : ∀ {d : DB}, d.Wf → m ∈ d.members →
      d.members.find? (fun r => r.id = m.id) = some m := fun hw hm =>
    find_eq_some_of_unique hm (by simp) fun b hb hid =>
      eq_of_key hw.memberKey hb hm (of_decide_eq_true hid)
  rw [hfind h.left hm,hfind h.right (h.agree.mem_members hm (.inl ht))]

theorem TwoStates.flush_invitation (h : TwoStates P t u d d') {r : TenantInvitation}
    (hr : r.tenantId ≠ t) (hd : r.id ∉ d.invitations.map TenantInvitation.id)
    (hd' : r.id ∉ d'.invitations.map TenantInvitation.id)
    (hK : ∀ {v v'}, TwoStates P t u v v' → v.invitations.find? (fun i => i.id = r.id) =
      v'.invitations.find? (fun i => i.id = r.id) → K v v') :
    FlushAlike Write.apply [.insertInvitation r] d d' K := by
  have hfind : ∀ {d : DB}, r.id ∉ d.invitations.map TenantInvitation.id →
      ((Write.insertInvitation r).effect d).invitations.find? (fun i => i.id = r.id) = some r :=
    fun hd => find_append_key hd
  refine h.flush_one hr ?_ fun _ _ h' => hK h' (by rw [hfind hd,hfind hd'])
  simp only [Write.violation,vacant_iff.mpr hd,vacant_iff.mpr hd',h.agree.present_tenant hr,
    h.agree.roles]

end Writes

section Steps
variable {α : Type} {A : Reading → Prop} {R : DB → DB → Prop} {Q : α → List Write → DB → DB → Prop}
  {ws : List Write} {v v' : DB}

@[simp] theorem alike_now {Q : Nat → List Write → DB → DB → Prop} :
    now.Alike Write.apply A R Q ws v v' ↔ ∀ x : Reading, A x → Q x.now ws v v' := Iff.rfl

@[simp] theorem alike_uuid4 {Q : UUID → List Write → DB → DB → Prop} :
    uuid4.Alike Write.apply A R Q ws v v' ↔ ∀ x : Reading, A x → Q x.uuid ws v v' := Iff.rfl

@[simp] theorem alike_appErrorIf {e : AppError} {p : Prop} [Decidable p]
    {Q : Unit → List Write → DB → DB → Prop} :
    (e.raiseIf p).Alike Write.apply A R Q ws v v' ↔ (¬ p → Q () ws v v') := alike_raiseIf

theorem alike_scalar {table : DB → List α} {p : α → Bool}
    {Q : Option α → List Write → DB → DB → Prop} (h : (table v).find? p = (table v').find? p)
    (hQ : Q ((table v).find? p) [] v v') :
    (scalar table p).Alike Write.apply A R Q [] v v' :=
  alike_select (flushAlike_nil ⟨h,hQ⟩)

theorem alike_refreshRow {table : DB → List α} {p : α → Bool}
    (h : (table v).find? p = (table v').find? p)
    (hQ : ∀ r, (table v).find? p = some r → Q r [] v v') :
    (refreshRow table p).Alike Write.apply A R Q [] v v' := by
  refine alike_bind (alike_scalar h ?_)
  cases hr : (table v).find? p with
  | none => trivial
  | some r => exact hQ r hr

theorem alike_getMembership {x y : UUID} {Q : Option TenantMember → List Write → DB → DB → Prop}
    (h : membershipOf v x y = membershipOf v' x y) (hQ : Q (membershipOf v x y) [] v v') :
    (TenantService.getMembership x y).Alike Write.apply A R Q [] v v' := alike_scalar h hQ

theorem alike_getTenant {x : UUID} {Q : Option Tenant → List Write → DB → DB → Prop}
    (h : activeTenant v x = activeTenant v' x) (hQ : Q (activeTenant v x) [] v v') :
    (TenantService.getTenant x).Alike Write.apply A R Q [] v v' := alike_scalar h hQ

theorem alike_setTenant {r : Tenant} {p : TenantPatch} {Q : Unit → List Write → DB → DB → Prop}
    (hQ : ∀ now, Q () (ws ++ TenantService.tenantWrites r p now) v v') :
    (TenantService.setTenant r p).Alike Write.apply A R Q ws v v' := by
  unfold TenantService.setTenant
  unfold TenantService.tenantWrites at hQ
  refine alike_bind (alike_now.mpr fun x _ => ?_)
  have hx := hQ x.now
  by_cases hp : p.diff r = {}
  · simpa [hp] using hx
  · simpa [hp] using hx

theorem alike_setMember {m : TenantMember} {p : TenantMemberPatch}
    {Q : Unit → List Write → DB → DB → Prop}
    (hQ : Q () (ws ++ TenantService.memberWrites m p) v v') :
    (TenantService.setMember m p).Alike Write.apply A R Q ws v v' := by
  unfold TenantService.setMember
  unfold TenantService.memberWrites at hQ
  by_cases hp : p.diff m = {}
  · simpa [hp] using hQ
  · simpa [hp] using hQ

end Steps

/-- The program takes the same way on both states and leaves two such states. -/
abbrev AnswersAlike (P : Platform) (t u : UUID) (A : Reading → Prop) (p : App Body) (d d' : DB) :
    Prop :=
  p.Alike Write.apply A (TwoStates P t u) (fun _ _ _ _ => True) [] d d'

section Routes
variable {P : Platform} {A : Reading → Prop} {t u x : UUID} {a : User} {d d' : DB}

theorem ne_of_membershipOf {m : TenantMember} (hm : membershipOf d t u = none)
    (hx : membershipOf d x u = some m) : x ≠ t := by
  rintro rfl
  rw [hm] at hx
  cases hx

theorem alike_requireTenantAdmin {f : TenantMember → App Body} (h : TwoStates P t u d d')
    (hm : membershipOf d t u = none) (ha : a.id = u)
    (hf : x ≠ t → ∀ m, AnswersAlike P t u A (f m) d d') :
    AnswersAlike P t u A (requireTenantAdmin x a >>= f) d d' := by
  unfold requireTenantAdmin
  have hsame : membershipOf d x a.id = membershipOf d' x a.id := h.agree.membershipOf (.inr ha)
  refine alike_bind (alike_bind (alike_getMembership hsame ?_))
  cases hx : membershipOf d x a.id with
  | none => trivial
  | some m =>
    have hxt : x ≠ t := ne_of_membershipOf hm (ha ▸ hx)
    refine alike_bind (alike_refreshRow (by rw [h.agree.roles]) fun role _ => ?_)
    refine alike_bind (alike_appErrorIf.mpr fun _ => ?_)
    exact hf hxt m

theorem alike_logged {action : String} {y : UUID} {details : Option (List (String × Detail))}
    {b : Body} (h : TwoStates P t u d d') (hx : x ≠ t) :
    AnswersAlike P t u A
      (AuditLogger.log action (some x) (some y) details >>= fun _ => (pure b : App Body)) d d' := by
  unfold AuditLogger.log
  refine alike_bind (alike_bind (alike_uuid4.mpr fun id _ => ?_))
  refine alike_bind (alike_now.mpr fun created _ => ?_)
  refine alike_bind (alike_add.mpr (alike_flush.mpr ?_))
  refine h.flush_one trivial ?_ fun _ _ _ => trivial
  simp only [Write.violation,h.agree.auditLogs,Option.all_some,h.agree.present_tenant hx]

theorem getTenant_alike (h : TwoStates P t u d d') (hm : membershipOf d t u = none)
    (ha : a.id = u) : AnswersAlike P t u A (TenantRouter.getTenant x a) d d' := by
  unfold TenantRouter.getTenant
  refine alike_bind (alike_getMembership (h.agree.membershipOf (.inr ha)) ?_)
  cases hx : membershipOf d x a.id with
  | none => trivial
  | some m =>
    have hxt : x ≠ t := ne_of_membershipOf hm (ha ▸ hx)
    refine alike_bind (alike_getTenant (h.agree.activeTenant hxt) ?_)
    cases activeTenant d x with
    | none => trivial
    | some tenant => trivial

theorem listMembers_alike (h : TwoStates P t u d d') (hm : membershipOf d t u = none)
    (ha : a.id = u) : AnswersAlike P t u A (TenantRouter.listMembers x a) d d' := by
  unfold TenantRouter.listMembers
  refine alike_bind (alike_getMembership (h.agree.membershipOf (.inr ha)) ?_)
  cases hx : membershipOf d x a.id with
  | none => trivial
  | some m =>
    have hxt : x ≠ t := ne_of_membershipOf hm (ha ▸ hx)
    refine alike_bind (alike_select (flushAlike_nil ⟨?_,trivial⟩))
    have hrows : d.members.filter (fun m => m.tenantId = x ∧ m.isActive) =
        d'.members.filter (fun m => m.tenantId = x ∧ m.isActive) :=
      h.agree.filter_members fun m hm => by
        simp only [decide_eq_true_eq] at hm
        exact .inl (hm.1 ▸ hxt)
    rw [hrows,h.agree.users,h.agree.roles]

theorem userTenantJoin_outside (hm : membershipOf d t u = none) :
    TenantService.userTenantJoin (d.outside P t u) u = TenantService.userTenantJoin d u := by
  have hown : ∀ r : Tenant, (d.outside P t u).members.filter (fun m =>
      m.tenantId = r.id ∧ m.userId = u ∧ m.isActive ∧ r.isActive) =
        d.members.filter fun m => m.tenantId = r.id ∧ m.userId = u ∧ m.isActive ∧ r.isActive := by
    intro r
    refine (List.filter_filter ..).trans (List.filter_congr fun m _ => ?_)
    by_cases hu : m.userId = u <;> simp [hu]
  unfold TenantService.userTenantJoin
  simp only [hown]
  refine flatMap_filter fun r hr => ?_
  have hrt : r.id = t := by simpa using hr
  have hnone := List.find?_eq_none.mp hm
  simp only [decide_eq_true_eq] at hnone
  rw [List.filter_eq_nil_iff.mpr,List.map_nil]
  rintro m hmem hsel
  simp only [decide_eq_true_eq] at hsel
  exact hnone m hmem ⟨hsel.1.trans hrt,hsel.2.1,hsel.2.2.1⟩

theorem listMyTenants_alike (h : TwoStates P t u d d') (hm : membershipOf d t u = none)
    (ha : a.id = u) : AnswersAlike P t u A (TenantRouter.listMyTenants a) d d' := by
  unfold TenantRouter.listMyTenants TenantService.listUserTenants
  have hm' : membershipOf d' t u = none := h.agree.membershipOf (.inr rfl) ▸ hm
  refine alike_bind (alike_select (flushAlike_nil ⟨?_,trivial⟩))
  have hjoin := h.agree.congr fun d => TenantService.userTenantJoin d u
  simp only [userTenantJoin_outside hm,userTenantJoin_outside hm'] at hjoin
  rw [ha,hjoin]

theorem updateTenant_alike {name : Option String} {isActive : Option Bool}
    (h : TwoStates P t u d d') (hm : membershipOf d t u = none) (ha : a.id = u) :
    AnswersAlike P t u A (TenantRouter.updateTenant x name isActive a) d d' := by
  refine alike_requireTenantAdmin h hm ha fun hxt _ => ?_
  unfold TenantService.updateTenant
  refine alike_bind (alike_bind (alike_getTenant (h.agree.activeTenant hxt) ?_))
  cases hr : activeTenant d x with
  | none => trivial
  | some tenant =>
    have hid : tenant.id ≠ t := (TenantService.activeTenant_mem hr).2.1 ▸ hxt
    refine alike_bind (alike_setTenant fun now => ?_)
    refine alike_bind (alike_commit.mpr (h.flush_tenant hid fun h' => ⟨h',?_⟩))
    refine alike_refreshRow ?_ fun r _ => alike_logged h' hxt
    exact h'.agree.find_tenants fun r hr => of_decide_eq_true hr ▸ hid

theorem deleteTenant_alike (h : TwoStates P t u d d') (hm : membershipOf d t u = none)
    (ha : a.id = u) : AnswersAlike P t u A (TenantRouter.deleteTenant x a) d d' := by
  refine alike_requireTenantAdmin h hm ha fun hxt _ => ?_
  unfold TenantService.deleteTenant
  refine alike_bind (alike_bind (alike_getTenant (h.agree.activeTenant hxt) ?_))
  cases hr : activeTenant d x with
  | none => trivial
  | some tenant =>
    have hid : tenant.id ≠ t := (TenantService.activeTenant_mem hr).2.1 ▸ hxt
    refine alike_bind (alike_setTenant fun now => ?_)
    exact alike_commit.mpr (h.flush_tenant hid fun h' => ⟨h',alike_logged h' hxt⟩)

theorem updateMemberRole_alike {y roleId : UUID} (h : TwoStates P t u d d')
    (hm : membershipOf d t u = none) (ha : a.id = u) :
    AnswersAlike P t u A (TenantRouter.updateMemberRole x y roleId a) d d' := by
  refine alike_requireTenantAdmin h hm ha fun hxt _ => ?_
  unfold TenantService.updateMemberRole
  refine alike_bind (alike_bind (alike_getMembership (h.agree.membershipOf (.inl hxt)) ?_))
  cases hr : membershipOf d x y with
  | none => trivial
  | some member =>
    obtain ⟨hmem,ht,-⟩ := TenantService.membershipOf_mem hr
    refine alike_bind (alike_scalar (by rw [h.agree.roles]) ?_)
    cases d.roles.find? _ with
    | none => trivial
    | some role =>
      refine alike_bind (alike_setMember ?_)
      refine alike_bind (alike_commit.mpr (h.flush_member hmem (ht ▸ hxt) fun h' hrow => ⟨h',?_⟩))
      obtain ⟨m',hm',hid,ht'⟩ := hrow
      rw [← hid]
      exact alike_refreshRow (h'.find_member hm' (ht' ▸ ht ▸ hxt)) fun r _ => alike_logged h' hxt

theorem removeMember_alike {y : UUID} (h : TwoStates P t u d d') (hm : membershipOf d t u = none)
    (ha : a.id = u) : AnswersAlike P t u A (TenantRouter.removeMember x y a) d d' := by
  refine alike_requireTenantAdmin h hm ha fun hxt _ => ?_
  unfold TenantService.removeMember
  refine alike_bind (alike_bind (alike_getMembership (h.agree.membershipOf (.inl hxt)) ?_))
  cases hr : membershipOf d x y with
  | none => trivial
  | some member =>
    obtain ⟨hmem,ht,-⟩ := TenantService.membershipOf_mem hr
    refine alike_bind (alike_setMember ?_)
    exact alike_commit.mpr (h.flush_member hmem (ht ▸ hxt) fun h' _ => ⟨h',alike_logged h' hxt⟩)

theorem inviteMember_alike {email : String} {roleId : UUID} (h : TwoStates P t u d d')
    (hm : membershipOf d t u = none) (ha : a.id = u)
    (hfresh : ∀ r, A r → r.uuid ∉ d.invitations.map TenantInvitation.id)
    (hfresh' : ∀ r, A r → r.uuid ∉ d'.invitations.map TenantInvitation.id) :
    AnswersAlike P t u A (TenantRouter.inviteMember P x email roleId a) d d' := by
  refine alike_requireTenantAdmin h hm ha fun hxt _ => ?_
  unfold TenantService.inviteMember
  refine alike_bind (alike_bind (alike_scalar (by rw [h.agree.roles]) ?_))
  cases d.roles.find? _ with
  | none => trivial
  | some role =>
    refine alike_bind (alike_reading.mpr fun y1 _ => alike_bind (alike_now.mpr fun y2 _ => ?_))
    refine alike_bind (alike_uuid4.mpr fun y3 hy3 => alike_bind (alike_add.mpr ?_))
    refine alike_bind (alike_commit.mpr
      (h.flush_invitation hxt (hfresh y3 hy3) (hfresh' y3 hy3) fun h' hfind => ⟨h',?_⟩))
    exact alike_bind (alike_refreshRow hfind fun r hr => alike_logged h' hxt)

end Routes

/-- The request carries an access token of the user without a tenant, and no X-Tenant-ID header. -/
structure Unscoped (P : Platform) (u : UUID) (q : Request) : Prop where
  header : q.xTenantId = none
  token : ∃ e, q.authorization =
    some ("Bearer " ++ P.jwtEncode (sessionClaims .access u none e))

section Requests
variable {P : Platform} {A : Reading → Prop} {t u : UUID} {d d' : DB} {q : Request}
  {r : TenantRoute}

theorem Unscoped.admission (hq : Unscoped P u q) (now : Nat) (d : DB) :
    admission P q.authorization q.xTenantId now d = .ok (.ok none) := by
  obtain ⟨hheader,e,htoken⟩ := hq
  unfold TenantAuth.admission
  rw [hheader,htoken,bearerToken_bearer (P.jwtEncode_compact _)]
  simp only [parseTenantId,decodeAt_access]
  by_cases hexp : seconds e*1000000 ≤ now
  · simp [hexp,contextAt]
  · simp [hexp,contextAt]

theorem Unscoped.getCurrentUser (hq : Unscoped P u q) (h : TwoStates P t u d d')
    {f : User → App Body} (hf : ∀ a, a.id = u → AnswersAlike P t u A (f a) d d') :
    AnswersAlike P t u A (getCurrentUser P q.authorization >>= f) d d' := by
  obtain ⟨-,e,htoken⟩ := hq
  unfold TenantAuth.getCurrentUser decodeToken
  rw [htoken,P.httpBearer_bearer _ (P.jwtEncode_compact _)]
  refine alike_bind (alike_bind (alike_appErrorIf.mpr fun _ => ?_))
  refine alike_bind (alike_bind (alike_now.mpr fun x _ => ?_))
  rw [decodeAt_access]
  by_cases hexp : seconds e*1000000 ≤ x.now
  · simp only [if_pos hexp]
    trivial
  · simp only [if_neg hexp]
    refine alike_bind (alike_scalar (by rw [h.agree.users]) ?_)
    cases ha : d.users.find? _ with
    | none => trivial
    | some a =>
      have hp := List.find?_some ha
      simp only [decide_eq_true_eq] at hp
      exact hf a hp.1

theorem Unscoped.endpoint (hq : Unscoped P u q) (hr : q.route = .tenant r)
    (hcreate : ∀ name slug, r ≠ .createTenant name slug)
    (haccept : ∀ x token, r ≠ .acceptInvitation x token) (h : TwoStates P t u d d')
    (hm : membershipOf d t u = none)
    (hfresh : ∀ y, A y → y.uuid ∉ d.invitations.map TenantInvitation.id)
    (hfresh' : ∀ y, A y → y.uuid ∉ d'.invitations.map TenantInvitation.id) :
    AnswersAlike P t u A (q.endpoint P) d d' := by
  unfold Request.endpoint
  rw [hr]
  refine hq.getCurrentUser h fun a ha => ?_
  cases r with
  | createTenant name slug => exact absurd rfl (hcreate name slug)
  | listMyTenants => exact listMyTenants_alike h hm ha
  | getTenant x => exact getTenant_alike h hm ha
  | updateTenant x name isActive => exact updateTenant_alike h hm ha
  | deleteTenant x => exact deleteTenant_alike h hm ha
  | listMembers x => exact listMembers_alike h hm ha
  | inviteMember x email roleId => exact inviteMember_alike h hm ha hfresh hfresh'
  | acceptInvitation x token => exact absurd rfl (haccept x token)
  | updateMemberRole x y roleId => exact updateMemberRole_alike h hm ha
  | removeMember x y => exact removeMember_alike h hm ha

end Requests

section Worlds
variable {P : Platform} {o o' : Readings} {w w' : World DB Mail} {t u : UUID} {q : Request}
  {r : TenantRoute}

/-- On two reachable states that differ in the rows of a tenant only, of which the user is no
active member on the one and so on the other, a request of his gets the same response, and leaves
two such states. From the request on the readings are the same; no key is drawn twice. -/
theorem tenant_confidential (hw : Reachable P o w) (hw' : Reachable P o' w')
    (huuid : Function.Injective fun i => (o.read i).uuid)
    (huuid' : Function.Injective fun i => (o'.read i).uuid)
    (hread : ∀ k, o'.read (w'.taken+k) = o.read (w.taken+k))
    (hagree : AgreeOutside P t u w.db w'.db) (hm : membershipOf w.db t u = none)
    (hq : Unscoped P u q) (hr : q.route = .tenant r)
    (hcreate : ∀ name slug, r ≠ .createTenant name slug)
    (haccept : ∀ x token, r ≠ .acceptInvitation x token) :
    (handle P o w q).1 = (handle P o' w' q).1 ∧
      AgreeOutside P t u (handle P o w q).2.db (handle P o' w' q).2.db := by
  have hstart : ∀ k, o'.read (endpointStart P w' q + k) = o.read (endpointStart P w q + k) := by
    intro k
    unfold endpointStart
    rw [Nat.add_assoc,hread,Nat.add_assoc]
  have hle : w.taken ≤ endpointStart P w q := Nat.le_add_right _ _
  have hle' : w'.taken ≤ endpointStart P w' q := Nat.le_add_right _ _
  have hfresh : ∀ k, (o.read (endpointStart P w q + k)).uuid ∉
      w.db.invitations.map TenantInvitation.id :=
    fun k => hw.fresh_invitation huuid (by omega)
  have hfresh' : ∀ k, (o.read (endpointStart P w q + k)).uuid ∉
      w'.db.invitations.map TenantInvitation.id := by
    intro k
    rw [← hstart]
    exact hw'.fresh_invitation huuid' (by omega)
  let A : Reading → Prop := fun y => y.uuid ∉ w.db.invitations.map TenantInvitation.id ∧
    y.uuid ∉ w'.db.invitations.map TenantInvitation.id
  have hsame : AnswersAlike P t u A (q.endpoint P) w.db w'.db :=
    hq.endpoint hr hcreate haccept ⟨hagree,hw.wf,hw'.wf⟩ hm (fun _ hy => hy.1) fun _ hy => hy.2
  have hrun := hsame.exec ⟨hagree,hw.wf,hw'.wf⟩ (fun k => ⟨hfresh k,hfresh' k⟩) hstart w.sent
    w'.sent
  rw [handle_eq,handle_eq]
  simp only [hq.admission]
  exact ⟨congrArg (respond q.route.statusCode) hrun.1,hrun.2.agree⟩

end Worlds

section Guest
open Seed

def Seed.afterOwner (r : TenantRoute) : World DB Mail :=
  after (plainPlatform {}) (readings 0) (world [])
    [request 1 (.tenant (.createTenant "A" "a")),request 1 (.tenant r)]

theorem Seed.reachable_afterOwner (r : TenantRoute) :
    Reachable (plainPlatform {}) (readings 0) (afterOwner r) :=
  (Reachable.start (deployed_world (by simp) (by simp) (by simp))).after _

/-- The guest asks for a tenant that has been renamed, or deactivated. -/
theorem tenant_confidential_guest :
    (handle (plainPlatform {}) (readings 0) (afterOwner (.updateTenant 1002 (some "B") none))
        (request 2 (.tenant (.getTenant 1002)))).1 =
      (handle (plainPlatform {}) (readings 0) (afterOwner (.deleteTenant 1002))
        (request 2 (.tenant (.getTenant 1002)))).1 := by
  have htaken : (afterOwner (.deleteTenant 1002)).taken =
      (afterOwner (.updateTenant 1002 (some "B") none)).taken := by decide +kernel
  exact (tenant_confidential (t := 1002) (u := 2) (reachable_afterOwner _) (reachable_afterOwner _)
    (readings_uuid 0) (readings_uuid 0) (fun k => by rw [htaken]) (by decide +kernel)
    (by decide +kernel) ⟨rfl,_,rfl⟩ rfl (by simp) (by simp)).1

end Guest

end TenantAuth
