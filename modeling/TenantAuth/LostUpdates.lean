import TenantAuth.Concurrency
import TenantAuth.Queues
import TenantAuth.Seed
set_option autoImplicit false

/-! Requests to `tenant.py` that run at the same time. They read a row, change it in memory and
write back the columns that differ, with no lock in between. -/

namespace TenantAuth
open Transact

/-- A request behind the tenant middleware: the Authorization header and the route. -/
abbrev TenantRequest := Option String × TenantRoute

def TenantRequest.prog (P : Platform) (q : TenantRequest) : App Body :=
  Request.endpoint P { authorization := q.1, route := .tenant q.2 }

theorem TenantRequest.alone {P : Platform} {o : Readings} {w : World DB Mail} {q : Request}
    {r : TenantRoute} (hq : q.route = .tenant r) (hadm : Admits P q (o.read w.taken).now w.db) :
    ∃ x w', RunsAlone o (TenantRequest.prog P (q.authorization,r))
      ⟨w.db,endpointStart P w q,w.sent⟩ x w' ∧ handle P o w q = (respond q.route.statusCode x,w') :=
  Request.alone (by simp only [Request.endpoint,TenantRequest.prog,hq]) hadm

/-- The writes that a route queues, with the columns that it assigns. -/
def TenantRoute.Queues : TenantRoute → Write → Prop
  | _, .insertAuditLog _ => True
  | .createTenant _ _, .insertTenant _ | .createTenant _ _, .insertMember _
  | .createTenant _ _, .createSchema _ => True
  | .updateTenant t name isActive, .updateTenant id p _ =>
    id = t ∧ (∀ n ∈ p.name, ∃ m ∈ name, n = strip m) ∧
      (p.isActive = none ∨ p.isActive = some false ∧ isActive = some false)
  | .deleteTenant t, .updateTenant id p _ => id = t ∧ p = { isActive := some false }
  | .inviteMember _ _ _, .insertInvitation _ => True
  | .acceptInvitation _ _, .acceptInvitation _ _ | .acceptInvitation _ _, .insertMember _ => True
  | .updateMemberRole _ _ roleId, .updateMember _ p =>
    p.isActive = none ∧ ∀ r ∈ p.roleId, r = roleId
  | .removeMember _ _, .updateMember _ p => p = { isActive := some false }
  | _, _ => False

section Routes
variable {P : Platform}

theorem changed_mem {α : Type} [DecidableEq α] {old a : α} {new : Option α}
    (h : a ∈ changed old new) : a ∈ new ∧ a ≠ old := by
  unfold changed at h
  split at h
  · cases h
  · rename_i hne
    exact ⟨h,fun he => hne (he ▸ h)⟩

theorem TenantRoute.writes (r : TenantRoute) (user : User) :
    (r.endpoint P user).Writes r.Queues := by
  have hlog : ∀ a, r.Queues (.insertAuditLog a) := fun a => by cases r <;> trivial
  cases r with
  | createTenant name slug =>
    refine Prog.Writes.bind (TenantService.writes_createTenant (fun _ => trivial)
      (fun _ => trivial) (fun _ => trivial) _ _ _) fun _ => ?_
    exact writes_logged hlog
  | listMyTenants => exact Prog.Writes.bind (writes_select _ _) fun _ => writes_pure _ _
  | getTenant t =>
    refine Prog.Writes.bind (writes_scalar _ _) fun m => ?_
    cases m with
    | none => exact writes_appError _
    | some m =>
      refine Prog.Writes.bind (writes_scalar _ _) fun tenant => ?_
      cases tenant with
      | none => exact writes_appError _
      | some tenant => exact writes_pure _ _
  | updateTenant t name isActive =>
    refine Prog.Writes.bind (writes_requireTenantAdmin _ _) fun _ => ?_
    refine Prog.Writes.bind (TenantService.writes_updateTenant fun row _ hactive _ => ?_) fun _ =>
      writes_logged hlog
    refine ⟨rfl,fun n hn => ?_,?_⟩
    · obtain ⟨m,hm,hn⟩ := Option.map_eq_some_iff.mp (changed_mem hn).1
      exact ⟨m,hm,hn.symm⟩
    · -- The row that was found is active: a true in the patch is no change.
      simp only [TenantPatch.diff,changed,hactive]
      rcases isActive with _ | _ | _ <;> simp
  | deleteTenant t =>
    refine Prog.Writes.bind (writes_requireTenantAdmin _ _) fun _ => ?_
    refine Prog.Writes.bind (TenantService.writes_deleteTenant fun _ => ⟨rfl,rfl⟩) fun _ => ?_
    exact writes_logged hlog
  | listMembers t =>
    refine Prog.Writes.bind (writes_scalar _ _) fun m => ?_
    cases m with
    | none => exact writes_appError _
    | some m => exact Prog.Writes.bind (writes_select _ _) fun _ => writes_pure _ _
  | inviteMember t email roleId =>
    refine Prog.Writes.bind (writes_requireTenantAdmin _ _) fun _ => ?_
    refine Prog.Writes.bind (TenantService.writes_inviteMember (fun _ => trivial) _ _ _) fun _ => ?_
    exact writes_logged hlog
  | acceptInvitation t token =>
    refine Prog.Writes.bind (TenantService.writes_acceptInvitation (fun _ _ => trivial)
      (fun _ _ => trivial) _ _) fun _ => ?_
    exact writes_logged hlog
  | updateMemberRole t u roleId =>
    refine Prog.Writes.bind (writes_requireTenantAdmin _ _) fun _ => ?_
    refine Prog.Writes.bind (TenantService.writes_updateMemberRole fun m _ _ => ?_) fun _ =>
      writes_logged hlog
    exact ⟨rfl,fun x hx => (Option.some.inj (changed_mem hx).1).symm⟩
  | removeMember t u =>
    refine Prog.Writes.bind (writes_requireTenantAdmin _ _) fun _ => ?_
    refine Prog.Writes.bind (TenantService.writes_removeMember fun _ _ _ => rfl) fun _ => ?_
    exact writes_logged hlog

theorem TenantRequest.writes (q : TenantRequest) : (q.prog P).Writes q.2.Queues :=
  Prog.Writes.bind (writes_getCurrentUser _) fun user => q.2.writes user

end Routes

/-- What the writes of a route make of a tenant's row. -/
structure Tenant.ChangedBy (r : TenantRoute) (t t' : Tenant) : Prop where
  id : t'.id = t.id
  name : t'.name = t.name ∨
    ∃ n isActive, r = .updateTenant t.id (some n) isActive ∧ t'.name = strip n
  isActive : t'.isActive = t.isActive ∨ t'.isActive = false ∧
    ((∃ name, r = .updateTenant t.id name (some false)) ∨ r = .deleteTenant t.id)

structure TenantMember.ChangedBy (r : TenantRoute) (m m' : TenantMember) : Prop where
  id : m'.id = m.id
  roleId : m'.roleId = m.roleId ∨ ∃ t u, r = .updateMemberRole t u m'.roleId
  isActive : m'.isActive = m.isActive ∨ m'.isActive = false ∧ ∃ t u, r = .removeMember t u

/-- Every row is still there, as the writes of the route have left it. -/
structure ChangedBy (r : TenantRoute) (d d' : DB) : Prop where
  tenants : ∀ t ∈ d.tenants, ∃ t' ∈ d'.tenants, t.ChangedBy r t'
  members : ∀ m ∈ d.members, ∃ m' ∈ d'.members, m.ChangedBy r m'

section Rows
variable {r : TenantRoute} {d d' : DB}

theorem Tenant.ChangedBy.refl (t : Tenant) : t.ChangedBy r t := ⟨rfl,.inl rfl,.inl rfl⟩

theorem Tenant.ChangedBy.trans {a b c : Tenant} (h1 : a.ChangedBy r b) (h2 : b.ChangedBy r c) :
    a.ChangedBy r c := by
  refine ⟨h2.id.trans h1.id,?_,?_⟩
  · rcases h2.name with h | h
    · rw [h]
      exact h1.name
    · rw [h1.id] at h
      exact .inr h
  · rcases h2.isActive with h | h
    · rw [h]
      exact h1.isActive
    · rw [h1.id] at h
      exact .inr h

theorem TenantMember.ChangedBy.refl (m : TenantMember) : m.ChangedBy r m :=
  ⟨rfl,.inl rfl,.inl rfl⟩

theorem TenantMember.ChangedBy.trans {a b c : TenantMember} (h1 : a.ChangedBy r b)
    (h2 : b.ChangedBy r c) : a.ChangedBy r c := by
  refine ⟨h2.id.trans h1.id,?_,?_⟩
  · rcases h2.roleId with h | h
    · rw [h]
      exact h1.roleId
    · exact .inr h
  · rcases h2.isActive with h | h
    · rw [h]
      exact h1.isActive
    · exact .inr h

theorem ChangedBy.of_tenants (hm : SameIn .members d d')
    (ht : ∀ t ∈ d.tenants, ∃ t' ∈ d'.tenants, t.ChangedBy r t') : ChangedBy r d d' := by
  simp only [SameIn] at hm
  exact ⟨ht,fun m h => ⟨m,hm ▸ h,.refl m⟩⟩

theorem ChangedBy.of_members (ht : SameIn .tenants d d')
    (hm : ∀ m ∈ d.members, ∃ m' ∈ d'.members, m.ChangedBy r m') : ChangedBy r d d' := by
  simp only [SameIn] at ht
  exact ⟨fun t h => ⟨t,ht ▸ h,.refl t⟩,hm⟩

theorem ChangedBy.refl (d : DB) : ChangedBy r d d :=
  ⟨fun t ht => ⟨t,ht,.refl t⟩,fun m hm => ⟨m,hm,.refl m⟩⟩

theorem ChangedBy.trans {a b c : DB} (h1 : ChangedBy r a b) (h2 : ChangedBy r b c) :
    ChangedBy r a c := by
  refine ⟨fun t ht => ?_,fun m hm => ?_⟩
  · obtain ⟨t1,ht1,hc1⟩ := h1.tenants t ht
    obtain ⟨t2,ht2,hc2⟩ := h2.tenants t1 ht1
    exact ⟨t2,ht2,hc1.trans hc2⟩
  · obtain ⟨m1,hm1,hc1⟩ := h1.members m hm
    obtain ⟨m2,hm2,hc2⟩ := h2.members m1 hm1
    exact ⟨m2,hm2,hc1.trans hc2⟩

theorem ChangedBy.updateTenant {id : UUID} {p : TenantPatch} {now : Nat}
    (h : ∀ t : Tenant, t.id = id → t.ChangedBy r (p.apply now t)) :
    ChangedBy r d ((Write.updateTenant id p now).effect d) := by
  refine .of_tenants rfl fun t ht => ?_
  exact exists_mem_update ht (h t) (.refl t)

theorem ChangedBy.updateMember {id : UUID} {p : TenantMemberPatch}
    (h : ∀ m : TenantMember, m.ChangedBy r (p.apply m)) :
    ChangedBy r d ((Write.updateMember id p).effect d) := by
  refine .of_members rfl fun m hm => ?_
  exact exists_mem_update hm (fun _ => h m) (.refl m)

theorem TenantRoute.Queues.changes {w : Write} (hw : r.Queues w) (d : DB) :
    ChangedBy r d (w.effect d) := by
  cases w with
  | insertTenant _ => exact .of_tenants rfl fun t ht => ⟨t,List.mem_append_left _ ht,.refl t⟩
  | insertMember _ => exact .of_members rfl fun m hm => ⟨m,List.mem_append_left _ hm,.refl m⟩
  | updateTenant id p now =>
    refine ChangedBy.updateTenant fun t ht => ?_
    cases r with
    | updateTenant t' name isActive =>
      obtain ⟨rfl,hname,hactive⟩ := hw
      refine ⟨rfl,?_,?_⟩
      · cases hp : p.name with
        | none => exact .inl (by simp [TenantPatch.apply,hp])
        | some n =>
          obtain ⟨n',hn',rfl⟩ := hname n hp
          cases hn'
          exact .inr ⟨n',isActive,by rw [ht],by simp [TenantPatch.apply,hp]⟩
      · rcases hactive with hp | ⟨hp,hreq⟩
        · exact .inl (by simp [TenantPatch.apply,hp])
        · exact .inr ⟨by simp [TenantPatch.apply,hp],.inl ⟨name,by rw [ht,hreq]⟩⟩
    | deleteTenant t' =>
      obtain ⟨rfl,rfl⟩ := hw
      exact ⟨rfl,.inl rfl,.inr ⟨rfl,.inr (by rw [ht])⟩⟩
    | _ => exact hw.elim
  | updateMember id p =>
    refine ChangedBy.updateMember fun m => ?_
    cases r with
    | updateMemberRole t u roleId =>
      obtain ⟨hactive,hrole⟩ := hw
      refine ⟨rfl,?_,.inl (by simp [TenantMemberPatch.apply,hactive])⟩
      cases hp : p.roleId with
      | none => exact .inl (by simp [TenantMemberPatch.apply,hp])
      | some x =>
        have hx : x = roleId := hrole x hp
        exact .inr ⟨t,u,by simp [TenantMemberPatch.apply,hp,hx]⟩
    | removeMember t u =>
      cases hw
      exact ⟨rfl,.inl rfl,.inr ⟨rfl,t,u,rfl⟩⟩
    | _ => exact hw.elim
  | deleteUser _ => cases r <;> exact hw.elim
  | _ => exact .of_tenants rfl fun t ht => ⟨t,ht,.refl t⟩

theorem keeps_changedBy : Keeps Write.apply r.Queues (ChangedBy r) where
  refl := .refl
  trans := .trans
  write hw ha := (Write.apply_eq_ok.mp ha).2 ▸ hw.changes _

/-- What is inactive is there and stays so. -/
structure StaysInactive (d d' : DB) : Prop where
  tenants : ∀ t ∈ d.tenants, t.isActive = false →
    ∃ t' ∈ d'.tenants, t'.id = t.id ∧ t'.isActive = false
  members : ∀ m ∈ d.members, m.isActive = false →
    ∃ m' ∈ d'.members, m'.id = m.id ∧ m'.isActive = false

theorem ChangedBy.staysInactive (h : ChangedBy r d d') : StaysInactive d d' := by
  refine ⟨fun t ht hf => ?_,fun m hm hf => ?_⟩
  · obtain ⟨t',ht',hc⟩ := h.tenants t ht
    refine ⟨t',ht',hc.id,?_⟩
    rcases hc.isActive with hsame | ⟨hoff,-⟩
    · exact hsame.trans hf
    · exact hoff
  · obtain ⟨m',hm',hc⟩ := h.members m hm
    refine ⟨m',hm',hc.id,?_⟩
    rcases hc.isActive with hsame | ⟨hoff,-⟩
    · exact hsame.trans hf
    · exact hoff

theorem StaysInactive.trans {a b c : DB} (h1 : StaysInactive a b) (h2 : StaysInactive b c) :
    StaysInactive a c := by
  refine ⟨fun t ht hf => ?_,fun m hm hf => ?_⟩
  · obtain ⟨t1,ht1,hid1,hf1⟩ := h1.tenants t ht hf
    obtain ⟨t2,ht2,hid2,hf2⟩ := h2.tenants t1 ht1 hf1
    exact ⟨t2,ht2,hid2.trans hid1,hf2⟩
  · obtain ⟨m1,hm1,hid1,hf1⟩ := h1.members m hm hf
    obtain ⟨m2,hm2,hid2,hf2⟩ := h2.members m1 hm1 hf1
    exact ⟨m2,hm2,hid2.trans hid1,hf2⟩

theorem keeps_staysInactive :
    Keeps Write.apply (fun w => ∃ q : TenantRequest, q.2.Queues w) StaysInactive where
  refl d := ⟨fun t ht hf => ⟨t,ht,rfl,hf⟩,fun m hm hf => ⟨m,hm,rfl,hf⟩⟩
  trans := .trans
  write hw ha := by
    obtain ⟨q,hq⟩ := hw
    exact (Write.apply_eq_ok.mp ha).2 ▸ (hq.changes _).staysInactive

theorem keeps_wf {S : Write → Prop} : Keeps Write.apply S fun d d' => d.Wf → d'.Wf :=
  .ofInv fun _ ha h => h.apply ha

end Rows

section Names
variable {P : Platform} {t : UUID} {n : String} {isActive : Option Bool} {d d' : DB}

def Named (t : UUID) (name : String) (d : DB) : Prop := ∀ r ∈ d.tenants, r.id = t → r.name = name

def SameNames (d d' : DB) : Prop :=
  ∀ r' ∈ d'.tenants, ∃ r ∈ d.tenants, r.id = r'.id ∧ r.name = r'.name

theorem Named.congr {name : String} (h : Named t name d) (hs : SameNames d d') :
    Named t name d' := by
  intro r' hr' hid
  obtain ⟨r,hr,hid',hn⟩ := hs r' hr'
  exact hn.symm.trans (h r hr (hid'.trans hid))

/-- A write that the patch of a tenant queues, but not one that assigns a name. -/
def KeepsName (t : UUID) (n : String) (isActive : Option Bool) (w : Write) : Prop :=
  (TenantRoute.updateTenant t (some n) isActive).Queues w ∧
    ∀ id p now, w = .updateTenant id p now → p.name = none

theorem keeps_sameNames : Keeps Write.apply (KeepsName t n isActive) SameNames where
  refl d := fun r hr => ⟨r,hr,rfl,rfl⟩
  trans h1 h2 := by
    intro r hr
    obtain ⟨r1,hr1,hid1,hn1⟩ := h2 r hr
    obtain ⟨r2,hr2,hid2,hn2⟩ := h1 r1 hr1
    exact ⟨r2,hr2,hid2.trans hid1,hn2.trans hn1⟩
  write := by
    rintro w d d' ⟨hq,hname⟩ ha
    rw [(Write.apply_eq_ok.mp ha).2]
    intro r' hr'
    cases w with
    | updateTenant id p now =>
      rcases mem_update.mp hr' with ⟨r,hr,-,rfl⟩ | ⟨hr,-⟩
      · exact ⟨r,hr,rfl,by simp [TenantPatch.apply,hname id p now rfl]⟩
      · exact ⟨r',hr,rfl,rfl⟩
    | insertTenant _ => exact hq.elim
    | _ => exact ⟨r',hr',rfl,rfl⟩

theorem keeps_named {name : String} :
    Keeps Write.apply (KeepsName t n isActive) fun d d' => Named t name d → Named t name d' :=
  .ofInv fun hw ha h => h.congr (keeps_sameNames.write hw ha)

/-- The read of the tenant is next. -/
def ReadsTenant (t : UUID) (p : App Body) : Prop :=
  ∃ rest, p = (TenantService.getTenant t >>= rest)

theorem readsTenant_getTenant {α : Type} (f : Option Tenant → App α) (g : α → App Body) :
    ReadsTenant t ((TenantService.getTenant t >>= f) >>= g) :=
  ⟨fun r => f r >>= g,rfl⟩

/-- A patch that reads the name it asks for assigns none. -/
theorem TenantService.writesOn_updateTenant {g : Tenant → App Body}
    (hg : ∀ r, (g r).Writes (KeepsName t n isActive)) :
    (updateTenant t (some n) isActive >>= g).WritesOn (ReadsTenant t) (Named t (strip n))
      (KeepsName t n isActive) := by
  unfold updateTenant
  refine writesOn_found (readsTenant_getTenant _ _) ?_ fun d r hd hr => ?_
  · exact (writes_appError _).on
  obtain ⟨rfl,hact⟩ : r.id = t ∧ r.isActive = true := by simpa using List.find?_some hr
  have hname : r.name = strip n := hd r (List.mem_of_find?_eq_some hr) rfl
  have hset : ∀ now, KeepsName r.id n isActive
      (.updateTenant r.id (TenantPatch.diff ⟨some (strip n),isActive⟩ r) now) := by
    refine fun now => ⟨⟨rfl,fun m hm => ?_,?_⟩,fun id p now' he => ?_⟩
    · exact ⟨n,rfl,(Option.some.inj (changed_mem hm).1).symm⟩
    · simp only [TenantPatch.diff,changed,hact]
      rcases isActive with _ | _ | _ <;> simp
    · obtain ⟨-,rfl,-⟩ := Write.updateTenant.inj he
      simp [TenantPatch.diff,changed,hname]
  simp only [Option.map_some]
  generalize (⟨some (strip n),isActive⟩ : TenantPatch) = p at hset ⊢
  refine Prog.Writes.on (Prog.Writes.bind ?_ hg)
  refine Prog.Writes.bind (TenantService.writes_setTenant hset) fun _ => ?_
  exact Prog.Writes.bind (writes_commit _) fun _ => writes_refreshRow _ _

theorem TenantRequest.writesOn {header : Option String} :
    (TenantRequest.prog P (header,.updateTenant t (some n) isActive)).WritesOn
      (ReadsTenant t) (Named t (strip n)) (KeepsName t n isActive) := by
  have hlog : ∀ a, KeepsName t n isActive (.insertAuditLog a) :=
    fun a => ⟨trivial,by simp⟩
  refine Prog.Writes.bindOn (writes_getCurrentUser _) fun user => ?_
  refine Prog.Writes.bindOn (writes_requireTenantAdmin _ _) fun _ => ?_
  exact TenantService.writesOn_updateTenant fun _ => writes_logged hlog

end Names

section Runs
variable {P : Platform} {o : Readings}
  {s₀ s s' : System DB Write Fault Reading Exc Mail Body TenantRequest} {m : Move TenantRequest}

/-- The runs of requests to `tenant.py`: any may arrive and any may go on at any time. -/
abbrev TenantRun (P : Platform) (o : Readings)
    (s s' : System DB Write Fault Reading Exc Mail Body TenantRequest) : Prop :=
  Reach Write.apply Write.waitsFor o.read (TenantRequest.prog P) (fun _ _ => True) (fun _ => True)
    s s'

theorem labelled_changedBy (hs : s.Labelled fun q : TenantRequest => q.2.Queues)
    (hm : s.move Write.apply Write.waitsFor o.read (TenantRequest.prog P) m = some s') :
    s'.world.db = s.world.db ∨
      ∃ q, s.actor m = some q ∧ ChangedBy q.2 s.world.db s'.world.db := by
  obtain ⟨-,ws,hws,hf⟩ := hs.move TenantRequest.writes hm
  cases hq : s.actor m with
  | none =>
    have hnil : ws = [] := List.eq_nil_iff_forall_not_mem.mpr fun w hw => by
      obtain ⟨q,hq',-⟩ := hws w hw
      simp [hq] at hq'
    rw [hnil] at hf
    exact .inl (Except.ok.inj hf).symm
  | some q =>
    refine .inr ⟨q,rfl,flushAll_rel keeps_changedBy (fun w hw => ?_) hf⟩
    obtain ⟨q',hq',hw⟩ := hws w hw
    exact Option.some.inj (hq.symm.trans hq') ▸ hw

/-- Rows with one key in two states of a run, the first of them inactive. -/
theorem inactive_stays (hs : s.Labelled fun q : TenantRequest => q.2.Queues) (hw : s.world.db.Wf)
    (h : TenantRun P o s s') :
    (∀ t ∈ s.world.db.tenants, t.isActive = false →
      ∀ t' ∈ s'.world.db.tenants, t'.id = t.id → t'.isActive = false) ∧
    (∀ m ∈ s.world.db.members, m.isActive = false →
      ∀ m' ∈ s'.world.db.members, m'.id = m.id → m'.isActive = false) := by
  have hw' : s'.world.db.Wf := h.along keeps_wf hs TenantRequest.writes hw
  have hstay := h.along keeps_staysInactive hs TenantRequest.writes
  refine ⟨fun t ht hf t' ht' hid => ?_,fun a ha hf a' ha' hid => ?_⟩
  · obtain ⟨t1,ht1,hid1,hf1⟩ := hstay.tenants t ht hf
    rwa [eq_of_key hw'.tenantKey ht' ht1 (hid.trans hid1.symm)]
  · obtain ⟨a1,ha1,hid1,hf1⟩ := hstay.members a ha hf
    rwa [eq_of_key hw'.memberKey ha' ha1 (hid.trans hid1.symm)]

/-- Rows with one key before and behind a move that gave one of them another name or role. -/
theorem changes_asked (hs : s.Labelled fun q : TenantRequest => q.2.Queues) (hw : s.world.db.Wf)
    (hm : s.move Write.apply Write.waitsFor o.read (TenantRequest.prog P) m = some s') :
    (∀ t ∈ s.world.db.tenants, ∀ t' ∈ s'.world.db.tenants, t'.id = t.id → t'.name ≠ t.name →
      ∃ q n isActive, s.actor m = some q ∧ q.2 = .updateTenant t.id (some n) isActive ∧
        t'.name = strip n) ∧
    (∀ a ∈ s.world.db.members, ∀ a' ∈ s'.world.db.members, a'.id = a.id → a'.roleId ≠ a.roleId →
      ∃ q t u, s.actor m = some q ∧ q.2 = .updateMemberRole t u a'.roleId) := by
  obtain ⟨-,ws,-,hf⟩ := hs.move TenantRequest.writes hm
  have hw' : s'.world.db.Wf := hw.flushAll hf
  rcases labelled_changedBy hs hm with hsame | ⟨q,hq,hc⟩
  · rw [hsame]
    refine ⟨fun t ht t' ht' hid hne => ?_,fun a ha a' ha' hid hne => ?_⟩
    · exact absurd (congrArg Tenant.name (eq_of_key hw.tenantKey ht' ht hid)) hne
    · exact absurd (congrArg TenantMember.roleId (eq_of_key hw.memberKey ha' ha hid)) hne
  · refine ⟨fun t ht t' ht' hid hne => ?_,fun a ha a' ha' hid hne => ?_⟩
    · obtain ⟨t1,ht1,hc1⟩ := hc.tenants t ht
      rw [eq_of_key hw'.tenantKey ht' ht1 (hid.trans hc1.id.symm)] at hne ⊢
      obtain ⟨n,isActive,hr,hn⟩ := hc1.name.resolve_left hne
      exact ⟨q,n,isActive,hq,hr,hn⟩
    · obtain ⟨a1,ha1,hc1⟩ := hc.members a ha
      rw [eq_of_key hw'.memberKey ha' ha1 (hid.trans hc1.id.symm)] at hne ⊢
      obtain ⟨t,u,hr⟩ := hc1.roleId.resolve_left hne
      exact ⟨q,t,u,hq,hr⟩

/-- The session `k` has been opened for a patch that asks for a name, and the tenant had that name
when it was read. -/
theorem patch_keeps_name {k : Nat} {header : Option String} {t : UUID} {n : String}
    {isActive : Option Bool} {s'' : System DB Write Fault Reading Exc Mail Body TenantRequest}
    (hw' : s'.world.db.Wf)
    (hk : s.sessions[k]? = some ((header,.updateTenant t (some n) isActive),
      .running (TenantRequest.prog P (header,.updateTenant t (some n) isActive)) [] []))
    (h : Reach Write.apply Write.waitsFor o.read (TenantRequest.prog P)
      (fun s m => m = .run k → (∃ j y, s.sessions[k]? = some (j,y) ∧ y.At (ReadsTenant t)) →
        Named t (strip n) s.world.db) (fun _ => True) s s')
    (hm : s'.move Write.apply Write.waitsFor o.read (TenantRequest.prog P) (.run k) = some s'') :
    ∀ r ∈ s'.world.db.tenants, ∀ r'' ∈ s''.world.db.tenants, r''.id = r.id →
      r''.name = r.name := by
  obtain ⟨x,hx,hwrites⟩ := h.writesOn keeps_named hk ⟨TenantRequest.writesOn,List.forall_mem_nil _⟩
  obtain ⟨i,y,y',hy,hstep,-⟩ := System.run_step hm
  obtain ⟨-,rfl⟩ := Prod.mk.inj (Option.some.inj (hx.symm.trans hy))
  obtain ⟨ws,hws,hf⟩ := hstep.commitsOn hwrites
  intro r hr r'' hr'' hid
  obtain ⟨r1,hr1,hid1,hn1⟩ := flushAll_rel keeps_sameNames hws hf r'' hr''
  rw [← eq_of_key hw'.tenantKey hr1 hr (hid1.trans hid),hn1]

/-- In every interleaving an inactive tenant and an inactive membership stay inactive; a tenant's
name and a member's role change only where an update asks for the new one; and a patch that asks
for the name that it has read changes none, however the tenant is called by then. -/
theorem deactivation_final (hw : s₀.world.db.Wf) (h0 : s₀.sessions = [])
    (h : TenantRun P o s₀ s) :
    (∀ s', TenantRun P o s s' →
      (∀ t ∈ s.world.db.tenants, t.isActive = false →
        ∀ t' ∈ s'.world.db.tenants, t'.id = t.id → t'.isActive = false) ∧
      (∀ m ∈ s.world.db.members, m.isActive = false →
        ∀ m' ∈ s'.world.db.members, m'.id = m.id → m'.isActive = false)) ∧
    (∀ m s', s.move Write.apply Write.waitsFor o.read (TenantRequest.prog P) m = some s' →
      (∀ t ∈ s.world.db.tenants, ∀ t' ∈ s'.world.db.tenants, t'.id = t.id → t'.name ≠ t.name →
        ∃ q n isActive, s.actor m = some q ∧ q.2 = .updateTenant t.id (some n) isActive ∧
          t'.name = strip n) ∧
      (∀ a ∈ s.world.db.members, ∀ a' ∈ s'.world.db.members, a'.id = a.id →
        a'.roleId ≠ a.roleId →
        ∃ q t u, s.actor m = some q ∧ q.2 = .updateMemberRole t u a'.roleId)) ∧
    ∀ k header t n isActive s' s'',
      s.sessions[k]? = some ((header,.updateTenant t (some n) isActive),
        .running (TenantRequest.prog P (header,.updateTenant t (some n) isActive)) [] []) →
      Reach Write.apply Write.waitsFor o.read (TenantRequest.prog P)
        (fun s m => m = .run k → (∃ j y, s.sessions[k]? = some (j,y) ∧ y.At (ReadsTenant t)) →
          Named t (strip n) s.world.db) (fun _ => True) s s' →
      s'.move Write.apply Write.waitsFor o.read (TenantRequest.prog P) (.run k) = some s'' →
      ∀ r ∈ s'.world.db.tenants, ∀ r'' ∈ s''.world.db.tenants, r''.id = r.id →
        r''.name = r.name := by
  have hs : s.Labelled fun q : TenantRequest => q.2.Queues :=
    h.labelled (.start h0) TenantRequest.writes
  have hwf : s.world.db.Wf := h.along keeps_wf (.start h0) TenantRequest.writes hw
  refine ⟨fun s' h' => inactive_stays hs hwf h',fun m s' hm => changes_asked hs hwf hm,?_⟩
  intro k header t n isActive s' s'' hk h' hm
  exact patch_keeps_name (h'.along keeps_wf hs TenantRequest.writes hwf) hk h' hm

end Runs

section Owner
open Seed

def Seed.patching : TenantRequest :=
  (bearer (plainPlatform {}) 1 none 0,.updateTenant 1002 (some "C") (some true))

def Seed.deactivating : TenantRequest := (bearer (plainPlatform {}) 1 none 0,.deleteTenant 1002)

def Seed.playing (s : System DB Write Fault Reading Exc Mail Body TenantRequest)
    (ms : List (Move TenantRequest)) :
    Option (System DB Write Fault Reading Exc Mail Body TenantRequest) :=
  s.play Write.apply Write.waitsFor (readings 0).read (TenantRequest.prog (plainPlatform {}))
    (fun _ _ => true) (fun _ => true) ms

/-- The rename has read the row before the deactivation is committed, and commits behind it. -/
theorem deactivation_final_renaming :
    ∃ s s', playing ⟨twoTenants,[]⟩ ([.arrive patching,.arrive deactivating] ++
        List.replicate 7 (.run 0) ++ List.replicate 8 (.run 1)) = some s ∧
      playing s (List.replicate 7 (.run 0)) = some s' ∧
      ∀ t' ∈ s'.world.db.tenants, t'.id = 1002 → t'.isActive = false := by
  have hrun : ((playing ⟨twoTenants,[]⟩ ([.arrive patching,.arrive deactivating] ++
      List.replicate 7 (.run 0) ++ List.replicate 8 (.run 1))).bind fun s =>
        (playing s (List.replicate 7 (.run 0))).map fun _ =>
          s.world.db.tenants.any fun t => t.id = 1002 ∧ t.isActive = false) = some true := by
    decide +kernel
  obtain ⟨s,hs,hrest⟩ := Option.bind_eq_some_iff.mp hrun
  obtain ⟨s',hs',hany⟩ := Option.map_eq_some_iff.mp hrest
  obtain ⟨t,ht,htt⟩ := List.any_eq_true.mp hany
  obtain ⟨hid,hoff⟩ : t.id = 1002 ∧ t.isActive = false := by simpa using htt
  have hreach : TenantRun (plainPlatform {}) (readings 0) ⟨twoTenants,[]⟩ s :=
    System.play_reach (fun _ _ _ => trivial) (fun _ _ => trivial) (.start trivial) hs
  have hlater : TenantRun (plainPlatform {}) (readings 0) s s' :=
    System.play_reach (fun _ _ _ => trivial) (fun _ _ => trivial) (.start trivial) hs'
  have hfinal := (deactivation_final reachable_twoTenants.wf rfl hreach).1 s' hlater
  exact ⟨s,s',hs,hs',fun t' ht' hid' => hfinal.1 t ht hoff t' ht' (hid'.trans hid.symm)⟩

end Owner

end TenantAuth
