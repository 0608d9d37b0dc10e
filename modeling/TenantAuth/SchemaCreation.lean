import TenantAuth.Migrations
import TenantAuth.Admissibility
set_option autoImplicit false

/-! `create_tenant` in schema mode, over both of its transactions: the session commits the
tenant first, and then a subprocess migrates the schema on a connection of its own. -/

namespace TenantAuth
open Transact

/-- What ends a statement of the session: a constraint, or the server refuses it. -/
inductive ServerError where
  | violation (f : Fault)
  | refused
  deriving DecidableEq, Repr

def Write.sent (refuses : Write → Bool) (x : Write) (d : DB) : Except ServerError DB :=
  if refuses x then .error .refused else
  match x.apply d with
  | .ok d' => .ok d'
  | .error f => .error (.violation f)

/-- Which statements the server refuses, from the session and from the migrations. -/
structure Refusals where
  write : Write → Bool
  statement : Statement → Bool

/-- The database together with the tables of its schemas. -/
structure Server where
  world : World DB Mail
  relations : Relations

/-- The tables after `alembic upgrade head`, without a tenant, on an empty database. -/
def deployment : Relations := (upgradeHead (fun _ => false) none [] ⟨[],[]⟩).2

/-- The states of a server: requests are served, and migration processes run for a schema. -/
inductive Server.Reachable (P : Platform) (o : Readings) : Server → Prop
  | start {w : World DB Mail} (h : Deployed w.db) : Reachable P o ⟨w,deployment⟩
  | serve {v : Server} (h : Reachable P o v) (q : Request) :
    Reachable P o ⟨(handle P o v.world q).2,v.relations⟩
  | migrate {v : Server} (h : Reachable P o v) (refuses : Statement → Bool) (schema : String) :
    Reachable P o
      ⟨v.world,(upgradeHead refuses (some schema) v.world.db.schemas v.relations).2⟩

namespace TenantService

/-- `create_tenant` in schema mode, up to its commit. -/
def provision (P : Platform) (name slug : String) (ownerId : UUID) : App UUID := do
  let id ← addTenant P name slug ownerId
  let _ ← TenantSchemaService.createSchema id
  commit
  pure id

end TenantService

/-- `create_tenant` in schema mode: the subprocess starts after the commit, and its exit code
decides how the call ends. It is the service's program run with that exit code
(`Server.createTenant_eq`). -/
def Server.createTenant (P : Platform) (o : Nat → Reading) (refuses : Refusals)
    (name slug : String) (ownerId : UUID) (v : Server) :
    Outcome Exc ServerError Tenant × Server :=
  match serve (Write.sent refuses.write) o (TenantService.provision P name slug ownerId)
    v.world with
  | (.ok id,w) =>
    match upgradeHead refuses.statement (some (TenantSchemaService.buildSchemaName id))
      w.db.schemas v.relations with
    | (true,relations) =>
      match serve (Write.sent refuses.write) o (refreshRow DB.tenants fun t => t.id = id) w with
      | (r,w) => (r,⟨w,relations⟩)
    | (false,relations) => (.raised .calledProcessError,⟨w,relations⟩)
  | (.raised e,w) => (.raised e,⟨w,v.relations⟩)
  | (.fault f,w) => (.fault f,⟨w,v.relations⟩)

/-- The tenant, its owner's membership as admin, and its schema with every table. -/
structure Created (ownerId : UUID) (t : Tenant) (v : Server) : Prop where
  tenant : t ∈ v.world.db.tenants ∧ t.ownerId = ownerId ∧ t.isActive = true
  member : ∃ m ∈ v.world.db.members, m.tenantId = t.id ∧ m.userId = ownerId ∧
    m.isActive = true ∧ ∃ r ∈ v.world.db.roles, r.id = m.roleId ∧ r.name = "tenant_admin"
  schema : TenantSchemaService.buildSchemaName t.id ∈ v.world.db.schemas
  tables : ∀ table ∈ migrationTables,
    (TenantSchemaService.buildSchemaName t.id,table) ∈ v.relations.tables

/-- The call returns and everything is there, or it raises and nothing is. -/
def AllOrNothing (P : Platform) (o : Nat → Reading) (refuses : Refusals) (name slug : String)
    (ownerId : UUID) (v : Server) : Prop :=
  let x := v.createTenant P o refuses name slug ownerId
  (∀ t, x.1 = .ok t → Created ownerId t x.2) ∧
    (x.1.isOk = false → x.2.world.db.tenants = v.world.db.tenants ∧
      x.2.world.db.members = v.world.db.members ∧ x.2.world.db.schemas = v.world.db.schemas ∧
      x.2.relations = v.relations)

section Sessions
variable {P : Platform} {o : Nat → Reading} {d d' : DB} {n : Nat} {s : List Mail}
  {refuses : Write → Bool} {name slug : String} {ownerId : UUID}

theorem Write.sent_ok {x : Write} :
    x.sent refuses d = .ok d' ↔ refuses x = false ∧ x.apply d = .ok d' := by
  unfold Write.sent
  cases refuses x with
  | true => simp
  | false => cases x.apply d <;> simp

theorem flushAll_sent {ws : List Write} :
    flushAll (Write.sent refuses) ws d = .ok d' ↔
      (∀ x ∈ ws, refuses x = false) ∧ flushAll Write.apply ws d = .ok d' := by
  induction ws generalizing d with
  | nil => simp
  | cons x ws ih =>
    simp only [flushAll,List.forall_mem_cons]
    cases hx : x.sent refuses d with
    | ok d1 =>
      obtain ⟨hno,ha⟩ := Write.sent_ok.mp hx
      simp [hno,ha,ih]
    | error e =>
      simp only [reduceCtorEq,false_iff,not_and,and_imp]
      intro hno _
      cases ha : x.apply d with
      | ok d1 => simp [Write.sent_ok.mpr ⟨hno,ha⟩] at hx
      | error f => simp

theorem exec_addTenant :
    (TenantService.addTenant P name slug ownerId).exec (Write.sent refuses) o ⟨d,d,[],n,s⟩ =
      match flushAll (Write.sent refuses)
        [.insertTenant (TenantService.newTenant P o n name slug ownerId)] d with
      | .ok d1 =>
        match TenantService.adminRole d1 with
        | some role => (.ok (o n).uuid,
          ⟨d,d1,[.insertMember (TenantService.ownerMember o n ownerId role)],n+4,s⟩)
        | none => (.raised (.app TenantService.roleNotSeeded),⟨d,d1,[],n+2,s⟩)
      | .error e => (.fault e,
        ⟨d,d,[.insertTenant (TenantService.newTenant P o n name slug ownerId)],n+2,s⟩) := by
  unfold TenantService.addTenant uuid4 now scalar TenantService.adminRole TenantService.newTenant
  simp only [exec_reading_bind,exec_add_bind,exec_flush_bind,List.nil_append]
  cases h1 : flushAll (Write.sent refuses) [.insertTenant _] d with
  | error e => rfl
  | ok d1 =>
    simp only [exec_select_bind,flushAll_nil]
    cases d1.roles.find? _ <;> rfl

variable (P o d n s refuses name slug ownerId) in
theorem provision_cases (hmode : P.settings.multiTenantMode = .schema) :
    let r := (TenantService.provision P name slug ownerId).exec (Write.sent refuses) o
      ⟨d,d,[],n,s⟩
    (r.1.isOk = false ∧ r.2.db = d ∧ ∀ role, TenantService.adminRole d = some role → ∀ d',
        flushAll (Write.sent refuses) (TenantService.creation P o n name slug ownerId role) d ≠
          .ok d') ∨
      ∃ role d', TenantService.adminRole d = some role ∧
        flushAll (Write.sent refuses) (TenantService.creation P o n name slug ownerId role) d =
          .ok d' ∧
        r = (.ok (o n).uuid,⟨d',d',[],n+4,s⟩) := by
  unfold TenantService.provision TenantService.creation TenantSchemaService.createSchema
  simp only [hmode]
  rw [exec_bind,exec_addTenant]
  cases h1 : flushAll (Write.sent refuses)
    [.insertTenant (TenantService.newTenant P o n name slug ownerId)] d with
  | error e =>
    refine .inl ⟨rfl,rfl,fun role _ d' hf => ?_⟩
    rw [List.cons_append,← List.singleton_append,flushAll_append,h1] at hf
    cases hf
  | ok d1 =>
    have hroles : TenantService.adminRole d1 = TenantService.adminRole d := by
      have happly := (flushAll_sent.mp h1).2
      rw [(flushAll_single.mp happly).2]
      rfl
    simp only [hroles]
    cases hr : TenantService.adminRole d with
    | none => exact .inl ⟨rfl,rfl,by simp⟩
    | some role =>
      have hflush : ∀ ws, flushAll (Write.sent refuses)
          (.insertTenant (TenantService.newTenant P o n name slug ownerId) :: ws) d =
            flushAll (Write.sent refuses) ws d1 := by
        intro ws
        rw [← List.singleton_append,flushAll_append,h1]
      simp only [List.cons_append,List.nil_append,hflush]
      rw [exec_bind,exec_add_bind,exec_flush_bind]
      simp only [List.cons_append,List.nil_append]
      cases h2 : flushAll (Write.sent refuses) [.insertMember _,.createSchema _] d1 with
      | error e =>
        refine .inl ⟨rfl,rfl,fun role' hr' d' hf => ?_⟩
        cases hr'
        simp [h2] at hf
      | ok d2 => exact .inr ⟨role,d2,rfl,h2,rfl⟩

theorem exec_refreshTenant (id : UUID) :
    (refreshRow DB.tenants fun t => t.id = id).exec (Write.sent refuses) o ⟨d,d,[],n,s⟩ =
      match d.tenants.find? fun t => t.id = id with
      | some t => (.ok t,⟨d,d,[],n,s⟩)
      | none => (.raised .invalidRequest,⟨d,d,[],n,s⟩) := by
  unfold refreshRow scalar
  rw [exec_select_bind,flushAll_nil]
  simp only []
  cases d.tenants.find? _ <;> rfl

theorem exec_createTenant_schema (hmode : P.settings.multiTenantMode = .schema)
    (c : Conn DB Write Mail) :
    (TenantService.createTenant P name slug ownerId).exec (Write.sent refuses) o c =
      match (TenantService.provision P name slug ownerId).exec (Write.sent refuses) o c with
      | (.ok id,c') => (TenantSchemaService.runMigrationsForSchema id >>= fun _ =>
          refreshRow DB.tenants fun t => t.id = id).exec (Write.sent refuses) o c'
      | (.raised e,c') => (.raised e,c')
      | (.fault f,c') => (.fault f,c') := by
  unfold TenantService.createTenant TenantService.provision
  simp only [hmode]
  rw [exec_bind,exec_bind]
  cases h1 : (TenantService.addTenant P name slug ownerId).exec (Write.sent refuses) o c with
  | mk r1 c1 =>
    cases r1 with
    | raised e => rfl
    | fault f => rfl
    | ok id =>
      simp only []
      rw [exec_bind,exec_bind]
      cases h2 : (TenantSchemaService.createSchema id).exec (Write.sent refuses) o c1 with
      | mk r2 c2 =>
        cases r2 with
        | raised e => rfl
        | fault f => rfl
        | ok schema =>
          simp only []
          rw [exec_bind,exec_bind]
          cases h3 : (commit : App Unit).exec (Write.sent refuses) o c2 with
          | mk r3 c3 => cases r3 <;> rfl

end Sessions

section Servers
variable {P : Platform} {o : Readings} {v : Server} {refuses : Refusals} {name slug : String}
  {ownerId : UUID}

theorem Server.Reachable.world (h : Server.Reachable P o v) :
    TenantAuth.Reachable P o v.world := by
  induction h with
  | start h => exact .start h
  | serve _ q ih => exact .serve ih q
  | migrate _ refuses schema ih => exact ih

theorem Server.Reachable.relations (h : Server.Reachable P o v) : v.relations = deployment := by
  induction h with
  | start h => rfl
  | serve _ q ih => exact ih
  | migrate _ refuses schema ih => exact (upgradeHead_tenant schema).trans ih

theorem buildSchemaName_ne_public (t : UUID) : TenantSchemaService.buildSchemaName t ≠ "public" := by
  intro h
  have hh := congrArg String.toList h
  unfold TenantSchemaService.buildSchemaName at hh
  simp at hh

theorem Server.createTenant_eq (hmode : P.settings.multiTenantMode = .schema) :
    let x := serve (Write.sent refuses.write) o.read
      (TenantService.createTenant P name slug ownerId) v.world
    let y := v.createTenant P o.read refuses name slug ownerId
    (o.read (v.world.taken+4)).migrated = (upgradeHead refuses.statement
        (some (TenantSchemaService.buildSchemaName (o.read v.world.taken).uuid)) x.2.db.schemas
        v.relations).1 →
      y.1 = x.1 ∧ y.2.world.db = x.2.db := by
  intro x y
  simp only [x,y]
  unfold Server.createTenant serve
  rw [exec_createTenant_schema hmode]
  rcases provision_cases P o.read v.world.db v.world.taken v.world.sent refuses.write name slug
    ownerId hmode with ⟨hno,-⟩ | ⟨role,d',-,-,he⟩
  · intro _
    cases hp : (TenantService.provision P name slug ownerId).exec (Write.sent refuses.write) o.read
        ⟨v.world.db,v.world.db,[],v.world.taken,v.world.sent⟩ with
    | mk r c =>
      cases r with
      | ok id => simp [hp] at hno
      | raised e => exact ⟨rfl,rfl⟩
      | fault f => exact ⟨rfl,rfl⟩
  · rw [he]
    simp only []
    rw [exec_bind]
    unfold TenantSchemaService.runMigrationsForSchema
    rw [exec_reading_bind]
    cases hx : upgradeHead refuses.statement
        (some (TenantSchemaService.buildSchemaName (o.read v.world.taken).uuid)) d'.schemas
        v.relations with
    | mk code r =>
      cases hm : (o.read (v.world.taken+4)).migrated with
      | true =>
        simp only [exec_pure,exec_refreshTenant]
        cases hf : d'.tenants.find? _ with
        | none =>
          simp only [hx]
          rintro rfl
          exact ⟨rfl,rfl⟩
        | some t =>
          simp only [hx]
          rintro rfl
          exact ⟨rfl,rfl⟩
      | false =>
        simp only [exec_raise,hx]
        rintro rfl
        exact ⟨rfl,rfl⟩

/-- A call that gets as far as its commit does not keep the promise: on exit code 0 the schema
has no tables, on any other the tenant stays. -/
theorem not_allOrNothing {role : Role} {d' : DB} (hv : Server.Reachable P o v)
    (hf : flushAll Write.apply
      (TenantService.creation P o.read v.world.taken name slug ownerId role) v.world.db = .ok d')
    (he : (TenantService.provision P name slug ownerId).exec (Write.sent refuses.write) o.read
        ⟨v.world.db,v.world.db,[],v.world.taken,v.world.sent⟩ =
      (.ok (o.read v.world.taken).uuid,⟨d',d',[],v.world.taken+4,v.world.sent⟩)) :
    ¬ AllOrNothing P o.read refuses name slug ownerId v := by
  obtain ⟨hnew,hd⟩ := TenantService.creation_flush hf
  have htenants : d'.tenants = v.world.db.tenants ++
      [TenantService.newTenant P o.read v.world.taken name slug ownerId] := by rw [hd]
  have hfind : d'.tenants.find? (fun t => t.id = (o.read v.world.taken).uuid) =
      some (TenantService.newTenant P o.read v.world.taken name slug ownerId) := by
    rw [htenants]
    exact find_append_key hnew
  have hpublic : ∀ p ∈ deployment.tables, p.1 = "public" := by decide +kernel
  rintro ⟨hreturns,hraises⟩
  unfold Server.createTenant serve at hreturns hraises
  have hkept : (upgradeHead refuses.statement
      (some (TenantSchemaService.buildSchemaName (o.read v.world.taken).uuid)) d'.schemas
      v.relations).2 = v.relations := upgradeHead_tenant _
  rw [he] at hreturns hraises
  simp only [exec_refreshTenant,hfind] at hreturns hraises
  cases hx : upgradeHead refuses.statement
      (some (TenantSchemaService.buildSchemaName (o.read v.world.taken).uuid)) d'.schemas
      v.relations with
  | mk code r =>
    rw [hx] at hkept
    simp only [hx] at hreturns hraises
    cases code with
    | true =>
      have htable := (hreturns _ rfl).tables "users" (by decide)
      rw [show r = deployment from hkept.trans hv.relations] at htable
      exact buildSchemaName_ne_public _ (hpublic _ htable)
    | false =>
      have hsame : d'.tenants = v.world.db.tenants := (hraises rfl).1
      simp [htenants] at hsame

/-- Creating a tenant in schema mode is all or nothing just when it fails before its commit: the
role is missing, a constraint is in the way, or the server refuses a write of the session. -/
theorem allOrNothing_iff (hmode : P.settings.multiTenantMode = .schema)
    (hv : Server.Reachable P o v) (hfresh : FreshKeys o.read v.world.taken v.world.db) :
    AllOrNothing P o.read refuses name slug ownerId v ↔
      ∀ role, TenantService.adminRole v.world.db = some role →
        TenantService.Creatable P v.world.db name slug ownerId →
        ∃ x ∈ TenantService.creation P o.read v.world.taken name slug ownerId role,
          refuses.write x = true := by
  have hw := hv.world.wf
  rcases provision_cases P o.read v.world.db v.world.taken v.world.sent refuses.write name slug
    ownerId hmode with ⟨hno,hdb,hnone⟩ | ⟨role,d',hr,hf,he⟩
  · constructor
    · intro _ role hr hc
      by_contra hall
      obtain ⟨d',hf⟩ := (creation_admissible_iff hw hfresh hr).mpr hc
      refine hnone role hr d' (flushAll_sent.mpr ⟨fun x hx => ?_,hf⟩)
      cases hb : refuses.write x with
      | false => rfl
      | true => exact absurd ⟨x,hx,hb⟩ hall
    · intro _
      unfold AllOrNothing Server.createTenant serve
      cases hp : (TenantService.provision P name slug ownerId).exec (Write.sent refuses.write)
          o.read ⟨v.world.db,v.world.db,[],v.world.taken,v.world.sent⟩ with
      | mk r c =>
        rw [hp] at hno hdb
        simp only at hdb
        cases r with
        | ok id => cases hno
        | raised e => simp [hdb]
        | fault f => simp [hdb]
  · obtain ⟨haccepted,happly⟩ := flushAll_sent.mp hf
    constructor
    · intro h
      exact absurd h (not_allOrNothing hv happly he)
    · intro h
      obtain ⟨x,hx,hrefused⟩ := h role hr ((creation_admissible_iff hw hfresh hr).mp ⟨d',happly⟩)
      rw [haccepted x hx] at hrefused
      cases hrefused

end Servers

def Seed.server : Server := ⟨world [],deployment⟩

theorem Seed.reachable_server (P : Platform) (o : Readings) : Server.Reachable P o server :=
  .start (deployed_world (by simp) (by simp) (by simp))

/-- The database user may not create schemas. -/
theorem allOrNothing_iff_noSchemas :
    AllOrNothing (plainPlatform { multiTenantMode := .schema }) (Seed.readings 0).read
      ⟨fun x => match x with | .createSchema _ => true | _ => false,fun _ => false⟩ "A" "a" 1
      Seed.server := by
  refine (allOrNothing_iff rfl (Seed.reachable_server _ _)
    (Seed.freshKeys (by decide +kernel))).mpr fun role _ _ => ?_
  exact ⟨.createSchema (TenantSchemaService.buildSchemaName 1000),by
    simp [TenantService.creation,plainPlatform]; rfl,rfl⟩

/-- Nothing fails, and the schema of the new tenant is empty. -/
theorem allOrNothing_fails :
    ¬ ∀ (P : Platform) (o : Readings) (v : Server) (refuses : Refusals) (name slug : String)
      (ownerId : UUID), P.settings.multiTenantMode = .schema → Server.Reachable P o v →
      FreshKeys o.read v.world.taken v.world.db →
      AllOrNothing P o.read refuses name slug ownerId v := by
  intro h
  have hcall := h (plainPlatform { multiTenantMode := .schema }) (Seed.readings 0) Seed.server
    ⟨fun _ => false,fun _ => false⟩ "A" "a" 1 rfl (Seed.reachable_server _ _)
    (Seed.freshKeys (by decide +kernel))
  have hreturns : (Seed.server.createTenant (plainPlatform { multiTenantMode := .schema })
      (Seed.readings 0).read ⟨fun _ => false,fun _ => false⟩ "A" "a" 1).1 =
        .ok ⟨1000,"A","a",1,true,0,0⟩ := by decide +kernel
  have htable := (hcall.1 _ hreturns).tables "users" (by decide)
  have hnone : (TenantSchemaService.buildSchemaName 1000,"users") ∉
      (Seed.server.createTenant (plainPlatform { multiTenantMode := .schema })
        (Seed.readings 0).read ⟨fun _ => false,fun _ => false⟩ "A" "a" 1).2.relations.tables := by
    decide +kernel
  exact hnone htable

end TenantAuth
