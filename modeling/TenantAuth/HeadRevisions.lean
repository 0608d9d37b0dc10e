import TenantAuth.Migrations
import TenantAuth.Upgrading
set_option autoImplicit false

namespace TenantAuth.Schema
open Relational Transact

section Names

theorem sql_injective {a b : TableName} (h : a.sql = b.sql) : a = b := by
  revert h
  cases a <;> cases b <;> decide

theorem revisions_named {now : Nat → Nat} {r : Relational.Revision TableName ColumnName Document}
    (hr : r ∈ revisions now) : r.upgrade.all (fun op => (named op).isSome) = true := by
  have hall : (revisions now).all (fun r => r.upgrade.all fun op => (named op).isSome) = true := rfl
  exact List.all_eq_true.mp hall r hr

/-- The version that a deployment of the stage `k` has. -/
def versionAt (now : Nat → Nat) (k : Nat) : Option String :=
  ((revisions now).take k).getLast?.map Relational.Revision.revision

theorem pending_versionAt (now : Nat → Nat) {k : Nat} (hk : k ≤ 3) :
    pendingRevisions (versionAt now k) = ((revisions now).drop k).map headed := by
  obtain rfl | rfl | rfl | rfl : k = 0 ∨ k = 1 ∨ k = 2 ∨ k = 3 := by omega
  all_goals rfl

end Names

section Headed
variable {b : Backend} {ts : List (TableDef TableName ColumnName)} {x : Draws} {g g' : Tables}
  {op : Ddl TableName ColumnName Document} {ops : List (Ddl TableName ColumnName Document)}

/-- The tables stand in `public`, under their names. -/
structure Stands (b : Backend) (ts : List (TableDef TableName ColumnName)) : Prop where
  path : b.searchPath = ["public"]
  schema : "public" ∈ b.schemas
  tables : ∀ name : TableName,
    ("public",name.sql) ∈ b.relations.tables ↔ ∃ t ∈ ts, t.name = name

theorem Stands.visible (hb : Stands b ts) (name : TableName) :
    b.visible name.sql ↔ ∃ t ∈ ts, t.name = name := by
  simp [Backend.visible,hb.path,hb.tables]

theorem Stands.target (hb : Stands b ts) : b.target = some "public" := by
  simp [Backend.target,hb.path,hb.schema]

theorem Stands.congr (hb : Stands b ts) {ts' : List (TableDef TableName ColumnName)}
    (h : ts'.map TableDef.name = ts.map TableDef.name) : Stands b ts' where
  path := hb.path
  schema := hb.schema
  tables name := by
    have hnames : name ∈ ts'.map TableDef.name ↔ name ∈ ts.map TableDef.name := by rw [h]
    simp only [List.mem_map] at hnames
    rw [hb.tables,hnames]

theorem Stands.createTable (hb : Stands b ts) (t : TableDef TableName ColumnName) :
    Stands (b.createTable "public" t.name.sql) (ts ++ [t]) where
  path := hb.path
  schema := hb.schema
  tables name := by
    have hnew : ("public",name.sql) = ("public",t.name.sql) ↔ t.name = name := by
      rw [Prod.mk.injEq]
      exact ⟨fun he => (sql_injective he.2).symm,fun he => ⟨rfl,he ▸ rfl⟩⟩
    simp only [Backend.createTable,List.mem_append,List.mem_singleton,hb.tables,hnew]
    constructor
    · rintro (⟨t',ht',he⟩ | he)
      · exact ⟨t',.inl ht',he⟩
      · exact ⟨t,.inr rfl,he⟩
    · rintro ⟨t',ht' | rfl,he⟩
      · exact .inl ⟨t',ht',he⟩
      · exact .inr he

theorem found_table {name : TableName} {r : Relational.Relation TableName ColumnName Document}
    (h : g.relation name = some r) : ∃ t ∈ g.tables, t.name = name :=
  ⟨r.table,List.mem_map_of_mem (List.mem_of_find?_eq_some h),by simpa using List.find?_some h⟩

theorem named_run {st : TenantAuth.Statement} (hb : Stands b g.tables) (h : op.run x g = .ok g')
    (hst : named op = some st) : ∃ b', st.run b = .ok b' ∧ Stands b' g'.tables := by
  obtain ⟨hafter,-,-⟩ := run_cases h
  cases op with
  | createTable t =>
    obtain rfl := Option.some.inj hst
    obtain ⟨hfresh,hanchored⟩ := runAll_createTable ((runAll_single _).trans h)
    have hname : ("public",t.name.sql) ∉ b.relations.tables := by
      rw [hb.tables]
      rintro ⟨t',ht',he⟩
      exact hfresh t' ht' he
    have hvisible : ∀ table ∈ t.foreignKeys.map fun fk => fk.target.sql, b.visible table := by
      intro table htable
      obtain ⟨fk,hfk,rfl⟩ := List.mem_map.mp htable
      obtain ⟨t',ht',he,-⟩ := hanchored fk hfk
      exact (hb.visible _).mpr ⟨t',ht',he⟩
    refine ⟨b.createTable "public" t.name.sql,?_,?_⟩
    · simp only [TenantAuth.Statement.run,hb.target]
      rw [if_neg hname,if_pos hvisible]
    · rw [hafter]
      exact hb.createTable t
  | createIndex index table columns unique =>
    obtain rfl := Option.some.inj hst
    obtain ⟨r,hr⟩ : ∃ r, g.relation table = some r := by
      cases hr : g.relation table with
      | none => simp [Ddl.run,hr] at h
      | some r => exact ⟨r,rfl⟩
    refine ⟨b,if_pos ((hb.visible table).mpr (found_table hr)),?_⟩
    rw [hafter]
    exact hb.congr (after_createIndex ..)
  | bulkInsert table rows =>
    cases rows with
    | nil => cases hst
    | cons values rows =>
      obtain rfl := Option.some.inj hst
      obtain ⟨r,hr⟩ : ∃ r, g.relation table = some r := by
        rw [Ddl.run,insertAll] at h
        split at h
        · cases h
        rename_i g1 he
        obtain ⟨r,hr,-⟩ := exec_insert he
        exact ⟨r,hr⟩
      refine ⟨b,if_pos ((hb.visible table).mpr (found_table hr)),?_⟩
      rw [hafter]
      exact hb
  | _ => cases hst

theorem named_runAll (hb : Stands b g.tables) (h : runAll x ops g = .ok g')
    (hops : ops.all (fun op => (named op).isSome) = true) :
    ∃ b', flushAll TenantAuth.Statement.run (ops.filterMap named) b = .ok b' ∧
      Stands b' g'.tables := by
  induction ops generalizing b g with
  | nil =>
    cases h
    exact ⟨b,rfl,hb⟩
  | cons op ops ih =>
    rw [List.all_cons,Bool.and_eq_true] at hops
    obtain ⟨st,hst⟩ := Option.isSome_iff_exists.mp hops.1
    rw [runAll] at h
    split at h
    · cases h
    rename_i g1 hop
    obtain ⟨b1,hb1,hstands⟩ := named_run hb hop hst
    obtain ⟨b',hb',hlast⟩ := ih hstands h hops.2
    refine ⟨b',?_,hlast⟩
    rw [List.filterMap_cons,hst,flushAll,hb1]
    exact hb'

theorem Stands.stamped (hb : Stands b ts) (version : String) :
    ∃ b', (TenantAuth.Statement.stamp "public" version).run b = .ok b' ∧ Stands b' ts :=
  ⟨_,rfl,hb.path,hb.schema,hb.tables⟩

theorem Stands.versioned (hb : Stands b ts) :
    ∃ b', (TenantAuth.Statement.ensureVersionTable "public").run b = .ok b' ∧ Stands b' ts := by
  by_cases hv : ("public","alembic_version") ∈ b.relations.tables
  · exact ⟨b,if_pos hv,hb⟩
  · refine ⟨_,if_neg hv,hb.path,hb.schema,fun name => ?_⟩
    have hother : name.sql ≠ "alembic_version" := by
      cases name <;> decide
    rw [← hb.tables]
    simp [Backend.createTable,hother]

theorem headed_runAll {rs : List (Relational.Revision TableName ColumnName Document)}
    (hb : Stands b g.tables) (h : runAll x (rs.flatMap Relational.Revision.upgrade) g = .ok g')
    (hrs : ∀ r ∈ rs, r.upgrade.all (fun op => (named op).isSome) = true) :
    ∃ b', flushAll TenantAuth.Statement.run ((rs.map headed).flatMap fun r =>
        r.upgrade ++ [.stamp "public" r.revision]) b = .ok b' ∧ Stands b' g'.tables := by
  induction rs generalizing b g with
  | nil =>
    cases h
    exact ⟨b,rfl,hb⟩
  | cons r rs ih =>
    rw [List.flatMap_cons] at h
    obtain ⟨g1,hg1,-⟩ := runAll_append_iff.mp ⟨g',h⟩
    rw [runAll_append hg1] at h
    obtain ⟨b1,hb1,hstands⟩ := named_runAll hb hg1 (hrs r List.mem_cons_self)
    obtain ⟨b2,hb2,hstands⟩ := hstands.stamped r.revision
    obtain ⟨b',hb',hlast⟩ := ih hstands h fun r' hr' => hrs r' (List.mem_cons_of_mem r hr')
    refine ⟨b',?_,hlast⟩
    rw [List.map_cons,List.flatMap_cons,List.append_assoc]
    rw [flushAll_append,headed,hb1]
    change flushAll _ (TenantAuth.Statement.stamp "public" r.revision :: _) b1 = _
    rw [flushAll,hb2]
    exact hb'

end Headed

section Head
variable {s : Deployment} {now : Nat → Nat} {x : Draws}

/-- What is left to do for a deployment of the stage `k`. -/
def pending (now : Nat → Nat) (k : Nat) : List (Ddl TableName ColumnName Document) :=
  ((revisions now).drop k).flatMap Relational.Revision.upgrade

theorem sent_unrefused :
    (TenantAuth.Statement.sent fun _ => false) = TenantAuth.Statement.run := by
  funext st b
  rfl

theorem layouts_stage : ∀ l ∈ layouts, l.1 ≤ 3 := by
  decide +kernel

theorem pending_step {r : Relational.Revision TableName ColumnName Document} (hs : Tracked s)
    (hr : (revisions now)[s.stage]? = some r) :
    (∃ g', runAll x (pending now s.stage) s.tables = .ok g') ↔
      ∃ g, runAll x r.upgrade s.tables = .ok g ∧ Tracked ⟨s.stage+1,g⟩ ∧
        ∃ g', runAll x (pending now (s.stage+1)) g = .ok g' := by
  have hsplit : pending now s.stage = r.upgrade ++ pending now (s.stage+1) := by
    obtain ⟨hlt,he⟩ := List.getElem?_eq_some_iff.mp hr
    rw [pending,List.drop_eq_getElem_cons hlt,he,List.flatMap_cons]
    rfl
  rw [hsplit,runAll_append_iff]
  constructor
  · rintro ⟨g,hg,hrest⟩
    exact ⟨g,hg,(Revised.upgrade now x hr hg).tracked hs,hrest⟩
  · rintro ⟨g,hg,-,hrest⟩
    exact ⟨g,hg,hrest⟩

theorem pending_rbac (hs : Tracked s) (h2 : s.stage = 2) :
    (∃ g, runAll x (pending now s.stage) s.tables = .ok g) ↔ RolesHeld s.tables := by
  have hr : (revisions now)[s.stage]? = some (addRbacTables now) := by rw [h2]; rfl
  rw [pending_step hs hr]
  constructor
  · rintro ⟨g,hg,-⟩
    exact (upgrade_iff hs hr).mp ⟨g,hg⟩ h2
  · intro hheld
    obtain ⟨g,hg⟩ := (upgrade_iff (x := x) hs hr).mpr fun _ => hheld
    refine ⟨g,hg,(Revised.upgrade now x hr hg).tracked hs,g,?_⟩
    rw [h2]
    rfl

theorem pending_tokens (hs : Tracked s) (h1 : s.stage = 1) :
    (∃ g, runAll x (pending now s.stage) s.tables = .ok g) ↔ RolesHeld s.tables := by
  have hr : (revisions now)[s.stage]? = some addTokens := by rw [h1]; rfl
  have hkept : ∀ g, runAll x addTokens.upgrade s.tables = .ok g →
      (RolesHeld g ↔ RolesHeld s.tables) := by
    intro g hg
    rw [RolesHeld,RolesHeld,(runAll_cases hg).2.2 .roles (by decide)]
  have hnext : s.stage+1 = 2 := by omega
  rw [pending_step hs hr]
  constructor
  · rintro ⟨g,hg,hs',hrest⟩
    exact (hkept g hg).mp ((pending_rbac hs' hnext).mp hrest)
  · intro hheld
    obtain ⟨g,hg⟩ := upgrade_tokens (x := x) hs h1
    have hs' : Tracked ⟨s.stage+1,g⟩ := (Revised.upgrade now x hr hg).tracked hs
    exact ⟨g,hg,hs',(pending_rbac hs' hnext).mpr ((hkept g hg).mpr hheld)⟩

theorem pending_initial (hs : Tracked s) (h0 : s.stage = 0) :
    ∃ g, runAll x (pending now s.stage) s.tables = .ok g := by
  have hr : (revisions now)[s.stage]? = some (initialAuthSchema now) := by rw [h0]; rfl
  obtain ⟨g,hg,hroles⟩ := upgrade_roles (x := x) now hs h0
  have hs' : Tracked ⟨s.stage+1,g⟩ := (Revised.upgrade now x hr hg).tracked hs
  have hnext : s.stage+1 = 1 := by omega
  have hids : ∀ id ∈ [Seed.superAdmin,Seed.admin,Seed.user],
      id ∈ (seedRoles now).map Role.id := by
    have hseeds : (seedRoles now).map Role.id =
      [Seed.superAdmin,Seed.admin,Seed.user,Seed.tenantAdmin,Seed.tenantMember] := rfl
    rw [hseeds]
    decide
  refine (pending_step hs hr).mpr ⟨g,hg,hs',(pending_tokens hs' hnext).mpr fun id hid => ?_⟩
  obtain ⟨r,hr,he⟩ := List.mem_map.mp (hids id hid)
  exact ⟨roleRecord r,hroles ▸ List.mem_map_of_mem hr,
    congrArg (fun id => some (Datum.uuid id)) he⟩

theorem pending_iff (hs : Tracked s) : (∃ g, runAll x (pending now s.stage) s.tables = .ok g) ↔
    (s.stage = 1 ∨ s.stage = 2 → RolesHeld s.tables) := by
  have hle : s.stage ≤ 3 := layouts_stage _ hs.2
  obtain h0 | h1 | h2 | h3 : s.stage = 0 ∨ s.stage = 1 ∨ s.stage = 2 ∨ s.stage = 3 := by omega
  · exact ⟨fun _ h => by omega,fun _ => pending_initial hs h0⟩
  · rw [pending_tokens hs h1]
    exact ⟨fun hheld _ => hheld,fun h => h (.inl h1)⟩
  · rw [pending_rbac hs h2]
    exact ⟨fun hheld _ => hheld,fun h => h (.inr h2)⟩
  · refine ⟨fun _ h => by omega,fun _ => ⟨s.tables,?_⟩⟩
    rw [h3]
    rfl

/-- In every run of upgrades, downgrades, the SQL file and statements of any kind: `upgrade head`
finds what it needs unless roles are gone that the last revision gives permissions to. On a server
that refuses nothing of its own the process then exits with 0, and what it has committed are the
tables that the revisions make. -/
theorem upgradeHead_exits (h : Relation.ReflTransGen Revised ⟨0,[]⟩ s) :
    ((∃ g, runAll x (pending now s.stage) s.tables = .ok g) ↔
      (s.stage = 1 ∨ s.stage = 2 → RolesHeld s.tables)) ∧
    ∀ schemas relations g, Stands ⟨"public" :: schemas,relations,["public"]⟩ s.tables.tables →
      (relations.versions.find? fun v => v.1 = "public").map Prod.snd = versionAt now s.stage →
      runAll x (pending now s.stage) s.tables = .ok g →
      (upgradeHead (fun _ => false) none schemas relations).1 = true ∧
        Stands ⟨"public" :: schemas,(upgradeHead (fun _ => false) none schemas relations).2,
          ["public"]⟩ g.tables := by
  have hs := tracked_run h
  refine ⟨pending_iff hs,fun schemas relations g hstands hversion hg => ?_⟩
  obtain ⟨b1,hb1,hstands1⟩ := hstands.versioned
  obtain ⟨b2,hb2,hstands2⟩ := headed_runAll hstands1 hg fun r hr =>
    revisions_named (List.mem_of_mem_drop hr)
  have hsts : migrationStatements none ⟨"public" :: schemas,relations,["public"]⟩ =
      .ensureVersionTable "public" :: (((revisions now).drop s.stage).map headed).flatMap
        fun r => r.upgrade ++ [.stamp "public" r.revision] := by
    rw [← pending_versionAt now (layouts_stage _ hs.2),← hversion]
    rfl
  have hflush : flushAll (TenantAuth.Statement.sent fun _ => false)
      (migrationStatements none ⟨"public" :: schemas,relations,["public"]⟩)
      ⟨"public" :: schemas,relations,["public"]⟩ = .ok b2 := by
    rw [sent_unrefused,hsts,flushAll,hb1]
    exact hb2
  obtain ⟨hok,hclose⟩ := Connection.transaction_flush (c := .opened _) rfl hflush
  refine ⟨congrArg Except.isOk hok,rfl,List.mem_cons_self,fun name => ?_⟩
  have hcommitted : (upgradeHead (fun _ => false) none schemas relations).2 = b2.relations :=
    congrArg Backend.relations hclose
  rw [hcommitted]
  exact hstands2.tables name

end Head

section Used

/-- A deployment of the first revision with the table of the SQL file and an account. -/
def used : Option Tables :=
  audited.bind fun g => ((Relational.Statement.insert .users [(.id,some (.uuid 1)),
    (.email,some (.text "guest@example.com")),(.passwordHash,some (.text "pw")),
    (.firstName,some (.text "F")),(.lastName,some (.text "L"))] ⟨0,0⟩).exec g).toOption

def usedRelations : Relations where
  tables := ["alembic_version","users","roles","tenants","tenant_members","tenant_invitations",
    "refresh_tokens","audit_logs"].map fun table => ("public",table)
  versions := [("public","202604260850")]

theorem stands_used {g : Tables} (hnames : g.tables.map TableDef.name =
    [.users,.roles,.tenants,.tenantMembers,.tenantInvitations,.refreshTokens,.auditLogs]) :
    Stands ⟨["public"],usedRelations,["public"]⟩ g.tables where
  path := rfl
  schema := List.mem_cons_self
  tables name := by
    rw [← List.mem_map,hnames]
    cases name <;> decide

/-- The other two revisions run over it. -/
theorem upgradeHead_exits_used : ∃ g g', used = some g ∧
    runAll ⟨0,0⟩ (pending (fun _ => 0) 1) g = .ok g' ∧
    (upgradeHead (fun _ => false) none [] usedRelations).1 = true ∧
      Stands ⟨["public"],(upgradeHead (fun _ => false) none [] usedRelations).2,["public"]⟩
        g'.tables := by
  have hrun : used.map (fun g => (g.tables.map TableDef.name,decide (RolesHeld g))) =
      some ([.users,.roles,.tenants,.tenantMembers,.tenantInvitations,.refreshTokens,.auditLogs],
        true) := by
    decide +kernel
  obtain ⟨g,hg,he⟩ := Option.map_eq_some_iff.mp hrun
  obtain ⟨hnames,hheld⟩ := Prod.mk.inj he
  obtain ⟨g2,haudited,hg3⟩ := Option.bind_eq_some_iff.mp hg
  obtain ⟨g1,hg1,hg2⟩ := Option.bind_eq_some_iff.mp haudited
  have hsteps : Relation.ReflTransGen Revised ⟨0,[]⟩ ⟨1,g⟩ :=
    .tail (.tail (.single (.upgrade (fun _ => 0) ⟨0,0⟩ rfl (of_toOption hg1)))
      (.auditLogs ⟨0,0⟩ (of_toOption hg2))) (.statement _ (of_toOption hg3))
  obtain ⟨hpending,hexits⟩ := @upgradeHead_exits ⟨1,g⟩ (fun _ => 0) ⟨0,0⟩ hsteps
  obtain ⟨g',hg'⟩ := hpending.mpr fun _ => of_decide_eq_true hheld
  exact ⟨g,g',hg,hg',hexits [] usedRelations g' (stands_used hnames) rfl hg'⟩

end Used

end TenantAuth.Schema
