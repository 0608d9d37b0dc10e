import TenantAuth.Records
set_option autoImplicit false

namespace TenantAuth.Schema
open Relational

def created : Nat → List (TableDef TableName ColumnName)
  | 0 => [users,roles,tenants,createTenantMembers,tenantInvitations,refreshTokens]
  | 1 => [createOneTimeTokens .passwordResetTokens,createOneTimeTokens .emailVerificationTokens]
  | 2 => [permissions,createRolePermissions,createUserRoles]
  | _ => []

def tablesAt (k : Nat) : List (TableDef TableName ColumnName) := (List.range k).flatMap created

/-- A database, and how many revisions its `alembic_version` counts. -/
structure Deployment where
  stage : Nat
  tables : Tables

/-- What happens to a deployment. What fails is rolled back and leaves it as it is. -/
inductive Revised : Deployment → Deployment → Prop
  | upgrade {k : Nat} {g g' : Tables} {r : Relational.Revision TableName ColumnName Document}
      (now : Nat → Nat) (x : Draws) (hr : (revisions now)[k]? = some r)
      (h : runAll x r.upgrade g = .ok g') : Revised ⟨k,g⟩ ⟨k+1,g'⟩
  | downgrade {k : Nat} {g g' : Tables} {r : Relational.Revision TableName ColumnName Document}
      (now : Nat → Nat) (x : Draws) (hr : (revisions now)[k]? = some r)
      (h : runAll x r.downgrade g = .ok g') : Revised ⟨k+1,g⟩ ⟨k,g'⟩
  /-- `001_create_audit_logs_table.sql`. -/
  | auditLogs {k : Nat} {g g' : Tables} (x : Draws)
      (h : runAll x createAuditLogsTable g = .ok g') : Revised ⟨k,g⟩ ⟨k,g'⟩
  | statement {k : Nat} {g g' : Tables}
      (st : Relational.Statement TableName ColumnName Document) (h : st.exec g = .ok g') :
    Revised ⟨k,g⟩ ⟨k,g'⟩

/-- The tables of a revision in every order that they can have: `audit_logs` stands where it was
created. -/
def layouts : List (Nat × List (TableDef TableName ColumnName)) :=
  (List.range 4).flatMap fun k => (k,tablesAt k) ::
    (List.range k).map fun j =>
      (k,tablesAt (j+1) ++ [auditLogs] ++ (List.range' (j+1) (k-(j+1))).flatMap created)

section Layouts

theorem revision_tables {now : Nat → Nat} {k : Nat}
    {r : Relational.Revision TableName ColumnName Document} (hr : (revisions now)[k]? = some r) :
    ∃ r' ∈ (revisions fun _ => 0)[k]?, r.downgrade = r'.downgrade ∧
      (∀ ts, afterAll r.upgrade ts = afterAll r'.upgrade ts) ∧
      r.upgrade.flatMap Ddl.touches = r'.upgrade.flatMap Ddl.touches := by
  rcases k with _ | _ | _ | k
  · cases hr
    exact ⟨_,rfl,rfl,fun _ => rfl,rfl⟩
  · cases hr
    exact ⟨_,rfl,rfl,fun _ => rfl,rfl⟩
  · cases hr
    exact ⟨_,rfl,rfl,fun _ => rfl,rfl⟩
  · cases hr

theorem layouts_upgrade : ∀ l ∈ layouts, ∀ r ∈ (revisions fun _ => 0)[l.1]?,
    (l.1+1,afterAll r.upgrade l.2) ∈ layouts ∧
    dropsAll r.downgrade (afterAll r.upgrade l.2) = true ∧
    afterAll r.downgrade (afterAll r.upgrade l.2) = l.2 ∧
    ∀ t ∈ l.2, t.name ∉ r.upgrade.flatMap Ddl.touches ∧ t.name ∉ r.downgrade.flatMap Ddl.touches := by
  decide +kernel

theorem layouts_droppable : ∀ l ∈ layouts, ∀ r ∈ (revisions fun _ => 0)[l.1-1]?, l.1 ≠ 0 →
    (dropsAll r.downgrade l.2 = true ↔ (l.1 = 1 → ∀ t ∈ l.2, t.name ≠ .auditLogs)) := by
  decide +kernel

theorem layouts_downgrade : ∀ l ∈ layouts, ∀ r ∈ (revisions fun _ => 0)[l.1-1]?, l.1 ≠ 0 →
    dropsAll r.downgrade l.2 = true → (l.1-1,afterAll r.downgrade l.2) ∈ layouts ∧
      ∀ t ∈ afterAll r.downgrade l.2, t.name ∉ r.downgrade.flatMap Ddl.touches := by
  decide +kernel

theorem layouts_auditLogs : ∀ l ∈ layouts, (∀ t ∈ l.2, t.name ≠ .auditLogs) →
    createAuditLogs.anchored l.2 → (l.1,afterAll createAuditLogsTable l.2) ∈ layouts := by
  decide +kernel

theorem layouts_tables : ∀ l ∈ layouts, (l.2.map TableDef.name).Nodup ∧
    (l.2.filter fun t => t.name ≠ .auditLogs) = tablesAt l.1 ∧
    ∀ t ∈ l.2, t.name = .auditLogs → t = auditLogs := by
  decide +kernel

theorem drops_only : ∀ r ∈ revisions fun _ => 0, ∀ op ∈ r.downgrade, op.isDrop = true := by
  decide +kernel

end Layouts

section Runs
variable {s s' : Deployment}

/-- The database keeps to its constraints, and its tables are those of its revision. -/
def Tracked (s : Deployment) : Prop := s.tables.Sound ∧ (s.stage,s.tables.tables) ∈ layouts

theorem Revised.tracked (h : Revised s s') (hs : Tracked s) : Tracked s' := by
  obtain ⟨hsound,hlayout⟩ := hs
  cases h with
  | @upgrade k g g' r now x hr h =>
    obtain ⟨r',hr',-,hafter,-⟩ := revision_tables hr
    obtain ⟨htables,hkeep,-⟩ := runAll_cases h
    refine ⟨hkeep hsound,?_⟩
    change (k+1,g'.tables) ∈ layouts
    rw [htables,hafter]
    exact (layouts_upgrade _ hlayout r' hr').1
  | @downgrade k g g' r now x hr h =>
    obtain ⟨r',hr',hsame,-,-⟩ := revision_tables hr
    obtain ⟨htables,hkeep,-⟩ := runAll_cases h
    have hdrops : dropsAll r.downgrade g.tables = true :=
      (runAll_drop (by rw [hsame]; exact drops_only r' (List.mem_of_getElem? hr'))).mp ⟨g',h⟩
    refine ⟨hkeep hsound,?_⟩
    change (k,g'.tables) ∈ layouts
    rw [htables,hsame]
    exact (layouts_downgrade _ hlayout r' hr' (Nat.succ_ne_zero k) (hsame ▸ hdrops)).1
  | @auditLogs k g g' x h =>
    obtain ⟨htables,hkeep,-⟩ := runAll_cases h
    obtain ⟨hfresh,hanchored⟩ := runAll_createTable h
    refine ⟨hkeep hsound,?_⟩
    change (k,g'.tables) ∈ layouts
    rw [htables]
    exact layouts_auditLogs _ hlayout hfresh hanchored
  | @statement k g g' st h =>
    refine ⟨exec_sound h,?_⟩
    change (k,g'.tables) ∈ layouts
    rw [exec_tables h]
    exact hlayout

theorem tracked_run (h : Relation.ReflTransGen Revised ⟨0,[]⟩ s) : Tracked s := by
  induction h with
  | refl => exact ⟨fun _ hr => (List.not_mem_nil hr).elim,by decide +kernel⟩
  | tail _ hstep ih => exact hstep.tracked ih

theorem downgrade_upgrade {now : Nat → Nat} {x x' : Draws} {g : Tables}
    {r : Relational.Revision TableName ColumnName Document} (hs : Tracked s)
    (hr : (revisions now)[s.stage]? = some r) (h : runAll x r.upgrade s.tables = .ok g) :
    (∀ t ∈ s.tables.tables, g.rows t.name = s.tables.rows t.name) ∧
      runAll x' r.downgrade g = .ok s.tables := by
  obtain ⟨r',hr',hdown,hafter,htouch⟩ := revision_tables hr
  obtain ⟨-,hdrops,hback,huntouched⟩ := layouts_upgrade _ hs.2 r' hr'
  obtain ⟨htables,-,hrows⟩ := runAll_cases h
  rw [hafter] at htables
  have hkept : ∀ t ∈ s.tables.tables, g.rows t.name = s.tables.rows t.name :=
    fun t ht => hrows t.name (htouch ▸ (huntouched t ht).1)
  refine ⟨hkept,?_⟩
  obtain ⟨g',hg'⟩ : ∃ g', runAll x' r.downgrade g = .ok g' := by
    refine (runAll_drop (by rw [hdown]; exact drops_only r' (List.mem_of_getElem? hr'))).mpr ?_
    rw [htables,hdown]
    exact hdrops
  obtain ⟨htables',-,hrows'⟩ := runAll_cases hg'
  have hsame : g'.tables = s.tables.tables := by
    rw [htables',htables,hdown]
    exact hback
  have he : g' = s.tables := by
    refine database_ext (layouts_tables _ hs.2).1 hsame fun t ht => ?_
    rw [hrows' t.name (hdown ▸ (huntouched t ht).2),hkept t ht]
  rw [hg',he]

/-- In every run of upgrades, downgrades, the SQL file and statements of any kind: the database keeps
to its constraints, and beside `audit_logs` its tables are those of its revision. An upgrade leaves
all rows where they are, and a downgrade right behind it takes it back. A downgrade leaves the rows
of all tables that stay, and is refused just for the first revision once `audit_logs` is there. -/
theorem revisions_reversible (h : Relation.ReflTransGen Revised ⟨0,[]⟩ s) :
    s.tables.Sound ∧
    (s.tables.tables.filter fun t => t.name ≠ .auditLogs) = tablesAt s.stage ∧
    (∀ t ∈ s.tables.tables, t.name = .auditLogs → t = auditLogs) ∧
    ∀ now k r, (revisions now)[k]? = some r →
      (s.stage = k → ∀ x x' g, runAll x r.upgrade s.tables = .ok g →
        (∀ t ∈ s.tables.tables, g.rows t.name = s.tables.rows t.name) ∧
          runAll x' r.downgrade g = .ok s.tables) ∧
      (s.stage = k+1 → ∀ x,
        ((∃ g, runAll x r.downgrade s.tables = .ok g) ↔
          (k = 0 → ∀ t ∈ s.tables.tables, t.name ≠ .auditLogs)) ∧
        ∀ g, runAll x r.downgrade s.tables = .ok g →
          ∀ t ∈ g.tables, g.rows t.name = s.tables.rows t.name) := by
  have hs := tracked_run h
  obtain ⟨-,hstage,haudit⟩ := layouts_tables _ hs.2
  refine ⟨hs.1,hstage,haudit,fun now k r hr => ⟨fun hk x x' g hg => ?_,fun hk x => ?_⟩⟩
  · exact downgrade_upgrade hs (hk ▸ hr) hg
  · obtain ⟨r',hr',hdown,-,-⟩ := revision_tables hr
    have hpred : s.stage - 1 = k := by omega
    have hpos : s.stage ≠ 0 := by omega
    have hat : r' ∈ (revisions fun _ => 0)[s.stage-1]? := hpred.symm ▸ hr'
    have hdrop : (∃ g, runAll x r.downgrade s.tables = .ok g) ↔ _ :=
      runAll_drop (by rw [hdown]; exact drops_only r' (List.mem_of_getElem? hr'))
    have hone : s.stage = 1 ↔ k = 0 := by omega
    rw [hdrop,hdown,layouts_droppable _ hs.2 r' hat hpos,hone]
    refine ⟨Iff.rfl,fun g hg t ht => ?_⟩
    obtain ⟨htables,-,hrows⟩ := runAll_cases hg
    refine hrows t.name ?_
    rw [← hdown] at hg
    have hdropped := hdrop.mp ⟨g,hg⟩
    rw [hdown] at hdropped
    exact (layouts_downgrade _ hs.2 r' hat hpos hdropped).2 t (htables ▸ ht)

end Runs

section Audited

def audited : Option Tables :=
  (runAll ⟨0,0⟩ (initialAuthSchema fun _ => 0).upgrade []).toOption.bind fun g =>
    (runAll ⟨0,0⟩ createAuditLogsTable g).toOption

theorem of_toOption {ε α : Type} {e : Except ε α} {a : α} (h : e.toOption = some a) :
    e = .ok a := by
  cases e with
  | error _ => cases h
  | ok _ => exact congrArg _ (Option.some.inj h)

/-- The way back to the empty server is barred. -/
theorem revisions_reversible_audited :
    ∃ g, audited = some g ∧ Relation.ReflTransGen Revised ⟨0,[]⟩ ⟨1,g⟩ ∧ g.Sound ∧
      ¬ ∃ g', runAll ⟨0,0⟩ (initialAuthSchema fun _ => 0).downgrade g = .ok g' := by
  have hrun : audited.map (fun g => g.tables.map TableDef.name) =
      some [.users,.roles,.tenants,.tenantMembers,.tenantInvitations,.refreshTokens,.auditLogs] := by
    decide +kernel
  obtain ⟨g,hg,hnames⟩ := Option.map_eq_some_iff.mp hrun
  obtain ⟨g1,hg1,hg2⟩ := Option.bind_eq_some_iff.mp hg
  have hsteps : Relation.ReflTransGen Revised ⟨0,[]⟩ ⟨1,g⟩ :=
    .tail (.single (.upgrade (fun _ => 0) ⟨0,0⟩ rfl (of_toOption hg1)))
      (.auditLogs ⟨0,0⟩ (of_toOption hg2))
  obtain ⟨hsound,-,-,hways⟩ := revisions_reversible hsteps
  refine ⟨g,hg,hsteps,hsound,fun hback => ?_⟩
  have hnone := (((hways (fun _ => 0) 0 _ rfl).2 rfl ⟨0,0⟩).1.mp hback) rfl
  obtain ⟨t,ht,hname⟩ := List.mem_map.mp (hnames ▸ (by decide :
    TableName.auditLogs ∈ [TableName.users,.roles,.tenants,.tenantMembers,.tenantInvitations,
      .refreshTokens,.auditLogs]))
  exact hnone t ht hname

end Audited

end TenantAuth.Schema
