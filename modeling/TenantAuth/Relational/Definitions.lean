import TenantAuth.Relational.Statements
set_option autoImplicit false

/-! What a migration tool sends: tables and indexes come and go, and rows are inserted in bulk. A
revision is applied or taken back as a whole. -/

namespace Relational
section
variable {τ κ J : Type} [DecidableEq τ] [DecidableEq κ] [DecidableEq J]

inductive Ddl (τ κ J : Type) where
  | createTable (t : TableDef τ κ)
  | createIndex (name : String) (table : τ) (columns : List κ) (unique : Bool)
  | bulkInsert (table : τ) (rows : List (List (κ × Option (Datum J))))
  /-- An index is known by its name alone. -/
  | dropIndex (name : String)
  | dropTable (name : τ)

def Database.tables (g : Database τ κ J) : List (TableDef τ κ) := g.map Relation.table

/-- A foreign key wants a table, and a unique key there, to refer to. -/
def TableDef.anchored (t : TableDef τ κ) (ts : List (TableDef τ κ)) : Prop :=
  ∀ fk ∈ t.foreignKeys, ∃ t' ∈ ts, t'.name = fk.target ∧ [fk.targetColumn] ∈ t'.uniqueKeys

instance (t : TableDef τ κ) (ts : List (TableDef τ κ)) : Decidable (t.anchored ts) := by
  unfold TableDef.anchored
  infer_instance

def Holds (name : τ) (t : TableDef τ κ) : Prop :=
  t.name ≠ name ∧ ∃ fk ∈ t.foreignKeys, fk.target = name

instance (name : τ) (t : TableDef τ κ) : Decidable (Holds name t) := by
  unfold Holds
  infer_instance

def TableDef.addIndex (i : Index κ) (t : TableDef τ κ) : TableDef τ κ :=
  { t with indexes := t.indexes ++ [i] }

def TableDef.dropIndex (name : String) (t : TableDef τ κ) : TableDef τ κ :=
  { t with indexes := t.indexes.filter fun i => i.name ≠ name }

def Relation.addIndex (i : Index κ) (r : Relation τ κ J) : Relation τ κ J where
  table := r.table.addIndex i
  rows := r.rows

def Relation.dropIndex (name : String) (r : Relation τ κ J) : Relation τ κ J where
  table := r.table.dropIndex name
  rows := r.rows

def insertAll (x : Draws) (table : τ) : List (List (κ × Option (Datum J))) → Database τ κ J →
    Except Refusal (Database τ κ J)
  | [],g => .ok g
  | values :: more,g =>
    match (Statement.insert table values x).exec g with
    | .error e => .error e
    | .ok g' => insertAll x table more g'

def Ddl.run (x : Draws) : Ddl τ κ J → Database τ κ J → Except Refusal (Database τ κ J)
  | .createTable t,g =>
    if ∃ t' ∈ g.tables, t'.name = t.name then .error .duplicateRelation
    else if t.anchored g.tables then .ok (g ++ [⟨t,[]⟩])
    else .error .undefinedTable
  | .createIndex name table columns unique,g =>
    match g.relation table with
    | none => .error .undefinedTable
    | some r =>
      if ∃ t ∈ g.tables, ∃ i ∈ t.indexes, i.name = name then .error .duplicateRelation
      else if r.table.knows columns = false then .error .undefinedColumn
      else
        let g' : Database τ κ J := g.map fun r =>
          if r.table.name = table then r.addIndex ⟨name,columns,unique⟩ else r
        if g'.Sound then .ok g' else .error .violation
  | .bulkInsert table rows,g => insertAll x table rows g
  | .dropIndex name,g =>
    if ∃ t ∈ g.tables, ∃ i ∈ t.indexes, i.name = name then .ok (g.map (Relation.dropIndex name))
    else .error .undefinedTable
  | .dropTable name,g =>
    if ∃ t ∈ g.tables, t.name = name then
      if ∃ t ∈ g.tables, Holds name t then .error .dependentObjects
      else .ok (g.filter fun r => r.table.name ≠ name)
    else .error .undefinedTable

def runAll (x : Draws) : List (Ddl τ κ J) → Database τ κ J → Except Refusal (Database τ κ J)
  | [],g => .ok g
  | op :: ops,g =>
    match op.run x g with
    | .error e => .error e
    | .ok g' => runAll x ops g'

structure Revision (τ κ J : Type) where
  revision : String
  downRevision : Option String
  upgrade : List (Ddl τ κ J)
  downgrade : List (Ddl τ κ J)

def Ddl.after : Ddl τ κ J → List (TableDef τ κ) → List (TableDef τ κ)
  | .createTable t,ts => ts ++ [t]
  | .createIndex name table columns unique,ts =>
    ts.map fun t => if t.name = table then t.addIndex ⟨name,columns,unique⟩ else t
  | .bulkInsert _ _,ts => ts
  | .dropIndex name,ts => ts.map (TableDef.dropIndex name)
  | .dropTable name,ts => ts.filter fun t => t.name ≠ name

def afterAll (ops : List (Ddl τ κ J)) (ts : List (TableDef τ κ)) : List (TableDef τ κ) :=
  ops.foldl (fun ts op => op.after ts) ts

/-- The tables whose rows it changes. -/
def Ddl.touches : Ddl τ κ J → List τ
  | .createTable _ | .createIndex _ _ _ _ | .dropIndex _ => []
  | .bulkInsert table _ => [table]
  | .dropTable name => [name]

section Results
variable {x : Draws} {g g' : Database τ κ J} {op : Ddl τ κ J} {ops : List (Ddl τ κ J)} {name : τ}
  {r : Relation τ κ J}

theorem settle_tables {kept rest : Database τ κ J} (h : settle kept rest = .ok g) :
    g.tables = kept.tables ++ rest.tables := by
  induction rest generalizing kept with
  | nil =>
    cases h
    simp [Database.tables]
  | cons r rest ih =>
    rw [settle] at h
    split at h
    · cases h
    · rw [ih h]
      simp [Database.tables,Relation.settled]

theorem exec_tables {st : Statement τ κ J} (h : st.exec g = .ok g') : g'.tables = g.tables := by
  unfold Statement.exec at h
  split at h
  · cases h
  rename_i r _
  split at h
  · split at h
    · cases h
    rename_i g1 he
    split at h
    · cases h
      cases st with
      | insert table values x =>
        cases he
        exact map_table_modify _
      | update table key k sets =>
        cases he
        exact map_table_modify _
      | delete table keys =>
        rw [settle_tables he]
        exact map_table_modify _
    · cases h
  · cases h

theorem exec_sound {st : Statement τ κ J} (h : st.exec g = .ok g') : g'.Sound := by
  unfold Statement.exec at h
  split at h
  · cases h
  split at h
  · split at h
    · cases h
    split at h
    · rename_i hs
      cases h
      exact hs
    · cases h
  · cases h

theorem exec_insert {table : τ} {values : List (κ × Option (Datum J))}
    (h : (Statement.insert table values x).exec g = .ok g') :
    ∃ r, g.relation table = some r ∧
      g' = g.modify table fun rows => rows ++ [r.table.newRow values x] := by
  unfold Statement.exec at h
  split at h
  · cases h
  rename_i r hr
  split at h
  · simp only [Statement.effect] at h
    split at h
    · cases h
      exact ⟨r,hr,rfl⟩
    · cases h
  · cases h

theorem insertAll_cases {table : τ} {rows : List (List (κ × Option (Datum J)))}
    (h : insertAll x table rows g = .ok g') :
    g'.tables = g.tables ∧ (g.Sound → g'.Sound) ∧
      ∀ name, name ≠ table → g'.rows name = g.rows name := by
  induction rows generalizing g with
  | nil =>
    cases h
    exact ⟨rfl,fun hs => hs,fun _ _ => rfl⟩
  | cons values rows ih =>
    rw [insertAll] at h
    split at h
    · cases h
    rename_i g1 he
    obtain ⟨htables,hsound,hrows⟩ := ih h
    obtain ⟨r,-,hrow⟩ := exec_insert he
    refine ⟨htables.trans (exec_tables he),fun _ => hsound (exec_sound he),fun name hn => ?_⟩
    rw [hrows name hn,hrow,rows_modify_other hn]

omit [DecidableEq κ] [DecidableEq J] in
theorem rows_new (t : TableDef τ κ) (name : τ) :
    Database.rows (g ++ [⟨t,[]⟩] : Database τ κ J) name = g.rows name := by
  unfold Database.rows Database.relation
  rw [List.find?_append]
  cases g.find? fun r => r.table.name = name with
  | some r => rfl
  | none =>
    by_cases h : t.name = name
    · simp [h]
    · simp [h]

omit [DecidableEq κ] [DecidableEq J] in
theorem rows_map {f : Relation τ κ J → Relation τ κ J} (hn : ∀ r, (f r).table.name = r.table.name)
    (hr : ∀ r, (f r).rows = r.rows) :
    Database.rows (g.map f : Database τ κ J) name = g.rows name := by
  unfold Database.rows Database.relation
  rw [List.find?_map]
  simp only [Function.comp_def,hn]
  cases g.find? fun r => r.table.name = name with
  | none => rfl
  | some r => exact congrArg (fun rows => rows) (hr r)

omit [DecidableEq κ] [DecidableEq J] in
theorem rows_drop {other : τ} (h : name ≠ other) :
    Database.rows (g.filter fun r => r.table.name ≠ other : Database τ κ J) name = g.rows name := by
  unfold Database.rows Database.relation
  rw [List.find?_filter]
  refine congrArg (fun r => (Option.map Relation.rows r).getD []) (congrArg (g.find? ·) ?_)
  funext r
  by_cases hr : r.table.name = name
  · simp [hr,h]
  · simp [hr]

omit [DecidableEq κ] [DecidableEq J] in
theorem dangles_congr {fk : ForeignKey τ κ} {row : Row κ J}
    (h : g'.rows fk.target = g.rows fk.target) : Dangles g' fk row ↔ Dangles g fk row := by
  unfold Dangles
  rw [h]

omit [DecidableEq κ] [DecidableEq J] in
theorem sound_new (hs : g.Sound) (t : TableDef τ κ) :
    Database.Sound (g ++ [⟨t,[]⟩] : Database τ κ J) := by
  intro r hr
  rcases List.mem_append.mp hr with hr | hr
  · obtain ⟨hcells,hkeys,hrefs⟩ := hs r hr
    exact ⟨hcells,hkeys,fun fk hfk row hrow hd =>
      hrefs fk hfk row hrow ((dangles_congr (rows_new t fk.target)).mp hd)⟩
  · obtain rfl := List.mem_singleton.mp hr
    simp [Relation.Sound]

omit [DecidableEq κ] [DecidableEq J] in
theorem sound_dropIndex (hs : g.Sound) (index : String) :
    Database.Sound (g.map (Relation.dropIndex index) : Database τ κ J) := by
  intro r' hr'
  obtain ⟨r,hr,rfl⟩ := List.mem_map.mp hr'
  obtain ⟨hcells,hkeys,hrefs⟩ := hs r hr
  have hrows : ∀ name, Database.rows (g.map (Relation.dropIndex index) : Database τ κ J) name =
      g.rows name := fun name => rows_map (fun _ => rfl) fun _ => rfl
  refine ⟨hcells,fun key hkey => hkeys key ?_,fun fk hfk row hrow hd =>
    hrefs fk hfk row hrow ((dangles_congr (hrows fk.target)).mp hd)⟩
  have hsub : (r.table.dropIndex index).uniqueKeys ⊆ r.table.uniqueKeys := by
    intro key hkey
    simp only [TableDef.uniqueKeys,TableDef.dropIndex,List.mem_append,List.mem_map,
      List.mem_filter] at hkey ⊢
    rcases hkey with hkey | ⟨i,⟨⟨hi,-⟩,hu⟩,rfl⟩
    · exact .inl hkey
    · exact .inr ⟨i,⟨hi,hu⟩,rfl⟩
  exact hsub hkey

omit [DecidableEq κ] [DecidableEq J] in
theorem sound_dropTable (hs : g.Sound) (hfree : ¬ ∃ t ∈ g.tables, Holds name t) :
    Database.Sound (g.filter fun r => r.table.name ≠ name : Database τ κ J) := by
  intro r hr
  obtain ⟨hr,hname⟩ := List.mem_filter.mp hr
  obtain ⟨hcells,hkeys,hrefs⟩ := hs r hr
  refine ⟨hcells,hkeys,fun fk hfk row hrow hd => hrefs fk hfk row hrow ?_⟩
  have htarget : fk.target ≠ name := fun he =>
    hfree ⟨r.table,List.mem_map_of_mem hr,of_decide_eq_true hname,fk,hfk,he⟩
  exact (dangles_congr (rows_drop htarget)).mp hd

theorem run_cases (h : op.run x g = .ok g') :
    g'.tables = op.after g.tables ∧ (g.Sound → g'.Sound) ∧
      ∀ name, name ∉ op.touches → g'.rows name = g.rows name := by
  cases op with
  | createTable t =>
    simp only [Ddl.run] at h
    split at h
    · cases h
    split at h
    · cases h
      refine ⟨?_,fun hs => sound_new hs t,fun name _ => rows_new t name⟩
      simp [Ddl.after,Database.tables]
    · cases h
  | createIndex index table columns unique =>
    simp only [Ddl.run] at h
    split at h
    · cases h
    split at h
    · cases h
    split at h
    · cases h
    split at h
    · rename_i hs
      cases h
      refine ⟨?_,fun _ => hs,fun name _ => rows_map (fun r => ?_) fun r => ?_⟩
      · simp only [Ddl.after,Database.tables,List.map_map]
        refine List.map_congr_left fun r _ => ?_
        simp only [Function.comp]
        split <;> rfl
      · split <;> rfl
      · split <;> rfl
    · cases h
  | bulkInsert table rows =>
    obtain ⟨htables,hsound,hrows⟩ := insertAll_cases h
    exact ⟨htables,hsound,fun name hn => hrows name fun he => hn (he ▸ List.mem_singleton_self _)⟩
  | dropIndex index =>
    simp only [Ddl.run] at h
    split at h
    · cases h
      refine ⟨?_,fun hs => sound_dropIndex hs index,fun name _ =>
        rows_map (fun _ => rfl) fun _ => rfl⟩
      simp only [Ddl.after,Database.tables,List.map_map]
      rfl
    · cases h
  | dropTable table =>
    simp only [Ddl.run] at h
    split at h
    · split at h
      · cases h
      rename_i hfree
      cases h
      refine ⟨?_,fun hs => sound_dropTable hs hfree,fun name hn =>
        rows_drop fun he => hn (he ▸ List.mem_singleton_self _)⟩
      simp only [Ddl.after,Database.tables,List.filter_map]
      rfl
    · cases h

theorem runAll_cases (h : runAll x ops g = .ok g') :
    g'.tables = afterAll ops g.tables ∧ (g.Sound → g'.Sound) ∧
      ∀ name, name ∉ ops.flatMap Ddl.touches → g'.rows name = g.rows name := by
  induction ops generalizing g with
  | nil =>
    cases h
    exact ⟨rfl,fun hs => hs,fun _ _ => rfl⟩
  | cons op ops ih =>
    rw [runAll] at h
    split at h
    · cases h
    rename_i g1 hop
    obtain ⟨htables,hsound,hrows⟩ := run_cases hop
    obtain ⟨htables',hsound',hrows'⟩ := ih h
    refine ⟨by rw [htables',htables]; rfl,fun hs => hsound' (hsound hs),fun name hn => ?_⟩
    rw [List.flatMap_cons,List.mem_append,not_or] at hn
    rw [hrows' name hn.2,hrows name hn.1]

/-- Whether an operation takes something away that is there and that nothing else needs. -/
def Ddl.drops : Ddl τ κ J → List (TableDef τ κ) → Bool
  | .dropIndex name,ts => decide (∃ t ∈ ts, ∃ i ∈ t.indexes, i.name = name)
  | .dropTable name,ts =>
    decide (∃ t ∈ ts, t.name = name) && decide (¬ ∃ t ∈ ts, Holds name t)
  | _,_ => false

def dropsAll : List (Ddl τ κ J) → List (TableDef τ κ) → Bool
  | [],_ => true
  | op :: ops,ts => op.drops ts && dropsAll ops (op.after ts)

def Ddl.isDrop : Ddl τ κ J → Bool
  | .dropIndex _ | .dropTable _ => true
  | _ => false

theorem run_drop (hd : op.isDrop = true) :
    (∃ g', op.run x g = .ok g') ↔ op.drops g.tables = true := by
  have hrefused : ∀ e : Refusal, ¬ ∃ g' : Database τ κ J, Except.error e = .ok g' := by
    rintro e ⟨g',he⟩
    cases he
  cases op with
  | dropIndex index =>
    simp only [Ddl.run,Ddl.drops,decide_eq_true_eq]
    split
    · rename_i h
      exact ⟨fun _ => h,fun _ => ⟨_,rfl⟩⟩
    · rename_i h
      exact ⟨fun he => absurd he (hrefused _),fun he => absurd he h⟩
  | dropTable table =>
    simp only [Ddl.run,Ddl.drops,Bool.and_eq_true,decide_eq_true_eq]
    split
    · rename_i h
      split
      · rename_i hheld
        exact ⟨fun he => absurd he (hrefused _),fun he => absurd hheld he.2⟩
      · rename_i hheld
        exact ⟨fun _ => ⟨h,hheld⟩,fun _ => ⟨_,rfl⟩⟩
    · rename_i h
      exact ⟨fun he => absurd he (hrefused _),fun he => absurd he.1 h⟩
  | _ => cases hd

theorem runAll_drop (hd : ∀ op ∈ ops, op.isDrop = true) :
    (∃ g', runAll x ops g = .ok g') ↔ dropsAll ops g.tables = true := by
  induction ops generalizing g with
  | nil => exact ⟨fun _ => rfl,fun _ => ⟨g,rfl⟩⟩
  | cons op ops ih =>
    have hrun : (∃ g', op.run x g = .ok g') ↔ _ := run_drop (hd op List.mem_cons_self)
    have htail := fun op' hop => hd op' (List.mem_cons_of_mem op hop)
    rw [dropsAll,Bool.and_eq_true,← hrun]
    constructor
    · rintro ⟨g',h⟩
      rw [runAll] at h
      split at h
      · cases h
      rename_i g1 hop
      exact ⟨⟨g1,hop⟩,(run_cases hop).1 ▸ (ih htail).mp ⟨g',h⟩⟩
    · rintro ⟨⟨g1,hop⟩,hrest⟩
      obtain ⟨g',h⟩ := (ih htail).mpr ((run_cases hop).1.symm ▸ hrest)
      exact ⟨g',by rw [runAll,hop]; exact h⟩

theorem runAll_createTable {t : TableDef τ κ} (h : runAll x (.createTable t :: ops) g = .ok g') :
    (∀ t' ∈ g.tables, t'.name ≠ t.name) ∧ t.anchored g.tables := by
  rw [runAll,Ddl.run] at h
  by_cases hname : ∃ t' ∈ g.tables, t'.name = t.name
  · simp [hname] at h
  · by_cases hanchored : t.anchored g.tables
    · exact ⟨fun t' ht' he => hname ⟨t',ht',he⟩,hanchored⟩
    · simp [hname,hanchored] at h

omit [DecidableEq κ] [DecidableEq J] in
theorem relation_eq (hr : g.relation name = some r) : g.rows name = r.rows := by
  rw [Database.rows,hr]
  rfl

omit [DecidableEq κ] [DecidableEq J] in
theorem relation_mem (hn : (g.tables.map TableDef.name).Nodup) {r : Relation τ κ J} (hr : r ∈ g) :
    g.relation r.table.name = some r := by
  have hnames : (g.map fun r => r.table.name).Nodup := by
    simpa [Database.tables,Function.comp_def] using hn
  obtain ⟨r',hr'⟩ := Option.isSome_iff_exists.mp (List.find?_isSome.mpr
    ⟨r,hr,decide_eq_true rfl⟩ : (g.find? fun r' => r'.table.name = r.table.name).isSome = true)
  have hname : r'.table.name = r.table.name := by simpa using List.find?_some hr'
  have he : r' = r := List.inj_on_of_nodup_map hnames (List.mem_of_find?_eq_some hr') hr hname
  exact hr'.trans (congrArg some he)

omit [DecidableEq κ] [DecidableEq J] in
theorem rows_mem (hn : (g.tables.map TableDef.name).Nodup) {r : Relation τ κ J} (hr : r ∈ g) :
    g.rows r.table.name = r.rows :=
  relation_eq (relation_mem hn hr)

omit [DecidableEq κ] [DecidableEq J] in
theorem database_ext (hn : (g.tables.map TableDef.name).Nodup) (ht : g'.tables = g.tables)
    (hr : ∀ t ∈ g.tables, g'.rows t.name = g.rows t.name) : g' = g := by
  have hbuild : ∀ g : Database τ κ J, (g.tables.map TableDef.name).Nodup →
      g.tables.map (fun t => (⟨t,g.rows t.name⟩ : Relation τ κ J)) = g := by
    intro g hn
    rw [Database.tables,List.map_map]
    exact (List.map_congr_left fun r hr => congrArg (Relation.mk r.table) (rows_mem hn hr)).trans
      (List.map_id g)
  rw [← hbuild g' (ht ▸ hn),← hbuild g hn,ht]
  exact List.map_congr_left fun t ht' => congrArg (Relation.mk t) (hr t ht')

omit [DecidableEq κ] [DecidableEq J] in
theorem relation_of_tables (hn : (g.tables.map TableDef.name).Nodup) {t : TableDef τ κ}
    (ht : t ∈ g.tables) : g.relation t.name = some ⟨t,g.rows t.name⟩ := by
  obtain ⟨r,hr,rfl⟩ := List.mem_map.mp ht
  rw [rows_mem hn hr]
  exact relation_mem hn hr

theorem insertAll_rows {table : τ} {rows : List (List (κ × Option (Datum J)))}
    (hr : g.relation table = some r) (h : insertAll x table rows g = .ok g') :
    g'.rows table = r.rows ++ rows.map fun values => r.table.newRow values x := by
  induction rows generalizing g r with
  | nil =>
    cases h
    rw [relation_eq hr]
    simp
  | cons values rows ih =>
    rw [insertAll] at h
    split at h
    · cases h
    rename_i g1 he
    obtain ⟨r',hr',rfl⟩ := exec_insert he
    obtain rfl : r = r' := Option.some.inj (hr.symm.trans hr')
    rw [ih (relation_modify hr _) h]
    simp

omit [DecidableEq κ] [DecidableEq J] in
theorem rows_grow {row : Row κ J} {n : τ} (hr : g.relation name = some r) {old : Row κ J}
    (h : old ∈ g.rows n) : old ∈ (g.modify name fun rows => rows ++ [row]).rows n := by
  by_cases hn : n = name
  · subst hn
    rw [relation_eq hr] at h
    rw [relation_eq (relation_modify hr _)]
    exact List.mem_append_left _ h
  · rwa [rows_modify_other hn]

omit [DecidableEq κ] [DecidableEq J] in
theorem sound_insert {row : Row κ J} (hs : g.Sound) (hn : (g.tables.map TableDef.name).Nodup)
    (hr : g.relation name = some r)
    (hcells : ∀ c ∈ r.table.columns, c.admits (row c.name) = true)
    (hkeys : ∀ key ∈ r.table.uniqueKeys, ∀ old ∈ r.rows, ¬ Clash key old row)
    (hrefs : ∀ fk ∈ r.table.foreignKeys, ¬ Dangles g fk row) :
    (g.modify name fun rows => rows ++ [row]).Sound := by
  have hgrown : ∀ {fk : ForeignKey τ κ} {row' : Row κ J}, ¬ Dangles g fk row' →
      ¬ Dangles (g.modify name fun rows => rows ++ [row]) fk row' := by
    rintro fk row' hd ⟨v,hv,hnone⟩
    exact hd ⟨v,hv,fun old hold => hnone old (rows_grow hr hold)⟩
  intro r' hr'
  obtain ⟨r0,hr0,rfl⟩ := List.mem_map.mp hr'
  obtain ⟨hcells0,hkeys0,hrefs0⟩ := hs r0 hr0
  by_cases hname : r0.table.name = name
  · have he : r0 = r :=
      Option.some.inj ((relation_mem hn hr0).symm.trans (hname.symm ▸ hr))
    subst he
    rw [if_pos hname]
    refine ⟨fun row' hrow c hc => ?_,fun key hkey => ?_,fun fk hfk row' hrow => hgrown ?_⟩
    · rcases List.mem_append.mp hrow with hrow | hrow
      · exact hcells0 row' hrow c hc
      · exact List.mem_singleton.mp hrow ▸ hcells c hc
    · refine List.pairwise_append.mpr ⟨hkeys0 key hkey,List.pairwise_singleton _ _,?_⟩
      intro old hold row' hrow
      exact List.mem_singleton.mp hrow ▸ hkeys key hkey old hold
    · rcases List.mem_append.mp hrow with hrow | hrow
      · exact hrefs0 fk hfk row' hrow
      · exact List.mem_singleton.mp hrow ▸ hrefs fk hfk
  · rw [if_neg hname]
    exact ⟨hcells0,hkeys0,fun fk hfk row' hrow => hgrown (hrefs0 fk hfk row' hrow)⟩

theorem insertAll_ok {rows : List (List (κ × Option (Datum J)))} (hs : g.Sound)
    (hn : (g.tables.map TableDef.name).Nodup) (hr : g.relation name = some r)
    (hknows : ∀ values ∈ rows, r.table.knows (values.map Prod.fst) = true)
    (hcells : ∀ values ∈ rows, ∀ c ∈ r.table.columns,
      c.admits (r.table.newRow values x c.name) = true)
    (hkeys : ∀ key ∈ r.table.uniqueKeys,
      (r.rows ++ rows.map fun values => r.table.newRow values x).Pairwise fun a b => ¬ Clash key a b)
    (hrefs : ∀ values ∈ rows, ∀ fk ∈ r.table.foreignKeys,
      ¬ Dangles g fk (r.table.newRow values x)) :
    ∃ g', insertAll x name rows g = .ok g' := by
  induction rows generalizing g r with
  | nil => exact ⟨g,rfl⟩
  | cons values rows ih =>
    have hin : values ∈ values :: rows := List.mem_cons_self
    have hs1 := sound_insert hs hn hr (hcells values hin) (fun key hkey old hold =>
      (List.pairwise_append.mp (hkeys key hkey)).2.2 old hold _ (by simp)) (hrefs values hin)
    have hexec := exec_eq (.insert name values x) hr (hknows values hin) rfl
    rw [if_pos hs1] at hexec
    rw [insertAll,hexec]
    refine ih hs1 ?_ (relation_modify hr _) (fun v hv => hknows v (List.mem_cons_of_mem _ hv))
      (fun v hv => hcells v (List.mem_cons_of_mem _ hv)) (fun key hkey => ?_)
      fun v hv fk hfk hd => ?_
    · rwa [Database.tables,map_table_modify]
    · simpa using hkeys key hkey
    · obtain ⟨w,hw,hnone⟩ := hd
      exact hrefs v (List.mem_cons_of_mem _ hv) fk hfk
        ⟨w,hw,fun old hold => hnone old (rows_grow hr hold)⟩

def createsAll : List τ → List (Ddl τ κ J) → List (TableDef τ κ) → Bool
  | _,[],_ => true
  | new,.createTable t :: ops,ts =>
    decide (∀ t' ∈ ts, t'.name ≠ t.name) && decide (t.anchored ts) &&
      createsAll (t.name :: new) ops (ts ++ [t])
  | new,.createIndex index table columns unique :: ops,ts =>
    decide (table ∈ new) && ((ts.find? fun t => t.name = table).any fun t => t.knows columns) &&
      decide (¬ ∃ t ∈ ts, ∃ i ∈ t.indexes, i.name = index) &&
      createsAll new ops (Ddl.after (.createIndex index table columns unique : Ddl τ κ J) ts)
  | _,_,_ => false

omit [DecidableEq κ] [DecidableEq J] in
theorem sound_addIndex (hs : g.Sound) (hn : (g.tables.map TableDef.name).Nodup)
    (hempty : g.rows name = []) (i : Index κ) :
    Database.Sound (g.map fun r => if r.table.name = name then r.addIndex i else r :
      Database τ κ J) := by
  have hrows : ∀ n, Database.rows (g.map fun r => if r.table.name = name then r.addIndex i else r :
      Database τ κ J) n = g.rows n := fun n =>
    rows_map (fun r => by split <;> rfl) fun r => by split <;> rfl
  intro r' hr'
  obtain ⟨r,hr,rfl⟩ := List.mem_map.mp hr'
  obtain ⟨hcells,hkeys,hrefs⟩ := hs r hr
  by_cases hname : r.table.name = name
  · have hnone : r.rows = [] := by rw [← rows_mem hn hr,hname,hempty]
    rw [if_pos hname]
    simp [Relation.Sound,Relation.addIndex,hnone]
  · rw [if_neg hname]
    exact ⟨hcells,hkeys,fun fk hfk row hrow hd =>
      hrefs fk hfk row hrow ((dangles_congr (hrows fk.target)).mp hd)⟩

omit [DecidableEq κ] [DecidableEq J] in
theorem rows_absent (h : ∀ t ∈ g.tables, t.name ≠ name) : g.rows name = [] := by
  have hnone : g.relation name = none := by
    refine List.find?_eq_none.mpr fun r hr he => ?_
    exact h r.table (List.mem_map_of_mem hr) (of_decide_eq_true he)
  rw [Database.rows,hnone]
  rfl

omit [DecidableEq κ] [DecidableEq J] in
theorem after_createIndex (index : String) (table : τ) (columns : List κ) (unique : Bool)
    (ts : List (TableDef τ κ)) :
    (Ddl.after (.createIndex index table columns unique : Ddl τ κ J) ts).map TableDef.name =
      ts.map TableDef.name := by
  rw [Ddl.after,List.map_map]
  refine List.map_congr_left fun t _ => ?_
  simp only [Function.comp]
  split <;> rfl

theorem runAll_create {new : List τ} (hs : g.Sound) (hn : (g.tables.map TableDef.name).Nodup)
    (hnew : ∀ n ∈ new, g.rows n = []) (h : createsAll new ops g.tables = true) :
    ∃ g', runAll x ops g = .ok g' := by
  induction ops generalizing g new with
  | nil => exact ⟨g,rfl⟩
  | cons op ops ih =>
    cases op with
    | createTable t =>
      simp only [createsAll,Bool.and_eq_true,decide_eq_true_eq] at h
      obtain ⟨⟨hfresh,hanchored⟩,hrest⟩ := h
      have hname : ¬ ∃ t' ∈ g.tables, t'.name = t.name := fun he => by
        obtain ⟨t',ht',he⟩ := he
        exact hfresh t' ht' he
      have htables : Database.tables (g ++ [⟨t,[]⟩] : Database τ κ J) = g.tables ++ [t] := by
        simp [Database.tables]
      rw [runAll,Ddl.run,if_neg hname,if_pos hanchored]
      refine ih (sound_new hs t) ?_ (fun n hmem => ?_) (htables ▸ hrest)
      · rw [htables,List.map_append,List.nodup_append]
        refine ⟨hn,List.nodup_singleton _,fun a ha b hb he => ?_⟩
        obtain ⟨t',ht',rfl⟩ := List.mem_map.mp ha
        rw [List.map_singleton,List.mem_singleton] at hb
        exact hfresh t' ht' (he.trans hb)
      · rw [rows_new]
        rcases List.mem_cons.mp hmem with rfl | hmem
        · exact rows_absent hfresh
        · exact hnew n hmem
    | createIndex index table columns unique =>
      simp only [createsAll,Bool.and_eq_true,decide_eq_true_eq] at h
      obtain ⟨⟨⟨hmem,hknows⟩,hfree⟩,hrest⟩ := h
      obtain ⟨r,hr,hknows⟩ : ∃ r, g.relation table = some r ∧ r.table.knows columns = true := by
        rw [Database.tables,List.find?_map] at hknows
        change ((g.relation table).map Relation.table).any _ = true at hknows
        cases hr : g.relation table with
        | none => simp [hr] at hknows
        | some r => exact ⟨r,rfl,by simpa [hr] using hknows⟩
      have hsound := sound_addIndex hs hn (hnew table hmem) ⟨index,columns,unique⟩
      have hrun : Ddl.run x (.createIndex index table columns unique) g =
          .ok (g.map fun r => if r.table.name = table then
            r.addIndex ⟨index,columns,unique⟩ else r) := by
        simp only [Ddl.run,hr]
        rw [if_neg hfree,if_neg (by simp [hknows]),if_pos hsound]
      obtain ⟨htables,-,hrows⟩ := run_cases hrun
      rw [runAll,hrun]
      refine ih hsound ?_ (fun n hmem => ?_) (htables ▸ hrest)
      · rw [htables,after_createIndex]
        exact hn
      · rw [hrows n (by simp [Ddl.touches])]
        exact hnew n hmem
    | _ => cases h

theorem runAll_append {ops' : List (Ddl τ κ J)} (h : runAll x ops g = .ok g') :
    runAll x (ops ++ ops') g = runAll x ops' g' := by
  induction ops generalizing g with
  | nil =>
    cases h
    rfl
  | cons op ops ih =>
    rw [runAll] at h
    split at h
    · cases h
    rename_i g1 hop
    rw [List.cons_append,runAll,hop]
    exact ih h

theorem runAll_append_iff {ops' : List (Ddl τ κ J)} :
    (∃ g', runAll x (ops ++ ops') g = .ok g') ↔
      ∃ g1, runAll x ops g = .ok g1 ∧ ∃ g', runAll x ops' g1 = .ok g' := by
  constructor
  · intro h
    induction ops generalizing g with
    | nil => exact ⟨g,rfl,h⟩
    | cons op ops ih =>
      rw [List.cons_append,runAll] at h
      rw [runAll]
      split at h
      · obtain ⟨g',h⟩ := h
        cases h
      · exact ih h
  · rintro ⟨g1,h,h'⟩
    rwa [runAll_append h]

end Results

end

end Relational
