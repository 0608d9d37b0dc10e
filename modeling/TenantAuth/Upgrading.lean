import TenantAuth.Revising
set_option autoImplicit false

namespace TenantAuth.Schema
open Relational

section Creation

def isCreation : Ddl TableName ColumnName Document → Bool
  | .createTable _ | .createIndex _ _ _ _ => true
  | _ => false

def creation (r : Relational.Revision TableName ColumnName Document) :
    List (Ddl TableName ColumnName Document) := r.upgrade.takeWhile isCreation

theorem creation_seeds {now : Nat → Nat} {k : Nat}
    {r : Relational.Revision TableName ColumnName Document} (hr : (revisions now)[k]? = some r) :
    ∃ r' ∈ (revisions fun _ => 0)[k]?, creation r = creation r' := by
  rcases k with _ | _ | _ | k
  · cases hr
    exact ⟨_,rfl,rfl⟩
  · cases hr
    exact ⟨_,rfl,rfl⟩
  · cases hr
    exact ⟨_,rfl,rfl⟩
  · cases hr

theorem layouts_creation : ∀ l ∈ layouts, ∀ r ∈ (revisions fun _ => 0)[l.1]?,
    createsAll [] (creation r) l.2 = true ∧
    (l.1+1,afterAll (creation r) l.2) ∈ layouts ∧
    (creation r).flatMap Ddl.touches = [] := by
  decide +kernel

theorem layouts_seeded : ∀ l ∈ layouts, (l.1 = 1 → roles ∈ l.2) ∧
    (l.1 = 3 → permissions ∈ l.2 ∧ createRolePermissions ∈ l.2) ∧
    (l.1 = 0 → ∀ t ∈ l.2, t.name ≠ .roles) ∧
    (l.1 = 2 → ∀ t ∈ l.2, t.name ≠ .permissions ∧ t.name ≠ .rolePermissions) := by
  decide +kernel

end Creation

section Seeds
variable {now : Nat → Nat} {x : Draws}

theorem roleValues_record (r : Role)
    (h : varchar 50 r.name = true ∧ varchar 255 r.description = true) :
    roles.newRow (roleValues r) x = roleRecord r := by
  funext c
  cases c
  case name => exact text_stored (cut_of_varchar h.1)
  case description => exact text_stored (cut_of_varchar h.2)
  all_goals rfl

theorem permissionValues_record (p : Permission)
    (h : varchar 100 p.name = true ∧ varchar 255 p.description = true) :
    permissions.newRow (permissionValues p) x = permissionRecord p := by
  funext c
  cases c
  case name => exact text_stored (cut_of_varchar h.1)
  case description => exact text_stored (cut_of_varchar h.2)
  all_goals rfl

def seeded (now : Nat → Nat) : DB :=
  { Seed.db 0 [] [] with roles := seedRoles now, permissions := seedPermissions now }

theorem fits_seeded (now : Nat → Nat) : Fits (seeded now) := by
  constructor
  case roles =>
    simp [seeded,seedRoles,Seed.roles]
    decide
  case permissions =>
    simp [seeded,seedPermissions,Seed.permissions]
    decide
  all_goals simp [seeded,Seed.db]

theorem sound_seeded (now : Nat → Nat) (stamps : Stamps) : (encode stamps (seeded now)).Sound := by
  have hwf : (Seed.db 0 [] []).Wf :=
    (Seed.deployed (by simp) (by simp) (by simp) (by simp) (by simp)).wf
  exact sound_encode.mpr ⟨fits_seeded now,{ hwf with }⟩

def noStamps : Stamps := ⟨fun _ => 0,fun _ => 0,fun _ => 0,fun _ => 0⟩

theorem insertAll_seeds {α : Type} {values : α → List (ColumnName × Option Value)}
    {enc : α → Record} {l : List α} {t : TableDef TableName ColumnName} {name : TableName}
    {g g0 : Tables} (hs : g.Sound) (hn : (g.tables.map TableDef.name).Nodup)
    (hr : g.relation name = some ⟨t,[]⟩) (hrow : ∀ a ∈ l, t.newRow (values a) x = enc a)
    (hk : ∀ a, t.knows ((values a).map Prod.fst) = true)
    (hl : Relation.Sound g0 ⟨t,l.map enc⟩)
    (hrefs : ∀ a ∈ l, ∀ fk ∈ t.foreignKeys, ¬ Dangles g fk (enc a)) :
    ∃ g', insertAll x name (l.map values) g = .ok g' := by
  obtain ⟨hcells,hkeys,-⟩ := hl
  have hrows : ((l.map values).map fun v => t.newRow v x) = l.map enc := by
    rw [List.map_map]
    exact List.map_congr_left hrow
  refine insertAll_ok hs hn hr (fun v hv => ?_) (fun v hv c hc => ?_) (fun key hkey => ?_)
    fun v hv fk hfk => ?_
  · obtain ⟨a,-,rfl⟩ := List.mem_map.mp hv
    exact hk a
  · obtain ⟨a,ha,rfl⟩ := List.mem_map.mp hv
    exact (hrow a ha).symm ▸ hcells (enc a) (List.mem_map_of_mem ha) c hc
  · change List.Pairwise _ ([] ++ (l.map values).map fun v => t.newRow v x)
    rw [hrows,List.nil_append]
    exact hkeys key hkey
  · obtain ⟨a,ha,rfl⟩ := List.mem_map.mp hv
    exact (hrow a ha).symm ▸ hrefs a ha fk hfk

end Seeds

section Upgrades
variable {s : Deployment} {now : Nat → Nat} {x : Draws} {g : Tables}
  {r : Relational.Revision TableName ColumnName Document}

/-- What an upgrade creates, it can always create. -/
theorem creates (hs : Tracked s) (hr : (revisions now)[s.stage]? = some r) :
    ∃ g, runAll x (creation r) s.tables = .ok g ∧ g.Sound ∧ (s.stage+1,g.tables) ∈ layouts ∧
      ∀ name, g.rows name = s.tables.rows name := by
  obtain ⟨r',hr',he⟩ := creation_seeds hr
  obtain ⟨hcreates,hlayout,htouch⟩ := layouts_creation _ hs.2 r' hr'
  obtain ⟨g,hg⟩ : ∃ g, runAll x (creation r) s.tables = .ok g :=
    runAll_create hs.1 (layouts_tables _ hs.2).1 (fun _ hn => (List.not_mem_nil hn).elim)
      (he ▸ hcreates)
  obtain ⟨htables,hsound,hrows⟩ := runAll_cases hg
  refine ⟨g,hg,hsound hs.1,?_,fun name => hrows name ?_⟩
  · rw [htables,he]
    exact hlayout
  · rw [he,htouch]
    exact List.not_mem_nil

theorem new_relation {t : TableDef TableName ColumnName} {name : TableName}
    (hlayout : (s.stage+1,g.tables) ∈ layouts) (hrows : ∀ name, g.rows name = s.tables.rows name)
    (ht : t ∈ g.tables) (hname : t.name = name) (hnew : ∀ t' ∈ s.tables.tables, t'.name ≠ name) :
    g.relation name = some ⟨t,[]⟩ := by
  subst hname
  rw [relation_of_tables (layouts_tables _ hlayout).1 ht,hrows,rows_absent hnew]

theorem runAll_bulkInsert {table : TableName} {rows : List (List (ColumnName × Option Value))}
    (ops : List (Ddl TableName ColumnName Document)) {g' : Tables}
    (h : insertAll x table rows g = .ok g') :
    runAll x (.bulkInsert table rows :: ops) g = runAll x ops g' := by
  rw [runAll,Ddl.run,h]

theorem runAll_single (op : Ddl TableName ColumnName Document) : runAll x [op] g = op.run x g := by
  rw [runAll]
  cases op.run x g with
  | error _ => rfl
  | ok _ => rfl

theorem upgrade_roles (now : Nat → Nat) (hs : Tracked s) (h0 : s.stage = 0) :
    ∃ g, runAll x (initialAuthSchema now).upgrade s.tables = .ok g ∧
      g.rows .roles = (seedRoles now).map roleRecord := by
  have hr : (revisions now)[s.stage]? = some (initialAuthSchema now) := by rw [h0]; rfl
  obtain ⟨g1,hg1,hsound,hlayout,hrows⟩ := creates (x := x) hs hr
  obtain ⟨hroles,-,-,-⟩ := layouts_seeded _ hlayout
  obtain ⟨-,-,hnew,-⟩ := layouts_seeded _ hs.2
  have hrel : g1.relation .roles = some ⟨roles,[]⟩ :=
    new_relation hlayout hrows (hroles (congrArg (· + 1) h0)) rfl (hnew h0)
  have hseeds : Relation.Sound (encode noStamps (seeded now))
      ⟨roles,(seedRoles now).map roleRecord⟩ :=
    sound_seeded now noStamps _ (List.mem_cons_of_mem _ List.mem_cons_self)
  have hrow : ∀ r ∈ seedRoles now, roles.newRow (roleValues r) x = roleRecord r :=
    fun r hr => roleValues_record r ((fits_seeded now).roles r hr)
  obtain ⟨g,hg⟩ : ∃ g, insertAll x .roles ((seedRoles now).map roleValues) g1 = .ok g :=
    insertAll_seeds hsound (layouts_tables _ hlayout).1 hrel hrow (fun _ => rfl) hseeds
      fun _ _ fk hfk => (List.not_mem_nil hfk).elim
  have hsplit : (initialAuthSchema now).upgrade = creation (initialAuthSchema now) ++
      [.bulkInsert .roles ((seedRoles now).map roleValues)] := rfl
  refine ⟨g,?_,?_⟩
  · rw [hsplit,runAll_append hg1]
    exact runAll_bulkInsert [] hg
  · rw [insertAll_rows hrel hg,List.map_map]
    exact List.map_congr_left hrow

theorem upgrade_tokens (hs : Tracked s) (h1 : s.stage = 1) :
    ∃ g, runAll x addTokens.upgrade s.tables = .ok g := by
  have hr : (revisions fun _ => 0)[s.stage]? = some addTokens := by rw [h1]; rfl
  obtain ⟨g,hg,-,-,-⟩ := creates (x := x) hs hr
  exact ⟨g,hg⟩

theorem upgrade_permissions (now : Nat → Nat) (hs : Tracked s) (h2 : s.stage = 2) :
    ∃ g, runAll x (addRbacTables now).upgrade s.tables =
        insertAll x .rolePermissions (Seed.rolePermissions.map rolePermissionValues) g ∧
      g.Sound ∧ (g.tables.map TableDef.name).Nodup ∧
      g.relation .rolePermissions = some ⟨createRolePermissions,[]⟩ ∧
      g.rows .permissions = (seedPermissions now).map permissionRecord ∧
      g.rows .roles = s.tables.rows .roles := by
  have hr : (revisions now)[s.stage]? = some (addRbacTables now) := by rw [h2]; rfl
  obtain ⟨g1,hg1,hsound,hlayout,hrows⟩ := creates (x := x) hs hr
  obtain ⟨-,hthree,-,-⟩ := layouts_seeded _ hlayout
  obtain ⟨-,-,-,hnew⟩ := layouts_seeded _ hs.2
  obtain ⟨hpermissions,hrolePermissions⟩ := hthree (congrArg (· + 1) h2)
  have hn := (layouts_tables _ hlayout).1
  have hrel : g1.relation .permissions = some ⟨permissions,[]⟩ :=
    new_relation hlayout hrows hpermissions rfl fun t ht => (hnew h2 t ht).1
  have hseeds : Relation.Sound (encode noStamps (seeded now))
      ⟨permissions,(seedPermissions now).map permissionRecord⟩ :=
    sound_seeded now noStamps _ (by simp [encode,seeded])
  have hrow : ∀ p ∈ seedPermissions now,
      permissions.newRow (permissionValues p) x = permissionRecord p :=
    fun p hp => permissionValues_record p ((fits_seeded now).permissions p hp)
  obtain ⟨g,hg⟩ : ∃ g, insertAll x .permissions ((seedPermissions now).map permissionValues) g1 =
      .ok g :=
    insertAll_seeds hsound hn hrel hrow (fun _ => rfl) hseeds
      fun _ _ fk hfk => (List.not_mem_nil hfk).elim
  obtain ⟨htables,hkeep,hothers⟩ := insertAll_cases hg
  have hsplit : (addRbacTables now).upgrade = creation (addRbacTables now) ++
      [.bulkInsert .permissions ((seedPermissions now).map permissionValues),
        .bulkInsert .rolePermissions (Seed.rolePermissions.map rolePermissionValues)] := rfl
  refine ⟨g,?_,hkeep hsound,htables ▸ hn,?_,?_,?_⟩
  · rw [hsplit,runAll_append hg1,runAll_bulkInsert _ hg,runAll_single]
    rfl
  · have hempty : g.rows .rolePermissions = [] := by
      rw [hothers _ (by decide),hrows,rows_absent fun t ht => (hnew h2 t ht).2]
    have hrelation := relation_of_tables (htables ▸ hn) (htables ▸ hrolePermissions)
    exact hrelation.trans (by rw [← hempty]; rfl)
  · rw [insertAll_rows hrel hg,List.map_map]
    exact List.map_congr_left hrow
  · rw [hothers _ (by decide),hrows]

/-- The roles that the third revision gives permissions to. -/
def RolesHeld (g : Tables) : Prop :=
  ∀ id ∈ [Seed.superAdmin,Seed.admin,Seed.user], ∃ row ∈ g.rows .roles, row .id = some (.uuid id)

instance (g : Tables) : Decidable (RolesHeld g) := by
  unfold RolesHeld
  infer_instance

theorem seeds_roles : ∀ id ∈ [Seed.superAdmin,Seed.admin,Seed.user],
    ∃ r ∈ Seed.rolePermissions, r.roleId = id := by
  decide

theorem seeds_ids : ∀ r ∈ Seed.rolePermissions, r.roleId ∈ [Seed.superAdmin,Seed.admin,Seed.user] ∧
    r.permissionId ∈ [Seed.usersRead,Seed.usersWrite,Seed.usersDelete,Seed.rolesManage] := by
  decide

theorem insertAll_rolePermissions (hs : g.Sound) (hn : (g.tables.map TableDef.name).Nodup)
    (hrel : g.relation .rolePermissions = some ⟨createRolePermissions,[]⟩)
    (hpermissions : g.rows .permissions = (seedPermissions now).map permissionRecord) :
    (∃ g', insertAll x .rolePermissions (Seed.rolePermissions.map rolePermissionValues) g =
      .ok g') ↔ RolesHeld g := by
  constructor
  · rintro ⟨g',h⟩ id hid
    obtain ⟨r,hr,rfl⟩ := seeds_roles id hid
    obtain ⟨htables,hkeep,hothers⟩ := insertAll_cases h
    have hrows := insertAll_rows hrel h
    have hmem : createRolePermissions ∈ g'.tables := by
      rw [htables]
      exact List.mem_map_of_mem (List.mem_of_find?_eq_some hrel)
    have hrel' := relation_of_tables (htables ▸ hn) hmem
    obtain ⟨-,-,hrefs⟩ := hkeep hs _ (List.mem_of_find?_eq_some hrel')
    have hrow : rolePermissionRecord r ∈ g'.rows .rolePermissions := by
      rw [hrows,← rolePermissionValues_record (x := x) r]
      exact List.mem_append_right _ (List.mem_map_of_mem (List.mem_map_of_mem hr))
    have hfound := hrefs ⟨.roleId,.roles,.id,.cascade⟩ List.mem_cons_self _ hrow
    by_contra hmissing
    refine hfound ⟨.uuid r.roleId,rfl,fun row hrole he => hmissing ⟨row,?_,he⟩⟩
    rwa [hothers _ (by decide)] at hrole
  · intro hroles
    refine insertAll_seeds hs hn hrel (fun r _ => rolePermissionValues_record r) (fun _ => rfl)
      (sound_seeded now noStamps _ (by simp [encode,seeded,Seed.db])) fun r hr fk hfk => ?_
    obtain ⟨hrole,hpermission⟩ := seeds_ids r hr
    rintro ⟨v,hv,hnone⟩
    rcases List.mem_pair.mp hfk with rfl | rfl
    · obtain rfl : Datum.uuid r.roleId = v := Option.some.inj hv
      obtain ⟨row,hrow,he⟩ := hroles r.roleId hrole
      exact hnone row hrow he
    · obtain rfl : Datum.uuid r.permissionId = v := Option.some.inj hv
      have hids : (seedPermissions now).map Permission.id =
          [Seed.usersRead,Seed.usersWrite,Seed.usersDelete,Seed.rolesManage] := rfl
      obtain ⟨p,hp,he⟩ := List.mem_map.mp (hids ▸ hpermission)
      refine hnone (permissionRecord p) (hpermissions ▸ List.mem_map_of_mem hp) ?_
      exact congrArg (fun id => some (Datum.uuid id)) he

theorem revision_at {k : Nat} {r' : Relational.Revision TableName ColumnName Document}
    (hk : s.stage = k) (hr : (revisions now)[s.stage]? = some r)
    (hr' : (revisions now)[k]? = some r') : r' = r :=
  Option.some.inj (hr'.symm.trans (hk ▸ hr))

theorem upgrade_iff (hs : Tracked s) (hr : (revisions now)[s.stage]? = some r) :
    (∃ g, runAll x r.upgrade s.tables = .ok g) ↔ (s.stage = 2 → RolesHeld s.tables) := by
  obtain h0 | h1 | h2 : s.stage = 0 ∨ s.stage = 1 ∨ s.stage = 2 := by
    have hlt : s.stage < 3 := (List.getElem?_eq_some_iff.mp hr).1
    omega
  · obtain rfl : initialAuthSchema now = r := revision_at h0 hr rfl
    obtain ⟨g0,hg0,-⟩ := upgrade_roles (x := x) now hs h0
    exact ⟨fun _ h2 => by omega,fun _ => ⟨g0,hg0⟩⟩
  · obtain rfl : addTokens = r := revision_at h1 hr rfl
    exact ⟨fun _ h2 => by omega,fun _ => upgrade_tokens hs h1⟩
  · obtain rfl : addRbacTables now = r := revision_at h2 hr rfl
    obtain ⟨g1,hrun,hsound,hn,hrel,hpermissions,hroles⟩ := upgrade_permissions (x := x) now hs h2
    have hheld : RolesHeld g1 ↔ RolesHeld s.tables := by rw [RolesHeld,RolesHeld,hroles]
    rw [hrun,insertAll_rolePermissions hsound hn hrel hpermissions,hheld]
    exact ⟨fun hg _ => hg,fun hg => hg h2⟩

theorem upgrade_seeds (hs : Tracked s) (hr : (revisions now)[s.stage]? = some r)
    (hg : runAll x r.upgrade s.tables = .ok g) :
    (s.stage = 0 → g.rows .roles = (seedRoles now).map roleRecord) ∧
    (s.stage = 2 → g.rows .permissions = (seedPermissions now).map permissionRecord ∧
      g.rows .rolePermissions = Seed.rolePermissions.map rolePermissionRecord) := by
  refine ⟨fun h0 => ?_,fun h2 => ?_⟩
  · obtain rfl : initialAuthSchema now = r := revision_at h0 hr rfl
    obtain ⟨g0,hg0,hroles⟩ := upgrade_roles (x := x) now hs h0
    obtain rfl : g0 = g := Except.ok.inj (hg0.symm.trans hg)
    exact hroles
  · obtain rfl : addRbacTables now = r := revision_at h2 hr rfl
    obtain ⟨g1,hrun,-,-,hrel,hpermissions,-⟩ := upgrade_permissions (x := x) now hs h2
    rw [hrun] at hg
    refine ⟨?_,?_⟩
    · rw [(insertAll_cases hg).2.2 _ (by decide),hpermissions]
    · rw [insertAll_rows hrel hg,List.map_map]
      exact List.map_congr_left fun r _ => rolePermissionValues_record r

/-- In every run of upgrades, downgrades, the SQL file and statements of any kind the next upgrade
goes through, save that the third revision needs the roles that it gives permissions to: the first
one has inserted them, but nothing keeps them there. What an upgrade seeds is all that its tables
then hold. -/
theorem upgrades_succeed (h : Relation.ReflTransGen Revised ⟨0,[]⟩ s)
    (hr : (revisions now)[s.stage]? = some r) :
    ((∃ g, runAll x r.upgrade s.tables = .ok g) ↔ (s.stage = 2 → RolesHeld s.tables)) ∧
    ∀ g, runAll x r.upgrade s.tables = .ok g →
      (s.stage = 0 → g.rows .roles = (seedRoles now).map roleRecord) ∧
      (s.stage = 2 → g.rows .permissions = (seedPermissions now).map permissionRecord ∧
        g.rows .rolePermissions = Seed.rolePermissions.map rolePermissionRecord) :=
  ⟨upgrade_iff (tracked_run h) hr,fun _ hg => upgrade_seeds (tracked_run h) hr hg⟩

end Upgrades

section Deleted

def deleted : Option Tables :=
  (runAll ⟨0,0⟩ (initialAuthSchema fun _ => 0).upgrade []).toOption.bind fun g =>
    (runAll ⟨0,0⟩ addTokens.upgrade g).toOption.bind fun g =>
      ((Statement.delete .roles [(.id,.uuid Seed.user)]).exec g).toOption

/-- The third upgrade fails then. -/
theorem upgrades_succeed_deleted :
    ∃ g, deleted = some g ∧ Relation.ReflTransGen Revised ⟨0,[]⟩ ⟨2,g⟩ ∧
      ¬ ∃ g', runAll ⟨0,0⟩ (addRbacTables fun _ => 0).upgrade g = .ok g' := by
  have hgone : deleted.map (fun g =>
      decide (∃ row ∈ g.rows .roles, row .id = some (.uuid Seed.user))) = some false := by
    decide +kernel
  obtain ⟨g,hg,hnone⟩ := Option.map_eq_some_iff.mp hgone
  obtain ⟨g1,hg1,hrest⟩ := Option.bind_eq_some_iff.mp hg
  obtain ⟨g2,hg2,hg3⟩ := Option.bind_eq_some_iff.mp hrest
  have hsteps : Relation.ReflTransGen Revised ⟨0,[]⟩ ⟨2,g⟩ :=
    .tail (.tail (.single (.upgrade (fun _ => 0) ⟨0,0⟩ rfl (of_toOption hg1)))
      (.upgrade (fun _ => 0) ⟨0,0⟩ rfl (of_toOption hg2))) (.statement _ (of_toOption hg3))
  refine ⟨g,hg,hsteps,fun hup => ?_⟩
  have hheld := (upgrades_succeed (x := ⟨0,0⟩) hsteps rfl).1.mp hup rfl
  exact of_decide_eq_false hnone (hheld Seed.user (by decide))

end Deleted

end TenantAuth.Schema
