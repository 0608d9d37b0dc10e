import TenantAuth.Records
set_option autoImplicit false

namespace TenantAuth.Schema
open Transact Relational

abbrev Sql := Relational.Statement TableName ColumnName Document

/-- The keys of the rows that refer to a row. -/
def keysOf (g : Tables) (table : TableName) (c : ColumnName) (k : UUID) : List Value :=
  (g.rows table).filterMap fun row => if row c = some (.uuid k) then row .id else none

/-- The columns of a patch that are set; a changed row is stamped. -/
def userSets (p : UserPatch) (now : Nat) : List (ColumnName × Option Value) :=
  (p.passwordHash.toList.map fun v => (.passwordHash,some (.text v))) ++
    (p.firstName.toList.map fun v => (.firstName,v.map .text)) ++
    (p.lastName.toList.map fun v => (.lastName,v.map .text)) ++
    (p.isActive.toList.map fun v => (.isActive,v.map .bool)) ++
    (p.isVerified.toList.map fun v => (.isVerified,some (.bool v))) ++
    [(.updatedAt,some (.time now))]

def tenantSets (p : TenantPatch) (now : Nat) : List (ColumnName × Option Value) :=
  (p.name.toList.map fun v => (.name,some (.text v))) ++
    (p.isActive.toList.map fun v => (.isActive,some (.bool v))) ++
    [(.updatedAt,some (.time now))]

def memberSets (p : TenantMemberPatch) : List (ColumnName × Option Value) :=
  (p.roleId.toList.map fun v => (.roleId,some (.uuid v))) ++
    (p.isActive.toList.map fun v => (.isActive,some (.bool v)))

/-- The keys of what a session has loaded of a user's rows. -/
structure Owned where
  tenants : List Value
  members : List Value
  refreshTokens : List Value

/-- When a flush takes place: the server's `now()`, and what the session of a deletion has loaded by
then. The user is given no tenant behind that load; members and tokens may come and go. -/
structure Moment where
  now : Nat
  loaded : UUID → Tables → Owned
  tenants : ∀ id g, (loaded id g).tenants = keysOf g .tenants .ownerId id
  members : ∀ id x d, (encode x d).Sound → ∀ k ∈ (loaded id (encode x d)).members,
    ∀ m ∈ d.members, .uuid m.id = k → m.userId = id
  refreshTokens : ∀ id x d, (encode x d).Sound → ∀ k ∈ (loaded id (encode x d)).refreshTokens,
    ∀ r ∈ d.refreshTokens, .uuid r.id = k → r.userId = id

/-- The statements of a flush. A deleted user takes the loaded members and refresh tokens along;
tenants lose their owner. -/
def statements (t : Moment) : Write → Tables → List Sql
  | .insertUser r,_ => [.insert .users
      [(.id,some (.uuid r.id)),(.email,some (.text r.email)),
        (.passwordHash,some (.text r.passwordHash)),(.firstName,some (.text r.firstName)),
        (.lastName,some (.text r.lastName)),(.isActive,some (.bool r.isActive)),
        (.isVerified,some (.bool r.isVerified))] ⟨r.createdAt,0⟩]
  | .updateUser id p now,_ => [.update .users .id (.uuid id) (userSets p now)]
  | .deleteUser id,g =>
    ((t.loaded id g).tenants.map fun k =>
      .update .tenants .id k [(.ownerId,none),(.updatedAt,some (.time t.now))]) ++
    ((t.loaded id g).members.map fun k => .delete .tenantMembers [(.id,k)]) ++
    ((t.loaded id g).refreshTokens.map fun k => .delete .refreshTokens [(.id,k)]) ++
    [.delete .users [(.id,.uuid id)]]
  | .insertTenant r,_ => [.insert .tenants
      [(.id,some (.uuid r.id)),(.name,some (.text r.name)),(.slug,some (.text r.slug)),
        (.ownerId,some (.uuid r.ownerId)),(.isActive,some (.bool r.isActive))] ⟨r.createdAt,0⟩]
  | .updateTenant id p now,_ => [.update .tenants .id (.uuid id) (tenantSets p now)]
  | .insertMember r,_ => [.insert .tenantMembers
      [(.id,some (.uuid r.id)),(.tenantId,some (.uuid r.tenantId)),
        (.userId,some (.uuid r.userId)),(.roleId,some (.uuid r.roleId)),
        (.isActive,some (.bool r.isActive))] ⟨r.joinedAt,0⟩]
  | .updateMember id p,_ => [.update .tenantMembers .id (.uuid id) (memberSets p)]
  | .insertInvitation r,_ => [.insert .tenantInvitations
      [(.id,some (.uuid r.id)),(.tenantId,some (.uuid r.tenantId)),(.email,some (.text r.email)),
        (.roleId,some (.uuid r.roleId)),(.tokenHash,some (.text r.tokenHash)),
        (.expiresAt,some (.time r.expiresAt)),(.acceptedAt,r.acceptedAt.map .time)] ⟨t.now,0⟩]
  | .acceptInvitation id now,_ =>
    [.update .tenantInvitations .id (.uuid id) [(.acceptedAt,some (.time now))]]
  | .insertRefreshToken r,_ => [.insert .refreshTokens
      [(.id,some (.uuid r.id)),(.userId,some (.uuid r.userId)),(.tenantId,r.tenantId.map .uuid),
        (.tokenHash,some (.text r.tokenHash)),(.expiresAt,some (.time r.expiresAt)),
        (.revokedAt,r.revokedAt.map .time)] ⟨t.now,0⟩]
  | .revokeRefreshToken id now,_ =>
    [.update .refreshTokens .id (.uuid id) [(.revokedAt,some (.time now))]]
  -- The server makes the id of a one-time token.
  | .insertVerificationToken r,_ => [.insert .emailVerificationTokens
      [(.userId,some (.uuid r.userId)),(.tokenHash,some (.text r.tokenHash)),
        (.expiresAt,some (.time r.expiresAt)),(.usedAt,r.usedAt.map .time)] ⟨t.now,r.id⟩]
  | .useVerificationToken id now,_ =>
    [.update .emailVerificationTokens .id (.uuid id) [(.usedAt,some (.time now))]]
  | .insertResetToken r,_ => [.insert .passwordResetTokens
      [(.userId,some (.uuid r.userId)),(.tokenHash,some (.text r.tokenHash)),
        (.expiresAt,some (.time r.expiresAt)),(.usedAt,r.usedAt.map .time)] ⟨t.now,r.id⟩]
  | .useResetToken id now,_ =>
    [.update .passwordResetTokens .id (.uuid id) [(.usedAt,some (.time now))]]
  | .insertAuditLog r,_ => [.insert .auditLogs
      [(.id,some (.uuid r.id)),(.tenantId,r.tenantId.map .uuid),(.userId,r.userId.map .uuid),
        (.action,some (.text r.action)),(.details,some (.json r.details)),
        (.ipAddress,r.ipAddress.map .text)] ⟨r.createdAt,0⟩]
  | .insertRolePermission r,_ => [.insert .rolePermissions (rolePermissionValues r) ⟨t.now,0⟩]
  | .deleteRolePermission r,_ =>
    [.delete .rolePermissions [(.roleId,.uuid r.roleId),(.permissionId,.uuid r.permissionId)]]
  | .insertUserRole r,_ => [.insert .userRoles
      [(.userId,some (.uuid r.userId)),(.roleId,some (.uuid r.roleId))] ⟨t.now,0⟩]
  | .deleteUserRole r,_ =>
    [.delete .userRoles [(.userId,.uuid r.userId),(.roleId,.uuid r.roleId)]]
  | .createSchema _,_ => []

/-- The texts that a write stores as they are, with the lengths of their columns. -/
def texts : Write → List (Nat × String)
  | .insertUser r => [(255,r.email),(255,r.passwordHash),(100,r.firstName),(100,r.lastName)]
  | .updateUser _ p _ => p.passwordHash.toList.map (255,·)
  | .insertTenant r => [(255,r.name),(100,r.slug)]
  | .updateTenant _ p _ => p.name.toList.map (255,·)
  | .insertInvitation r => [(255,r.email),(255,r.tokenHash)]
  | .insertRefreshToken r => [(255,r.tokenHash)]
  | .insertVerificationToken r | .insertResetToken r => [(255,r.tokenHash)]
  | .insertAuditLog r => (255,r.action) :: r.ipAddress.toList.map (45,·)
  | _ => []

/-- None of them is cut. -/
def Uncut (l : List (Nat × String)) : Prop := ∀ x ∈ l, cut x.1 x.2 = x.2

instance (l : List (Nat × String)) : Decidable (Uncut l) := by
  unfold Uncut
  infer_instance

section Rows
variable {α : Type} {enc : α → Record} {key : α → UUID} {l : List α} {k : UUID}

theorem rows_update {t : TableDef TableName ColumnName} {sets : List (ColumnName × Option Value)}
    {f : α → α} (hkey : ∀ a, enc a .id = some (.uuid (key a)))
    (hset : ∀ a, t.assign (enc a) sets = enc (f a)) :
    ((l.map enc).map fun row => if row .id = some (.uuid k) then t.assign row sets else row) =
      (update key k f l).map enc := by
  rw [update,List.map_map,List.map_map]
  refine List.map_congr_left fun a _ => ?_
  by_cases ha : key a = k
  · simp [ha,hkey,hset]
  · simp [ha,hkey]

theorem rows_delete {c : ColumnName} (hkey : ∀ a, enc a c = some (.uuid (key a))) :
    ((l.map enc).filter fun row => ¬ Row.agrees row [(c,.uuid k)]) = (delete key k l).map enc := by
  rw [List.filter_map,delete]
  refine congrArg _ (List.filter_congr fun a _ => ?_)
  simp [Row.agrees,hkey]

theorem rows_found {g : Tables} {table : TableName} (hrows : g.rows table = l.map enc)
    (hkey : ∀ a, enc a .id = some (.uuid (key a))) :
    g.found table .id (.uuid k) = 0 ↔ k ∉ l.map key := by
  simp [Database.found,hrows,List.filter_map,List.filter_eq_nil_iff,hkey]

end Rows

section
variable {x : Stamps} {d : DB} {t : Nat}

@[simp] theorem uncut_nil : Uncut [] ↔ True := by simp [Uncut]

@[simp] theorem uncut_cons {n : Nat} {s : String} {l : List (Nat × String)} :
    Uncut ((n,s) :: l) ↔ cut n s = s ∧ Uncut l := List.forall_mem_cons

@[simp] theorem uncut_optional {n : Nat} {o : Option String} :
    Uncut (o.toList.map (n,·)) ↔ ∀ s ∈ o, cut n s = s := by
  cases o <;> simp

theorem insertUser_record (r : User) (h : r.updatedAt = r.createdAt)
    (hcut : Uncut (texts (.insertUser r))) :
    users.newRow [(.id,some (.uuid r.id)),(.email,some (.text r.email)),
        (.passwordHash,some (.text r.passwordHash)),(.firstName,some (.text r.firstName)),
        (.lastName,some (.text r.lastName)),(.isActive,some (.bool r.isActive)),
        (.isVerified,some (.bool r.isVerified))] ⟨r.createdAt,0⟩ = userRecord r := by
  simp only [texts,uncut_cons] at hcut
  obtain ⟨hemail,hhash,hfirst,hlast,-⟩ := hcut
  funext c
  cases c
  case email => exact text_stored hemail
  case passwordHash => exact text_stored hhash
  case firstName => exact text_stored hfirst
  case lastName => exact text_stored hlast
  case updatedAt => exact congrArg (fun t => some (Datum.time t)) h.symm
  all_goals rfl

theorem assign_nullable {α : Type} {t : TableDef TableName ColumnName} {row : Record}
    {sets : List (ColumnName × Option Value)} {c : ColumnName} {o : Option (Option α)} {a : α}
    {f : α → Value} {g : α → α} (hset : sets.lookup c = o.map fun v => v.map f)
    (hrow : row c = some (f a)) (hnull : o ≠ some none)
    (hg : ∀ v ∈ o.join, t.stored c (f v) = f (g v)) :
    t.assign row sets c = some (f ((o.join.map g).getD a)) := by
  rw [TableDef.assign,hset]
  rcases o with _ | _ | v
  · exact hrow
  · exact absurd rfl hnull
  · exact congrArg some (hg v rfl)

theorem assign_optional {α : Type} {t : TableDef TableName ColumnName} {row : Record}
    {sets : List (ColumnName × Option Value)} {c : ColumnName} {o : Option α} {a : α}
    {f : α → Value} (hset : sets.lookup c = o.map fun v => some (f v)) (hrow : row c = some (f a))
    (hg : ∀ v ∈ o, t.stored c (f v) = f v) : t.assign row sets c = some (f (o.getD a)) := by
  rw [TableDef.assign,hset]
  cases o with
  | none => exact hrow
  | some v => exact congrArg some (hg v rfl)

theorem updateUser_record (u : User) (p : UserPatch) (now : Nat) (hf : p.firstName ≠ some none)
    (hl : p.lastName ≠ some none) (ha : p.isActive ≠ some none)
    (hcut : ∀ s ∈ p.passwordHash, cut 255 s = s) :
    users.assign (userRecord u) (userSets p now) = userRecord (p.apply now u) := by
  have hset : ∀ c, (userSets p now).lookup c = match c with
      | .passwordHash => p.passwordHash.map fun v => some (.text v)
      | .firstName => p.firstName.map fun v => v.map .text
      | .lastName => p.lastName.map fun v => v.map .text
      | .isActive => p.isActive.map fun v => v.map .bool
      | .isVerified => p.isVerified.map fun v => some (.bool v)
      | .updatedAt => some (some (.time now))
      | _ => none := by
    intro c
    cases c <;> simp [userSets,List.lookup_append,lookup_optional,lookup_single]
  funext c
  have hc := hset c
  cases c
  case passwordHash => exact assign_optional hc rfl fun s h => congrArg Datum.text (hcut s h)
  case firstName => exact assign_nullable hc rfl hf fun _ _ => rfl
  case lastName => exact assign_nullable hc rfl hl fun _ _ => rfl
  case isActive =>
    exact (assign_nullable (g := id) hc rfl ha fun _ _ => rfl).trans (by rw [Option.map_id_apply]; rfl)
  case isVerified => exact assign_optional hc rfl fun _ _ => rfl
  all_goals
    rw [TableDef.assign,hc]
    rfl

theorem rows_insert {α : Type} {enc : α → Record} {l : List α} {r : α} {row : Record}
    (h : row = enc r) : l.map enc ++ [row] = (l ++ [r]).map enc := by
  rw [h,List.map_append,List.map_singleton]

theorem insertTenant_record (r : Tenant) (h : r.updatedAt = r.createdAt)
    (hcut : Uncut (texts (.insertTenant r))) :
    tenants.newRow [(.id,some (.uuid r.id)),(.name,some (.text r.name)),
        (.slug,some (.text r.slug)),(.ownerId,some (.uuid r.ownerId)),
        (.isActive,some (.bool r.isActive))] ⟨r.createdAt,0⟩ = tenantRecord r := by
  simp only [texts,uncut_cons] at hcut
  funext c
  cases c
  case name => exact text_stored hcut.1
  case slug => exact text_stored hcut.2.1
  case updatedAt => exact congrArg (fun t => some (Datum.time t)) h.symm
  all_goals rfl

theorem insertMember_record (r : TenantMember) :
    createTenantMembers.newRow [(.id,some (.uuid r.id)),(.tenantId,some (.uuid r.tenantId)),
        (.userId,some (.uuid r.userId)),(.roleId,some (.uuid r.roleId)),
        (.isActive,some (.bool r.isActive))] ⟨r.joinedAt,0⟩ = memberRecord r := by
  funext c
  cases c <;> rfl

theorem optional_stored {α : Type} {o : Option α} {f : α → Value} {g : Value → Value}
    (h : ∀ a ∈ o, g (f a) = f a) : (o.map f).map g = o.map f := by
  cases o with
  | none => rfl
  | some a => exact congrArg some (h a rfl)

theorem insertAuditLog_record (r : AuditLog) (hcut : Uncut (texts (.insertAuditLog r))) :
    auditLogs.newRow [(.id,some (.uuid r.id)),(.tenantId,r.tenantId.map .uuid),
        (.userId,r.userId.map .uuid),(.action,some (.text r.action)),
        (.details,some (.json r.details)),(.ipAddress,r.ipAddress.map .text)]
        ⟨r.createdAt,0⟩ = auditLogRecord r := by
  simp only [texts,uncut_cons,uncut_optional] at hcut
  funext c
  cases c
  case tenantId | userId => exact optional_stored fun _ _ => rfl
  case ipAddress => exact optional_stored fun ip h => congrArg Datum.text (hcut.2 ip h)
  case action => exact text_stored hcut.1
  all_goals rfl

theorem insertUserRole_record (r : UserRole) (t : Nat) :
    createUserRoles.newRow [(.userId,some (.uuid r.userId)),(.roleId,some (.uuid r.roleId))]
      ⟨t,0⟩ = userRoleRecord r := by
  funext c
  cases c <;> rfl

theorem insertInvitation_record (r : TenantInvitation) (stamp : UUID → Nat) (t : Nat)
    (hcut : Uncut (texts (.insertInvitation r))) :
    tenantInvitations.newRow [(.id,some (.uuid r.id)),(.tenantId,some (.uuid r.tenantId)),
        (.email,some (.text r.email)),(.roleId,some (.uuid r.roleId)),
        (.tokenHash,some (.text r.tokenHash)),(.expiresAt,some (.time r.expiresAt)),
        (.acceptedAt,r.acceptedAt.map .time)] ⟨t,0⟩ =
      invitationRecord (Function.update stamp r.id t) r := by
  simp only [texts,uncut_cons] at hcut
  funext c
  cases c
  case email => exact text_stored hcut.1
  case tokenHash => exact text_stored hcut.2.1
  case acceptedAt => exact optional_stored fun _ _ => rfl
  case createdAt => exact (congrArg (fun t => some (Datum.time t)) (Function.update_self ..)).symm
  all_goals rfl

theorem insertRefreshToken_record (r : RefreshToken) (stamp : UUID → Nat) (t : Nat)
    (hcut : Uncut (texts (.insertRefreshToken r))) :
    refreshTokens.newRow [(.id,some (.uuid r.id)),(.userId,some (.uuid r.userId)),
        (.tenantId,r.tenantId.map .uuid),(.tokenHash,some (.text r.tokenHash)),
        (.expiresAt,some (.time r.expiresAt)),(.revokedAt,r.revokedAt.map .time)] ⟨t,0⟩ =
      refreshTokenRecord (Function.update stamp r.id t) r := by
  simp only [texts,uncut_cons] at hcut
  funext c
  cases c
  case tokenHash => exact text_stored hcut.1
  case tenantId | revokedAt => exact optional_stored fun _ _ => rfl
  case createdAt => exact (congrArg (fun t => some (Datum.time t)) (Function.update_self ..)).symm
  all_goals rfl

theorem insertOneTimeToken_record (name : TableName) (r : OneTimeToken) (stamp : UUID → Nat)
    (t : Nat) (hcut : Uncut [(255,r.tokenHash)]) :
    (createOneTimeTokens name).newRow [(.userId,some (.uuid r.userId)),
        (.tokenHash,some (.text r.tokenHash)),(.expiresAt,some (.time r.expiresAt)),
        (.usedAt,r.usedAt.map .time)] ⟨t,r.id⟩ =
      oneTimeTokenRecord (Function.update stamp r.id t) r := by
  simp only [uncut_cons] at hcut
  funext c
  cases c
  case tokenHash => exact text_stored hcut.1
  case usedAt => exact optional_stored fun _ _ => rfl
  case createdAt => exact (congrArg (fun t => some (Datum.time t)) (Function.update_self ..)).symm
  all_goals rfl

theorem rows_stamp {α : Type} {enc : (UUID → Nat) → α → Record} {key : α → UUID} {l : List α}
    {r : α} {row : Record} {stamp : UUID → Nat} {t : Nat}
    (hloc : ∀ s s' a, s (key a) = s' (key a) → enc s a = enc s' a) (hr : key r ∉ l.map key)
    (h : row = enc (Function.update stamp (key r) t) r) :
    l.map (enc stamp) ++ [row] = (l ++ [r]).map (enc (Function.update stamp (key r) t)) := by
  rw [h,List.map_append,List.map_singleton]
  refine congrArg (· ++ [enc (Function.update stamp (key r) t) r])
    (List.map_congr_left fun a ha => hloc _ _ _ (Function.update_of_ne ?_ _ _).symm)
  exact fun he => hr (he ▸ List.mem_map_of_mem ha)

theorem invitationRecord_congr (s s' : UUID → Nat) (i : TenantInvitation) (h : s i.id = s' i.id) :
    invitationRecord s i = invitationRecord s' i := by
  funext c
  cases c
  case createdAt => exact congrArg (fun t => some (Datum.time t)) h
  all_goals rfl

theorem refreshTokenRecord_congr (s s' : UUID → Nat) (r : RefreshToken) (h : s r.id = s' r.id) :
    refreshTokenRecord s r = refreshTokenRecord s' r := by
  funext c
  cases c
  case createdAt => exact congrArg (fun t => some (Datum.time t)) h
  all_goals rfl

theorem oneTimeTokenRecord_congr (s s' : UUID → Nat) (r : OneTimeToken) (h : s r.id = s' r.id) :
    oneTimeTokenRecord s r = oneTimeTokenRecord s' r := by
  funext c
  cases c
  case createdAt => exact congrArg (fun t => some (Datum.time t)) h
  all_goals rfl

theorem updateTenant_record (p : TenantPatch) (now : Nat) (r : Tenant)
    (hcut : ∀ s ∈ p.name, cut 255 s = s) :
    tenants.assign (tenantRecord r) (tenantSets p now) = tenantRecord (p.apply now r) := by
  have hset : ∀ c, (tenantSets p now).lookup c = match c with
      | .name => p.name.map fun v => some (.text v)
      | .isActive => p.isActive.map fun v => some (.bool v)
      | .updatedAt => some (some (.time now))
      | _ => none := by
    intro c
    cases c <;> simp [tenantSets,List.lookup_append,lookup_optional,lookup_single]
  funext c
  have hc := hset c
  cases c
  case name => exact assign_optional hc rfl fun s h => congrArg Datum.text (hcut s h)
  case isActive => exact assign_optional hc rfl fun _ _ => rfl
  all_goals
    rw [TableDef.assign,hc]
    rfl

theorem updateMember_record (p : TenantMemberPatch) (r : TenantMember) :
    createTenantMembers.assign (memberRecord r) (memberSets p) = memberRecord (p.apply r) := by
  have hset : ∀ c, (memberSets p).lookup c = match c with
      | .roleId => p.roleId.map fun v => some (.uuid v)
      | .isActive => p.isActive.map fun v => some (.bool v)
      | _ => none := by
    intro c
    cases c <;> simp [memberSets,List.lookup_append,lookup_optional]
  funext c
  have hc := hset c
  cases c
  case roleId | isActive => exact assign_optional hc rfl fun _ _ => rfl
  all_goals
    rw [TableDef.assign,hc]
    rfl

theorem acceptInvitation_record (stamp : UUID → Nat) (now : Nat) (i : TenantInvitation) :
    tenantInvitations.assign (invitationRecord stamp i) [(.acceptedAt,some (.time now))] =
      invitationRecord stamp { i with acceptedAt := some now } := by
  funext c
  cases c <;> rfl

theorem revokeRefreshToken_record (stamp : UUID → Nat) (now : Nat) (r : RefreshToken) :
    refreshTokens.assign (refreshTokenRecord stamp r) [(.revokedAt,some (.time now))] =
      refreshTokenRecord stamp { r with revokedAt := some now } := by
  funext c
  cases c <;> rfl

theorem useOneTimeToken_record (name : TableName) (stamp : UUID → Nat) (now : Nat) (r : OneTimeToken) :
    (createOneTimeTokens name).assign (oneTimeTokenRecord stamp r) [(.usedAt,some (.time now))] =
      oneTimeTokenRecord stamp { r with usedAt := some now } := by
  funext c
  cases c <;> rfl

theorem knows_userSets (p : UserPatch) (now : Nat) :
    users.knows (.id :: (userSets p now).map Prod.fst) = true := by
  rw [← List.singleton_append,userSets]
  simp only [List.map_append,TableDef.knows_append]
  rw [TableDef.knows_optional rfl,TableDef.knows_optional rfl,TableDef.knows_optional rfl,
    TableDef.knows_optional rfl,TableDef.knows_optional rfl]
  rfl

theorem knows_tenantSets (p : TenantPatch) (now : Nat) :
    tenants.knows (.id :: (tenantSets p now).map Prod.fst) = true := by
  rw [← List.singleton_append,tenantSets]
  simp only [List.map_append,TableDef.knows_append]
  rw [TableDef.knows_optional rfl,TableDef.knows_optional rfl]
  rfl

theorem knows_memberSets (p : TenantMemberPatch) :
    createTenantMembers.knows (.id :: (memberSets p).map Prod.fst) = true := by
  rw [← List.singleton_append,memberSets]
  simp only [List.map_append,TableDef.knows_append]
  rw [TableDef.knows_optional rfl,TableDef.knows_optional rfl]
  rfl

theorem userSets_null (p : UserPatch) (now : Nat)
    (h : ¬ (p.firstName ≠ some none ∧ p.lastName ≠ some none ∧ p.isActive ≠ some none)) :
    ∃ c ∈ users.columns, c.nullable = false ∧ (userSets p now).lookup c.name = some none := by
  by_cases hf : p.firstName = some none
  · refine ⟨⟨.firstName,.varchar 100,false,none⟩,by decide,rfl,?_⟩
    simp [userSets,List.lookup_append,lookup_optional,hf]
  by_cases hl : p.lastName = some none
  · refine ⟨⟨.lastName,.varchar 100,false,none⟩,by decide,rfl,?_⟩
    simp [userSets,List.lookup_append,lookup_optional,hl]
  · have ha : p.isActive = some none := by
      by_contra ha
      exact h ⟨hf,hl,ha⟩
    refine ⟨⟨.isActive,.boolean,false,some (.bool true)⟩,by decide,rfl,?_⟩
    simp [userSets,List.lookup_append,lookup_optional,ha]

end

end TenantAuth.Schema
