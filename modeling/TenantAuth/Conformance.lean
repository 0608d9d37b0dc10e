import TenantAuth.Sending
set_option autoImplicit false

namespace TenantAuth.Schema
open Transact Relational

/-- A new row was last changed when it was made, and a line of the log has a short action. -/
def Made : Write → Prop
  | .insertUser r => r.updatedAt = r.createdAt
  | .insertTenant r => r.updatedAt = r.createdAt
  | .insertAuditLog r => varchar 255 r.action = true ∧ r.ipAddress = none
  | _ => True

def digests : Write → List String
  | .insertUser r => [r.passwordHash]
  | .updateUser _ p _ => p.passwordHash.toList
  | .insertInvitation r => [r.tokenHash]
  | .insertRefreshToken r => [r.tokenHash]
  | .insertVerificationToken r | .insertResetToken r => [r.tokenHash]
  | _ => []

structure Regular (w : Write) : Prop where
  made : Made w
  uncut : Uncut (texts w)
  digests : ∀ s ∈ digests w, varchar 255 s = true

def Loaded : Write → DB → Prop
  | .deleteUser id,d => id ∈ d.users.map User.id
  | _,_ => True

instance (w : Write) (d : DB) : Decidable (Loaded w d) := by
  cases w <;> unfold Loaded <;> infer_instance

section Admission
variable {w : Write} {d : DB}

/-- The row that an UPDATE is for is there, and gets a value where it needs one. -/
def Finds : Write → DB → Prop
  | .updateUser id p _,d => id ∈ d.users.map User.id ∧
      p.firstName ≠ some none ∧ p.lastName ≠ some none ∧ p.isActive ≠ some none
  | .updateTenant id _ _,d => id ∈ d.tenants.map Tenant.id
  | .updateMember id _,d => id ∈ d.members.map TenantMember.id
  | .acceptInvitation id _,d => id ∈ d.invitations.map TenantInvitation.id
  | .revokeRefreshToken id _,d => id ∈ d.refreshTokens.map RefreshToken.id
  | .useVerificationToken id _,d => id ∈ d.verificationTokens.map OneTimeToken.id
  | .useResetToken id _,d => id ∈ d.resetTokens.map OneTimeToken.id
  | _,_ => True

theorem forall_mem_snoc {α : Type} {l : List α} {r : α} {p : α → Prop} (h : ∀ a ∈ l, p a)
    (hr : p r) : ∀ a ∈ l ++ [r], p a := by
  intro a ha
  rcases List.mem_append.mp ha with ha | ha
  · exact h a ha
  · exact List.mem_singleton.mp ha ▸ hr

theorem forall_mem_update {α : Type} {key : α → UUID} {k : UUID} {f : α → α} {l : List α}
    {p : α → Prop} (h : ∀ a ∈ l, p a) (hf : ∀ a ∈ l, p a → p (f a)) :
    ∀ a ∈ update key k f l, p a := by
  intro a ha
  rcases mem_update.mp ha with ⟨b,hb,-,rfl⟩ | ⟨ha,-⟩
  · exact hf b hb (h b hb)
  · exact h a ha

theorem not_mem_of_nodup_snoc {α κ : Type} {key : α → κ} {l : List α} {r : α}
    (h : ((l ++ [r]).map key).Nodup) : key r ∉ l.map key := by
  rw [List.map_append,List.nodup_append] at h
  exact fun hin => h.2.2 _ hin _ (by simp) rfl

theorem mem_of_snoc_subset {α κ : Type} {f : α → κ} {l : List α} {r : α} {m : List κ}
    (h : (l ++ [r]).map f ⊆ m) : f r ∈ m := h (by simp)

theorem all_varchar {n : Nat} {o : Option String} :
    o.all (varchar n) = true ↔ ∀ s ∈ o, varchar n s = true := by
  cases o <;> simp

theorem fits_getD {n : Nat} {o : Option String} {s : String} (ho : ∀ v ∈ o, varchar n v = true)
    (hs : varchar n s = true) : varchar n (o.getD s) = true := by
  cases o with
  | none => exact hs
  | some v => exact ho v rfl

theorem fits_of_getD {n : Nat} {o : Option String} {s : String} (h : varchar n (o.getD s) = true) :
    ∀ v ∈ o, varchar n v = true := by
  rintro v rfl
  exact h

theorem fits_effect (h : Fits d) (hr : Regular w) (hv : w.violation d = none) :
    Fits (w.effect d) := by
  cases w with
  | insertUser r =>
    simp only [Write.violation,firstViolation_eq_none,List.forall_mem_cons] at hv
    exact { h with
      users := forall_mem_snoc h.users
        ⟨hv.1,hr.digests _ (by simp [digests]),hv.2.1,hv.2.2.1⟩ }
  | updateUser id p now =>
    simp only [Write.violation,firstViolation_eq_none,List.forall_mem_cons] at hv
    obtain ⟨-,-,-,hfirst,hlast,-⟩ := hv
    have hhash : ∀ s ∈ p.passwordHash, varchar 255 s = true :=
      fun s hs => hr.digests s (Option.mem_toList.mpr hs)
    exact { h with users := forall_mem_update h.users fun u _ hu =>
      ⟨hu.1,fits_getD hhash hu.2.1,fits_getD (all_varchar.mp hfirst) hu.2.2.1,
        fits_getD (all_varchar.mp hlast) hu.2.2.2⟩ }
  | deleteUser id =>
    exact { h with
      users := fun u hu => h.users u (List.mem_of_mem_filter hu)
      refreshTokens := fun r hr => h.refreshTokens r (List.mem_of_mem_filter hr)
      resetTokens := fun r hr => h.resetTokens r (List.mem_of_mem_filter hr)
      verificationTokens := fun r hr => h.verificationTokens r (List.mem_of_mem_filter hr) }
  | insertTenant r =>
    simp only [Write.violation,firstViolation_eq_none,List.forall_mem_cons] at hv
    exact { h with tenants := forall_mem_snoc h.tenants ⟨hv.1,hv.2.1⟩ }
  | updateTenant id p now =>
    simp only [Write.violation,firstViolation_eq_none,List.forall_mem_cons] at hv
    exact { h with tenants := forall_mem_update h.tenants fun t _ ht =>
      ⟨fits_getD (all_varchar.mp hv.1) ht.1,ht.2⟩ }
  | insertInvitation r =>
    simp only [Write.violation,firstViolation_eq_none,List.forall_mem_cons] at hv
    exact { h with
      invitations := forall_mem_snoc h.invitations ⟨hv.1,hr.digests _ (by simp [digests])⟩ }
  | acceptInvitation =>
    exact { h with invitations := forall_mem_update h.invitations fun _ _ hi => hi }
  | insertRefreshToken r =>
    exact { h with
      refreshTokens := forall_mem_snoc h.refreshTokens (hr.digests _ (by simp [digests])) }
  | revokeRefreshToken =>
    exact { h with refreshTokens := forall_mem_update h.refreshTokens fun _ _ hr => hr }
  | insertVerificationToken r =>
    exact { h with
      verificationTokens :=
        forall_mem_snoc h.verificationTokens (hr.digests _ (by simp [digests])) }
  | useVerificationToken =>
    exact { h with verificationTokens := forall_mem_update h.verificationTokens fun _ _ hr => hr }
  | insertResetToken r =>
    exact { h with
      resetTokens := forall_mem_snoc h.resetTokens (hr.digests _ (by simp [digests])) }
  | useResetToken =>
    exact { h with resetTokens := forall_mem_update h.resetTokens fun _ _ hr => hr }
  | insertAuditLog r =>
    obtain ⟨haction,hip⟩ := hr.made
    exact { h with auditLogs := forall_mem_snoc h.auditLogs ⟨haction,by simp [hip]⟩ }
  | insertMember | updateMember | insertRolePermission | deleteRolePermission | insertUserRole
  | deleteUserRole | createSchema => exact { h with }

theorem admissible (hf : Fits (w.effect d)) (h : (w.effect d).Wf) (hfind : Finds w d)
    (hdel : ∀ id, w ≠ .deleteUser id) : w.violation d = none := by
  cases w with
  | insertUser r =>
    have hr := hf.users r (by simp [Write.effect])
    simp only [Write.violation,firstViolation_eq_none,List.forall_mem_cons,vacant_iff,
      List.not_mem_nil,false_imp_iff,implies_true,and_true]
    exact ⟨hr.1,hr.2.2.1,hr.2.2.2,not_mem_of_nodup_snoc h.userKey,
      not_mem_of_nodup_snoc h.userEmail⟩
  | updateUser id p now =>
    obtain ⟨hid,hfirst,hlast,hactive⟩ := hfind
    obtain ⟨u,hu,rfl⟩ := List.mem_map.mp hid
    have hr := hf.users (p.apply now u) (mem_update.mpr (.inl ⟨u,hu,rfl,rfl⟩))
    simp only [Write.violation,firstViolation_eq_none,List.forall_mem_cons,
      decide_eq_true_eq,present_iff,List.not_mem_nil,false_imp_iff,implies_true,and_true]
    exact ⟨hfirst,hlast,hactive,all_varchar.mpr (fits_of_getD hr.2.2.1),
      all_varchar.mpr (fits_of_getD hr.2.2.2),hid⟩
  | deleteUser id => exact absurd rfl (hdel id)
  | insertTenant r =>
    have hr := hf.tenants r (by simp [Write.effect])
    simp only [Write.violation,firstViolation_eq_none,List.forall_mem_cons,vacant_iff,
      present_iff,List.not_mem_nil,false_imp_iff,implies_true,and_true]
    exact ⟨hr.1,hr.2,not_mem_of_nodup_snoc h.tenantKey,not_mem_of_nodup_snoc h.tenantSlug,
      mem_of_snoc_subset h.tenantOwner⟩
  | updateTenant id p now =>
    obtain ⟨t,ht,rfl⟩ := List.mem_map.mp hfind
    have hr := hf.tenants (p.apply now t) (mem_update.mpr (.inl ⟨t,ht,rfl,rfl⟩))
    simp only [Write.violation,firstViolation_eq_none,List.forall_mem_cons,
      present_iff,List.not_mem_nil,false_imp_iff,implies_true,and_true]
    exact ⟨all_varchar.mpr (fits_of_getD hr.1),hfind⟩
  | insertMember r =>
    simp only [Write.violation,firstViolation_eq_none,List.forall_mem_cons,
      vacant_iff,present_iff,List.not_mem_nil,false_imp_iff,implies_true,and_true]
    exact ⟨not_mem_of_nodup_snoc h.memberKey,
      not_mem_of_nodup_snoc h.memberPair,
      mem_of_snoc_subset h.memberTenant,mem_of_snoc_subset h.memberUser,
      mem_of_snoc_subset h.memberRole⟩
  | updateMember id p =>
    obtain ⟨m,hm,rfl⟩ := List.mem_map.mp hfind
    have hrole := h.memberRole
      (List.mem_map_of_mem (mem_update.mpr (.inl ⟨m,hm,rfl,rfl⟩)) : (p.apply m).roleId ∈ _)
    simp only [Write.violation,firstViolation_eq_none,List.forall_mem_cons,
      present_iff,all_present_iff,List.not_mem_nil,false_imp_iff,implies_true,and_true]
    refine ⟨fun k hk => ?_,hfind⟩
    have he : (p.apply m).roleId = k := by
      rw [TenantMemberPatch.apply,Option.mem_def.mp hk]
      rfl
    exact he ▸ hrole
  | insertInvitation r =>
    have hr := hf.invitations r (by simp [Write.effect])
    simp only [Write.violation,firstViolation_eq_none,List.forall_mem_cons,vacant_iff,
      present_iff,List.not_mem_nil,false_imp_iff,implies_true,and_true]
    exact ⟨hr.1,not_mem_of_nodup_snoc h.invitationKey,mem_of_snoc_subset h.invitationTenant,
      mem_of_snoc_subset h.invitationRole⟩
  | acceptInvitation | revokeRefreshToken | useVerificationToken | useResetToken =>
    simp only [Write.violation,firstViolation_eq_none,List.forall_mem_cons,
      present_iff,List.not_mem_nil,false_imp_iff,implies_true,and_true]
    exact hfind
  | insertRefreshToken r =>
    simp only [Write.violation,firstViolation_eq_none,List.forall_mem_cons,
      vacant_iff,present_iff,all_present_iff,List.not_mem_nil,false_imp_iff,implies_true,and_true]
    exact ⟨not_mem_of_nodup_snoc h.refreshTokenKey,mem_of_snoc_subset h.refreshTokenUser,
      h.refreshTokenTenant r (by simp [Write.effect])⟩
  | insertVerificationToken r =>
    simp only [Write.violation,firstViolation_eq_none,List.forall_mem_cons,
      vacant_iff,present_iff,List.not_mem_nil,false_imp_iff,implies_true,and_true]
    exact ⟨not_mem_of_nodup_snoc h.verificationTokenKey,mem_of_snoc_subset h.verificationTokenUser⟩
  | insertResetToken r =>
    simp only [Write.violation,firstViolation_eq_none,List.forall_mem_cons,
      vacant_iff,present_iff,List.not_mem_nil,false_imp_iff,implies_true,and_true]
    exact ⟨not_mem_of_nodup_snoc h.resetTokenKey,mem_of_snoc_subset h.resetTokenUser⟩
  | insertAuditLog r =>
    simp only [Write.violation,firstViolation_eq_none,List.forall_mem_cons,
      vacant_iff,all_present_iff,List.not_mem_nil,false_imp_iff,implies_true,and_true]
    exact ⟨not_mem_of_nodup_snoc h.auditLogKey,h.auditLogTenant r (by simp [Write.effect])⟩
  | insertRolePermission r =>
    simp only [Write.violation,firstViolation_eq_none,List.forall_mem_cons,
      vacant_iff,present_iff,List.not_mem_nil,false_imp_iff,implies_true,and_true]
    have hkey : ((d.rolePermissions ++ [r]).map id).Nodup := by
      rw [List.map_id]
      exact h.rolePermissionKey
    exact ⟨not_mem_of_nodup_snoc hkey,
      mem_of_snoc_subset h.rolePermissionRole,mem_of_snoc_subset h.rolePermissionPermission⟩
  | insertUserRole r =>
    simp only [Write.violation,firstViolation_eq_none,List.forall_mem_cons,
      vacant_iff,present_iff,List.not_mem_nil,false_imp_iff,implies_true,and_true]
    have hkey : ((d.userRoles ++ [r]).map id).Nodup := by
      rw [List.map_id]
      exact h.userRoleKey
    exact ⟨not_mem_of_nodup_snoc hkey,
      mem_of_snoc_subset h.userRoleUser,mem_of_snoc_subset h.userRoleRole⟩
  | deleteRolePermission | deleteUserRole | createSchema => rfl

theorem finds_of_admissible (hv : w.violation d = none) : Finds w d := by
  cases w <;>
    simp only [Write.violation,firstViolation_eq_none,List.forall_mem_cons,present_iff,
      decide_eq_true_eq] at hv <;> simp only [Finds]
  case updateUser => exact ⟨hv.2.2.2.2.2.1,hv.1,hv.2.1,hv.2.2.1⟩
  case updateTenant | updateMember => exact hv.2.1
  case acceptInvitation | revokeRefreshToken | useVerificationToken | useResetToken => exact hv.1

end Admission

/-- A write of the model and its statements on the tables have the same outcome. -/
def Conforms (t : Moment) (w : Write) (x : Stamps) (d : DB) : Prop :=
  (w.violation d = none → ∃ x',
    emitAll (statements t w (encode x d)) (encode x d) = .ok (encode x' (w.effect d))) ∧
  (w.violation d ≠ none → ∃ e, emitAll (statements t w (encode x d)) (encode x d) = .error e)

section
variable {w : Write} {x x' : Stamps} {d : DB} {t : Moment}

theorem violation_iff (hs : (encode x d).Sound) (hr : Regular w)
    (hdel : ∀ id, w ≠ .deleteUser id) (x' : Stamps) :
    w.violation d = none ↔ (encode x' (w.effect d)).Sound ∧ Finds w d := by
  obtain ⟨hf,hd⟩ := sound_encode.mp hs
  constructor
  · intro hv
    exact ⟨sound_encode.mpr ⟨fits_effect hf hr hv,hd.apply (Write.apply_eq_ok.mpr ⟨hv,rfl⟩)⟩,
      finds_of_admissible hv⟩
  · rintro ⟨hs',hfind⟩
    obtain ⟨hf',hd'⟩ := sound_encode.mp hs'
    exact admissible hf' hd' hfind hdel

/-- A single statement that makes of the rows what the write makes of them. -/
theorem conforms_of_effect {st : Sql} {r : Relation TableName ColumnName Document}
    (hs : (encode x d).Sound) (hr : Regular w) (hdel : ∀ id, w ≠ .deleteUser id)
    (hst : statements t w (encode x d) = [st]) (hrel : (encode x d).relation st.table = some r)
    (hk : r.table.knows st.columns = true)
    (he : st.effect r.table (encode x d) = .ok (encode x' (w.effect d)))
    (hemit : ∀ g', st.exec (encode x d) = .ok g' →
      Finds w d ∧ st.emit (encode x d) = .ok g' ∨
        ¬ Finds w d ∧ st.emit (encode x d) = .error .stale) : Conforms t w x d := by
  have hiff := violation_iff hs hr hdel x'
  have hexec := exec_eq st hrel hk he
  rw [Conforms,hst,emitAll_single]
  by_cases hs' : (encode x' (w.effect d)).Sound
  · rw [if_pos hs'] at hexec
    rcases hemit _ hexec with ⟨hfind,hemit⟩ | ⟨hfind,hemit⟩
    · exact ⟨fun _ => ⟨x',hemit⟩,fun hv => absurd (hiff.mpr ⟨hs',hfind⟩) hv⟩
    · exact ⟨fun hv => absurd (hiff.mp hv).2 hfind,fun _ => ⟨_,hemit⟩⟩
  · rw [if_neg hs'] at hexec
    refine ⟨fun hv => absurd (hiff.mp hv).1 hs',fun _ => ⟨.violation,?_⟩⟩
    rw [Statement.emit,hexec]

theorem conforms_taken {st : Sql} {r : Relation TableName ColumnName Document} {g' : Tables}
    (hst : statements t w (encode x d) = [st]) (hrel : (encode x d).relation st.table = some r)
    (hk : r.table.knows st.columns = true) (he : st.effect r.table (encode x d) = .ok g')
    (hs : ¬ g'.Sound) (hv : w.violation d ≠ none) : Conforms t w x d := by
  have hexec := exec_eq st hrel hk he
  rw [if_neg hs] at hexec
  refine ⟨fun h => absurd h hv,fun _ => ⟨.violation,?_⟩⟩
  rw [hst,emitAll_single,Statement.emit,hexec]

end

section Inserts
variable {x : Stamps} {d : DB} {t : Moment} (hs : (encode x d).Sound)
include hs

theorem conforms_insert {w : Write} (x' : Stamps) {table : TableName}
    {values : List (ColumnName × Option Value)} {y : Draws}
    {r : Relation TableName ColumnName Document} (hr : Regular w)
    (hdel : ∀ id, w ≠ .deleteUser id) (hfind : Finds w d)
    (hst : statements t w (encode x d) = [.insert table values y])
    (hrel : (encode x d).relation table = some r)
    (hk : r.table.knows (values.map Prod.fst) = true)
    (he : (encode x d).modify table (fun rows => rows ++ [r.table.newRow values y]) =
      encode x' (w.effect d)) : Conforms t w x d := by
  refine conforms_of_effect hs hr hdel hst hrel hk (congrArg Except.ok he) fun g' hg => ?_
  refine .inl ⟨hfind,?_⟩
  rw [Statement.emit,hg]

theorem conforms_insertUser {r : User} (hr : Regular (.insertUser r)) :
    Conforms t (.insertUser r) x d := by
  have hrows := rows_insert (l := d.users) (insertUser_record r hr.made hr.uncut)
  refine conforms_insert hs x hr nofun trivial rfl rfl rfl ?_
  unfold encode
  rw [Write.effect,← hrows]
  rfl

theorem conforms_insertTenant {r : Tenant} (hr : Regular (.insertTenant r)) :
    Conforms t (.insertTenant r) x d := by
  have hrows := rows_insert (l := d.tenants) (insertTenant_record r hr.made hr.uncut)
  refine conforms_insert hs x hr nofun trivial rfl rfl rfl ?_
  unfold encode
  rw [Write.effect,← hrows]
  rfl

theorem conforms_insertMember {r : TenantMember} (hr : Regular (.insertMember r)) :
    Conforms t (.insertMember r) x d := by
  have hrows := rows_insert (l := d.members) (insertMember_record r)
  refine conforms_insert hs x hr nofun trivial rfl rfl rfl ?_
  unfold encode
  rw [Write.effect,← hrows]
  rfl

theorem conforms_insertAuditLog {r : AuditLog} (hr : Regular (.insertAuditLog r)) :
    Conforms t (.insertAuditLog r) x d := by
  have hrows := rows_insert (l := d.auditLogs) (insertAuditLog_record r hr.uncut)
  refine conforms_insert hs x hr nofun trivial rfl rfl rfl ?_
  unfold encode
  rw [Write.effect,← hrows]
  rfl

theorem conforms_insertRolePermission {r : RolePermission} (hr : Regular (.insertRolePermission r)) :
    Conforms t (.insertRolePermission r) x d := by
  have hrows := rows_insert (l := d.rolePermissions) (rolePermissionValues_record (x := ⟨t.now,0⟩) r)
  refine conforms_insert hs x hr nofun trivial rfl rfl rfl ?_
  unfold encode
  rw [Write.effect,← hrows]
  rfl

theorem conforms_insertUserRole {r : UserRole} (hr : Regular (.insertUserRole r)) :
    Conforms t (.insertUserRole r) x d := by
  have hrows := rows_insert (l := d.userRoles) (insertUserRole_record r t.now)
  refine conforms_insert hs x hr nofun trivial rfl rfl rfl ?_
  unfold encode
  rw [Write.effect,← hrows]
  rfl

theorem conforms_stamped {w : Write} (x' : Stamps) {table : TableName}
    {values : List (ColumnName × Option Value)} {y : Draws} {α : Type} {key : α → UUID}
    {enc : α → Record} {l : List α} {t' : TableDef TableName ColumnName} {k : UUID}
    (hr : Regular w) (hdel : ∀ id, w ≠ .deleteUser id) (hfind : Finds w d)
    (hst : statements t w (encode x d) = [.insert table values y])
    (hrel : (encode x d).relation table = some ⟨t',l.map enc⟩)
    (hk : t'.knows (values.map Prod.fst) = true)
    (hkey : ∀ a, enc a .id = some (.uuid (key a))) (hid : t'.newRow values y .id = some (.uuid k))
    (hunique : [.id] ∈ t'.uniqueKeys) (hv : w.violation d = none → k ∉ l.map key)
    (he : k ∉ l.map key → (encode x d).modify table (fun rows => rows ++ [t'.newRow values y]) =
      encode x' (w.effect d)) : Conforms t w x d := by
  by_cases hfree : k ∉ l.map key
  · exact conforms_insert hs x' hr hdel hfind hst hrel hk (he hfree)
  · obtain ⟨a,ha,rfl⟩ := List.mem_map.mp (not_not.mp hfree)
    have hclash : Clash [.id] (enc a) (t'.newRow values y) := by
      simp [hkey,hid]
    exact conforms_taken hst hrel hk rfl
      (not_sound_insert hrel (List.mem_map_of_mem ha) hunique hclash) fun h => hfree (hv h)

theorem conforms_insertInvitation {r : TenantInvitation} (hr : Regular (.insertInvitation r)) :
    Conforms t (.insertInvitation r) x d := by
  refine conforms_stamped hs { x with invitations := Function.update x.invitations r.id t.now }
    hr nofun trivial rfl rfl rfl (fun _ => rfl) rfl (by decide) (fun hv => ?_) fun hfree => ?_
  · simp only [Write.violation,firstViolation_eq_none,List.forall_mem_cons,vacant_iff] at hv
    exact hv.2.1
  · have hrows := rows_stamp invitationRecord_congr hfree
      (insertInvitation_record r x.invitations t.now hr.uncut)
    unfold encode
    rw [Write.effect,← hrows]
    rfl

theorem conforms_insertRefreshToken {r : RefreshToken} (hr : Regular (.insertRefreshToken r)) :
    Conforms t (.insertRefreshToken r) x d := by
  refine conforms_stamped hs { x with refreshTokens := Function.update x.refreshTokens r.id t.now }
    hr nofun trivial rfl rfl rfl (fun _ => rfl) rfl (by decide) (fun hv => ?_) fun hfree => ?_
  · simp only [Write.violation,firstViolation_eq_none,List.forall_mem_cons,vacant_iff] at hv
    exact hv.1
  · have hrows := rows_stamp refreshTokenRecord_congr hfree
      (insertRefreshToken_record r x.refreshTokens t.now hr.uncut)
    unfold encode
    rw [Write.effect,← hrows]
    rfl

theorem conforms_insertVerificationToken {r : EmailVerificationToken}
    (hr : Regular (.insertVerificationToken r)) :
    Conforms t (.insertVerificationToken r) x d := by
  refine conforms_stamped hs
    { x with verificationTokens := Function.update x.verificationTokens r.id t.now }
    hr nofun trivial rfl rfl rfl (fun _ => rfl) rfl (by decide) (fun hv => ?_) fun hfree => ?_
  · simp only [Write.violation,firstViolation_eq_none,List.forall_mem_cons,vacant_iff] at hv
    exact hv.1
  · have hrows := rows_stamp oneTimeTokenRecord_congr hfree
      (insertOneTimeToken_record .emailVerificationTokens r x.verificationTokens t.now hr.uncut)
    unfold encode
    rw [Write.effect,← hrows]
    rfl

theorem conforms_insertResetToken {r : PasswordResetToken}
    (hr : Regular (.insertResetToken r)) : Conforms t (.insertResetToken r) x d := by
  refine conforms_stamped hs { x with resetTokens := Function.update x.resetTokens r.id t.now }
    hr nofun trivial rfl rfl rfl (fun _ => rfl) rfl (by decide) (fun hv => ?_) fun hfree => ?_
  · simp only [Write.violation,firstViolation_eq_none,List.forall_mem_cons,vacant_iff] at hv
    exact hv.1
  · have hrows := rows_stamp oneTimeTokenRecord_congr hfree
      (insertOneTimeToken_record .passwordResetTokens r x.resetTokens t.now hr.uncut)
    unfold encode
    rw [Write.effect,← hrows]
    rfl

end Inserts

section Updates
variable {x : Stamps} {d : DB} {t : Moment} (hs : (encode x d).Sound)
include hs

theorem conforms_update {w : Write} {table : TableName} {k : UUID}
    {sets : List (ColumnName × Option Value)} {α : Type} {enc : α → Record} {key : α → UUID}
    {l : List α} {t' : TableDef TableName ColumnName} (hr : Regular w)
    (hdel : ∀ id, w ≠ .deleteUser id) (hfind : Finds w d ↔ k ∈ l.map key)
    (hst : statements t w (encode x d) = [.update table .id (.uuid k) sets])
    (hrel : (encode x d).relation table = some ⟨t',l.map enc⟩)
    (hk : t'.knows (.id :: sets.map Prod.fst) = true)
    (hkey : ∀ a, enc a .id = some (.uuid (key a)))
    (he : (encode x d).modify table (fun rows => rows.map fun row =>
      if row .id = some (.uuid k) then t'.assign row sets else row) = encode x (w.effect d)) :
    Conforms t w x d := by
  have hfound : (encode x d).found table .id (.uuid k) = 0 ↔ k ∉ l.map key :=
    rows_found (by rw [Database.rows,hrel]; rfl) hkey
  refine conforms_of_effect hs hr hdel hst hrel hk (congrArg Except.ok he) fun g' hg => ?_
  by_cases hin : k ∈ l.map key
  · refine .inl ⟨hfind.mpr hin,?_⟩
    rw [Statement.emit,hg]
    exact if_neg fun h => hfound.mp h hin
  · refine .inr ⟨fun h => hin (hfind.mp h),?_⟩
    rw [Statement.emit,hg]
    exact if_pos (hfound.mpr hin)

theorem conforms_updateUser {id : UUID} {p : UserPatch} {now : Nat}
    (hr : Regular (.updateUser id p now)) : Conforms t (.updateUser id p now) x d := by
  by_cases hnull : p.firstName ≠ some none ∧ p.lastName ≠ some none ∧ p.isActive ≠ some none
  · have hrows := rows_update (l := d.users) (k := id) (fun _ => rfl)
      fun u => updateUser_record u p now hnull.1 hnull.2.1 hnull.2.2
        (uncut_optional.mp hr.uncut)
    refine conforms_update hs hr nofun (and_iff_left hnull) rfl rfl (knows_userSets p now)
      (fun _ => rfl) ?_
    unfold encode
    rw [Write.effect,← hrows]
    rfl
  · have hv : (Write.updateUser id p now).violation d ≠ none :=
      fun h => hnull (finds_of_admissible h).2
    obtain ⟨c,hc,hn,hset⟩ := userSets_null p now hnull
    refine ⟨fun h => absurd h hv,fun _ => ?_⟩
    rw [statements,emitAll_single]
    exact emit_null rfl (knows_userSets p now) hc hn hset

theorem conforms_updateTenant {id : UUID} {p : TenantPatch} {now : Nat}
    (hr : Regular (.updateTenant id p now)) : Conforms t (.updateTenant id p now) x d := by
  have hrows := rows_update (l := d.tenants) (k := id) (fun _ => rfl) 
    fun r => updateTenant_record p now r (uncut_optional.mp hr.uncut)
  refine conforms_update hs hr nofun Iff.rfl rfl rfl (knows_tenantSets p now)
    (fun _ => rfl) ?_
  unfold encode
  rw [Write.effect,← hrows]
  rfl

theorem conforms_updateMember {id : UUID} {p : TenantMemberPatch}
    (hr : Regular (.updateMember id p)) : Conforms t (.updateMember id p) x d := by
  have hrows := rows_update (l := d.members) (k := id) (fun _ => rfl) (updateMember_record p)
  refine conforms_update hs hr nofun Iff.rfl rfl rfl (knows_memberSets p) (fun _ => rfl) ?_
  unfold encode
  rw [Write.effect,← hrows]
  rfl

theorem conforms_acceptInvitation {id : UUID} {now : Nat}
    (hr : Regular (.acceptInvitation id now)) : Conforms t (.acceptInvitation id now) x d := by
  have hrows := rows_update (l := d.invitations) (k := id) (fun _ => rfl)
    (acceptInvitation_record x.invitations now)
  refine conforms_update hs hr nofun Iff.rfl rfl rfl rfl (fun _ => rfl) ?_
  unfold encode
  rw [Write.effect,← hrows]
  rfl

theorem conforms_revokeRefreshToken {id : UUID} {now : Nat}
    (hr : Regular (.revokeRefreshToken id now)) : Conforms t (.revokeRefreshToken id now) x d := by
  have hrows := rows_update (l := d.refreshTokens) (k := id) (fun _ => rfl)
    (revokeRefreshToken_record x.refreshTokens now)
  refine conforms_update hs hr nofun Iff.rfl rfl rfl rfl (fun _ => rfl) ?_
  unfold encode
  rw [Write.effect,← hrows]
  rfl

theorem conforms_useVerificationToken {id : UUID} {now : Nat}
    (hr : Regular (.useVerificationToken id now)) : Conforms t (.useVerificationToken id now) x d := by
  have hrows := rows_update (l := d.verificationTokens) (k := id) (fun _ => rfl)
    (useOneTimeToken_record .emailVerificationTokens x.verificationTokens now)
  refine conforms_update hs hr nofun Iff.rfl rfl rfl rfl (fun _ => rfl) ?_
  unfold encode
  rw [Write.effect,← hrows]
  rfl

theorem conforms_useResetToken {id : UUID} {now : Nat}
    (hr : Regular (.useResetToken id now)) : Conforms t (.useResetToken id now) x d := by
  have hrows := rows_update (l := d.resetTokens) (k := id) (fun _ => rfl)
    (useOneTimeToken_record .passwordResetTokens x.resetTokens now)
  refine conforms_update hs hr nofun Iff.rfl rfl rfl rfl (fun _ => rfl) ?_
  unfold encode
  rw [Write.effect,← hrows]
  rfl

end Updates

section Deletions
variable {x : Stamps} {d : DB} {t : Moment} (hs : (encode x d).Sound)

theorem ordered_catalog : Ordered [] catalog := by
  simp [catalog,Ordered,users,createUsers,roles,createRoles,tenants,createTenants,
    createTenantMembers,tenantInvitations,createTenantInvitations,refreshTokens,
    createRefreshTokens,createOneTimeTokens,permissions,createPermissions,createRolePermissions,
    createUserRoles,auditLogs,createAuditLogs]

theorem ordered_encode : Ordered [] ((encode x d).map Relation.table) := ordered_catalog

theorem names_nodup : ((encode x d).map fun r => r.table.name).Nodup := by
  have h : (catalog.map TableDef.name).Nodup := by decide
  rwa [← tables_encode x d,List.map_map] at h

/-- No foreign key leads to these tables. -/
theorem unreferenced_encode {name : TableName} (h : name ≠ .users ∧ name ≠ .roles ∧
    name ≠ .tenants ∧ name ≠ .permissions) :
    ∀ r ∈ encode x d, ∀ fk ∈ r.table.foreignKeys, fk.target ≠ name := by
  have htargets : ∀ t ∈ catalog, ∀ fk ∈ t.foreignKeys, fk.target = .users ∨ fk.target = .roles ∨
      fk.target = .tenants ∨ fk.target = .permissions := by decide
  rintro r hr fk hfk rfl
  rcases htargets r.table (List.mem_map_of_mem hr) fk hfk with he | he | he | he
  · exact h.1 he
  · exact h.2.1 he
  · exact h.2.2.1 he
  · exact h.2.2.2 he

include hs

theorem conforms_deleteRolePermission {r : RolePermission} :
    Conforms t (.deleteRolePermission r) x d := by
  have hrows : ((d.rolePermissions.map rolePermissionRecord).filter fun row =>
      ¬ Row.agrees row [(.roleId,.uuid r.roleId),(.permissionId,.uuid r.permissionId)]) =
      (delete id r d.rolePermissions).map rolePermissionRecord := by
    rw [List.filter_map,delete]
    refine congrArg _ (List.filter_congr fun a _ => ?_)
    simp [Row.agrees,rolePermissionRecord,rolePermission_eq]
  have hemit := emit_delete [(.roleId,.uuid r.roleId),(.permissionId,.uuid r.permissionId)] hs
    ordered_encode (rfl : (encode x d).relation .rolePermissions = _) rfl
    (unreferenced_encode (by decide))
  refine ⟨fun _ => ⟨x,?_⟩,fun hv => absurd rfl hv⟩
  rw [statements,emitAll_single,hemit]
  refine congrArg Except.ok ?_
  unfold encode
  rw [Write.effect,← hrows]
  rfl

theorem conforms_deleteUserRole {r : UserRole} : Conforms t (.deleteUserRole r) x d := by
  have hrows : ((d.userRoles.map userRoleRecord).filter fun row =>
      ¬ Row.agrees row [(.userId,.uuid r.userId),(.roleId,.uuid r.roleId)]) =
      (delete id r d.userRoles).map userRoleRecord := by
    rw [List.filter_map,delete]
    refine congrArg _ (List.filter_congr fun a _ => ?_)
    simp [Row.agrees,userRoleRecord,userRole_eq]
  have hemit := emit_delete [(.userId,.uuid r.userId),(.roleId,.uuid r.roleId)] hs
    ordered_encode (rfl : (encode x d).relation .userRoles = _) rfl
    (unreferenced_encode (by decide))
  refine ⟨fun _ => ⟨x,?_⟩,fun hv => absurd rfl hv⟩
  rw [statements,emitAll_single,hemit]
  refine congrArg Except.ok ?_
  unfold encode
  rw [Write.effect,← hrows]
  rfl

omit hs in
theorem keysOf_eq {table : TableName} {c : ColumnName} {k : UUID} {α : Type} {enc : α → Record}
    {key : α → UUID} {l : List α} (col : α → UUID) (hrows : (encode x d).rows table = l.map enc)
    (hkey : ∀ a, enc a .id = some (.uuid (key a))) (hcol : ∀ a, enc a c = some (.uuid (col a))) :
    keysOf (encode x d) table c k = ((l.filter fun a => col a = k).map key).map .uuid := by
  rw [keysOf,hrows,List.filterMap_map,List.map_map,← List.filterMap_eq_map,List.filterMap_filter]
  refine List.filterMap_congr fun a _ => ?_
  by_cases ha : col a = k <;> simp [ha,hkey,hcol]

omit hs in
theorem keysOf_owned {table : TableName} {c : ColumnName} {k : UUID} {α : Type} {enc : α → Record}
    {key : α → UUID} {l : List α} (col : α → UUID) (hrows : (encode x d).rows table = l.map enc)
    (hkey : ∀ a, enc a .id = some (.uuid (key a))) (hcol : ∀ a, enc a c = some (.uuid (col a)))
    (hn : (l.map key).Nodup) :
    ∀ v ∈ keysOf (encode x d) table c k, ∀ a ∈ l, .uuid (key a) = v → col a = k := by
  rintro _ hv a ha rfl
  rw [keysOf_eq col hrows hkey hcol] at hv
  obtain ⟨u,hu,he⟩ := List.mem_map.mp hv
  obtain ⟨b,hb,rfl⟩ := List.mem_map.mp hu
  obtain ⟨hb,hcolb⟩ := List.mem_filter.mp hb
  have hab : key a = key b := (Datum.uuid.inj he).symm
  exact eq_of_key hn ha hb hab ▸ of_decide_eq_true hcolb

/-- The loaded rows go by their keys, where they are still there. -/
theorem emitAll_loaded {table : TableName} {α : Type} {enc : α → Record} {key : α → UUID}
    {l : List α} {t' : TableDef TableName ColumnName} (ks : List Value)
    (hrel : (encode x d).relation table = some ⟨t',l.map enc⟩) (hk : t'.knows [.id] = true)
    (hfree : table ≠ .users ∧ table ≠ .roles ∧ table ≠ .tenants ∧ table ≠ .permissions)
    (hkey : ∀ a, enc a .id = some (.uuid (key a))) {g' : Tables}
    (hg : (encode x d).modify table (fun _ => (l.filter fun a => .uuid (key a) ∉ ks).map enc) = g') :
    emitAll (ks.map fun k => .delete table [(.id,k)]) (encode x d) = .ok g' ∧ g'.Sound := by
  have hrows : ((l.map enc).filter fun row => ∀ k ∈ ks, row .id ≠ some k) =
      (l.filter fun a => .uuid (key a) ∉ ks).map enc := by
    rw [List.filter_map]
    refine congrArg _ (List.filter_congr fun a _ => ?_)
    rw [Function.comp,decide_eq_decide,hkey]
    exact ⟨fun h hin => h _ hin rfl,fun h k hin he => h (Option.some.inj he ▸ hin)⟩
  have hmodify : ((encode x d).modify table fun rows =>
      rows.filter fun row => ∀ k ∈ ks, row .id ≠ some k) = (encode x d).modify table
      fun _ => (l.filter fun a => .uuid (key a) ∉ ks).map enc := modify_congr names_nodup hrel hrows
  rw [← hg,← hmodify,emitAll_delete hs ordered_encode hrel hk (unreferenced_encode hfree)]
  exact ⟨rfl,sound_delete hs (unreferenced_encode hfree) _⟩

omit hs in
theorem delete_filter {α : Type} {key : α → UUID} {k : UUID} {l : List α} {p : α → Bool}
    (h : ∀ a ∈ l, p a = false → key a = k) : delete key k (l.filter p) = delete key k l := by
  rw [delete,delete,List.filter_filter]
  refine List.filter_congr fun a ha => ?_
  cases hp : p a with
  | false => simp [h a ha hp]
  | true => simp

def survives (id : UUID) : TableName → Record → Bool
  | .tenantMembers,row | .refreshTokens,row | .passwordResetTokens,row
  | .emailVerificationTokens,row | .userRoles,row => row .userId ≠ some (.uuid id)
  | _,_ => true

omit hs in
theorem survives_false {id : UUID} {name : TableName} {row : Record}
    (h : survives id name row = false) : row .userId = some (.uuid id) ∧
      name ∈ [.tenantMembers,.refreshTokens,.passwordResetTokens,.emailVerificationTokens,
        .userRoles] := by
  cases name <;> simp_all [survives]

omit hs in
theorem survivors (id : UUID) :
    (((encode x d).modify .users fun rows =>
        rows.filter fun row => ¬ Row.agrees row [(.id,.uuid id)]).map fun r =>
      (⟨r.table,r.rows.filter (survives id r.table.name)⟩ : Relation _ _ _)) =
      encode x ((Write.deleteUser id).effect d) := by
  have hcascade : ∀ {α : Type} {enc : α → Record} {col : α → UUID} {l : List α},
      (∀ a, enc a .userId = some (.uuid (col a))) →
      (l.map enc).filter (fun row => row .userId ≠ some (.uuid id)) = (delete col id l).map enc := by
    intro α enc col l hcol
    rw [List.filter_map,delete]
    refine congrArg _ (List.filter_congr fun a _ => ?_)
    simp [hcol]
  have hall : ∀ l : List Record, l.filter (fun _ => true) = l :=
    fun l => List.filter_eq_self.mpr fun _ _ => rfl
  have husers := rows_delete (l := d.users) (k := id) (fun u => (rfl : userRecord u .id = _))
  have hmembers := hcascade (l := d.members) (fun m => (rfl : memberRecord m .userId = _))
  have htokens := hcascade (l := d.refreshTokens)
    (fun r => (rfl : refreshTokenRecord x.refreshTokens r .userId = _))
  have hreset := hcascade (l := d.resetTokens)
    (fun r => (rfl : oneTimeTokenRecord x.resetTokens r .userId = _))
  have hverify := hcascade (l := d.verificationTokens)
    (fun r => (rfl : oneTimeTokenRecord x.verificationTokens r .userId = _))
  have hroles := hcascade (l := d.userRoles) (fun r => (rfl : userRoleRecord r .userId = _))
  rw [Write.effect]
  unfold encode
  rw [← husers,← hmembers,← htokens,← hreset,← hverify,← hroles]
  change ([⟨users,((d.users.map userRecord).filter fun row =>
      ¬ Row.agrees row [(.id,.uuid id)]).filter fun _ => true⟩,
    ⟨roles,(d.roles.map roleRecord).filter fun _ => true⟩,
    ⟨tenants,(d.tenants.map tenantRecord).filter fun _ => true⟩,
    ⟨createTenantMembers,_⟩,
    ⟨tenantInvitations,(d.invitations.map (invitationRecord x.invitations)).filter fun _ => true⟩,
    ⟨refreshTokens,_⟩,
    ⟨createOneTimeTokens .passwordResetTokens,_⟩,⟨createOneTimeTokens .emailVerificationTokens,_⟩,
    ⟨permissions,(d.permissions.map permissionRecord).filter fun _ => true⟩,
    ⟨createRolePermissions,(d.rolePermissions.map rolePermissionRecord).filter fun _ => true⟩,
    ⟨createUserRoles,_⟩,
    ⟨auditLogs,(d.auditLogs.map auditLogRecord).filter fun _ => true⟩] : Tables) = _
  simp only [hall]
  rfl

/-- What `ON DELETE CASCADE` leaves of the rows when a user goes. -/
theorem settle_deleteUser {id : UUID} (hs' : (encode x ((Write.deleteUser id).effect d)).Sound) :
    settle [] ((encode x d).modify .users fun rows =>
      rows.filter fun row => ¬ Row.agrees row [(.id,.uuid id)]) =
      .ok (encode x ((Write.deleteUser id).effect d)) := by
  have hsurvivors := survivors (x := x) (d := d) id
  have htable : ∀ r ∈ (encode x d).modify .users fun rows => rows.filter fun row =>
      ¬ Row.agrees row [(.id,.uuid id)], r.table ∈ catalog := by
    intro r hr'
    rw [← tables_encode x d,← map_table_modify]
    exact List.mem_map_of_mem hr'
  rw [← hsurvivors] at hs' ⊢
  refine settle_filter (survives id) ?_ (fun r hr' row hrow hp => ?_)
    fun r hr' fk hfk row hrow hp => ?_
  · rw [map_table_modify]
    exact ordered_encode
  · obtain ⟨huser,hname⟩ := survives_false hp
    have hcascade : ∀ t ∈ catalog, t.name ∈ [.tenantMembers,.refreshTokens,.passwordResetTokens,
        .emailVerificationTokens,.userRoles] → ⟨.userId,.users,.id,.cascade⟩ ∈ t.foreignKeys := by
      decide
    refine ⟨_,hcascade _ (htable r hr') hname,rfl,.uuid id,huser,?_⟩
    rw [List.nil_append,hsurvivors,rows_users]
    intro row' hrow'
    obtain ⟨u,hu,rfl⟩ := List.mem_map.mp hrow'
    simpa [userRecord] using (mem_delete.mp hu).2
  · rw [List.nil_append]
    rcases hp with hp | hrestrict
    · exact (hs' _ (List.mem_map_of_mem hr')).2.2 fk hfk row (List.mem_filter.mpr ⟨hrow,hp⟩)
    · -- Such a key leads to the roles, which stay.
      have htarget : ∀ t ∈ catalog, ∀ fk ∈ t.foreignKeys, fk.onDelete = .restrict →
          fk.target = .roles := by decide
      have hroles := htarget _ (htable r hr') fk hfk hrestrict
      obtain ⟨r₀,hr₀,rfl⟩ := List.mem_map.mp hr'
      have hold : ¬ Dangles (encode x d) fk row := by
        split at hfk
        · rename_i hname
          rw [if_pos hname] at hrow
          exact (hs r₀ hr₀).2.2 fk hfk row (List.mem_of_mem_filter hrow)
        · rename_i hname
          rw [if_neg hname] at hrow
          exact (hs r₀ hr₀).2.2 fk hfk row hrow
      rw [hsurvivors]
      unfold Dangles at hold ⊢
      rwa [hroles] at hold ⊢

theorem conforms_deleteUser {id : UUID} (hr : Regular (.deleteUser id))
    (hl : Loaded (.deleteUser id) d) : Conforms t (.deleteUser id) x d := by
  obtain ⟨hf,hd⟩ := sound_encode.mp hs
  have htenants := keysOf_eq (c := .ownerId) (k := id) Tenant.ownerId (rows_tenants (x := x) (d := d))
    (fun _ => rfl) (fun _ => rfl)
  rw [← t.tenants] at htenants
  by_cases howned : id ∈ d.tenants.map Tenant.ownerId
  · obtain ⟨a,ha,howner⟩ := List.mem_map.mp howned
    have hv : (Write.deleteUser id).violation d ≠ none := by
      intro h
      simp only [Write.violation,firstViolation_eq_none,List.forall_mem_cons,vacant_iff] at h
      exact h.1 howned
    refine ⟨fun h => absurd h hv,fun _ => ?_⟩
    obtain ⟨k,ks,hks⟩ : ∃ k ks, (t.loaded id (encode x d)).tenants = k :: ks := by
      rw [← List.ne_nil_iff_exists_cons,htenants]
      exact List.ne_nil_of_mem (List.mem_map_of_mem (List.mem_map_of_mem
        (List.mem_filter.mpr ⟨ha,decide_eq_true howner⟩)))
    have hcolumn : (⟨.ownerId,.uuid,false,none⟩ : Column ColumnName) ∈ tenants.columns := by decide
    obtain ⟨e,he⟩ : ∃ e, (Statement.update .tenants .id k [(.ownerId,none),
        (.updatedAt,some (.time t.now))] : Sql).emit (encode x d) = .error e :=
      emit_null rfl rfl hcolumn rfl rfl
    refine ⟨e,?_⟩
    rw [statements,hks]
    simp only [List.map_cons,List.cons_append,emitAll,he]
  · have hv : (Write.deleteUser id).violation d = none := by
      simp only [Write.violation,firstViolation_eq_none,List.forall_mem_cons,vacant_iff,
        present_iff,List.not_mem_nil,false_imp_iff,implies_true,and_true]
      exact ⟨howned,hl⟩
    refine ⟨fun _ => ⟨x,?_⟩,fun h => absurd hv h⟩
    have hnone : (t.loaded id (encode x d)).tenants = [] := by
      have hfilter : (d.tenants.filter fun a => a.ownerId = id) = [] :=
        List.filter_eq_nil_iff.mpr fun a ha he =>
          howned (of_decide_eq_true he ▸ List.mem_map_of_mem ha)
      rw [htenants,hfilter]
      rfl
    let d1 : DB := { d with
      members := d.members.filter fun m => decide (.uuid m.id ∉ (t.loaded id (encode x d)).members) }
    let d2 : DB := { d1 with
      refreshTokens := d.refreshTokens.filter fun r =>
        decide (.uuid r.id ∉ (t.loaded id (encode x d)).refreshTokens) }
    have hs' : (encode x ((Write.deleteUser id).effect d)).Sound :=
      sound_encode.mpr ⟨fits_effect hf hr hv,hd.deleteUser hv⟩
    -- The loaded rows are the user's, so what is left of these goes with the user.
    have hmine : ∀ m ∈ d.members,
        decide (.uuid m.id ∉ (t.loaded id (encode x d)).members) = false → m.userId = id :=
      fun m hm hin => t.members id x d hs _ (by simpa using hin) m hm rfl
    have hmyToken : ∀ r ∈ d.refreshTokens,
        decide (.uuid r.id ∉ (t.loaded id (encode x d)).refreshTokens) = false → r.userId = id :=
      fun r hr hin => t.refreshTokens id x d hs _ (by simpa using hin) r hr rfl
    have heffect : (Write.deleteUser id).effect d2 = (Write.deleteUser id).effect d := by
      simp only [Write.effect,d2,d1,delete_filter hmine,delete_filter hmyToken]
    obtain ⟨hmembers,hs1⟩ := emitAll_loaded hs (t.loaded id (encode x d)).members
      (rfl : (encode x d).relation .tenantMembers = some ⟨_,d.members.map memberRecord⟩) rfl
      (by decide) (fun _ => rfl) (rfl : _ = encode x d1)
    obtain ⟨htokens,hs2⟩ := emitAll_loaded hs1 (t.loaded id (encode x d)).refreshTokens
      (rfl : (encode x d1).relation .refreshTokens =
        some ⟨_,d.refreshTokens.map (refreshTokenRecord x.refreshTokens)⟩) rfl
      (by decide) (fun _ => rfl) (rfl : _ = encode x d2)
    have huser : emitAll [.delete .users [(.id,.uuid id)]] (encode x d2) =
        .ok (encode x ((Write.deleteUser id).effect d)) := by
      have hexec := exec_eq (.delete .users [(.id,.uuid id)] : Sql)
        (rfl : (encode x d2).relation .users = some _) rfl
        (settle_deleteUser (d := d2) hs2 (heffect ▸ hs'))
      rw [heffect,if_pos hs'] at hexec
      rw [emitAll_single,Statement.emit,hexec]
    rw [statements,hnone,List.map_nil,List.nil_append]
    exact (emitAll_append ((emitAll_append hmembers _).trans htokens) _).trans huser

end Deletions

/-- A session that has loaded what there is. -/
def Moment.alone (now : Nat) : Moment where
  now := now
  loaded id g := ⟨keysOf g .tenants .ownerId id,keysOf g .tenantMembers .userId id,
    keysOf g .refreshTokens .userId id⟩
  tenants _ _ := rfl
  members _ _ d hs := keysOf_owned TenantMember.userId (rfl : _ = d.members.map memberRecord)
    (fun _ => rfl) (fun _ => rfl) (sound_encode.mp hs).2.memberKey
  refreshTokens _ x d hs := keysOf_owned RefreshToken.userId
    (rfl : _ = d.refreshTokens.map (refreshTokenRecord x.refreshTokens))
    (fun _ => rfl) (fun _ => rfl) (sound_encode.mp hs).2.refreshTokenKey

theorem conforms {w : Write} {x : Stamps} {d : DB} (t : Moment) (hs : (encode x d).Sound)
    (hr : Regular w) (hl : Loaded w d) : Conforms t w x d := by
  cases w with
  | insertUser => exact conforms_insertUser hs hr
  | updateUser => exact conforms_updateUser hs hr
  | deleteUser => exact conforms_deleteUser hs hr hl
  | insertTenant => exact conforms_insertTenant hs hr
  | updateTenant => exact conforms_updateTenant hs hr
  | insertMember => exact conforms_insertMember hs hr
  | updateMember => exact conforms_updateMember hs hr
  | insertInvitation => exact conforms_insertInvitation hs hr
  | acceptInvitation => exact conforms_acceptInvitation hs hr
  | insertRefreshToken => exact conforms_insertRefreshToken hs hr
  | revokeRefreshToken => exact conforms_revokeRefreshToken hs hr
  | insertVerificationToken => exact conforms_insertVerificationToken hs hr
  | useVerificationToken => exact conforms_useVerificationToken hs hr
  | insertResetToken => exact conforms_insertResetToken hs hr
  | useResetToken => exact conforms_useResetToken hs hr
  | insertAuditLog => exact conforms_insertAuditLog hs hr
  | insertRolePermission => exact conforms_insertRolePermission hs hr
  | deleteRolePermission => exact conforms_deleteRolePermission hs
  | insertUserRole => exact conforms_insertUserRole hs hr
  | deleteUserRole => exact conforms_deleteUserRole hs
  -- A schema is no table.
  | createSchema => exact ⟨fun _ => ⟨x,rfl⟩,fun h => absurd rfl h⟩

end TenantAuth.Schema
