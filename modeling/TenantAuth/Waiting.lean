import TenantAuth.Transact.Stepwise
import TenantAuth.Calls
import TenantAuth.Concurrency
import TenantAuth.RequestCommits
import TenantAuth.Queues
import TenantAuth.Seed
set_option autoImplicit false

namespace TenantAuth
open Transact

def DB.ids (d : DB) : Table → List UUID
  | .users => d.users.map User.id
  | .tenants => d.tenants.map Tenant.id
  | .members => d.members.map TenantMember.id
  | .invitations => d.invitations.map TenantInvitation.id
  | .refreshTokens => d.refreshTokens.map RefreshToken.id
  | .verificationTokens => d.verificationTokens.map OneTimeToken.id
  | .resetTokens => d.resetTokens.map OneTimeToken.id
  | .auditLogs => d.auditLogs.map AuditLog.id
  | .roles | .permissions | .rolePermissions | .userRoles | .schemas => []

def Write.isInsert : Write → Bool
  | .insertUser _ | .insertTenant _ | .insertMember _ | .insertInvitation _ | .insertRefreshToken _
  | .insertVerificationToken _ | .insertResetToken _ | .insertAuditLog _ => true
  | _ => false

/-- The table that the statement of a write is about. -/
def Write.table : Write → Table
  | .insertUser _ | .updateUser _ _ _ | .deleteUser _ => .users
  | .insertTenant _ | .updateTenant _ _ _ => .tenants
  | .insertMember _ | .updateMember _ _ => .members
  | .insertInvitation _ | .acceptInvitation _ _ => .invitations
  | .insertRefreshToken _ | .revokeRefreshToken _ _ => .refreshTokens
  | .insertVerificationToken _ | .useVerificationToken _ _ => .verificationTokens
  | .insertResetToken _ | .useResetToken _ _ => .resetTokens
  | .insertAuditLog _ => .auditLogs
  | .insertRolePermission _ | .deleteRolePermission _ => .rolePermissions
  | .insertUserRole _ | .deleteUserRole _ => .userRoles
  | .createSchema _ => .schemas

section Rows
variable {w : Write} {d : DB} {r : Table × UUID} {t : Table} {id : UUID}

theorem mem_locks_row : .row t id ∈ w.locks ↔ w.row = some (t,id) := by
  cases w <;> simp [Write.locks,Write.row,Write.entries,eq_comm]

theorem Write.tenant_found {u : UUID} (hv : w.violation d = none) (h : .member id u ∈ w.locks) :
    id ∈ d.ids .tenants := by
  cases w with
  | insertMember r =>
    simp only [Write.locks,Write.row,Write.entries,Option.toList,List.map_cons,List.map_nil,
      List.singleton_append,List.mem_cons,reduceCtorEq,Lock.member.injEq,List.not_mem_nil,or_false,
      false_or] at h
    obtain ⟨rfl,-⟩ := h
    simp only [Write.violation,firstViolation_eq_none,List.forall_mem_cons,present_iff] at hv
    simp only [DB.ids]
    tauto
  | _ => simp [Write.locks,Write.row,Write.entries] at h

theorem Write.row_found (hv : w.violation d = none) (hr : w.row = some r)
    (hn : w.isInsert = false) : r.2 ∈ d.ids r.1 := by
  cases w with
  | updateUser _ _ _ | deleteUser _ | updateTenant _ _ _ | updateMember _ _ | acceptInvitation _ _
  | revokeRefreshToken _ _ | useVerificationToken _ _ | useResetToken _ _ =>
    cases hr
    simp only [Write.violation,firstViolation_eq_none,List.forall_mem_cons,present_iff] at hv
    simp only [DB.ids]
    tauto
  | insertRolePermission _ | deleteRolePermission _ | insertUserRole _ | deleteUserRole _
  | createSchema _ => cases hr
  | _ => cases hn

theorem Write.ids_subset (t : Table) (hw : w.isInsert = false) : (w.effect d).ids t ⊆ d.ids t := by
  have hdelete : ∀ {α : Type} (key g : α → UUID) (id : UUID) (l : List α),
      (delete key id l).map g ⊆ l.map g :=
    fun key g id l => ((delete_sublist key id l).map g).subset
  have hupdate : ∀ {α : Type} (key : α → UUID) (id : UUID) {f : α → α} (l : List α),
      (∀ r, key (f r) = key r) → (update key id f l).map key ⊆ l.map key := by
    intro α key id f l hf
    rw [map_update key id hf]
    exact List.Subset.refl _
  cases w with
  | updateUser id _ _ | updateTenant id _ _ | updateMember id _ | acceptInvitation id _
  | revokeRefreshToken id _ | useVerificationToken id _ | useResetToken id _ =>
    cases t <;> first | exact List.Subset.refl _ | exact hupdate _ id _ fun _ => rfl
  | deleteUser id =>
    cases t <;> first | exact List.Subset.refl _ | exact hdelete _ _ id _
  | insertRolePermission _ | deleteRolePermission _ | insertUserRole _ | deleteUserRole _
  | createSchema _ => cases t <;> exact List.Subset.refl _
  | _ => cases hw

theorem Write.row_made (t : Table) {id : UUID} (h : id ∈ (w.effect d).ids t) :
    id ∈ d.ids t ∨ w.isInsert = true ∧ w.row = some (t,id) := by
  cases hw : w.isInsert with
  | false => exact .inl (w.ids_subset t hw h)
  | true =>
    cases w with
    | insertUser _ | insertTenant _ | insertMember _ | insertInvitation _ | insertRefreshToken _
    | insertVerificationToken _ | insertResetToken _ | insertAuditLog _ =>
      have hrow : ∀ {α : Type} {key : α → UUID} {l : List α} {a : α}, id ∈ (l ++ [a]).map key →
          id ∈ l.map key ∨ key a = id := by
        intro α key l a hid
        simpa [eq_comm] using hid
      cases t <;> first | exact .inl h | exact (hrow h).imp_right fun he => ⟨rfl,by rw [← he]; rfl⟩
    | _ => cases hw

end Rows

section Places
variable (place : Table → Nat)

/-- The mapper sends the statements of a flush table by table. -/
def inOrder (ws : List Write) : List Write :=
  ws.insertionSort fun v w => place v.table ≤ place w.table

/-- Writes make rows under keys, and a reading offers the key of a new one. Rows rank in the order
of their tables; entries that name no new row are asked for first, but those of memberships and
schemas. -/
def rowLocks : Locking Write.apply Write.waitsFor Reading Lock UUID where
  locks := Write.locks
  isNew
    | w,.row _ _ => w.isInsert
    | _,_ => false
  name
    | .row _ id => some id
    | .member t _ => some t
    | _ => none
  rank
    | .row t _ => place t
    | .member _ _ => place .invitations + 1
    | .schema _ => place .tenants + place .members + place .invitations + 2
    | _ => 0
  draw := Reading.uuid
  has d n := ∃ t, n ∈ d.ids t
  meets := by
    intro w w' h
    simpa [Write.waitsFor,List.any_eq_true] using h
  found := by
    intro w d d' r n ha hr hn hname
    have hv := (Write.apply_eq_ok.mp ha).1
    rcases r with ⟨t,id⟩ | _ | _ | ⟨t,u⟩ | _ | _ | _
    · cases hname
      exact ⟨t,Write.row_found hv (mem_locks_row.mp hr) hn⟩
    · cases hname
    · cases hname
    · cases hname
      exact ⟨.tenants,Write.tenant_found hv hr⟩
    · cases hname
    · cases hname
    · cases hname
  made := by
    rintro w d d' n ha ⟨t,hn⟩
    rw [(Write.apply_eq_ok.mp ha).2] at hn
    rcases Write.row_made t hn with hold | ⟨hnew,hrow⟩
    · exact .inl ⟨t,hold⟩
    · exact .inr ⟨.row t n,mem_locks_row.mpr hrow,hnew,rfl⟩

end Places

section Programs
variable {place : Table → Nat} {α β : Type} {P : Platform}
  {Q : α → (UUID → Prop) → List Write → List Write → Prop} {mine : UUID → Prop}
  {own pend : List Write}

theorem mem_inOrder {ws : List Write} : ∀ w ∈ inOrder place ws, w ∈ ws :=
  fun _ hw => (List.perm_insertionSort _ _).mem_iff.mp hw

theorem above_nil (r : Lock) : (rowLocks place).Above [] r := List.forall_mem_nil _

theorem isNew_entry {w : Write} {r : Lock} (hr : r ∈ w.entries) :
    (rowLocks place).isNew w r = false := by
  cases r with
  | row t id => cases w <;> simp [Write.entries] at hr
  | _ => rfl

/-- A new row is allowed under an id of the session's own, with entries that are or that rank above
all that is held. -/
theorem allows_insert {w : Write} {t : Table} {id : UUID} (hr : w.row = some (t,id)) (hid : mine id)
    (he : ∀ r ∈ w.entries, (rowLocks place).Under mine r ∨ (rowLocks place).Above own r) :
    (rowLocks place).Allows mine own w := by
  intro r hr'
  change r ∈ w.locks at hr'
  simp only [Write.locks,hr,Option.toList,List.map_cons,List.map_nil,List.singleton_append,
    List.mem_cons] at hr'
  rcases hr' with rfl | hr'
  · exact .inl ⟨id,rfl,hid⟩
  · exact (he r hr').imp_right fun habove => ⟨isNew_entry hr',habove⟩

theorem allows_entry {w : Write} (hr : w.row = none)
    (he : ∀ r ∈ w.entries, (rowLocks place).Above own r) : (rowLocks place).Allows mine own w := by
  intro r hr'
  change r ∈ w.locks at hr'
  simp only [Write.locks,hr,Option.toList,List.map_nil,List.nil_append] at hr'
  exact .inr ⟨isNew_entry hr',he r hr'⟩

theorem allows_first {w : Write} (hn : w.isInsert = false) : (rowLocks place).Allows mine [] w := by
  refine fun r _ => .inr ⟨?_,List.forall_mem_nil _⟩
  cases r <;> first | exact hn | rfl

theorem locks_row {w : Write} {t : Table} {id : UUID} (hr : w.row = some (t,id))
    (he : w.entries = []) : w.locks = [.row t id] := by
  simp [Write.locks,hr,he]

theorem rank_insertTenant {r : Tenant} {name : String} {q : Lock}
    (hq : q ∈ (Write.insertTenant r).locks) :
    (rowLocks place).rank q < (rowLocks place).rank (.schema name) := by
  rcases List.mem_cons.mp hq with rfl | hq
  · change place .tenants < _ + _ + _ + 2
    omega
  · rw [List.mem_singleton.mp hq]
    exact Nat.succ_pos _

theorem rank_acceptInvitation {id t u : UUID} {now : Nat} {q : Lock}
    (hq : q ∈ (Write.acceptInvitation id now).locks) :
    (rowLocks place).rank q < (rowLocks place).rank (.member t u) := by
  rw [List.mem_singleton.mp hq]
  exact Nat.lt_succ_self _

theorem spreads_one (w : Write) : (rowLocks place).Spreads (inOrder place) mine [w] :=
  spreads_self rfl (List.pairwise_singleton _ _)

theorem spreads_none : (rowLocks place).Spreads (inOrder place) mine [] := spreads_self rfl .nil

theorem spreads_short {ws : List Write} (h : ws.length ≤ 1) :
    (rowLocks place).Spreads (inOrder place) mine ws := by
  match ws with
  | [] => exact spreads_none
  | [w] => exact spreads_one w
  | _ :: _ :: _ => simp at h

theorem flush_swap {v w : Write} (hv : ∀ d, v.violation (w.effect d) = v.violation d)
    (hw : ∀ d, w.violation (v.effect d) = w.violation d)
    (he : ∀ d, w.effect (v.effect d) = v.effect (w.effect d)) (d d' : DB) :
    flushAll Write.apply [w,v] d = .ok d' ↔ flushAll Write.apply [v,w] d = .ok d' := by
  simp only [flushAll_cons,flushAll_nil,hv,hw,he]
  tauto

theorem spreads_two {v w : Write}
    (hvw : place v.table ≤ place w.table → (rowLocks place).Behind mine v w)
    (hwv : place w.table < place v.table → (rowLocks place).Behind mine w v)
    (hswap : ∀ d d',
      flushAll Write.apply [w,v] d = .ok d' ↔ flushAll Write.apply [v,w] d = .ok d') :
    (rowLocks place).Spreads (inOrder place) mine [v,w] := by
  by_cases h : place v.table ≤ place w.table
  · have horder : inOrder place [v,w] = [v,w] := by simp [inOrder,h]
    exact spreads_self horder (List.pairwise_pair.mpr (hvw h))
  · have horder : inOrder place [v,w] = [w,v] := by simp [inOrder,h]
    constructor
    · rw [horder]
      exact List.pairwise_pair.mpr (hwv (Nat.lt_of_not_le h))
    · rw [horder]
      exact hswap

/-- The rows of a user and of his token, in whatever order. -/
theorem spreads_userWrites (hplace : Function.Injective place) {u : User} {p : UserPatch}
    {now : Nat} {w : Write} {id : UUID} (hrow : w.row = some (w.table,id)) (he : w.entries = [])
    (hne : w.table ≠ .users)
    (hswap : ∀ p d d', flushAll Write.apply [w,.updateUser u.id p now] d = .ok d' ↔
      flushAll Write.apply [.updateUser u.id p now,w] d = .ok d') :
    (rowLocks place).Spreads (inOrder place) mine (AuthService.userWrites u p now ++ [w]) := by
  have hlocks : w.locks = [.row w.table id] := locks_row hrow he
  have hdiff : place w.table ≠ place .users := fun h => hne (hplace h)
  unfold AuthService.userWrites
  split
  · exact spreads_one w
  · refine spreads_two (fun h r hr => .inr fun q hq => ?_) (fun h r hr => .inr fun q hq => ?_)
      (hswap _)
    · change r ∈ w.locks at hr
      rw [hlocks] at hr
      rw [List.mem_singleton.mp hr,List.mem_singleton.mp hq]
      exact Nat.lt_of_le_of_ne h hdiff.symm
    · change q ∈ w.locks at hq
      rw [hlocks] at hq
      rw [List.mem_singleton.mp hr,List.mem_singleton.mp hq]
      exact h

theorem spreads_patch {u : User} {p : UserPatch} {now : Nat} :
    (rowLocks place).Spreads (inOrder place) mine (AuthService.userWrites u p now) := by
  unfold AuthService.userWrites
  split
  · exact spreads_none
  · exact spreads_one _

/-- A membership in a tenant of the session's own, and the tenant's schema. -/
theorem spreads_creation {r : TenantMember} {name : String} (hid : mine r.id)
    (ht : mine r.tenantId) :
    (rowLocks place).Spreads (inOrder place) mine [.insertMember r,.createSchema name] := by
  refine spreads_two (fun _ q hq => .inr fun q' hq' => ?_) (fun _ q hq => .inl ?_)
    (flush_swap (fun _ => rfl) (fun _ => rfl) fun _ => rfl)
  · rw [List.mem_singleton.mp hq]
    rcases List.mem_cons.mp hq' with rfl | hq'
    · change place .members < _ + _ + _ + 2
      omega
    · rw [List.mem_singleton.mp hq']
      change place .invitations + 1 < _ + _ + _ + 2
      omega
  · rcases List.mem_cons.mp hq with rfl | hq
    · exact ⟨r.id,rfl,hid⟩
    · rw [List.mem_singleton.mp hq]
      exact ⟨r.tenantId,rfl,ht⟩

/-- The program's statements, one by one, wait only for what ranks above all that is held. -/
abbrev Steady (place : Table → Nat) (Q : α → (UUID → Prop) → List Write → List Write → Prop)
    (p : App α) (mine : UUID → Prop) (own pend : List Write) : Prop :=
  p.Staged (rowLocks place) (inOrder place) Q mine own pend

theorem staged_reads {p : App β} {f : β → App α} (hq : p.Quiet) (hw : p.Writes fun _ => False)
    (h : ∀ b mine', (∀ n, mine n → mine' n) → Steady place Q (f b) mine' own []) :
    Steady place Q (p >>= f) mine own [] := staged_bind.mpr (hq.staged rfl hw h)

theorem staged_now {f : Nat → App α}
    (h : ∀ t mine', (∀ n, mine n → mine' n) → Steady place Q (f t) mine' own pend) :
    Steady place Q (now >>= f) mine own pend := fun x => h x.now _ fun _ => .inl

theorem staged_uuid4 {f : UUID → App α}
    (h : ∀ id mine', (∀ n, mine n → mine' n) → mine' id →
      Steady place Q (f id) mine' own pend) :
    Steady place Q (uuid4 >>= f) mine own pend := fun x => h x.uuid _ (fun _ => .inl) (.inr rfl)

theorem staged_add {w : Write} {f : Unit → App α} (hw : (rowLocks place).Allows mine own w)
    (h : Steady place Q (f ()) mine own (pend ++ [w])) :
    Steady place Q (add w >>= f) mine own pend := ⟨hw,h⟩

theorem staged_flush {f : Unit → App α}
    (hs : (rowLocks place).Spreads (inOrder place) mine pend)
    (h : Steady place Q (f ()) mine (own ++ inOrder place pend) []) :
    Steady place Q (flush >>= f) mine own pend := ⟨hs,h⟩

theorem staged_commit {f : Unit → App α}
    (hs : (rowLocks place).Spreads (inOrder place) mine pend)
    (h : Steady place Q (f ()) (fun _ => False) [] []) :
    Steady place Q (commit >>= f) mine own pend := ⟨hs,h⟩

theorem staged_setUser {u : User} {p : UserPatch} {f : Unit → App α}
    (h : ∀ now mine', Steady place Q (f ()) mine' []
      (AuthService.userWrites u p now)) :
    Steady place Q (setUser u p >>= f) mine [] [] := by
  refine staged_bind.mpr (staged_now fun t mine' _ => ?_)
  have hrest := h t mine'
  unfold AuthService.userWrites at hrest
  split
  · rename_i hp
    rwa [if_pos hp] at hrest
  · rename_i hp
    rw [if_neg hp] at hrest
    exact ⟨allows_first rfl,hrest⟩

theorem staged_setTenant {t : Tenant} {p : TenantPatch} {f : Unit → App α}
    (h : ∀ vs mine', vs.length ≤ 1 →
      Steady place Q (f ()) mine' [] vs) :
    Steady place Q (TenantService.setTenant t p >>= f) mine [] [] := by
  refine staged_bind.mpr (staged_now fun _ mine' _ => ?_)
  split
  · exact h _ _ (Nat.zero_le 1)
  · exact ⟨allows_first rfl,h _ _ (Nat.le_refl 1)⟩

theorem staged_setMember {m : TenantMember} {p : TenantMemberPatch} {f : Unit → App α}
    (h : ∀ vs, vs.length ≤ 1 → Steady place Q (f ()) mine [] vs) :
    Steady place Q (TenantService.setMember m p >>= f) mine [] [] := by
  refine staged_bind.mpr ?_
  unfold TenantService.setMember
  split
  · exact h _ (Nat.zero_le 1)
  · exact ⟨allows_first rfl,h _ (Nat.le_refl 1)⟩

theorem staged_issueTokenPair {u : UUID} {x : Option UUID} {f : TokenData → App α}
    (h : ∀ tokens mine' own', Steady place Q (f tokens) mine' own' []) :
    Steady place Q (issueTokenPair P u x >>= f) mine own [] := by
  refine staged_bind.mpr ?_
  unfold issueTokenPair
  refine staged_bind.mpr (staged_now fun _ _ _ => staged_bind.mpr (staged_now fun _ _ _ => ?_))
  refine staged_uuid4 fun id mine' _ hid => staged_add ?_ ?_
  · exact allows_insert rfl hid (List.forall_mem_nil _)
  exact ⟨spreads_one _,h _ _ _⟩

theorem staged_logged {action : String} {t u : Option UUID}
    {details : Option (List (String × Detail))} {b : Body} :
    Steady place (fun _ _ _ _ => True)
      (AuditLogger.log action t u details >>= fun _ => (pure b : App Body)) mine own [] := by
  refine staged_bind.mpr (staged_uuid4 fun id mine' _ hid => staged_now fun _ mine'' hm => ?_)
  exact staged_add (allows_insert rfl (hm id hid) (List.forall_mem_nil _)) ⟨spreads_one _,trivial⟩

end Programs

section Services
variable {place : Table → Nat} {P : Platform} {mine : UUID → Prop}

/-- At its end a service holds nothing and has nothing queued. -/
abbrev Tidy (place : Table → Nat) {α : Type} (p : App α) (mine : UUID → Prop) : Prop :=
  Steady place (fun _ _ own pend => own = [] ∧ pend = []) p mine [] []

theorem tidy_reads {α : Type} {p : App α} (hq : p.Quiet) (hw : p.Writes fun _ => False) :
    Tidy place p mine := hq.staged rfl hw fun _ _ _ => ⟨rfl,rfl⟩

open AuthService in
theorem tidy_register (payload : RegisterRequest) : Tidy place (register P payload) mine := by
  refine staged_reads (quiet_scalar _ _) (writes_scalar _ _) fun _ _ _ => ?_
  refine staged_reads (quiet_appErrorIf _ _) (writes_appErrorIf _ _) fun _ _ _ => ?_
  refine staged_reads (quiet_hashPassword _ _) (writes_hashPassword _) fun _ _ _ => ?_
  refine staged_uuid4 fun id mine1 _ hid => staged_now fun _ mine2 hm => ?_
  refine staged_add (allows_insert rfl (hm id hid) fun r _ => .inr (above_nil r)) ?_
  refine staged_commit (spreads_one _) ?_
  refine staged_reads (TenantService.quiet_refreshRow _ _) (writes_refreshRow _ _) fun _ _ _ => ?_
  refine staged_bind.mpr (staged_now fun _ _ _ => ?_)
  refine staged_uuid4 fun id mine1 _ hid => ?_
  refine staged_add (allows_insert rfl hid (List.forall_mem_nil _)) ?_
  refine staged_commit (spreads_one _) ?_
  exact staged_reads (quiet_sendEmail _) (writes_sendEmail _) fun _ _ _ => ⟨rfl,rfl⟩

open AuthService in
theorem tidy_login (payload : LoginRequest) (x : Option UUID) :
    Tidy place (login P payload x) mine := by
  refine staged_reads (quiet_scalar _ _) (writes_scalar _ _) fun user _ _ => ?_
  cases user with
  | none => trivial
  | some user =>
    refine staged_reads (quiet_appErrorIf _ _) (writes_appErrorIf _ _) fun _ _ _ => ?_
    refine staged_reads (quiet_appErrorIf _ _) (writes_appErrorIf _ _) fun _ _ _ => ?_
    refine staged_reads (quiet_requireScope _ _) (writes_requireScope _ _) fun _ _ _ => ?_
    exact staged_issueTokenPair fun _ _ _ => staged_commit (spreads_none) ⟨rfl,rfl⟩

open AuthService in
theorem tidy_logout (token : String) : Tidy place (logout P token) mine := by
  refine staged_reads (quiet_decodeToken _ _ _) (writes_decodeToken _ _) fun _ _ _ => ?_
  refine staged_reads (quiet_scalar _ _) (writes_scalar _ _) fun r _ _ => ?_
  cases r with
  | none => trivial
  | some r =>
    refine staged_now fun _ _ _ => staged_add (allows_first rfl) ?_
    exact staged_commit (spreads_one _) ⟨rfl,rfl⟩

open AuthService in
theorem tidy_refresh (token : String) : Tidy place (refresh P token) mine := by
  refine staged_reads (quiet_decodeToken _ _ _) (writes_decodeToken _ _) fun _ _ _ => ?_
  refine staged_reads (quiet_scalar _ _) (writes_scalar _ _) fun r _ _ => ?_
  cases r with
  | none => trivial
  | some r =>
    refine staged_now fun _ _ _ => ?_
    refine staged_reads (quiet_appErrorIf _ _) (writes_appErrorIf _ _) fun _ _ _ => ?_
    refine staged_reads (quiet_requireScope _ _) (writes_requireScope _ _) fun _ _ _ => ?_
    refine staged_now fun _ _ _ => staged_add (allows_first rfl) (staged_flush (spreads_one _) ?_)
    exact staged_issueTokenPair fun _ _ _ => staged_commit (spreads_none) ⟨rfl,rfl⟩

open AuthService in
theorem tidy_verifyEmail (hplace : Function.Injective place) (token : String) :
    Tidy place (verifyEmail P token) mine := by
  refine staged_reads (quiet_decodeToken _ _ _) (writes_decodeToken _ _) fun _ _ _ => ?_
  refine staged_reads (quiet_scalar _ _) (writes_scalar _ _) fun r _ _ => ?_
  cases r with
  | none => trivial
  | some r =>
    refine staged_now fun _ _ _ => ?_
    refine staged_reads (quiet_appErrorIf _ _) (writes_appErrorIf _ _) fun _ _ _ => ?_
    refine staged_reads (quiet_scalar _ _) (writes_scalar _ _) fun user _ _ => ?_
    cases user with
    | none => trivial
    | some user =>
      refine staged_reads (quiet_appErrorIf _ _) (writes_appErrorIf _ _) fun _ _ _ => ?_
      refine staged_setUser fun _ _ => staged_now fun _ _ _ => ?_
      refine staged_add (allows_first rfl) (staged_commit ?_ ⟨rfl,rfl⟩)
      refine spreads_userWrites hplace rfl rfl (by simp [Write.table]) fun p => ?_
      exact flush_swap (fun _ => rfl) (fun _ => rfl) fun _ => rfl

open AuthService in
theorem tidy_forgotPassword (email : String) : Tidy place (forgotPassword P email) mine := by
  refine staged_reads (quiet_scalar _ _) (writes_scalar _ _) fun user _ _ => ?_
  cases user with
  | none => exact ⟨rfl,rfl⟩
  | some user =>
    refine staged_bind.mpr (staged_now fun _ _ _ => ?_)
    refine staged_uuid4 fun id mine1 _ hid => ?_
    refine staged_add (allows_insert rfl hid (List.forall_mem_nil _)) ?_
    refine staged_commit (spreads_one _) ?_
    exact tidy_reads (quiet_sendEmail _) (writes_sendEmail _)

open AuthService in
theorem tidy_resetPassword (hplace : Function.Injective place) (token newPassword : String) :
    Tidy place (resetPassword P token newPassword) mine := by
  refine staged_reads (quiet_decodeToken _ _ _) (writes_decodeToken _ _) fun _ _ _ => ?_
  refine staged_reads (quiet_scalar _ _) (writes_scalar _ _) fun r _ _ => ?_
  cases r with
  | none => trivial
  | some r =>
    refine staged_now fun _ _ _ => ?_
    refine staged_reads (quiet_appErrorIf _ _) (writes_appErrorIf _ _) fun _ _ _ => ?_
    refine staged_reads (quiet_scalar _ _) (writes_scalar _ _) fun user _ _ => ?_
    cases user with
    | none => trivial
    | some user =>
      refine staged_reads (quiet_hashPassword _ _) (writes_hashPassword _) fun _ _ _ => ?_
      refine staged_setUser fun _ _ => staged_now fun _ _ _ => ?_
      refine staged_add (allows_first rfl) (staged_commit ?_ ⟨rfl,rfl⟩)
      refine spreads_userWrites hplace rfl rfl (by simp [Write.table]) fun p => ?_
      exact flush_swap (fun _ => rfl) (fun _ => rfl) fun _ => rfl

open TenantService in
theorem staged_addTenant {name slug : String} {u : UUID}
    {Q : UUID → (UUID → Prop) → List Write → List Write → Prop}
    (h : ∀ id mine' r m, mine' m.id → mine' m.tenantId →
      Q id mine' [.insertTenant r] [.insertMember m]) :
    Steady place Q (addTenant P name slug u) mine [] [] := by
  refine staged_uuid4 fun id mine1 _ hid => staged_now fun _ mine2 hm => ?_
  refine staged_add (allows_insert rfl (hm id hid) fun r _ => .inr (above_nil r)) ?_
  refine staged_flush (spreads_one _) ?_
  refine staged_reads (quiet_scalar _ _) (writes_scalar _ _) fun role mine3 hm3 => ?_
  cases role with
  | none => trivial
  | some role =>
    refine staged_uuid4 fun memberId mine4 hm4 hid4 => staged_now fun _ mine5 hm5 => ?_
    refine staged_add (allows_insert rfl (hm5 memberId hid4) fun r hr => .inl ?_) ?_
    · -- The membership is one in the new tenant.
      rw [List.mem_singleton.mp hr]
      exact ⟨id,rfl,hm5 id (hm4 id (hm3 id (hm id hid)))⟩
    · exact h _ _ _ _ (hm5 memberId hid4) (hm5 id (hm4 id (hm3 id (hm id hid))))

open TenantService in
theorem tidy_createTenant (name slug : String) (u : UUID) :
    Tidy place (createTenant P name slug u) mine := by
  refine staged_bind.mpr (staged_addTenant fun id mine' tenant member hm ht => ?_)
  cases P.settings.multiTenantMode with
  | schema =>
    have hwrites : (TenantSchemaService.runMigrationsForSchema id).Writes fun _ => False :=
      Prog.Writes.bind (writes_reading _ _) fun b => by cases b <;> trivial
    have hrest : Tidy place (TenantSchemaService.runMigrationsForSchema id >>= fun _ =>
        refreshRow DB.tenants fun t => t.id = id) fun _ => False :=
      staged_reads (quiet_runMigrations _) hwrites fun _ _ _ =>
        tidy_reads (quiet_refreshRow _ _) (writes_refreshRow _ _)
    refine staged_bind.mpr (staged_add (allows_entry rfl fun r hr v hv q hq => ?_) ?_)
    · rw [List.mem_singleton.mp hr]
      rw [List.mem_singleton.mp hv] at hq
      exact rank_insertTenant hq
    · exact staged_flush (spreads_creation hm ht) ⟨spreads_none,hrest⟩
  | row =>
    refine staged_commit (spreads_one _) ?_
    exact tidy_reads (quiet_refreshRow _ _) (writes_refreshRow _ _)

open TenantService in
theorem tidy_updateTenant (t : UUID) (name : Option String) (isActive : Option Bool) :
    Tidy place (updateTenant t name isActive) mine := by
  refine staged_reads (quiet_scalar _ _) (writes_scalar _ _) fun tenant _ _ => ?_
  cases tenant with
  | none => trivial
  | some tenant =>
    refine staged_setTenant fun _ _ hvs => staged_commit (spreads_short hvs) ?_
    exact tidy_reads (TenantService.quiet_refreshRow _ _) (writes_refreshRow _ _)

open TenantService in
theorem tidy_deleteTenant (t : UUID) : Tidy place (deleteTenant t) mine := by
  refine staged_reads (quiet_scalar _ _) (writes_scalar _ _) fun tenant _ _ => ?_
  cases tenant with
  | none => trivial
  | some tenant => exact staged_setTenant fun _ _ hvs => staged_commit (spreads_short hvs) ⟨rfl,rfl⟩

open TenantService in
theorem tidy_inviteMember (t : UUID) (email : String) (roleId : UUID) :
    Tidy place (inviteMember P t email roleId) mine := by
  refine staged_reads (quiet_scalar _ _) (writes_scalar _ _) fun role _ _ => ?_
  cases role with
  | none => trivial
  | some role =>
    refine staged_reads (quiet_reading _) (writes_reading _ _) fun _ _ _ => ?_
    refine staged_now fun _ _ _ => staged_uuid4 fun id mine1 _ hid => ?_
    refine staged_add (allows_insert rfl hid (List.forall_mem_nil _)) ?_
    refine staged_commit (spreads_one _) ?_
    exact staged_reads (TenantService.quiet_refreshRow _ _) (writes_refreshRow _ _)
      fun _ _ _ => ⟨rfl,rfl⟩

open TenantService in
theorem tidy_acceptInvitation (token : String) (u : UUID) :
    Tidy place (acceptInvitation P token u) mine := by
  refine staged_reads (quiet_scalar _ _) (writes_scalar _ _) fun i _ _ => ?_
  cases i with
  | none => trivial
  | some i =>
    refine staged_now fun _ _ _ => ?_
    refine staged_reads (quiet_appErrorIf _ _) (writes_appErrorIf _ _) fun _ _ _ => ?_
    refine staged_reads (quiet_scalar _ _) (writes_scalar _ _) fun _ _ _ => ?_
    refine staged_reads (quiet_appErrorIf _ _) (writes_appErrorIf _ _) fun _ _ _ => ?_
    refine staged_now fun _ _ _ => staged_add (allows_first rfl) ?_
    -- The query for the membership sends the mark first: the invitation is held from here on.
    refine staged_bind.mpr ⟨spreads_one _,fun d => ?_⟩
    refine staged_reads (quiet_appErrorIf _ _) (writes_appErrorIf _ _) fun _ _ _ => ?_
    refine staged_uuid4 fun id mine1 _ hid => staged_now fun _ mine2 hm => ?_
    refine staged_add (allows_insert rfl (hm id hid) fun r hr => .inr fun v hv q hq => ?_) ?_
    · rw [List.mem_singleton.mp hr]
      rw [List.mem_singleton.mp hv] at hq
      exact rank_acceptInvitation hq
    refine staged_commit (spreads_one _) ?_
    exact tidy_reads (TenantService.quiet_refreshRow _ _) (writes_refreshRow _ _)

open TenantService in
theorem tidy_updateMemberRole (t u roleId : UUID) :
    Tidy place (updateMemberRole t u roleId) mine := by
  refine staged_reads (quiet_scalar _ _) (writes_scalar _ _) fun member _ _ => ?_
  cases member with
  | none => trivial
  | some member =>
    refine staged_reads (quiet_scalar _ _) (writes_scalar _ _) fun role _ _ => ?_
    cases role with
    | none => trivial
    | some role =>
      refine staged_setMember fun _ hvs => staged_commit (spreads_short hvs) ?_
      exact tidy_reads (TenantService.quiet_refreshRow _ _) (writes_refreshRow _ _)

open TenantService in
theorem tidy_removeMember (t u : UUID) : Tidy place (removeMember t u) mine := by
  refine staged_reads (quiet_scalar _ _) (writes_scalar _ _) fun member _ _ => ?_
  cases member with
  | none => trivial
  | some member => exact staged_setMember fun _ hvs => staged_commit (spreads_short hvs) ⟨rfl,rfl⟩

end Services

section Endpoints
variable {place : Table → Nat} {P : Platform} {mine : UUID → Prop}

theorem staged_answered {α : Type} {p : App α} {f : α → Body} (h : Tidy place p mine) :
    Steady place (fun _ _ _ _ => True) (p >>= fun a => (pure (f a) : App Body)) mine [] [] :=
  staged_bind.mpr (h.mono fun _ _ _ _ _ => trivial)

theorem staged_then {α : Type} {p : App α} {f : α → App Body} (h : Tidy place p mine)
    (hf : ∀ a mine, Steady place (fun _ _ _ _ => True) (f a) mine [] []) :
    Steady place (fun _ _ _ _ => True) (p >>= f) mine [] [] := by
  refine staged_bind.mpr (h.mono ?_)
  rintro a mine own pend ⟨rfl,rfl⟩
  exact hf a mine

theorem AuthRoute.staged (hplace : Function.Injective place) (r : AuthRoute)
    (xTenantId : Option String) :
    Steady place (fun _ _ _ _ => True) (r.endpoint P xTenantId) mine [] [] := by
  cases r with
  | register payload => exact staged_answered (tidy_register _)
  | login payload =>
    simp only [AuthRoute.endpoint,AuthRouter.login]
    cases AuthRouter.loginTenantId P xTenantId with
    | error e => trivial
    | ok x => exact staged_answered (tidy_login _ _)
  | logout token => exact staged_answered (tidy_logout _)
  | refresh token => exact staged_answered (tidy_refresh _)
  | verifyEmail token => exact staged_answered (tidy_verifyEmail hplace _)
  | forgotPassword email => exact staged_answered (tidy_forgotPassword _)
  | resetPassword token newPassword => exact staged_answered (tidy_resetPassword hplace _ _)

theorem tidy_getCurrentUser (authorization : Option String) :
    Tidy place (getCurrentUser P authorization) mine := by
  unfold getCurrentUser
  cases P.httpBearer authorization with
  | none => trivial
  | some credentials =>
    refine staged_reads (quiet_appErrorIf _ _) (writes_appErrorIf _ _) fun _ _ _ => ?_
    refine staged_reads (quiet_decodeToken _ _ _) (AuthService.writes_decodeToken _ _)
      fun _ _ _ => ?_
    refine staged_reads (quiet_scalar _ _) (writes_scalar _ _) fun user _ _ => ?_
    cases user with
    | none => trivial
    | some user => exact ⟨rfl,rfl⟩

theorem tidy_requireTenantAdmin (t : UUID) (user : User) :
    Tidy place (requireTenantAdmin t user) mine := by
  refine staged_reads (quiet_scalar _ _) (writes_scalar _ _) fun m _ _ => ?_
  cases m with
  | none => trivial
  | some m =>
    refine staged_reads (TenantService.quiet_refreshRow _ _) (writes_refreshRow _ _)
      fun _ _ _ => ?_
    exact staged_reads (quiet_appErrorIf _ _) (writes_appErrorIf _ _) fun _ _ _ => ⟨rfl,rfl⟩

theorem TenantRoute.staged (r : TenantRoute) (user : User) :
    Steady place (fun _ _ _ _ => True) (r.endpoint P user) mine [] [] := by
  cases r with
  | createTenant name slug =>
    exact staged_then (tidy_createTenant _ _ _) fun _ _ => staged_logged
  | listMyTenants => exact ⟨spreads_none,fun _ => trivial⟩
  | getTenant t =>
    refine staged_reads (quiet_scalar _ _) (writes_scalar _ _) fun m _ _ => ?_
    cases m with
    | none => trivial
    | some m =>
      refine staged_reads (quiet_scalar _ _) (writes_scalar _ _) fun tenant _ _ => ?_
      cases tenant <;> trivial
  | updateTenant t name isActive =>
    refine staged_then (tidy_requireTenantAdmin _ _) fun _ _ => ?_
    exact staged_then (tidy_updateTenant _ _ _) fun _ _ => staged_logged
  | deleteTenant t =>
    refine staged_then (tidy_requireTenantAdmin _ _) fun _ _ => ?_
    exact staged_then (tidy_deleteTenant _) fun _ _ => staged_logged
  | listMembers t =>
    refine staged_reads (quiet_scalar _ _) (writes_scalar _ _) fun m _ _ => ?_
    cases m with
    | none => trivial
    | some m => exact ⟨spreads_none,fun _ => trivial⟩
  | inviteMember t email roleId =>
    refine staged_then (tidy_requireTenantAdmin _ _) fun _ _ => ?_
    exact staged_then (tidy_inviteMember _ _ _) fun _ _ => staged_logged
  | acceptInvitation t token =>
    exact staged_then (tidy_acceptInvitation _ _) fun _ _ => staged_logged
  | updateMemberRole t u roleId =>
    refine staged_then (tidy_requireTenantAdmin _ _) fun _ _ => ?_
    exact staged_then (tidy_updateMemberRole _ _ _) fun _ _ => staged_logged
  | removeMember t u =>
    refine staged_then (tidy_requireTenantAdmin _ _) fun _ _ => ?_
    exact staged_then (tidy_removeMember _ _) fun _ _ => staged_logged

theorem AdminRoute.staged (r : AdminRoute) :
    Steady place (fun _ _ _ _ => True) r.endpoint mine [] [] := by
  cases r with
  | listRoles | getRolePermissions _ | listPermissions | listUsers | getUserPermissions _ =>
    exact ⟨spreads_none,fun _ => trivial⟩
  | getUser userId =>
    refine staged_reads (quiet_scalar _ _) (writes_scalar _ _) fun user _ _ => ?_
    cases user <;> trivial
  | assignPermissionToRole _ _ | assignRoleToUser _ _ =>
    refine staged_reads (quiet_scalar _ _) (writes_scalar _ _) fun _ _ _ => ?_
    refine staged_reads (quiet_appErrorIf _ _) (writes_appErrorIf _ _) fun _ _ _ => ?_
    refine staged_add (allows_entry rfl fun r _ => above_nil r) ?_
    exact staged_commit (spreads_one _) trivial
  | removePermissionFromRole _ _ =>
    refine staged_add (allows_entry rfl fun r _ => above_nil r) ?_
    exact staged_commit (spreads_one _) trivial
  | removeRoleFromUser _ _ => trivial
  | updateUser userId payload =>
    refine staged_reads (quiet_scalar _ _) (writes_scalar _ _) fun user _ _ => ?_
    cases user with
    | none => trivial
    | some user =>
      refine staged_setUser fun _ _ => staged_commit spreads_patch ?_
      exact staged_reads (TenantService.quiet_refreshRow _ _) (writes_refreshRow _ _)
        fun _ _ _ => trivial
  | deleteUser userId =>
    refine staged_reads (quiet_scalar _ _) (writes_scalar _ _) fun user _ _ => ?_
    cases user with
    | none => trivial
    | some user => exact staged_add (allows_first rfl) (staged_commit (spreads_one _) trivial)

theorem Request.staged (hplace : Function.Injective place) (q : Request) :
    Steady place (fun _ _ _ _ => True) (q.endpoint P) mine [] [] := by
  unfold Request.endpoint
  split
  · exact AuthRoute.staged hplace _ _
  · exact staged_answered (tidy_getCurrentUser _)
  · exact staged_then (tidy_getCurrentUser _) fun user _ => TenantRoute.staged _ user
  · refine staged_then ?_ fun _ _ => AdminRoute.staged _
    refine staged_bind.mpr ((tidy_getCurrentUser q.authorization).mono ?_)
    rintro user mine own pend ⟨rfl,rfl⟩
    refine staged_reads (quiet_select _) (writes_select _ _) fun _ _ _ => ?_
    exact staged_reads (quiet_appErrorIf _ _) (writes_appErrorIf _ _) fun _ _ _ => ⟨rfl,rfl⟩

end Endpoints

/-- The request, statement by statement: a flush sends its statements one by one, and each waits by
itself. Served alone it does the same (`Request.serve_statements`). -/
def Request.statements (P : Platform) (place : Table → Nat) (q : Request) : App Body :=
  (q.endpoint P).stepwise (inOrder place) []

theorem Request.serve_statements {place : Table → Nat} (hplace : Function.Injective place)
    {P : Platform} {o : Readings} {q : Request} {w : World DB Mail} :
    let x := serve Write.apply o.read (q.statements P place) w
    let y := serve Write.apply o.read (q.endpoint P) w
    respond q.route.statusCode x.1 = respond q.route.statusCode y.1 ∧ x.2 = y.2 := by
  have hstaged : Steady place (fun _ _ _ _ => True) (q.endpoint P) (fun _ => False) [] [] :=
    q.staged hplace
  obtain ⟨hend,hworld⟩ := serve_stepwise (o := o.read) (w := w) hstaged
  refine ⟨?_,hworld⟩
  rcases hend with he | ⟨f,f',hf,hf'⟩
  · exact congrArg _ he
  · exact (congrArg _ hf).trans (congrArg (respond q.route.statusCode) hf').symm

section Runs
variable {place : Table → Nat} {P : Platform} {o : Readings}
  {s₀ s : System DB Write Fault Reading Exc Mail Body Request}

/-- With distinct ids drawn, in every interleaving of the statements of any requests without
deletions of users, whatever the order of the tables in a flush: as long as a request is running
some request can go on, and from there all can be brought to their ends. -/
theorem nobody_stuck (hplace : Function.Injective place)
    (huuid : Function.Injective fun i => (o.read i).uuid) (h0 : s₀.sessions = [])
    (hfresh : ∀ t, ∀ id ∈ s₀.world.db.ids t, ∀ i, s₀.world.taken ≤ i → (o.read i).uuid ≠ id)
    (h : Reach Write.apply Write.waitsFor o.read (Request.statements P place)
      (fun _ m => ∀ q, m = .arrive q → q.deletesUser = false) (fun _ => True) s₀ s) :
    ((∃ x ∈ s.sessions, x.2.isRunning = true) → ∃ k,
      (s.move Write.apply Write.waitsFor o.read (Request.statements P place) (.run k)).isSome =
        true) ∧
    ∃ s', Onward Write.apply Write.waitsFor o.read (Request.statements P place) s s' ∧
      ∀ x ∈ s'.sessions, x.2.isRunning = false := by
  have horderly : ∀ q : Request, (q.statements P place).Orderly (rowLocks place) (fun _ => False)
      [] [] := fun q => (q.staged hplace).orderly (fun _ => mem_inOrder) (List.forall_mem_nil _)
  obtain ⟨N,hN⟩ : ∃ N, Apart (rowLocks place) o.read N s :=
    h.apart huuid horderly h0 fun _ ⟨t,hn⟩ i hi => hfresh t _ hn i hi
  exact ⟨hN.progress,hN.finishes huuid⟩

end Runs

section Guest
open Seed

def Seed.forgetting : Request := { route := .auth (.forgotPassword "guest@example.com") }

def Seed.resetGuest : Request :=
  { route := .auth (.resetPassword (createTypedToken (plainPlatform {}) 2 "guest@example.com" .reset
      (timedeltaHours 1)).1 "new") }

def Seed.tokensFirst : Table → Nat
  | .resetTokens => 0
  | t => t.ctorIdx + 1

theorem tokensFirst_injective : Function.Injective tokensFirst := by
  intro t t' h
  cases t <;> cases t' <;> first | rfl | exact absurd h (by decide)

def Seed.forgotten : World DB Mail :=
  after (plainPlatform {}) (readings 1000000) (world []) [forgetting]

/-- The first has sent the mark on the token and not yet the new hash; the second wants to send its
own mark. -/
def Seed.queueing : Option (System DB Write Fault Reading Exc Mail Body Request) :=
  System.play Write.apply Write.waitsFor (readings 1000000).read
    (Request.statements (plainPlatform {}) tokensFirst)
    (fun _ m => match m with | .arrive q => !q.deletesUser | .run _ => true) (fun _ => true)
    ⟨forgotten,[]⟩
    ([.arrive resetGuest,.arrive resetGuest] ++ List.replicate 10 (.run 0) ++
      List.replicate 8 (.run 1))

theorem nobody_stuck_queueing :
    ∃ s, queueing = some s ∧
      s.move Write.apply Write.waitsFor (readings 1000000).read
        (Request.statements (plainPlatform {}) tokensFirst) (.run 1) = none ∧
      (∃ k, (s.move Write.apply Write.waitsFor (readings 1000000).read
        (Request.statements (plainPlatform {}) tokensFirst) (.run k)).isSome = true) ∧
      ∃ s', Onward Write.apply Write.waitsFor (readings 1000000).read
          (Request.statements (plainPlatform {}) tokensFirst) s s' ∧
        ∀ x ∈ s'.sessions, x.2.isRunning = false := by
  have hrun : queueing.map (fun s => (s.sessions.any fun x => x.2.isRunning,
      (s.move Write.apply Write.waitsFor (readings 1000000).read
        (Request.statements (plainPlatform {}) tokensFirst) (.run 1)).isSome)) =
      some (true,false) := by
    decide +kernel
  obtain ⟨s,hs,hview⟩ := Option.map_eq_some_iff.mp hrun
  obtain ⟨hany,hwait⟩ := Prod.mk.inj hview
  have hids : ∀ t, ∀ id ∈ forgotten.db.ids t, id < 1000 + forgotten.taken := by
    intro t
    cases t <;> decide +kernel
  have hfresh : ∀ t, ∀ id ∈ forgotten.db.ids t, ∀ i, forgotten.taken ≤ i →
      ((readings 1000000).read i).uuid ≠ id := by
    intro t id hid i hi he
    have hle := Nat.add_le_add_left hi 1000
    have hi' : 1000 + i = id := he
    exact absurd (hids t id hid) (Nat.not_lt.mpr (hi' ▸ hle))
  have hreach : Reach Write.apply Write.waitsFor (readings 1000000).read
      (Request.statements (plainPlatform {}) tokensFirst)
      (fun _ m => ∀ q, m = .arrive q → q.deletesUser = false) (fun _ => True) ⟨forgotten,[]⟩ s := by
    refine System.play_reach (fun _ m hm q hq => ?_) (fun _ _ => trivial) (.start trivial) hs
    subst hq
    simpa using hm
  obtain ⟨hgo,hend⟩ :=
    nobody_stuck tokensFirst_injective (readings_uuid 1000000) rfl hfresh hreach
  exact ⟨s,hs,by simpa using hwait,hgo (by simpa using hany),hend⟩

end Guest

end TenantAuth
