import TenantAuth.Integrity
set_option autoImplicit false

namespace TenantAuth
open Transact

inductive Table where
  | users | tenants | members | invitations | refreshTokens | verificationTokens
  | resetTokens | roles | permissions | rolePermissions | userRoles | auditLogs | schemas
  deriving DecidableEq, Repr

def Write.touches : Write → List Table
  | .insertUser _ | .updateUser _ _ _ => [.users]
  | .deleteUser _ =>
    [.users,.members,.refreshTokens,.verificationTokens,.resetTokens,.userRoles]
  | .insertTenant _ | .updateTenant _ _ _ => [.tenants]
  | .insertMember _ | .updateMember _ _ => [.members]
  | .insertInvitation _ | .acceptInvitation _ _ => [.invitations]
  | .insertRefreshToken _ | .revokeRefreshToken _ _ => [.refreshTokens]
  | .insertVerificationToken _ | .useVerificationToken _ _ => [.verificationTokens]
  | .insertResetToken _ | .useResetToken _ _ => [.resetTokens]
  | .insertAuditLog _ => [.auditLogs]
  | .insertRolePermission _ | .deleteRolePermission _ => [.rolePermissions]
  | .insertUserRole _ | .deleteUserRole _ => [.userRoles]
  | .createSchema _ => [.schemas]

def SameIn : Table → DB → DB → Prop
  | .users, d, d' => d'.users = d.users
  | .tenants, d, d' => d'.tenants = d.tenants
  | .members, d, d' => d'.members = d.members
  | .invitations, d, d' => d'.invitations = d.invitations
  | .refreshTokens, d, d' => d'.refreshTokens = d.refreshTokens
  | .verificationTokens, d, d' => d'.verificationTokens = d.verificationTokens
  | .resetTokens, d, d' => d'.resetTokens = d.resetTokens
  | .roles, d, d' => d'.roles = d.roles
  | .permissions, d, d' => d'.permissions = d.permissions
  | .rolePermissions, d, d' => d'.rolePermissions = d.rolePermissions
  | .userRoles, d, d' => d'.userRoles = d.userRoles
  | .auditLogs, d, d' => d'.auditLogs = d.auditLogs
  | .schemas, d, d' => d'.schemas = d.schemas

theorem SameIn.refl (t : Table) (d : DB) : SameIn t d d := by cases t <;> rfl

theorem SameIn.trans {t : Table} {a b c : DB} (h1 : SameIn t a b) (h2 : SameIn t b c) :
    SameIn t a c := by
  cases t <;> exact Eq.trans h2 h1

theorem Write.effect_frame {t : Table} {w : Write} (d : DB) (h : t ∉ w.touches) :
    SameIn t d (w.effect d) := by
  cases w <;> cases t <;> first | rfl | simp [Write.touches] at h

theorem keeps_frame (t : Table) :
    Keeps Write.apply (fun w => t ∉ w.touches) (SameIn t) where
  refl := SameIn.refl t
  trans := SameIn.trans
  write hw ha := (Write.apply_eq_ok.mp ha).2 ▸ Write.effect_frame _ hw

theorem flushAll_frame {t : Table} {ws : List Write} {d d' : DB}
    (hs : ∀ w ∈ ws, t ∉ w.touches) (hf : flushAll Write.apply ws d = .ok d') :
    SameIn t d d' := flushAll_rel (keeps_frame t) hs hf

theorem flushAll_frame_ne {t t' : Table} {ws : List Write} {d d' : DB}
    (hs : ∀ w ∈ ws, w.touches = [t']) (ht : t ≠ t') (hf : flushAll Write.apply ws d = .ok d') :
    SameIn t d d' :=
  flushAll_frame (fun w hw => by simp [hs w hw,ht]) hf

section Requests
variable {P : Platform} {o : Nat → Reading} {n : Nat} {d : DB} {ws : List Write}

theorem userWrites_touches (u : User) (p : UserPatch) (t : Nat) :
    ∀ w ∈ AuthService.userWrites u p t, w.touches = [.users] :=
  AuthService.userWrites_forall fun _ _ => rfl

theorem tenantWrites_touches (t : Tenant) (p : TenantPatch) (now : Nat) :
    ∀ w ∈ TenantService.tenantWrites t p now, w.touches = [.tenants] := by
  unfold TenantService.tenantWrites
  split
  · simp
  · simp [Write.touches]

theorem memberWrites_touches (m : TenantMember) (p : TenantMemberPatch) :
    ∀ w ∈ TenantService.memberWrites m p, w.touches = [.members] := by
  unfold TenantService.memberWrites
  split
  · simp
  · simp [Write.touches]

theorem AuthCommit.touches {x : Option String} {r : AuthRoute}
    (h : AuthCommit P o n d x r ws) : ∀ w ∈ ws, ∀ t ∈ w.touches,
      t ∈ [Table.users,.refreshTokens,.verificationTokens,.resetTokens] := by
  cases h with
  | nothing => simp
  | register h => cases h <;> simp [Write.touches]
  | login _ h => simp [Write.touches]
  | logout h => simp [Write.touches]
  | refresh h => simp [AuthService.rotation,Write.touches]
  | forgotPassword h => simp [Write.touches]
  | verifyEmail h | resetPassword h =>
    refine AuthService.userWrites_append_forall (fun _ _ => ?_) ?_
    · simp [Write.touches]
    · simp [Write.touches]

theorem TenantCommit.touches {a : User} {r : TenantRoute} (h : TenantCommit P o n d a r ws) :
    ∀ w ∈ ws, ∀ t ∈ w.touches, t ∈ [Table.tenants,.members,.invitations,.schemas] := by
  cases h with
  | nothing => simp
  | createTenant hr =>
    unfold TenantService.creation
    cases P.settings.multiTenantMode <;> simp [Write.touches]
  | updateTenant _ _ =>
    intro w hw
    simp [tenantWrites_touches _ _ _ w hw]
  | deleteTenant _ _ =>
    intro w hw
    simp [tenantWrites_touches _ _ _ w hw]
  | inviteMember _ _ => simp [Write.touches]
  | acceptInvitation h => simp [TenantService.acceptance,Write.touches]
  | updateMemberRole _ _ _ =>
    intro w hw
    simp [memberWrites_touches _ _ w hw]
  | removeMember _ _ =>
    intro w hw
    simp [memberWrites_touches _ _ w hw]

theorem AdminCommit.touches {r : AdminRoute} (h : AdminCommit o n d r ws)
    (hr : ∀ id, r ≠ .deleteUser id) :
    ∀ w ∈ ws, ∀ t ∈ w.touches, t ∈ [Table.users,.rolePermissions,.userRoles] := by
  cases h with
  | updateUser h =>
    intro w hw
    simp [userWrites_touches _ _ _ w hw]
  | deleteUser h => exact absurd rfl (hr _)
  | _ => simp [Write.touches]

theorem AdminCommit.frame {r : AdminRoute} (h : AdminCommit o n d r ws)
    (hr : ∀ id, r ≠ .deleteUser id) {t : Table}
    (ht : t ∉ [Table.users,.rolePermissions,.userRoles]) {d' : DB}
    (hf : flushAll Write.apply ws d = .ok d') : SameIn t d d' :=
  flushAll_frame (fun w hw htw => ht (h.touches hr w hw t htw)) hf

theorem AuthCommit.frame {x : Option String} {r : AuthRoute} (h : AuthCommit P o n d x r ws)
    {t : Table} (ht : t ∉ [Table.users,.refreshTokens,.verificationTokens,.resetTokens]) {d' : DB}
    (hf : flushAll Write.apply ws d = .ok d') : SameIn t d d' :=
  flushAll_frame (fun w hw htw => ht (h.touches w hw t htw)) hf

theorem TenantCommit.frame {a : User} {r : TenantRoute} (h : TenantCommit P o n d a r ws)
    {t : Table} (ht : t ∉ [Table.tenants,.members,.invitations,.schemas]) {d' : DB}
    (hf : flushAll Write.apply ws d = .ok d') : SameIn t d d' :=
  flushAll_frame (fun w hw htw => ht (h.touches w hw t htw)) hf

theorem RequestCommit.registers {q : Request} {r : User}
    (hc : RequestCommit P o n d q ws) (hr : .insertUser r ∈ ws) :
    ∃ payload hash, q.route = .auth (.register payload) ∧
      r = AuthService.newUser P o n payload hash := by
  have hedit : ∀ {u : User} {p : UserPatch} {t : Nat},
      ¬ (.insertUser r ∈ AuthService.userWrites u p t) := fun hin =>
    AuthService.userWrites_forall (S := fun v => v ≠ .insertUser r) (by simp) _ hin rfl
  cases hc with
  | idle => cases hr
  | tenant _ _ hc =>
    have hin := hc.touches _ hr .users (List.mem_singleton_self _)
    simp at hin
  | admin _ _ hc =>
    cases hc with
    | updateUser _ => exact absurd hr hedit
    | _ => simp at hr
  | auth hq hc =>
    cases hc with
    | register hc =>
      cases hc with
      | nothing => cases hr
      | userOnly _ _ | all _ _ =>
        simp only [List.mem_cons,Write.insertUser.injEq,reduceCtorEq,List.not_mem_nil,
          or_false] at hr
        exact ⟨_,_,hq,hr⟩
    | verifyEmail _ | resetPassword _ =>
      rcases List.mem_append.mp hr with hr | hr
      · exact absurd hr hedit
      · simp at hr
    | refresh _ => simp [AuthService.rotation] at hr
    | _ => simp at hr

end Requests

/-- No request writes roles or permissions, and none commits an audit row: the logger's flush
comes after the last commit. -/
theorem handle_frame (P : Platform) (o : Readings) (w : World DB Mail) (q : Request) {t : Table}
    (ht : t ∈ [Table.roles,.permissions,.auditLogs]) : SameIn t w.db (handle P o w q).2.db := by
  obtain ⟨ws,h,hf⟩ := handle_commits P o w q
  have hnot : ∀ {l : List Table}, (∀ x ∈ [Table.roles,.permissions,.auditLogs], x ∉ l) → t ∉ l :=
    fun h => h t ht
  cases h with
  | idle => exact flushAll_frame (by simp) hf
  | auth _ h => exact h.frame (hnot (by simp)) hf
  | tenant _ _ h => exact h.frame (hnot (by simp)) hf
  | admin _ _ h =>
    refine flushAll_frame (fun w hw => hnot ?_) hf
    cases h with
    | updateUser h => simp [userWrites_touches _ _ _ w hw]
    | nothing => cases hw
    | _ => simp [List.mem_singleton.mp hw,Write.touches]

theorem handle_auditLogs (P : Platform) (o : Readings) (w : World DB Mail) (q : Request) :
    (handle P o w q).2.db.auditLogs = w.db.auditLogs :=
  handle_frame P o w q (t := .auditLogs) (by simp)

end TenantAuth
