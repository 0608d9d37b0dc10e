import TenantAuth.Footprint
import TenantAuth.Seed
set_option autoImplicit false

namespace TenantAuth
open Transact

section Names
variable {d d' : DB}

theorem mem_permissionNames {u : UUID} {name : String} :
    name ∈ permissionNames d u ↔ ∃ p ∈ d.permissions, p.name = name ∧
      ∃ rp ∈ d.rolePermissions, rp.permissionId = p.id ∧
        ∃ ur ∈ d.userRoles, ur.roleId = rp.roleId ∧ ur.userId = u := by
  simp only [permissionNames,permissionJoin,List.mem_map,List.mem_flatMap,List.mem_filter,
    decide_eq_true_eq]
  constructor
  · rintro ⟨p,⟨p',hp',rp,⟨hrp,hk⟩,ur,⟨hur,hr,hu⟩,rfl⟩,rfl⟩
    exact ⟨p',hp',rfl,rp,hrp,hk,ur,hur,hr,hu⟩
  · rintro ⟨p,hp,hn,rp,hrp,hk,ur,hur,hr,hu⟩
    exact ⟨p,⟨p,hp,rp,⟨hrp,hk⟩,ur,⟨hur,hr,hu⟩,rfl⟩,hn⟩

theorem permissionNames_mono (hp : d'.permissions = d.permissions)
    (hrp : d'.rolePermissions ⊆ d.rolePermissions) (hur : d'.userRoles ⊆ d.userRoles) {u : UUID}
    {name : String} (h : name ∈ permissionNames d' u) : name ∈ permissionNames d u := by
  obtain ⟨p,hp',hn,rp,hrp',hk,ur,hur',hr,hu⟩ := mem_permissionNames.mp h
  exact mem_permissionNames.mpr ⟨p,hp ▸ hp',hn,rp,hrp hrp',hk,ur,hur hur',hr,hu⟩

theorem permissionJoin_congr (hp : SameIn .permissions d d')
    (hrp : SameIn .rolePermissions d d') (hur : SameIn .userRoles d d') (u : UUID) :
    permissionJoin d' u = permissionJoin d u := by
  simp only [SameIn] at hp hrp hur
  simp only [permissionJoin,hp,hrp,hur]

theorem permissionNames_stranger (h : d.Wf) {u : UUID} (hu : u ∉ d.users.map User.id) :
    permissionNames d u = [] := by
  rw [List.eq_nil_iff_forall_not_mem]
  intro name hn
  obtain ⟨_,_,_,_,_,_,ur,hur,_,rfl⟩ := mem_permissionNames.mp hn
  exact hu (h.userRoleUser (List.mem_map_of_mem hur))

end Names

section Requests
variable {P : Platform} {o : Readings} {w : World DB Mail} {q : Request}

/-- The tenant routes, and so every invitation, acceptance and change of a membership
role, leave the join as it is. -/
theorem handle_tenant_permissionJoin {r : TenantRoute} (hq : q.route = .tenant r) (u : UUID) :
    permissionJoin (handle P o w q).2.db u = permissionJoin w.db u := by
  obtain ⟨ws,h,hf⟩ := handle_commits P o w q
  cases h with
  | idle => rw [flushAll_nil,Except.ok.injEq] at hf; rw [← hf]
  | auth hq' => rw [hq] at hq'; cases hq'
  | admin hq' => rw [hq] at hq'; cases hq'
  | tenant _ _ h =>
    exact permissionJoin_congr (h.frame (by simp) hf) (h.frame (by simp) hf)
      (h.frame (by simp) hf) u

theorem AdminCommit.gain {o : Nat → Reading} {n : Nat} {d d' : DB} {r : AdminRoute}
    {ws : List Write} (h : AdminCommit o n d r ws) (hf : flushAll Write.apply ws d = .ok d')
    {u : UUID} {name : String} (hg : name ∈ permissionNames d' u)
    (hn : name ∉ permissionNames d u) : r.permission = "roles.manage" := by
  cases h with
  | assignPermissionToRole | removePermissionFromRole | assignRoleToUser => rfl
  | nothing =>
    cases hf
    exact absurd hg hn
  | updateUser h =>
    have hs : ∀ {t : Table}, t ≠ .users → SameIn t d d' := fun ht =>
      flushAll_frame_ne (userWrites_touches _ _ _) ht hf
    rw [permissionNames,permissionJoin_congr (hs (by simp)) (hs (by simp)) (hs (by simp))] at hg
    exact absurd hg hn
  | deleteUser h =>
    obtain ⟨_,rfl⟩ := flushAll_single.mp hf
    have hsub : ∀ k, delete UserRole.userId k d.userRoles ⊆ d.userRoles :=
      fun k => (delete_sublist _ k _).subset
    refine absurd (permissionNames_mono (d := d) ?_ ?_ ?_ hg) hn
    · rfl
    · exact fun _ h => h
    · exact hsub _

theorem handle_gain {u : UUID} {name : String}
    (hg : name ∈ permissionNames (handle P o w q).2.db u) (hn : name ∉ permissionNames w.db u) :
    ∃ a, ActsAs P o w q a ∧ a ∈ w.db.users ∧ a.isActive = true ∧
      "roles.manage" ∈ permissionNames w.db a.id := by
  obtain ⟨ws,h,hf⟩ := handle_commits P o w q
  cases h with
  | idle =>
    rw [← Except.ok.inj hf] at hg
    exact absurd hg hn
  | auth _ h =>
    rw [permissionNames,permissionJoin_congr (h.frame (by simp) hf) (h.frame (by simp) hf)
      (h.frame (by simp) hf)] at hg
    exact absurd hg hn
  | tenant _ _ h =>
    rw [permissionNames,permissionJoin_congr (h.frame (by simp) hf) (h.frame (by simp) hf)
      (h.frame (by simp) hf)] at hg
    exact absurd hg hn
  | admin _ ha h =>
    obtain ⟨hact,hperm⟩ := authorize_ok ha
    rw [h.gain hf hg hn] at hperm
    obtain ⟨hmem,hactive⟩ := authenticate_ok hact
    exact ⟨_,hact,hmem,hactive,hperm⟩

theorem after_permissionNames (hw : w.db.Wf)
    (hnone : ∀ a ∈ w.db.users, "roles.manage" ∉ permissionNames w.db a.id) (qs : List Request)
    {u : UUID} {name : String} (h : name ∈ permissionNames (after P o w qs).db u) :
    name ∈ permissionNames w.db u := by
  have hall : ∀ x, "roles.manage" ∉ permissionNames w.db x := by
    intro x hx
    by_cases hu : x ∈ w.db.users.map User.id
    · obtain ⟨a,ha,rfl⟩ := List.mem_map.mp hu
      exact hnone a ha hx
    · simp [permissionNames_stranger hw hu] at hx
  -- Along the run every user's names stay among those of the first state.
  have hrun : ∀ (qs : List Request) (v : World DB Mail),
      (∀ x n, n ∈ permissionNames v.db x → n ∈ permissionNames w.db x) →
      ∀ x n, n ∈ permissionNames (after P o v qs).db x → n ∈ permissionNames w.db x := by
    intro qs
    induction qs with
    | nil => exact fun v hv => hv
    | cons q qs ih =>
      intro v hv
      refine ih _ fun x n hx => ?_
      by_cases hx' : n ∈ permissionNames v.db x
      · exact hv x n hx'
      · obtain ⟨a,_,_,_,ha⟩ := handle_gain hx hx'
        exact absurd (hv a.id _ ha) (hall a.id)
  exact hrun qs w (fun _ _ h => h) u name h

end Requests

/-- Only an active user with roles.manage enlarges anybody's permissions. So where nobody
has it, no run of requests gives a user, present or newly registered, a permission; and the
tenant routes leave permissions alone altogether. -/
theorem no_escalation (P : Platform) (o : Readings) :
    (∀ (w : World DB Mail) (q : Request) (u : UUID) (name : String),
      name ∈ permissionNames (handle P o w q).2.db u → name ∉ permissionNames w.db u →
      ∃ a, ActsAs P o w q a ∧ a ∈ w.db.users ∧ a.isActive = true ∧
        "roles.manage" ∈ permissionNames w.db a.id) ∧
    (∀ w : World DB Mail, w.db.Wf →
      (∀ a ∈ w.db.users, "roles.manage" ∉ permissionNames w.db a.id) →
      ∀ (qs : List Request) (u : UUID),
        permissionNames (after P o w qs).db u ⊆ permissionNames w.db u ∧
        (u ∉ w.db.users.map User.id → permissionNames (after P o w qs).db u = [])) ∧
    (∀ (w : World DB Mail) (q : Request) (r : TenantRoute), q.route = .tenant r →
      ∀ u, permissionNames (handle P o w q).2.db u = permissionNames w.db u) := by
  refine ⟨fun w q u name hg hn => handle_gain hg hn,fun w hw hnone qs u => ?_,
    fun w q r hq u => congrArg _ (handle_tenant_permissionJoin hq u)⟩
  have hsub : permissionNames (after P o w qs).db u ⊆ permissionNames w.db u :=
    fun name h => after_permissionNames hw hnone qs h
  refine ⟨hsub,fun hu => ?_⟩
  rw [permissionNames_stranger hw hu] at hsub
  exact List.eq_nil_of_subset_nil hsub

/-- The owner, a super admin here, makes the guest a user. -/
theorem no_escalation_assigning :
    let w := Seed.world [⟨1,Seed.superAdmin⟩]
    let q := Seed.request 1 (.admin (.assignRoleToUser 2 Seed.user))
    ∃ a, ActsAs (plainPlatform {}) (Seed.readings 0) w q a ∧ a ∈ w.db.users ∧
      a.isActive = true ∧ "roles.manage" ∈ permissionNames w.db a.id :=
  (no_escalation _ _).1 _ _ 2 "users.read" (by decide +kernel) (by decide +kernel)

end TenantAuth
