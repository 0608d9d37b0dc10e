import TenantAuth.Permissions
import TenantAuth.Visibility
set_option autoImplicit false

/-! The permissions that `get_user_permissions` lists, and those that `require_permission` lets
a user through for. Both join the same three tables, but the guard only asks for a first row. -/

namespace TenantAuth
open Transact

def RoleGrants (d : DB) (u roleId permissionId : UUID) : Prop :=
  ⟨u,roleId⟩ ∈ d.userRoles ∧ ⟨roleId,permissionId⟩ ∈ d.rolePermissions

/-- No permission comes to the user from two of his roles. -/
def OneSource (d : DB) (u : UUID) : Prop :=
  ∀ permissionId roleId roleId', RoleGrants d u roleId permissionId →
    RoleGrants d u roleId' permissionId → roleId = roleId'

/-- The guard of the permission lets the user through, by a header of his. -/
def LetsThrough (P : Platform) (o : Readings) (w : World DB Mail) (u : User) (name : String) :
    Prop :=
  ∃ authorization,
    (serve Write.apply o.read (requirePermission P name authorization) w).1 = .ok u

/-- The listing has the permissions that the guard lets the user through for, each of them once,
and no others. -/
def ListsExactly (P : Platform) (o : Readings) (w : World DB Mail) (u : User) : Prop :=
  ∃ ps, (serve Write.apply o.read (AdminRouter.getUserPermissions u.id) w).1 =
      .ok (.permissions ps) ∧
    (∀ p ∈ ps, p ∈ w.db.permissions ∧ LetsThrough P o w u p.name) ∧
    ∀ p ∈ w.db.permissions, LetsThrough P o w u p.name → ps.count p = 1

section Joins
variable {d : DB} {u : UUID} {p : Permission}

def grantors (d : DB) (u permissionId : UUID) : List UserRole :=
  (d.rolePermissions.filter fun rp => rp.permissionId = permissionId).flatMap fun rp =>
    d.userRoles.filter fun ur => ur.roleId = rp.roleId ∧ ur.userId = u

theorem mem_grantors {permissionId : UUID} {ur : UserRole} :
    ur ∈ grantors d u permissionId ↔ ur.userId = u ∧ RoleGrants d u ur.roleId permissionId := by
  simp only [grantors,RoleGrants,List.mem_flatMap,List.mem_filter,decide_eq_true_eq]
  constructor
  · rintro ⟨rp,⟨hrp,rfl⟩,hur,hrole,rfl⟩
    exact ⟨rfl,hur,hrole ▸ hrp⟩
  · rintro ⟨rfl,hur,hrp⟩
    exact ⟨_,⟨hrp,rfl⟩,hur,rfl,rfl⟩

theorem grantors_nodup (hw : d.Wf) (permissionId : UUID) : (grantors d u permissionId).Nodup := by
  refine nodup_partners (hw.rolePermissionKey.filter _) hw.userRoleKey ?_
  rintro ⟨r,p⟩ hx ⟨r',p'⟩ hy ur hux huy
  simp only [List.mem_filter,decide_eq_true_eq] at hx hy hux huy
  rw [← hux.1,← huy.1,hx.2,hy.2]

theorem count_permissionJoin (hw : d.Wf) (hp : p ∈ d.permissions) :
    (permissionJoin d u).count p = (grantors d u p.id).length := by
  have hjoin : permissionJoin d u =
      d.permissions.flatMap fun p => (grantors d u p.id).map fun _ => p := by
    simp only [permissionJoin,grantors,List.map_flatMap]
  rw [hjoin]
  exact count_join (List.Nodup.of_map _ hw.permissionKey) hp _

theorem count_eq_one_iff (hw : d.Wf) (hp : p ∈ d.permissions) {roleId : UUID}
    (h : RoleGrants d u roleId p.id) :
    (permissionJoin d u).count p = 1 ↔ ∀ roleId', RoleGrants d u roleId' p.id → roleId' = roleId := by
  have hmem : ⟨u,roleId⟩ ∈ grantors d u p.id := mem_grantors.mpr ⟨rfl,h⟩
  rw [count_permissionJoin hw hp,length_eq_one_iff_of_nodup (grantors_nodup hw _) hmem]
  constructor
  · intro hone roleId' h'
    exact congrArg UserRole.roleId (hone ⟨u,roleId'⟩ (mem_grantors.mpr ⟨rfl,h'⟩))
  · rintro hone ⟨u',roleId'⟩ hur
    obtain ⟨rfl,h'⟩ := mem_grantors.mp hur
    rw [hone roleId' h']

theorem permissionNames_iff (hw : d.Wf) (hp : p ∈ d.permissions) :
    p.name ∈ permissionNames d u ↔ ∃ roleId, RoleGrants d u roleId p.id := by
  rw [mem_permissionNames]
  constructor
  · rintro ⟨p',hp',hname,⟨r,_⟩,hrp,rfl,⟨_,_⟩,hur,rfl,rfl⟩
    obtain rfl : p' = p := eq_of_key hw.permissionName hp' hp hname
    exact ⟨_,hur,hrp⟩
  · rintro ⟨roleId,hur,hrp⟩
    exact ⟨p,hp,rfl,_,hrp,rfl,_,hur,rfl,rfl⟩

theorem permissionJoin_subset : permissionJoin d u ⊆ d.permissions := by
  intro p h
  obtain ⟨p',hp',h⟩ := List.mem_flatMap.mp h
  obtain ⟨rp,-,h⟩ := List.mem_flatMap.mp h
  obtain ⟨-,-,rfl⟩ := List.mem_map.mp h
  exact hp'

theorem mem_permissionJoin (hw : d.Wf) (hp : p ∈ d.permissions) :
    p ∈ permissionJoin d u ↔ p.name ∈ permissionNames d u := by
  constructor
  · exact fun h => List.mem_map_of_mem h
  · intro h
    obtain ⟨p',hp',hname⟩ := List.mem_map.mp h
    exact eq_of_key hw.permissionName (permissionJoin_subset hp') hp hname ▸ hp'

end Joins

section Guard
variable {P : Platform} {o : Readings} {w : World DB Mail} {u : User} {name : String}

/-- The guard lets an active user through for the names of the join: a token of his that has not
expired is a header for it. -/
theorem letsThrough_iff (hw : w.db.Wf) (hu : u ∈ w.db.users) (ha : u.isActive = true) :
    LetsThrough P o w u name ↔ name ∈ permissionNames w.db u.id := by
  have hexec : ∀ authorization,
      (serve Write.apply o.read (requirePermission P name authorization) w).1 =
        AppError.outcome (authorize P name authorization (o.read w.taken).now w.db) := by
    intro authorization
    obtain ⟨m,hm,-⟩ := requirePermission_exec P o.read w.db w.db w.taken w.sent name authorization
    simp only [serve,hm]
  constructor
  · rintro ⟨authorization,h⟩
    rw [hexec] at h
    cases hauth : authorize P name authorization (o.read w.taken).now w.db with
    | error e => simp [hauth,AppError.outcome] at h
    | ok v =>
      obtain rfl : v = u := by simpa [hauth,AppError.outcome] using h
      exact (authorize_ok hauth).2
  · intro h
    have hexp : (o.read w.taken).now < seconds (((o.read w.taken).now+1)*1000000)*1000000 := by
      unfold seconds
      omega
    refine ⟨unscoped P u (((o.read w.taken).now+1)*1000000),?_⟩
    rw [hexec,authorize,actsAs_unscoped hw hu ha hexp]
    simp [h,AppError.outcome]

theorem getUserPermissions_exec :
    (serve Write.apply o.read (AdminRouter.getUserPermissions u.id) w).1 =
      .ok (.permissions (permissionJoin w.db u.id)) := by
  simp [serve,AdminRouter.getUserPermissions]

/-- The listing of an active user is that of the guard, each permission once, just when no
permission comes to him from two roles. -/
theorem listsExactly_iff (hr : Reachable P o w) (hu : u ∈ w.db.users) (ha : u.isActive = true) :
    ListsExactly P o w u ↔ OneSource w.db u.id := by
  have hw := hr.wf
  have hthrough : ∀ p ∈ w.db.permissions,
      (LetsThrough P o w u p.name ↔ ∃ roleId, RoleGrants w.db u.id roleId p.id) := fun p hp =>
    (letsThrough_iff hw hu ha).trans (permissionNames_iff hw hp)
  constructor
  · rintro ⟨ps,hps,-,honce⟩ permissionId roleId roleId' h h'
    obtain rfl : permissionJoin w.db u.id = ps := by
      simpa using getUserPermissions_exec.symm.trans hps
    have hkey : permissionId ∈ w.db.permissions.map Permission.id :=
      hw.rolePermissionPermission (List.mem_map.mpr ⟨_,h.2,rfl⟩)
    obtain ⟨p,hp,rfl⟩ := List.mem_map.mp hkey
    have hone := honce p hp ((hthrough p hp).mpr ⟨roleId,h⟩)
    exact ((count_eq_one_iff hw hp h).mp hone roleId' h').symm
  · intro hone
    refine ⟨_,getUserPermissions_exec,fun p hp => ?_,fun p hp h => ?_⟩
    · have hmem := permissionJoin_subset hp
      exact ⟨hmem,(letsThrough_iff hw hu ha).mpr ((mem_permissionJoin hw hmem).mp hp)⟩
    · obtain ⟨roleId,h⟩ := (hthrough p hp).mp h
      exact (count_eq_one_iff hw hp h).mpr fun roleId' h' => hone _ _ _ h' h

end Guard

/-- The owner is a super admin and nothing else. -/
theorem listsExactly_iff_owner :
    ListsExactly (plainPlatform {}) (Seed.readings 0) (Seed.world [⟨1,Seed.superAdmin⟩])
      Seed.owner := by
  have hw : Deployed (Seed.world [⟨1,Seed.superAdmin⟩]).db :=
    Seed.deployed_world (by simp) (by simp) (by simp [Seed.roles])
  refine (listsExactly_iff (.start hw) (by simp [Seed.world,Seed.db]) rfl).mpr ?_
  rintro p r r' ⟨h,-⟩ ⟨h',-⟩
  simp only [Seed.world,Seed.db,List.mem_singleton,UserRole.mk.injEq] at h h'
  exact h.2.trans h'.2.symm

/-- Made an admin too, he has users.read from both roles, and it is listed twice. -/
theorem listsExactly_fails :
    ¬ ∀ (P : Platform) (o : Readings) (w : World DB Mail) (u : User), Reachable P o w →
      u ∈ w.db.users → u.isActive = true → ListsExactly P o w u := by
  intro h
  let qs := [Seed.request 1 (.admin (.assignRoleToUser 1 Seed.admin))]
  have hw : Deployed (Seed.world [⟨1,Seed.superAdmin⟩]).db :=
    Seed.deployed_world (by simp) (by simp) (by simp [Seed.roles])
  obtain ⟨ps,hps,-,honce⟩ := h (plainPlatform {}) (Seed.readings 0)
    (after (plainPlatform {}) (Seed.readings 0) (Seed.world [⟨1,Seed.superAdmin⟩]) qs) Seed.owner
    ((Reachable.start hw).after qs) (by decide +kernel) rfl
  obtain rfl := Body.permissions.inj (Outcome.ok.inj (getUserPermissions_exec.symm.trans hps))
  have hthrough : LetsThrough (plainPlatform {}) (Seed.readings 0) (after (plainPlatform {})
      (Seed.readings 0) (Seed.world [⟨1,Seed.superAdmin⟩]) qs) Seed.owner "users.read" :=
    ⟨Seed.bearer (plainPlatform {}) 1 none 0,by decide +kernel⟩
  have hcount := honce ⟨Seed.usersRead,"users.read","View users",0⟩ (by decide +kernel) hthrough
  have htwice : (permissionJoin (after (plainPlatform {}) (Seed.readings 0)
      (Seed.world [⟨1,Seed.superAdmin⟩]) qs).db Seed.owner.id).count
        ⟨Seed.usersRead,"users.read","View users",0⟩ = 2 := by decide +kernel
  omega

end TenantAuth
