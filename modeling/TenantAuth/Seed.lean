import TenantAuth.Integrity
import TenantAuth.PlainPlatform
set_option autoImplicit false

namespace TenantAuth
open Transact

namespace Seed

def superAdmin : UUID := 0x11111111111111111111111111111111
def admin : UUID := 0x22222222222222222222222222222222
def user : UUID := 0x33333333333333333333333333333333
def tenantAdmin : UUID := 0x44444444444444444444444444444444
def tenantMember : UUID := 0x55555555555555555555555555555555

def usersRead : UUID := 0xaaaa0001000100010001000000000001
def usersWrite : UUID := 0xaaaa0001000100010001000000000002
def usersDelete : UUID := 0xaaaa0001000100010001000000000003
def rolesManage : UUID := 0xaaaa0001000100010001000000000004

def roles (t : Nat) : List Role :=
  [⟨superAdmin,"super_admin","Super administrator",t⟩,⟨admin,"admin","Administrator",t⟩,
    ⟨user,"user","Standard user",t⟩,⟨tenantAdmin,"tenant_admin","Tenant administrator",t⟩,
    ⟨tenantMember,"tenant_member","Tenant member",t⟩]

def permissions (t : Nat) : List Permission :=
  [⟨usersRead,"users.read","View users",t⟩,
    ⟨usersWrite,"users.write","Create and update users",t⟩,
    ⟨usersDelete,"users.delete","Delete users",t⟩,
    ⟨rolesManage,"roles.manage","Manage roles and permissions",t⟩]

def rolePermissions : List RolePermission :=
  [⟨superAdmin,usersRead⟩,⟨superAdmin,usersWrite⟩,⟨superAdmin,usersDelete⟩,
    ⟨superAdmin,rolesManage⟩,⟨admin,usersRead⟩,⟨admin,usersWrite⟩,⟨user,usersRead⟩]

def db (t : Nat) (users : List User) (userRoles : List UserRole) : DB where
  users := users
  tenants := []
  members := []
  invitations := []
  refreshTokens := []
  verificationTokens := []
  resetTokens := []
  roles := roles t
  permissions := permissions t
  rolePermissions := rolePermissions
  userRoles := userRoles
  auditLogs := []
  schemas := []

theorem deployed {t : Nat} {users : List User} {userRoles : List UserRole}
    (hid : (users.map User.id).Nodup) (hemail : (users.map User.email).Nodup)
    (hkey : userRoles.Nodup) (huser : userRoles.map UserRole.userId ⊆ users.map User.id)
    (hrole : userRoles.map UserRole.roleId ⊆ (roles t).map Role.id) :
    Deployed (db t users userRoles) where
  tenants := rfl
  members := rfl
  invitations := rfl
  refreshTokens := rfl
  verificationTokens := rfl
  resetTokens := rfl
  auditLogs := rfl
  wf := {
    userKey := hid
    userEmail := hemail
    tenantKey := List.nodup_nil
    tenantSlug := List.nodup_nil
    memberKey := List.nodup_nil
    memberPair := List.nodup_nil
    invitationKey := List.nodup_nil
    refreshTokenKey := List.nodup_nil
    verificationTokenKey := List.nodup_nil
    resetTokenKey := List.nodup_nil
    roleKey := (by decide : [superAdmin,admin,user,tenantAdmin,tenantMember].Nodup)
    roleName := by simp [db,roles]
    permissionKey := (by decide : [usersRead,usersWrite,usersDelete,rolesManage].Nodup)
    permissionName := by simp [db,permissions]
    rolePermissionKey := (by decide : rolePermissions.Nodup)
    userRoleKey := hkey
    auditLogKey := List.nodup_nil
    tenantOwner := by simp [db]
    memberTenant := by simp [db]
    memberUser := by simp [db]
    memberRole := by simp [db]
    invitationTenant := by simp [db]
    invitationRole := by simp [db]
    refreshTokenUser := by simp [db]
    refreshTokenTenant := by simp [db]
    verificationTokenUser := by simp [db]
    resetTokenUser := by simp [db]
    rolePermissionRole := (by decide : rolePermissions.map RolePermission.roleId ⊆
      [superAdmin,admin,user,tenantAdmin,tenantMember])
    rolePermissionPermission := (by decide :
      rolePermissions.map RolePermission.permissionId ⊆
        [usersRead,usersWrite,usersDelete,rolesManage])
    userRoleUser := huser
    userRoleRole := hrole
    auditLogTenant := by simp [db] }

def account (id : UUID) (email : String) : User := ⟨id,email,"pw","F","L",true,true,0,0⟩

/-- Readings with a clock that advances by `step` at each of them and with fresh ids. -/
def readings (step : Nat) : Readings where
  read i := ⟨i*step,1000+i,String.ofList (List.replicate i 's'),"salt",true,true⟩
  clock := fun _ _ h => Nat.mul_le_mul_right step h

theorem readings_secret (step : Nat) :
    Function.Injective fun i => ((readings step).read i).secret := by
  intro i j h
  simpa [readings,String.ofList_inj,List.replicate_inj] using h

theorem readings_uuid (step : Nat) : Function.Injective fun i => ((readings step).read i).uuid :=
  fun _ _ h => Nat.add_left_cancel (n := 1000) h

def bearer (P : Platform) (u : UUID) (x : Option UUID) (t : Nat) : Option String :=
  some ("Bearer " ++ accessTokenAt P u x t)

def owner : User := account 1 "owner@example.com"
def guest : User := account 2 "guest@example.com"

def world (userRoles : List UserRole) : World DB Mail := ⟨db 0 [owner,guest] userRoles,0,[]⟩

theorem deployed_world {userRoles : List UserRole} (hkey : userRoles.Nodup)
    (huser : userRoles.map UserRole.userId ⊆ [1,2])
    (hrole : userRoles.map UserRole.roleId ⊆ (roles 0).map Role.id) :
    Deployed (world userRoles).db :=
  deployed (by decide) (by simp [owner,guest,account]) hkey huser hrole

def request (u : UUID) (route : Route) : Request :=
  { authorization := bearer (plainPlatform {}) u none 0, route := route }

def login : Request := { route := .auth (.login ⟨"guest@example.com","pw"⟩) }

/-- The owner's tenants 1002 and 1010, and an invitation of 1010 to the guest. -/
def twoTenants : World DB Mail :=
  after (plainPlatform {}) (readings 0) (world [])
    [request 1 (.tenant (.createTenant "A" "a")),request 1 (.tenant (.createTenant "B" "b")),
      request 1 (.tenant (.inviteMember 1010 "guest@example.com" tenantMember))]

theorem reachable_twoTenants : Reachable (plainPlatform {}) (readings 0) twoTenants :=
  (Reachable.start (deployed_world (by simp) (by simp) (by simp))).after _

def accepting (t : UUID) : Request :=
  request 2 (.tenant (.acceptInvitation t "ssssssssssssssssss"))

end Seed

end TenantAuth
