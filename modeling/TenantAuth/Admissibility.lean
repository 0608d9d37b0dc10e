import TenantAuth.AuditTrail
set_option autoImplicit false

namespace TenantAuth
open Transact
open Relational (varchar cut)

/-- The primary keys that were drawn with `uuid.uuid4()`, or put there by the operator. -/
def DB.keys (d : DB) : List UUID :=
  d.users.map User.id ++ d.tenants.map Tenant.id ++ d.members.map TenantMember.id ++
    d.invitations.map TenantInvitation.id ++ d.refreshTokens.map RefreshToken.id ++
    d.verificationTokens.map OneTimeToken.id ++ d.resetTokens.map OneTimeToken.id ++
    d.auditLogs.map AuditLog.id

/-- From reading `n` on, `uuid.uuid4()` gives keys that are not in use, and none twice. -/
structure FreshKeys (o : Nat → Reading) (n : Nat) (d : DB) : Prop where
  unused : ∀ i, n ≤ i → (o i).uuid ∉ d.keys
  distinct : ∀ i j, n ≤ i → n ≤ j → (o i).uuid = (o j).uuid → i = j

section Fresh
variable {o : Nat → Reading} {n i : Nat} {d : DB}

theorem FreshKeys.mono {n' : Nat} (h : FreshKeys o n d) (hn : n ≤ n') : FreshKeys o n' d :=
  ⟨fun i hi => h.unused i (hn.trans hi),
    fun i j hi hj => h.distinct i j (hn.trans hi) (hn.trans hj)⟩

theorem FreshKeys.users (h : FreshKeys o n d) (hi : n ≤ i) :
    (o i).uuid ∉ d.users.map User.id := fun hk => h.unused i hi (by simp [DB.keys,List.mem_map.mp hk])

theorem FreshKeys.tenants (h : FreshKeys o n d) (hi : n ≤ i) :
    (o i).uuid ∉ d.tenants.map Tenant.id :=
  fun hk => h.unused i hi (by simp [DB.keys,List.mem_map.mp hk])

theorem FreshKeys.members (h : FreshKeys o n d) (hi : n ≤ i) :
    (o i).uuid ∉ d.members.map TenantMember.id :=
  fun hk => h.unused i hi (by simp [DB.keys,List.mem_map.mp hk])

theorem FreshKeys.invitations (h : FreshKeys o n d) (hi : n ≤ i) :
    (o i).uuid ∉ d.invitations.map TenantInvitation.id :=
  fun hk => h.unused i hi (by simp [DB.keys,List.mem_map.mp hk])

theorem FreshKeys.refreshTokens (h : FreshKeys o n d) (hi : n ≤ i) :
    (o i).uuid ∉ d.refreshTokens.map RefreshToken.id :=
  fun hk => h.unused i hi (by simp [DB.keys,List.mem_map.mp hk])

theorem FreshKeys.verificationTokens (h : FreshKeys o n d) (hi : n ≤ i) :
    (o i).uuid ∉ d.verificationTokens.map OneTimeToken.id :=
  fun hk => h.unused i hi (by simp [DB.keys,List.mem_map.mp hk])

theorem FreshKeys.resetTokens (h : FreshKeys o n d) (hi : n ≤ i) :
    (o i).uuid ∉ d.resetTokens.map OneTimeToken.id :=
  fun hk => h.unused i hi (by simp [DB.keys,List.mem_map.mp hk])

end Fresh

theorem Seed.freshKeys {step n : Nat} {d : DB} (h : ∀ k ∈ d.keys, k < 1000+n) :
    FreshKeys (readings step).read n d where
  unused i hi hk := by
    have hlt : 1000+i < 1000+n := h _ hk
    omega
  distinct i j _ _ he := readings_uuid step he

theorem admissible_single {x : Write} {d : DB} : Admissible [x] d ↔ x.violation d = none := by
  constructor
  · rintro ⟨d',hf⟩
    exact (flushAll_single.mp hf).1
  · intro hv
    exact ⟨_,flushAll_single.mpr ⟨hv,rfl⟩⟩

theorem admissible_append {xs ys : List Write} {d d' : DB}
    (h : flushAll Write.apply xs d = .ok d') :
    Admissible (xs ++ ys) d ↔ Admissible ys d' := by
  unfold Admissible
  rw [flushAll_append,h]

section Creations
variable {P : Platform} {o : Nat → Reading} {n : Nat} {d : DB} {name slug : String} {ownerId : UUID}

structure TenantService.Creatable (P : Platform) (d : DB) (name slug : String) (ownerId : UUID) :
    Prop where
  nameFits : varchar 255 (strip name) = true
  slugFits : varchar 100 (P.lower (strip slug)) = true
  slugFree : P.lower (strip slug) ∉ d.tenants.map Tenant.slug
  owner : ownerId ∈ d.users.map User.id

theorem newTenant_violation_iff (hfresh : FreshKeys o n d) :
    (Write.insertTenant (TenantService.newTenant P o n name slug ownerId)).violation d = none ↔
      TenantService.Creatable P d name slug ownerId := by
  simp only [Write.violation,firstViolation_eq_none,List.forall_mem_cons,vacant_iff,present_iff]
  constructor
  · rintro ⟨hname,hslug,-,hfree,howner,-⟩
    exact ⟨hname,hslug,hfree,howner⟩
  · intro h
    exact ⟨h.nameFits,h.slugFits,hfresh.tenants (Nat.le_refl n),h.slugFree,h.owner,by simp⟩

theorem creation_admissible_iff (hw : d.Wf) (hfresh : FreshKeys o n d) {role : Role}
    (hr : TenantService.adminRole d = some role) :
    Admissible (TenantService.creation P o n name slug ownerId role) d ↔
      TenantService.Creatable P d name slug ownerId := by
  have htenant : (Write.insertTenant (TenantService.newTenant P o n name slug ownerId)).violation d
      = none ↔ TenantService.Creatable P d name slug ownerId := newTenant_violation_iff hfresh
  unfold TenantService.creation
  constructor
  · rintro ⟨d',hf⟩
    rw [List.cons_append,flushAll_cons] at hf
    exact htenant.mp hf.1
  · intro h
    -- The tenant is new, so nobody is a member of it yet.
    have hpair : ((o n).uuid,ownerId) ∉ d.members.map fun m => (m.tenantId,m.userId) := by
      intro hin
      obtain ⟨m,hm,he⟩ := List.mem_map.mp hin
      have hused : (o n).uuid ∈ d.tenants.map Tenant.id :=
        hw.memberTenant (List.mem_map.mpr ⟨m,hm,(Prod.mk.inj he).1⟩)
      exact hfresh.tenants (Nat.le_refl n) hused
    have hmember : (Write.insertMember (TenantService.ownerMember o n ownerId role)).violation
        ((Write.insertTenant (TenantService.newTenant P o n name slug ownerId)).effect d) =
          none := by
      simp only [Write.violation,firstViolation_eq_none,List.forall_mem_cons,vacant_iff,present_iff]
      exact ⟨hfresh.members (Nat.le_add_right n 2),hpair,by simp [Write.effect,
        TenantService.newTenant,TenantService.ownerMember],h.owner,
        List.mem_map_of_mem (List.mem_of_find?_eq_some hr),by simp⟩
    cases P.settings.multiTenantMode with
    | row =>
      exact ⟨_,flushAll_cons.mpr ⟨htenant.mpr h,flushAll_single.mpr ⟨hmember,rfl⟩⟩⟩
    | schema =>
      exact ⟨_,flushAll_cons.mpr ⟨htenant.mpr h,flushAll_cons.mpr ⟨hmember,
        flushAll_single.mpr ⟨rfl,rfl⟩⟩⟩⟩

end Creations

section Accounts
variable {P : Platform} {o : Nat → Reading} {n : Nat} {d : DB}

structure RegisterRequest.Fits (P : Platform) (payload : RegisterRequest) : Prop where
  email : varchar 255 (P.lower payload.email) = true
  firstName : varchar 100 (strip payload.firstName) = true
  lastName : varchar 100 (strip payload.lastName) = true

theorem newUser_violation_iff {payload : RegisterRequest} {hash : String}
    (hfresh : FreshKeys o n d)
    (hfree : d.users.find? (fun u => u.email = P.lower payload.email) = none) :
    (Write.insertUser (AuthService.newUser P o n payload hash)).violation d = none ↔
      payload.Fits P := by
  have hemail : P.lower payload.email ∉ d.users.map User.email := find_key_eq_none.mp hfree
  simp only [Write.violation,firstViolation_eq_none,List.forall_mem_cons,vacant_iff]
  constructor
  · rintro ⟨hemail,hfirst,hlast,-⟩
    exact ⟨hemail,hfirst,hlast⟩
  · intro h
    exact ⟨h.email,h.firstName,h.lastName,hfresh.users (Nat.le_add_right n 1),hemail,by simp⟩

theorem newUser_refused {payload : RegisterRequest} {hash : String} (hfresh : FreshKeys o n d)
    (hfree : d.users.find? (fun u => u.email = P.lower payload.email) = none)
    (hfits : ¬ payload.Fits P) :
    ∃ f, flushAll Write.apply [.insertUser (AuthService.newUser P o n payload hash)] d = .error f := by
  cases h : flushAll Write.apply [.insertUser (AuthService.newUser P o n payload hash)] d with
  | error f => exact ⟨f,rfl⟩
  | ok d' => exact absurd ((newUser_violation_iff hfresh hfree).mp (flushAll_single.mp h).1) hfits

theorem insertOneTimeToken_violation {r : OneTimeToken} (hu : r.userId ∈ d.users.map User.id) :
    (r.id ∉ d.verificationTokens.map OneTimeToken.id →
        (Write.insertVerificationToken r).violation d = none) ∧
      (r.id ∉ d.resetTokens.map OneTimeToken.id →
        (Write.insertResetToken r).violation d = none) := by
  constructor <;> intro hkey <;>
    simp only [Write.violation,firstViolation_eq_none,List.forall_mem_cons,vacant_iff,
      present_iff] <;>
    exact ⟨hkey,hu,by simp⟩

theorem insertRefreshToken_violation {r : RefreshToken} (hu : r.userId ∈ d.users.map User.id)
    (hx : ∀ t ∈ r.tenantId, t ∈ d.tenants.map Tenant.id)
    (hkey : r.id ∉ d.refreshTokens.map RefreshToken.id) :
    (Write.insertRefreshToken r).violation d = none := by
  simp only [Write.violation,firstViolation_eq_none,List.forall_mem_cons,vacant_iff,present_iff,
    all_present_iff]
  exact ⟨hkey,hu,hx,by simp⟩

theorem AuthService.InScope.present {u : UUID} {x : Option UUID} (hw : d.Wf)
    (h : AuthService.InScope d u x) : ∀ t ∈ x, t ∈ d.tenants.map Tenant.id := by
  intro t ht
  obtain ⟨m,hm⟩ := Option.isSome_iff_exists.mp (h t ht)
  obtain ⟨hmem,hmt,-⟩ := TenantService.membershipOf_mem hm
  exact hmt ▸ hw.memberTenant (List.mem_map_of_mem hmem)

/-- A column that may not be NULL takes an assignment when it is not one of NULL, and what
differs from the old value fits. -/
theorem changed_fits {α : Type} [DecidableEq α] (a : α) (new : Option (Option α)) (f : α → α)
    (q : α → Bool) :
    (changed (some a) new ≠ some none ∧ ((changed (some a) new).join.map f).all q = true) ↔
      new ≠ some none ∧ ∀ b, new = some (some b) → b = a ∨ q (f b) = true := by
  unfold changed
  cases new with
  | none => simp
  | some new =>
    cases new with
    | none => simp
    | some b =>
      by_cases hb : b = a
      · simp [hb]
      · simp [hb]

structure UserPatch.Fits (u : User) (p : UserPatch) : Prop where
  firstName : p.firstName ≠ some none ∧
    ∀ s, p.firstName = some (some s) → s = u.firstName ∨ varchar 100 (cut 100 s) = true
  lastName : p.lastName ≠ some none ∧
    ∀ s, p.lastName = some (some s) → s = u.lastName ∨ varchar 100 (cut 100 s) = true
  isActive : p.isActive ≠ some none

theorem userWrites_admissible_iff {u : User} {p : UserPatch} {t : Nat} (hu : u ∈ d.users) :
    Admissible (AuthService.userWrites u p t) d ↔ p.Fits u := by
  have hfirst := changed_fits u.firstName p.firstName (cut 100) (varchar 100)
  have hlast := changed_fits u.lastName p.lastName (cut 100) (varchar 100)
  have hactive := changed_fits u.isActive p.isActive id fun _ => true
  have hviolation : (Write.updateUser u.id (p.diff u) t).violation d = none ↔ p.Fits u := by
    simp only [Write.violation,firstViolation_eq_none,List.forall_mem_cons,present_iff,
      UserPatch.diff]
    constructor
    · rintro ⟨hf,hl,ha,hf',hl',-⟩
      exact ⟨hfirst.mp ⟨of_decide_eq_true hf,hf'⟩,hlast.mp ⟨of_decide_eq_true hl,hl'⟩,
        (hactive.mp ⟨of_decide_eq_true ha,by simp⟩).1⟩
    · intro h
      have hf := hfirst.mpr h.firstName
      have hl := hlast.mpr h.lastName
      have ha := hactive.mpr ⟨h.isActive,by simp⟩
      exact ⟨decide_eq_true hf.1,decide_eq_true hl.1,decide_eq_true ha.1,hf.2,hl.2,
        List.mem_map_of_mem hu,by simp⟩
  unfold AuthService.userWrites
  split
  · rename_i hsame
    rw [hsame] at hviolation
    have hnothing : (Write.updateUser u.id {} t).violation d = none := by
      simp only [Write.violation,firstViolation_eq_none,List.forall_mem_cons,present_iff]
      exact ⟨rfl,rfl,rfl,rfl,rfl,List.mem_map_of_mem hu,by simp⟩
    exact ⟨fun _ => hviolation.mp hnothing,fun _ => ⟨d,rfl⟩⟩
  · rw [admissible_single,hviolation]

end Accounts

section Tenants
variable {P : Platform} {o : Nat → Reading} {n : Nat} {d : DB}

theorem tenantWrites_admissible_iff {t : Tenant} {p : TenantPatch} {now : Nat}
    (ht : t ∈ d.tenants) :
    Admissible (TenantService.tenantWrites t p now) d ↔
      ∀ s, p.name = some s → s = t.name ∨ varchar 255 s = true := by
  have hpresent : t.id ∈ d.tenants.map Tenant.id := List.mem_map_of_mem ht
  have hname : (changed t.name p.name).all (varchar 255) = true ↔
      ∀ s, p.name = some s → s = t.name ∨ varchar 255 s = true := by
    unfold changed
    cases p.name with
    | none => simp
    | some s =>
      by_cases hs : s = t.name
      · simp [hs]
      · simp [hs]
  unfold TenantService.tenantWrites
  split
  · rename_i hsame
    simp only [TenantPatch.diff,TenantPatch.mk.injEq] at hsame
    rw [hsame.1] at hname
    exact ⟨fun _ => hname.mp rfl,fun _ => ⟨d,rfl⟩⟩
  · rw [admissible_single,← hname]
    simp only [Write.violation,firstViolation_eq_none,List.forall_mem_cons,present_iff,
      TenantPatch.diff]
    exact ⟨And.left,fun h => ⟨h,hpresent,by simp⟩⟩

theorem memberWrites_admissible {m : TenantMember} {p : TenantMemberPatch} (hm : m ∈ d.members)
    (hr : ∀ r ∈ p.roleId, r ∈ d.roles.map Role.id) :
    Admissible (TenantService.memberWrites m p) d := by
  have hrole : ∀ r ∈ (p.diff m).roleId, r ∈ d.roles.map Role.id := by
    intro r h
    simp only [TenantMemberPatch.diff,changed] at h
    split at h
    · cases h
    · exact hr r h
  unfold TenantService.memberWrites
  split
  · exact ⟨d,rfl⟩
  · rw [admissible_single]
    simp only [Write.violation,firstViolation_eq_none,List.forall_mem_cons,present_iff,
      all_present_iff]
    exact ⟨hrole,List.mem_map_of_mem hm,by simp⟩

theorem newInvitation_violation_iff {t roleId : UUID} {email : String} (hfresh : FreshKeys o n d)
    (ht : t ∈ d.tenants.map Tenant.id) (hr : roleId ∈ d.roles.map Role.id) :
    (Write.insertInvitation (TenantService.newInvitation P o n t email roleId)).violation d = none ↔
      varchar 255 (P.lower (strip email)) = true := by
  simp only [Write.violation,firstViolation_eq_none,List.forall_mem_cons,vacant_iff,present_iff]
  constructor
  · intro h
    exact h.1
  · intro h
    exact ⟨h,hfresh.invitations (Nat.le_add_right n 2),ht,hr,by simp⟩

end Tenants

section Acceptances
variable {o : Nat → Reading} {n : Nat} {d : DB} {u : UUID} {inv : TenantInvitation}

/-- Once its checks are passed, an acceptance is admissible just when the user has no row in
the tenant, active or not. -/
theorem acceptance_admissible_iff (hw : d.Wf) (hfresh : FreshKeys o n d)
    (hinv : inv ∈ d.invitations) (hu : u ∈ d.users.map User.id) :
    Admissible (TenantService.acceptance o n u inv) d ↔
      ∀ m ∈ d.members, ¬ (m.tenantId = inv.tenantId ∧ m.userId = u) := by
  constructor
  · rintro ⟨d',hf⟩ m hm ⟨ht,hmu⟩
    obtain ⟨-,hpair,-⟩ := TenantService.acceptance_flush hf
    exact hpair (List.mem_map.mpr ⟨m,hm,by rw [ht,hmu]⟩)
  · intro hnone
    have hpair : (inv.tenantId,u) ∉ memberships d := by
      intro hin
      obtain ⟨m,hm,he⟩ := List.mem_map.mp hin
      exact hnone m hm (Prod.mk.inj he)
    exact acceptance_admitted hw hinv hu hpair (hfresh.members (Nat.le_add_right n 2))

end Acceptances

end TenantAuth
