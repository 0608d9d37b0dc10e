import TenantAuth.Admissibility
import TenantAuth.Invitations
import TenantAuth.Forwarding
set_option autoImplicit false

/-! Joining again. A removed member keeps his row, inactive; `accept_invitation` looks for
active rows only, and the unique constraint of the pair does not. -/

namespace TenantAuth
open Transact

/-- `accept_invitation` with the token succeeds for `u`: he has one row in the tenant of the
invitation, active and with its role, the invitation is accepted, and that is all. -/
def Joined (P : Platform) (o : Readings) (w : World DB Mail) (token : String) (u : UUID)
    (inv : TenantInvitation) : Prop :=
  let x := serve Write.apply o.read (TenantService.acceptInvitation P token u) w
  ∃ m acceptedAt, x.1 = .ok m ∧ m.isActive = true ∧ m.roleId = inv.roleId ∧
    x.2.db.members.filter (fun m => m.tenantId = inv.tenantId ∧ m.userId = u) = [m] ∧
    x.2.db = { w.db with
      invitations := update TenantInvitation.id inv.id
        (fun i => { i with acceptedAt := some acceptedAt }) w.db.invitations
      members := w.db.members ++ [m] }

section
variable {P : Platform} {o : Readings} {w : World DB Mail}

theorem Reachable.distinctInvitations (h : Reachable P o w)
    (hsecret : Function.Injective fun i => (o.read i).secret) : DistinctInvitations w.db := by
  induction h with
  | start h => simp [DistinctInvitations,h.invitations]
  | serve h q ih => exact ih.handle hsecret h.drawn

variable {u : User} {inv : TenantInvitation} {token : String}

theorem acceptable_of_valid (hw : w.db.Wf) (hd : DistinctInvitations w.db) (hu : u ∈ w.db.users)
    (hinv : inv ∈ w.db.invitations) (hpending : inv.acceptedAt = none)
    (hexpiry : (o.read w.taken).now ≤ inv.expiresAt)
    (haddressed : P.lower u.email = P.lower inv.email) (htoken : P.sha256 token = inv.tokenHash)
    (hout : ¬ ActiveMember w.db inv.tenantId u.id) :
    TenantService.Acceptable P w.db token u.id (o.read w.taken).now inv where
  pending := by
    refine find_eq_some_of_unique hinv (by simp [htoken,hpending]) fun i hi hp => ?_
    simp only [decide_eq_true_eq] at hp
    exact eq_of_key hd hi hinv (hp.1.trans htoken)
  unexpired := hexpiry
  addressed := by
    refine ⟨u,find_eq_some_of_unique hu (by simp) fun v hv hp => ?_,haddressed⟩
    exact eq_of_key hw.userKey hv hu (by simpa using hp)
  newcomer := by
    rw [← membershipOf_isSome] at hout
    simpa using hout

/-- A valid invitation to an active tenant can be accepted by a user who is no active member
just when he has never been one. -/
theorem joined_iff (hr : Reachable P o w) (hsecret : Function.Injective fun i => (o.read i).secret)
    (hfresh : FreshKeys o.read w.taken w.db) (hu : u ∈ w.db.users) (hinv : inv ∈ w.db.invitations)
    (hpending : inv.acceptedAt = none) (hexpiry : (o.read w.taken).now ≤ inv.expiresAt)
    (haddressed : P.lower u.email = P.lower inv.email) (htoken : P.sha256 token = inv.tokenHash)
    (hout : ¬ ActiveMember w.db inv.tenantId u.id) :
    Joined P o w token u.id inv ↔
      ∀ m ∈ w.db.members, ¬ (m.tenantId = inv.tenantId ∧ m.userId = u.id) := by
  have hok := acceptable_of_valid hr.wf (hr.distinctInvitations hsecret) hu hinv hpending hexpiry
    haddressed htoken hout
  rw [← acceptance_admissible_iff hr.wf hfresh hinv (List.mem_map_of_mem hu)]
  unfold Joined serve
  constructor
  · rintro ⟨m,-,hm,-⟩
    rcases TenantService.acceptInvitation_cases P o.read w.db w.taken w.sent token u.id with
      ⟨hno,-⟩ | ⟨inv',d',hc,hf,-⟩
    · simp only at hm
      simp [hm] at hno
    · obtain rfl := Option.some.inj (hc.pending.symm.trans hok.pending)
      exact ⟨d',hf⟩
  · rintro ⟨d',hf⟩
    obtain ⟨-,hpair,rfl⟩ := TenantService.acceptance_flush hf
    rw [TenantService.acceptInvitation_exec P o.read w.db w.taken w.sent hok hf]
    refine ⟨_,_,rfl,rfl,rfl,?_,rfl⟩
    have hnone : w.db.members.filter (fun m => m.tenantId = inv.tenantId ∧ m.userId = u.id) = [] := by
      rw [List.filter_eq_nil_iff]
      intro m hm hp
      simp only [decide_eq_true_eq] at hp
      exact hpair (List.mem_map.mpr ⟨m,hm,by rw [hp.1,hp.2]⟩)
    rw [List.filter_append,hnone]
    simp [TenantService.newMember]

end

def Seed.invitation : TenantInvitation :=
  ⟨1020,1010,"guest@example.com",tenantMember,"ssssssssssssssssss",604800000000,none⟩

theorem joined_iff_guest :
    Joined (plainPlatform {}) (Seed.readings 0) Seed.twoTenants "ssssssssssssssssss" 2
      Seed.invitation := by
  have hu : Seed.guest ∈ Seed.twoTenants.db.users := by decide +kernel
  have hinv : Seed.invitation ∈ Seed.twoTenants.db.invitations := by decide +kernel
  have hnever : ∀ m ∈ Seed.twoTenants.db.members,
      ¬ (m.tenantId = Seed.invitation.tenantId ∧ m.userId = Seed.guest.id) := by decide +kernel
  have hout : ¬ ActiveMember Seed.twoTenants.db Seed.invitation.tenantId Seed.guest.id := by
    unfold ActiveMember
    decide +kernel
  exact (joined_iff Seed.reachable_twoTenants (Seed.readings_secret 0)
    (Seed.freshKeys (by decide +kernel)) hu hinv rfl (by decide +kernel) rfl rfl hout).mpr hnever

def Seed.invitedAgain : World DB Mail :=
  after (plainPlatform {}) (readings 0) twoTenants
    [accepting 1010,request 1 (.tenant (.removeMember 1010 2)),
      request 1 (.tenant (.inviteMember 1010 "guest@example.com" tenantMember))]

def Seed.secondInvitation : TenantInvitation :=
  ⟨1039,1010,"guest@example.com",tenantMember,String.ofList (List.replicate 37 's'),604800000000,none⟩

/-- He cannot accept: his old row is in the way. -/
theorem joined_fails :
    ¬ ∀ (P : Platform) (o : Readings) (w : World DB Mail) (u : User) (inv : TenantInvitation)
      (token : String), Reachable P o w → (Function.Injective fun i => (o.read i).secret) →
      FreshKeys o.read w.taken w.db → u ∈ w.db.users → u.isActive = true →
      inv ∈ w.db.invitations → TenantActive w.db inv.tenantId → inv.acceptedAt = none →
      (o.read w.taken).now ≤ inv.expiresAt → P.lower u.email = P.lower inv.email →
      P.sha256 token = inv.tokenHash → ¬ ActiveMember w.db inv.tenantId u.id →
      Joined P o w token u.id inv := by
  intro h
  obtain ⟨m,-,hm,-⟩ := h (plainPlatform {}) (Seed.readings 0) Seed.invitedAgain Seed.guest
    Seed.secondInvitation (String.ofList (List.replicate 37 's'))
    (Seed.reachable_twoTenants.after _) (Seed.readings_secret 0)
    (Seed.freshKeys (by decide +kernel)) (by decide +kernel) rfl (by decide +kernel)
    (by unfold TenantActive; decide +kernel) rfl (by decide +kernel) rfl rfl
    (by unfold ActiveMember; decide +kernel)
  have hfault : (serve Write.apply (Seed.readings 0).read (TenantService.acceptInvitation
      (plainPlatform {}) (String.ofList (List.replicate 37 's')) 2) Seed.invitedAgain).1 =
        .fault .unique := by decide +kernel
  rw [show Seed.guest.id = 2 from rfl,hfault] at hm
  cases hm

end TenantAuth
