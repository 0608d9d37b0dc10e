import TenantAuth.Footprint
import TenantAuth.Seed
set_option autoImplicit false

namespace TenantAuth
open Transact

def owners (d : DB) : List (UUID × UUID) := d.tenants.map fun t => (t.id,t.ownerId)

/-- Who has a membership row in which tenant, active or not, as (tenant, user). -/
def memberships (d : DB) : List (UUID × UUID) := d.members.map fun m => (m.tenantId,m.userId)

def accounts (d : DB) : List (UUID × String) := d.users.map fun u => (u.id,u.email)

/-- The call that set `accepted_at` had found the invitation unexpired just before. -/
def AcceptedInTime (o : Readings) (i : TenantInvitation) : Prop :=
  ∃ k, i.acceptedAt = some (o.read (k+1)).now ∧ (o.read k).now ≤ i.expiresAt

structure Provenance (P : Platform) (o : Readings) (d : DB) : Prop where
  /-- A member owns the tenant or has accepted an invitation of it in time. -/
  member : ∀ x ∈ memberships d, x ∈ owners d ∨
    ∃ i ∈ d.invitations, i.tenantId = x.1 ∧ AcceptedInTime o i ∧
      ∃ email, (x.2,email) ∈ accounts d ∧ P.lower i.email = P.lower email
  /-- At most one row for a tenant and a user. -/
  single : (memberships d).Nodup
  owner : owners d ⊆ memberships d
  /-- An accepted invitation has its membership row, in its own tenant. -/
  accepted : ∀ i ∈ d.invitations, i.acceptedAt ≠ none →
    ∃ a ∈ accounts d, P.lower i.email = P.lower a.2 ∧ (i.tenantId,a.1) ∈ memberships d

section Steps
variable {P : Platform} {o : Readings} {d d' : DB}

theorem owners_congr (h : SameIn .tenants d d') : owners d' = owners d := by
  simp only [SameIn] at h
  simp only [owners,h]

theorem memberships_congr (h : SameIn .members d d') : memberships d' = memberships d := by
  simp only [SameIn] at h
  simp only [memberships,h]

theorem Provenance.congr (h : Provenance P o d) (ho : owners d' = owners d)
    (hm : memberships d' = memberships d) (hi : d'.invitations = d.invitations)
    (ha : accounts d ⊆ accounts d') : Provenance P o d' where
  member x hx := by
    rw [hm] at hx
    rw [ho,hi]
    rcases h.member x hx with hx | ⟨i,hi,ht,hacc,email,he,hl⟩
    · exact .inl hx
    · exact .inr ⟨i,hi,ht,hacc,email,ha he,hl⟩
  single := hm ▸ h.single
  owner := by rw [ho,hm]; exact h.owner
  accepted i hi' hacc := by
    rw [hi] at hi'
    obtain ⟨a,haa,hl,hx⟩ := h.accepted i hi' hacc
    exact ⟨a,ha haa,hl,hm ▸ hx⟩

theorem mem_accounts {u : User} (h : u ∈ d.users) : (u.id,u.email) ∈ accounts d :=
  List.mem_map.mpr ⟨u,h,rfl⟩

theorem accounts_flush {ws : List Write} (hs : ∀ w ∈ ws, ∀ id, w ≠ .deleteUser id)
    (hf : flushAll Write.apply ws d = .ok d') : accounts d ⊆ accounts d' := by
  have hk : Keeps Write.apply (fun w => ∀ id, w ≠ .deleteUser id)
      (fun d d' => accounts d ⊆ accounts d') := by
    refine ⟨fun _ _ h => h,fun h1 h2 _ h => h2 (h1 h),fun {w d d'} hw ha => ?_⟩
    obtain ⟨_,rfl⟩ := Write.apply_eq_ok.mp ha
    cases w with
    | insertUser r => exact subset_insert_target r (List.Subset.refl _)
    | updateUser id p now =>
      have hmap : accounts ((Write.updateUser id p now).effect d) = accounts d :=
        map_update User.id id (f := p.apply now) (fun _ => rfl) d.users
      rw [hmap]
      exact List.Subset.refl _
    | deleteUser id => exact absurd rfl (hw id)
    | _ => exact List.Subset.refl _
  exact flushAll_rel hk hs hf

theorem Provenance.creation {n : Nat} {name slug : String} {u : UUID} {role : Role}
    (h : Provenance P o d) (hw : d'.Wf)
    (hf : flushAll Write.apply (TenantService.creation P o.read n name slug u role) d = .ok d') :
    Provenance P o d' := by
  obtain ⟨-,hd⟩ := TenantService.creation_flush hf
  have ho : owners d' = owners d ++ [((o.read n).uuid,u)] := by
    rw [hd]; simp [owners,TenantService.newTenant]
  have hm : memberships d' = memberships d ++ [((o.read n).uuid,u)] := by
    rw [hd]; simp [memberships,TenantService.ownerMember]
  have hi : d'.invitations = d.invitations := by rw [hd]
  have ha : accounts d' = accounts d := by rw [hd]; rfl
  refine ⟨?_,hw.memberPair,?_,?_⟩
  · intro x hx
    rw [hm,List.mem_append] at hx
    rw [ho,hi,ha]
    rcases hx with hx | hx
    · rcases h.member x hx with hx | hx
      · exact .inl (List.mem_append_left _ hx)
      · exact .inr hx
    · exact .inl (List.mem_append_right _ hx)
  · intro x hx
    rw [ho,List.mem_append] at hx
    rw [hm,List.mem_append]
    exact hx.imp (fun hx => h.owner hx) id
  · intro i hi' hacc
    rw [hi] at hi'
    rw [ha,hm]
    obtain ⟨a,haa,hl,hx⟩ := h.accepted i hi' hacc
    exact ⟨a,haa,hl,List.mem_append_left _ hx⟩

theorem Provenance.invitation {r : TenantInvitation} (h : Provenance P o d)
    (hr : r.acceptedAt = none)
    (hf : flushAll Write.apply [.insertInvitation r] d = .ok d') : Provenance P o d' := by
  obtain ⟨-,rfl⟩ := flushAll_single.mp hf
  refine ⟨?_,h.single,h.owner,?_⟩
  · intro x hx
    rcases h.member x hx with hx | ⟨i,hi,hrest⟩
    · exact .inl hx
    · exact .inr ⟨i,List.mem_append_left _ hi,hrest⟩
  · intro i hi hacc
    rcases List.mem_append.mp hi with hi | hi
    · exact h.accepted i hi hacc
    · exact absurd (List.mem_singleton.mp hi ▸ hr) hacc

theorem Provenance.acceptance {n : Nat} {token : String} {u : UUID} {inv : TenantInvitation}
    (h : Provenance P o d) (hw : d.Wf) (hw' : d'.Wf)
    (hc : TenantService.Acceptable P d token u (o.read n).now inv)
    (hf : flushAll Write.apply (TenantService.acceptance o.read n u inv) d = .ok d') :
    Provenance P o d' := by
  obtain ⟨-,-,hd⟩ := TenantService.acceptance_flush hf
  have ho : owners d' = owners d := by rw [hd]; rfl
  have hm : memberships d' = memberships d ++ [(inv.tenantId,u)] := by
    rw [hd]; simp [memberships,TenantService.newMember]
  have hi : d'.invitations = update TenantInvitation.id inv.id
      (fun i => { i with acceptedAt := some (o.read (n+1)).now }) d.invitations := by rw [hd]
  have ha : accounts d' = accounts d := by rw [hd]; rfl
  have hinv := List.mem_of_find?_eq_some hc.pending
  have hpending : inv.acceptedAt = none := by
    have hp := List.find?_some hc.pending
    simp only [decide_eq_true_eq] at hp
    exact hp.2
  obtain ⟨v,hv,hmail⟩ := hc.addressed
  have hvid : v.id = u := by simpa using List.find?_some hv
  have hacc : (u,v.email) ∈ accounts d :=
    hvid ▸ mem_accounts (List.mem_of_find?_eq_some hv)
  -- Only the row of the accepted invitation changes, and it was not accepted before.
  have hkeep : ∀ i ∈ d.invitations, i.acceptedAt ≠ none → i ∈ d'.invitations := by
    intro i hi' hacc'
    rw [hi]
    refine mem_update.mpr (.inr ⟨hi',fun hk => hacc' ?_⟩)
    rw [eq_of_key hw.invitationKey hi' hinv hk]
    exact hpending
  refine ⟨?_,hw'.memberPair,?_,?_⟩
  · intro x hx
    rw [hm,List.mem_append] at hx
    rw [ho,ha]
    rcases hx with hx | hx
    · rcases h.member x hx with hx | ⟨i,hi',ht,⟨k,hk,hle⟩,hrest⟩
      · exact .inl hx
      · exact .inr ⟨i,hkeep i hi' (by simp [hk]),ht,⟨k,hk,hle⟩,hrest⟩
    · rw [List.mem_singleton.mp hx]
      refine .inr ⟨{ inv with acceptedAt := some (o.read (n+1)).now },?_,rfl,
        ⟨n,rfl,hc.unexpired⟩,v.email,hacc,hmail.symm⟩
      rw [hi]
      exact mem_update.mpr (.inl ⟨inv,hinv,rfl,rfl⟩)
  · rw [ho,hm]
    exact fun x hx => List.mem_append_left _ (h.owner hx)
  · intro i hi' hacc'
    rw [hi] at hi'
    rw [ha,hm]
    rcases mem_update.mp hi' with ⟨i0,hi0,hk,rfl⟩ | ⟨hi0,hk⟩
    · have he := eq_of_key hw.invitationKey hi0 hinv hk
      exact ⟨(u,v.email),hacc,by rw [he]; exact hmail.symm,by simp [he]⟩
    · obtain ⟨a,haa,hl,hx⟩ := h.accepted i hi0 hacc'
      exact ⟨a,haa,hl,List.mem_append_left _ hx⟩

end Steps

section Runs
variable {P : Platform} {o : Readings} {w : World DB Mail} {q : Request}

def Request.DeletesUser (q : Request) : Prop := ∃ id, q.route = .admin (.deleteUser id)

theorem accounts_handle (hq : ¬ q.DeletesUser) : accounts w.db ⊆ accounts (handle P o w q).2.db := by
  obtain ⟨ws,hc,hf⟩ := handle_commits P o w q
  refine accounts_flush (fun v hv id he => ?_) hf
  subst he
  cases hc with
  | idle => cases hv
  | auth _ hc => simpa [Write.touches] using hc.touches _ hv .members
  | tenant _ _ hc => simpa [Write.touches] using hc.touches _ hv .users
  | admin hroute _ hc =>
    have hdelete : ∀ id, _ ≠ AdminRoute.deleteUser id := fun id he => hq ⟨id,he ▸ hroute⟩
    simpa [Write.touches] using hc.touches hdelete _ hv .members

theorem Provenance.handle (h : Provenance P o w.db) (hw : w.db.Wf) (hq : ¬ q.DeletesUser) :
    Provenance P o (handle P o w q).2.db := by
  have hw' := handle_wf (P := P) (o := o) hw q
  have ha := accounts_handle (P := P) (o := o) (w := w) hq
  obtain ⟨ws,hc,hf⟩ := handle_commits P o w q
  generalize (TenantAuth.handle P o w q).2.db = d' at hf hw' ha ⊢
  cases hc with
  | idle => rwa [← Except.ok.inj hf]
  | auth _ hc =>
    have ht : SameIn .tenants w.db d' := hc.frame (by simp) hf
    have hm : SameIn .members w.db d' := hc.frame (by simp) hf
    have hi : SameIn .invitations w.db d' := hc.frame (by simp) hf
    exact h.congr (owners_congr ht) (memberships_congr hm) hi ha
  | tenant _ _ hc =>
    cases hc with
    | nothing => rwa [← Except.ok.inj hf]
    | createTenant hr => exact h.creation hw' hf
    | updateTenant _ _ | deleteTenant _ _ =>
      obtain ⟨f,hkeys,rfl⟩ := TenantService.tenantWrites_flush hf
      have ho : ∀ t : Tenant, ((f t).id,(f t).ownerId) = (t.id,t.ownerId) := fun t => by
        rw [(hkeys t).1,(hkeys t).2.2]
      exact h.congr (map_update Tenant.id _ ho w.db.tenants) rfl rfl ha
    | inviteMember _ _ => exact h.invitation rfl hf
    | acceptInvitation hacc => exact h.acceptance hw hw' hacc hf
    | updateMemberRole _ _ _ | removeMember _ _ =>
      obtain ⟨f,hkeys,rfl⟩ := TenantService.memberWrites_flush hf
      have hp : ∀ m : TenantMember, ((f m).tenantId,(f m).userId) = (m.tenantId,m.userId) :=
        fun m => by rw [(hkeys m).2.1,(hkeys m).2.2]
      exact h.congr rfl (map_update TenantMember.id _ hp w.db.members) rfl ha
  | admin hroute _ hc =>
    have hdelete : ∀ id, _ ≠ AdminRoute.deleteUser id := fun id he => hq ⟨id,he ▸ hroute⟩
    have ht : SameIn .tenants w.db d' := hc.frame hdelete (by simp) hf
    have hm : SameIn .members w.db d' := hc.frame hdelete (by simp) hf
    have hi : SameIn .invitations w.db d' := hc.frame hdelete (by simp) hf
    exact h.congr (owners_congr ht) (memberships_congr hm) hi ha

/-- In every state that requests reach from empty tenant tables, no user being deleted, the
memberships are owners' or accepted invitations', and accepted invitations are memberships. -/
theorem membership_provenance (hw : w.db.Wf) (ht : w.db.tenants = []) (hm : w.db.members = [])
    (hi : w.db.invitations = []) (qs : List Request) (hq : ∀ q ∈ qs, ¬ q.DeletesUser) :
    Provenance P o (after P o w qs).db := by
  have hstart : Provenance P o w.db := by
    refine ⟨?_,?_,?_,?_⟩ <;> simp [memberships,owners,ht,hm,hi]
  clear ht hm hi
  induction qs generalizing w with
  | nil => exact hstart
  | cons q qs ih =>
    exact ih (handle_wf hw q) (fun q' hq' => hq q' (by simp [hq']))
      (hstart.handle hw (hq q (by simp)))

theorem membership_provenance_accepting :
    Provenance (plainPlatform {}) (Seed.readings 0)
      (after (plainPlatform {}) (Seed.readings 0) (Seed.world [])
        [Seed.request 1 (.tenant (.createTenant "A" "a")),
          Seed.request 1 (.tenant (.inviteMember 1002 "guest@example.com" Seed.tenantMember)),
          Seed.request 2 (.tenant (.acceptInvitation 1002 "ssssssssss"))]).db :=
  membership_provenance (Seed.deployed_world (by simp) (by simp) (by simp)).wf rfl rfl rfl _
    (by simp [Request.DeletesUser,Seed.request])

end Runs

end TenantAuth
