import TenantAuth.Footprint
set_option autoImplicit false

namespace TenantAuth
open Transact

/-- A tenant after an assignment to it. -/
structure Tenant.Patched (p : TenantPatch) (t t' : Tenant) : Prop where
  id : t'.id = t.id
  slug : t'.slug = t.slug
  ownerId : t'.ownerId = t.ownerId
  name : t'.name = p.name.getD t.name
  isActive : t'.isActive = p.isActive.getD t.isActive

section Assignments
variable {d d' : DB}

theorem changed_getD {α : Type} [DecidableEq α] (old : α) (new : Option α) :
    (changed old new).getD old = new.getD old := by
  unfold changed
  split
  · rename_i h
    simp [h]
  · rfl

theorem changed_eq_none {α : Type} [DecidableEq α] {old : α} {new : Option α}
    (h : changed old new = none) : new.getD old = old := by
  have hd := changed_getD old new
  rw [h] at hd
  exact hd.symm

theorem TenantMemberPatch.diff_apply (p : TenantMemberPatch) (m : TenantMember) :
    (p.diff m).apply m = p.apply m := by
  simp [TenantMemberPatch.diff,TenantMemberPatch.apply,changed_getD]

theorem memberWrites_apply {m : TenantMember} {p : TenantMemberPatch}
    (hn : (d.members.map TenantMember.id).Nodup) (hm : m ∈ d.members)
    (hf : flushAll Write.apply (TenantService.memberWrites m p) d = .ok d') :
    d' = { d with members := update TenantMember.id m.id (fun _ => p.apply m) d.members } := by
  unfold TenantService.memberWrites at hf
  split at hf
  · rename_i hp
    cases hf
    have hsame : p.apply m = m := by
      rw [← TenantMemberPatch.diff_apply,hp]
      rfl
    rw [hsame,update_self hn hm]
  · rw [(flushAll_single.mp hf).2,← TenantMemberPatch.diff_apply]
    simp only [Write.effect,update_const hn hm]

theorem tenantWrites_apply {t : Tenant} {p : TenantPatch} {now : Nat}
    (hn : (d.tenants.map Tenant.id).Nodup) (ht : t ∈ d.tenants)
    (hf : flushAll Write.apply (TenantService.tenantWrites t p now) d = .ok d') :
    ∃ t', t.Patched p t' ∧
      d' = { d with tenants := update Tenant.id t.id (fun _ => t') d.tenants } := by
  unfold TenantService.tenantWrites at hf
  split at hf
  · rename_i hp
    cases hf
    simp only [TenantPatch.diff,TenantPatch.mk.injEq] at hp
    refine ⟨t,⟨rfl,rfl,rfl,?_,?_⟩,?_⟩
    · exact (changed_eq_none hp.1).symm
    · exact (changed_eq_none hp.2).symm
    · rw [update_self hn ht]
  · refine ⟨(p.diff t).apply now t,⟨rfl,rfl,rfl,?_,?_⟩,?_⟩
    · exact changed_getD t.name p.name
    · exact changed_getD t.isActive p.isActive
    · rw [(flushAll_single.mp hf).2]
      simp only [Write.effect,update_const hn ht]

end Assignments

/-- The tenants, members and invitations after a request, with what the request has passed.
`a` is the authenticated user, `n` the reading at which the tenant endpoint starts. -/
inductive TenancyStep (P : Platform) (o : Readings) (w : World DB Mail) (q : Request) :
    List Tenant → List TenantMember → List TenantInvitation → Prop
  | same : TenancyStep P o w q w.db.tenants w.db.members w.db.invitations
  | created {name slug : String} {a : User} {role : Role} {n : Nat}
      (hq : q.route = .tenant (.createTenant name slug)) (ha : ActsAs P o w q a)
      (hr : TenantService.adminRole w.db = some role)
      (hnew : (o.read n).uuid ∉ w.db.tenants.map Tenant.id) :
    TenancyStep P o w q (w.db.tenants ++ [TenantService.newTenant P o.read n name slug a.id])
      (w.db.members ++ [TenantService.ownerMember o.read n a.id role]) w.db.invitations
  | assigned {t : UUID} {a : User} {p : TenantPatch} {tenant tenant' : Tenant}
      (hq : (∃ name isActive, q.route = .tenant (.updateTenant t name isActive) ∧
          p = { name := name.map strip, isActive := isActive }) ∨
        (q.route = .tenant (.deleteTenant t) ∧ p = { isActive := some false }))
      (ha : ActsAs P o w q a) (hadmin : IsTenantAdmin w.db t a.id)
      (ht : activeTenant w.db t = some tenant) (hp : tenant.Patched p tenant') :
    TenancyStep P o w q (update Tenant.id tenant.id (fun _ => tenant') w.db.tenants)
      w.db.members w.db.invitations
  | invited {t roleId : UUID} {email : String} {a : User} {inv : TenantInvitation}
      (hq : q.route = .tenant (.inviteMember t email roleId)) (ha : ActsAs P o w q a)
      (hadmin : IsTenantAdmin w.db t a.id) (hinv : inv.tenantId = t ∧ inv.acceptedAt = none) :
    TenancyStep P o w q w.db.tenants w.db.members (w.db.invitations ++ [inv])
  | joined {t : UUID} {token : String} {a : User} {inv : TenantInvitation} {n now : Nat}
      (hq : q.route = .tenant (.acceptInvitation t token)) (ha : ActsAs P o w q a)
      (hacc : TenantService.Acceptable P w.db token a.id (o.read n).now inv)
      (hpair : (inv.tenantId,a.id) ∉ w.db.members.map fun m => (m.tenantId,m.userId)) :
    TenancyStep P o w q w.db.tenants
      (w.db.members ++ [TenantService.newMember o.read n a.id inv])
      (update TenantInvitation.id inv.id (fun i => { i with acceptedAt := some now })
        w.db.invitations)
  | roleChanged {t u roleId : UUID} {a : User} {m : TenantMember} {role : Role}
      (hq : q.route = .tenant (.updateMemberRole t u roleId)) (ha : ActsAs P o w q a)
      (hadmin : IsTenantAdmin w.db t a.id) (hm : membershipOf w.db t u = some m)
      (hr : roleOf w.db roleId = some role) :
    TenancyStep P o w q w.db.tenants
      (update TenantMember.id m.id (fun _ => { m with roleId := roleId }) w.db.members)
      w.db.invitations
  | removed {t u : UUID} {a : User} {m : TenantMember}
      (hq : q.route = .tenant (.removeMember t u)) (ha : ActsAs P o w q a)
      (hadmin : IsTenantAdmin w.db t a.id) (hm : membershipOf w.db t u = some m) :
    TenancyStep P o w q w.db.tenants
      (update TenantMember.id m.id (fun _ => { m with isActive := false }) w.db.members)
      w.db.invitations
  | userDeleted {id : UUID} (hq : q.route = .admin (.deleteUser id)) :
    TenancyStep P o w q w.db.tenants (delete TenantMember.userId id w.db.members)
      w.db.invitations

theorem handle_tenancy {P : Platform} {o : Readings} {w : World DB Mail} {q : Request}
    (hw : w.db.Wf) :
    TenancyStep P o w q (handle P o w q).2.db.tenants (handle P o w q).2.db.members
      (handle P o w q).2.db.invitations := by
  obtain ⟨ws,hc,hf⟩ := handle_commits P o w q
  have hframe : (∀ t, t ∈ [Table.tenants,.members,.invitations] →
      SameIn t w.db (handle P o w q).2.db) → TenancyStep P o w q (handle P o w q).2.db.tenants
        (handle P o w q).2.db.members (handle P o w q).2.db.invitations := by
    intro h
    have ht : (handle P o w q).2.db.tenants = w.db.tenants := h .tenants (by simp)
    have hm : (handle P o w q).2.db.members = w.db.members := h .members (by simp)
    have hi : (handle P o w q).2.db.invitations = w.db.invitations := h .invitations (by simp)
    rw [ht,hm,hi]
    exact .same
  cases hc with
  | idle => exact hframe fun t _ => flushAll_frame (by simp) hf
  | auth hq h =>
    refine hframe fun t ht => h.frame ?_ hf
    revert ht
    cases t <;> simp
  | admin hq _ h =>
    cases h with
    | deleteUser hu =>
      have hid := List.find?_some hu
      simp only [decide_eq_true_eq] at hid
      rw [(flushAll_single.mp hf).2,hid]
      exact .userDeleted hq
    | updateUser hu =>
      refine hframe fun t ht => flushAll_frame_ne (userWrites_touches _ _ _) ?_ hf
      rintro rfl
      simp at ht
    | _ =>
      refine hframe fun t ht => flushAll_frame ?_ hf
      revert ht
      cases t <;> simp [Write.touches]
  | tenant hq ha h =>
    cases h with
    | nothing => exact hframe fun t _ => flushAll_frame (by simp) hf
    | createTenant hr =>
      obtain ⟨hnew,hd⟩ := TenantService.creation_flush hf
      rw [hd]
      exact .created hq ha hr hnew
    | updateTenant hadmin ht =>
      have hmem := TenantService.activeTenant_mem ht
      obtain ⟨t',hp,hd⟩ := tenantWrites_apply hw.tenantKey hmem.1 hf
      rw [hd]
      exact .assigned (.inl ⟨_,_,hq,rfl⟩) ha hadmin ht hp
    | deleteTenant hadmin ht =>
      have hmem := TenantService.activeTenant_mem ht
      obtain ⟨t',hp,hd⟩ := tenantWrites_apply hw.tenantKey hmem.1 hf
      rw [hd]
      exact .assigned (.inr ⟨hq,rfl⟩) ha hadmin ht hp
    | inviteMember hadmin hr =>
      rw [(flushAll_single.mp hf).2]
      exact .invited hq ha hadmin ⟨rfl,rfl⟩
    | acceptInvitation hacc =>
      obtain ⟨-,hpair,hd⟩ := TenantService.acceptance_flush hf
      rw [hd]
      exact .joined hq ha hacc hpair
    | updateMemberRole hadmin hm hr =>
      rw [memberWrites_apply hw.memberKey (TenantService.membershipOf_mem hm).1 hf]
      exact .roleChanged hq ha hadmin hm hr
    | removeMember hadmin hm =>
      rw [memberWrites_apply hw.memberKey (TenantService.membershipOf_mem hm).1 hf]
      exact .removed hq ha hadmin hm

end TenantAuth
