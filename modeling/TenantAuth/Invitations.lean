import TenantAuth.Footprint
set_option autoImplicit false

namespace TenantAuth
open Transact

/-- No two invitations have the same token. -/
def DistinctInvitations (d : DB) : Prop := (d.invitations.map TenantInvitation.tokenHash).Nodup

/-- Every invitation has a token and a key that were drawn at readings so far. -/
def Drawn (P : Platform) (o : Readings) (w : World DB Mail) : Prop :=
  ∀ i ∈ w.db.invitations, ∃ j, j+2 < w.taken ∧ i.tokenHash = P.sha256 (o.read j).secret ∧
    i.id = (o.read (j+2)).uuid

def Write.InvitesNobody (w : Write) : Prop := ∀ r, w ≠ .insertInvitation r

def TenantInvitation.drawn (i : TenantInvitation) : UUID × String := (i.id,i.tokenHash)

theorem Write.drawn_effect {w : Write} (hw : w.InvitesNobody) (d : DB) :
    (w.effect d).invitations.map TenantInvitation.drawn =
      d.invitations.map TenantInvitation.drawn := by
  cases w with
  | insertInvitation r => exact absurd rfl (hw r)
  | acceptInvitation id t =>
    exact map_update TenantInvitation.id id (f := fun i => { i with acceptedAt := some t })
      (fun _ => rfl) d.invitations
  | _ => rfl

theorem keeps_drawn :
    Keeps Write.apply Write.InvitesNobody fun d d' =>
      d'.invitations.map TenantInvitation.drawn = d.invitations.map TenantInvitation.drawn where
  refl _ := rfl
  trans h1 h2 := h2.trans h1
  write hw ha := (Write.apply_eq_ok.mp ha).2 ▸ Write.drawn_effect hw _

theorem DistinctInvitations.congr {d d' : DB}
    (hd : d'.invitations.map TenantInvitation.drawn = d.invitations.map TenantInvitation.drawn)
    (h : DistinctInvitations d) : DistinctInvitations d' := by
  have hhash : d'.invitations.map TenantInvitation.tokenHash =
      d.invitations.map TenantInvitation.tokenHash := by
    have hsnd := congrArg (List.map Prod.snd) hd
    rwa [List.map_map,List.map_map] at hsnd
  rw [DistinctInvitations,hhash]
  exact h

section Requests
variable {P : Platform} {o : Readings} {w : World DB Mail} {q : Request}

/-- Once `invite_member` has stored the invitation it has taken the readings of its token and
its key. -/
theorem inviteMember_taken {t : UUID} {email : String} {roleId : UUID}
    (hq : q.route = .tenant (.inviteMember t email roleId)) :
    (handle P o w q).2.db = w.db ∨ endpointStart P w q + 3 < (handle P o w q).2.taken := by
  by_cases h : Admits P q (o.read w.taken).now w.db ∧ ∃ a, ActsAs P o w q a
  · obtain ⟨hadm,a,ha⟩ := h
    rw [handle_tenant hq hadm ha]
    simp only [TenantRoute.endpoint,TenantRouter.inviteMember]
    rcases requireTenantAdmin_bind o.read w.db (endpointStart P w q + 1) w.sent t a
      (TenantService.inviteMember P t email roleId >>= _) with ⟨-,hp⟩ | hp
    · rw [hp]
      rcases TenantService.inviteMember_cases P o.read w.db (endpointStart P w q + 1) w.sent t email
        roleId with ⟨hno,hd⟩ | ⟨role,d',-,-,hr⟩
      · rw [(exec_bind_failed Write.apply o.read _ hno).2]
        exact .inl hd
      · right
        refine Nat.lt_of_lt_of_le ?_ (exec_bind_taken_le Write.apply o.read _ _ _)
        rw [hr]
        change endpointStart P w q + 3 < endpointStart P w q + 1 + 3
        omega
    · exact .inl hp
  · exact .inl (handle_tenant_refused hq h).2

theorem RequestCommit.invites {n : Nat} {d : DB} {ws : List Write} {r : TenantInvitation}
    (hc : RequestCommit P o.read n d q ws) (hr : .insertInvitation r ∈ ws) :
    ∃ t email roleId, q.route = .tenant (.inviteMember t email roleId) ∧
      ws = [.insertInvitation (TenantService.newInvitation P o.read (n+1) t email roleId)] := by
  have htouches : ∀ {k : Table}, (∀ v ∈ ws, v.touches = [k]) → k = .invitations := by
    intro k h
    have hk := h _ hr
    exact (List.cons.inj hk).1.symm
  cases hc with
  | idle => cases hr
  | auth _ hc =>
    have hin := hc.touches _ hr .invitations (List.mem_singleton_self _)
    simp at hin
  | admin _ _ hc =>
    cases hc with
    | updateUser _ => cases htouches (userWrites_touches _ _ _)
    | _ => simp at hr
  | tenant hq _ hc =>
    cases hc with
    | nothing => cases hr
    | createTenant _ =>
      rcases List.mem_append.mp hr with hr | hr
      · simp at hr
      · split at hr <;> simp at hr
    | updateTenant _ _ | deleteTenant _ _ => cases htouches (tenantWrites_touches _ _ _)
    | inviteMember _ _ => exact ⟨_,_,_,hq,rfl⟩
    | acceptInvitation _ => simp [TenantService.acceptance] at hr
    | updateMemberRole _ _ _ | removeMember _ _ => cases htouches (memberWrites_touches _ _)

theorem handle_invitations :
    (handle P o w q).2.db.invitations.map TenantInvitation.drawn =
        w.db.invitations.map TenantInvitation.drawn ∨
      ∃ j t email roleId, q.route = .tenant (.inviteMember t email roleId) ∧
        w.taken ≤ j ∧ j+2 < (handle P o w q).2.taken ∧
        (handle P o w q).2.db.invitations =
          w.db.invitations ++ [TenantService.newInvitation P o.read j t email roleId] := by
  obtain ⟨ws,hc,hf⟩ := handle_commits P o w q
  by_cases hno : ∀ v ∈ ws, v.InvitesNobody
  · exact .inl (flushAll_rel keeps_drawn hno hf)
  · obtain ⟨v,hv,hi⟩ : ∃ v ∈ ws, ¬ v.InvitesNobody := by simpa using hno
    obtain ⟨r,rfl⟩ : ∃ r, v = .insertInvitation r := by simpa [Write.InvitesNobody] using hi
    obtain ⟨t,email,roleId,hq,rfl⟩ := hc.invites hv
    obtain ⟨-,hd⟩ := flushAll_single.mp hf
    have hlt : endpointStart P w q + 3 < (handle P o w q).2.taken := by
      rcases inviteMember_taken hq with hsame | hlt
      · have hlen := congrArg (fun d => d.invitations.length) (hsame.symm.trans hd)
        simp [Write.effect] at hlen
      · exact hlt
    have hle : w.taken ≤ endpointStart P w q := Nat.le_add_right _ _
    refine .inr ⟨endpointStart P w q + 1,t,email,roleId,hq,by omega,by omega,?_⟩
    rw [hd]
    rfl

theorem Drawn.handle (h : Drawn P o w) : Drawn P o (TenantAuth.handle P o w q).2 := by
  intro i hi
  have htaken : w.taken ≤ (TenantAuth.handle P o w q).2.taken := handle_taken_le P o w q
  rcases handle_invitations (P := P) (o := o) (w := w) (q := q) with
    hsame | ⟨j,t,email,roleId,-,-,hj,hd⟩
  · obtain ⟨i',hi',he⟩ := List.mem_map.mp (hsame ▸ List.mem_map_of_mem hi)
    obtain ⟨hid,hh⟩ := Prod.mk.inj he
    obtain ⟨j,hj,hs,hu⟩ := h i' hi'
    exact ⟨j,by omega,hh.symm.trans hs,hid.symm.trans hu⟩
  · rw [hd] at hi
    rcases List.mem_append.mp hi with hi | hi
    · obtain ⟨j,hj,hs,hu⟩ := h i hi
      exact ⟨j,by omega,hs,hu⟩
    · rw [List.mem_singleton.mp hi]
      exact ⟨j,hj,rfl,rfl⟩

theorem DistinctInvitations.handle (hsecret : Function.Injective fun i => (o.read i).secret)
    (h : DistinctInvitations w.db) (hw : Drawn P o w) :
    DistinctInvitations (TenantAuth.handle P o w q).2.db := by
  rcases handle_invitations (P := P) (o := o) (w := w) (q := q) with
    hsame | ⟨j,t,email,roleId,-,hj,-,hd⟩
  · exact h.congr hsame
  · rw [DistinctInvitations,hd]
    refine nodup_append_key h fun hin => ?_
    -- The readings of the stored tokens are earlier than the one of the new token.
    obtain ⟨i,hi,he⟩ := List.mem_map.mp hin
    obtain ⟨k,hk,hs,-⟩ := hw i hi
    have hkj : k = j := hsecret (P.sha256_injective (hs.symm.trans he))
    omega

theorem Reachable.drawn (h : Reachable P o w) : Drawn P o w := by
  induction h with
  | start h =>
    intro i hi
    rw [h.invitations] at hi
    cases hi
  | serve _ q ih => exact ih.handle

/-- A key that is drawn now is not that of any invitation. -/
theorem Reachable.fresh_invitation (h : Reachable P o w)
    (huuid : Function.Injective fun i => (o.read i).uuid) {k : Nat} (hk : w.taken ≤ k) :
    (o.read k).uuid ∉ w.db.invitations.map TenantInvitation.id := by
  intro hin
  obtain ⟨i,hi,he⟩ := List.mem_map.mp hin
  obtain ⟨j,hj,-,hu⟩ := h.drawn i hi
  have hjk : j+2 = k := huuid (hu.symm.trans he)
  omega

end Requests

end TenantAuth
