import TenantAuth.Transact.Commitment
import TenantAuth.Calls
import TenantAuth.Concurrency
import TenantAuth.Invitations
set_option autoImplicit false

/-! Acceptances, role changes and removals that run at the same time, from any state that requests
lead to. The unique index on (tenant, user) decides between acceptances. -/

namespace TenantAuth
open Transact

/-- Every user is stored under the lower case of his email. -/
def LowerEmails (P : Platform) (d : DB) : Prop := ∀ u ∈ d.users, P.lower u.email = u.email

def Write.AddsLower (P : Platform) (w : Write) : Prop :=
  ∀ r, w = .insertUser r → P.lower r.email = r.email

section Writes
variable {P : Platform} {d d' : DB}

theorem keeps_lowerEmails :
    Keeps Write.apply (Write.AddsLower P) fun d d' => LowerEmails P d → LowerEmails P d' :=
  .ofInv fun {w d d'} hw ha h => by
    rw [(Write.apply_eq_ok.mp ha).2]
    cases w with
    | insertUser r =>
      intro u hu
      rcases List.mem_append.mp hu with hu | hu
      · exact h u hu
      · rw [List.mem_singleton.mp hu]
        exact hw r rfl
    | updateUser id p t =>
      intro u hu
      rcases mem_update.mp hu with ⟨v,hv,-,rfl⟩ | ⟨hu,-⟩
      · exact h v hv
      · exact h u hu
    | deleteUser id => exact fun u hu => h u (mem_delete.mp hu).1
    | _ => exact h

end Writes

section Requests
variable {P : Platform} {o : Readings} {w : World DB Mail} {q : Request}

theorem LowerEmails.handle (hlower : ∀ s, P.lower (P.lower s) = P.lower s)
    (h : LowerEmails P w.db) : LowerEmails P (handle P o w q).2.db := by
  obtain ⟨ws,hc,hf⟩ := handle_commits P o w q
  refine flushAll_rel keeps_lowerEmails (fun v hv => ?_) hf h
  rintro r rfl
  obtain ⟨payload,hash,-,rfl⟩ := hc.registers hv
  exact hlower payload.email

end Requests

/-- What the calls find in any state that requests lead to. -/
structure Prepared (P : Platform) (d : DB) : Prop where
  wf : d.Wf
  emails : LowerEmails P d
  invitations : DistinctInvitations d

theorem prepared {P : Platform} {o : Readings} {w : World DB Mail}
    (hlower : ∀ s, P.lower (P.lower s) = P.lower s)
    (hsecret : Function.Injective fun i => (o.read i).secret) (hd : Deployed w.db)
    (hu : LowerEmails P w.db) (qs : List Request) : Prepared P (after P o w qs).db := by
  have hstart : DistinctInvitations w.db ∧ Drawn P o w := by
    simp [DistinctInvitations,Drawn,hd.invitations]
  have hw := hd.wf
  clear hd
  induction qs generalizing w with
  | nil => exact ⟨hw,hu,hstart.1⟩
  | cons q qs ih =>
    exact ih (hu.handle hlower) ⟨hstart.1.handle hsecret hstart.2,hstart.2.handle⟩
      (handle_wf hw q)

/-- The calls, each in a session of its own. The first two return a membership. -/
inductive MemberCall where
  | acceptInvitation (token : String) (userId : UUID)
  | updateMemberRole (tenantId userId roleId : UUID)
  | removeMember (tenantId userId : UUID)
  deriving DecidableEq, Repr

def MemberCall.prog (P : Platform) : MemberCall → App (Option TenantMember)
  | .acceptInvitation token u => do
    let member ← TenantService.acceptInvitation P token u
    pure (some member)
  | .updateMemberRole t u roleId => do
    let member ← TenantService.updateMemberRole t u roleId
    pure (some member)
  | .removeMember t u => do
    TenantService.removeMember t u
    pure none

def Write.OfMembers : Write → Prop
  | .acceptInvitation _ _ | .insertMember _ | .updateMember _ _ => True
  | _ => False

/-- What the calls make of the database: invitations and memberships stay in their tenants. -/
structure Grows (d d' : DB) : Prop where
  users : d'.users = d.users
  members : ∀ m ∈ d.members, ∃ m' ∈ d'.members, m'.id = m.id ∧ m'.tenantId = m.tenantId ∧
    m'.userId = m.userId
  invitations : ∀ i ∈ d.invitations, ∃ i' ∈ d'.invitations, i'.tokenHash = i.tokenHash ∧
    i'.tenantId = i.tenantId ∧ i'.email = i.email

section Calls
variable {P : Platform} {d d' : DB}

theorem MemberCall.writes (c : MemberCall) : (c.prog P).Writes Write.OfMembers := by
  cases c with
  | acceptInvitation token u =>
    exact Prog.Writes.bind (TenantService.writes_acceptInvitation (fun _ _ => trivial)
      (fun _ _ => trivial) token u) fun _ => writes_pure _ _
  | updateMemberRole t u roleId =>
    exact Prog.Writes.bind (TenantService.writes_updateMemberRole fun _ _ _ => trivial)
      fun _ => writes_pure _ _
  | removeMember t u =>
    exact Prog.Writes.bind (TenantService.writes_removeMember fun _ _ _ => trivial)
      fun _ => writes_pure _ _

theorem Grows.refl (d : DB) : Grows d d :=
  ⟨rfl,fun m hm => ⟨m,hm,rfl,rfl,rfl⟩,fun i hi => ⟨i,hi,rfl,rfl,rfl⟩⟩

theorem Grows.trans {a b c : DB} (h1 : Grows a b) (h2 : Grows b c) : Grows a c := by
  refine ⟨h2.users.trans h1.users,fun m hm => ?_,fun i hi => ?_⟩
  · obtain ⟨m1,hm1,hid1,ht1,hu1⟩ := h1.members m hm
    obtain ⟨m2,hm2,hid2,ht2,hu2⟩ := h2.members m1 hm1
    exact ⟨m2,hm2,hid2.trans hid1,ht2.trans ht1,hu2.trans hu1⟩
  · obtain ⟨i1,hi1,hh1,ht1,he1⟩ := h1.invitations i hi
    obtain ⟨i2,hi2,hh2,ht2,he2⟩ := h2.invitations i1 hi1
    exact ⟨i2,hi2,hh2.trans hh1,ht2.trans ht1,he2.trans he1⟩

theorem Write.OfMembers.grows {w : Write} (hw : w.OfMembers) (d : DB) : Grows d (w.effect d) := by
  cases w with
  | acceptInvitation id t =>
    refine ⟨rfl,(Grows.refl d).members,fun i hi => ?_⟩
    exact exists_mem_update hi (fun _ => ⟨rfl,rfl,rfl⟩) ⟨rfl,rfl,rfl⟩
  | insertMember r =>
    exact ⟨rfl,fun m hm => ⟨m,List.mem_append_left _ hm,rfl,rfl,rfl⟩,(Grows.refl d).invitations⟩
  | updateMember id p =>
    refine ⟨rfl,fun m hm => ?_,(Grows.refl d).invitations⟩
    exact exists_mem_update hm (fun _ => ⟨rfl,rfl,rfl⟩) ⟨rfl,rfl,rfl⟩
  | _ => exact hw.elim

theorem keeps_grows : Keeps Write.apply Write.OfMembers Grows where
  refl := .refl
  trans := .trans
  write hw ha := (Write.apply_eq_ok.mp ha).2 ▸ hw.grows _

theorem keeps_prepared :
    Keeps Write.apply Write.OfMembers fun d d' => Prepared P d → Prepared P d' :=
  .ofInv fun {w d d'} hw ha h => by
    have hinv : w.InvitesNobody := by
      rintro r rfl
      exact hw
    have hd := (Write.apply_eq_ok.mp ha).2
    refine ⟨h.wf.apply ha,?_,?_⟩
    · rw [hd,LowerEmails,(hw.grows d).users]
      exact h.emails
    · rw [hd]
      exact h.invitations.congr (Write.drawn_effect hinv d)

end Calls

def HasRow (pair : UUID × UUID) (d : DB) : Prop :=
  pair ∈ d.members.map fun m => (m.tenantId,m.userId)

/-- The membership is the user's in the tenant of the invitation that has the token, and the
invitation is addressed to him. -/
structure Accepted (P : Platform) (token : String) (u : UUID) (m : TenantMember) (d : DB) :
    Prop where
  user : m.userId = u
  invited : ∃ i ∈ d.invitations, i.tokenHash = P.sha256 token ∧ i.tenantId = m.tenantId ∧
    ∃ v ∈ d.users, v.id = u ∧ P.lower v.email = P.lower i.email

/-- Along this the committed state moves while the calls run. -/
abbrev MemberRely (P : Platform) : DB → DB → Prop := Within Grows (Prepared P)

section Assertions
variable {P : Platform} {d d' : DB} {token : String} {u : UUID} {m : TenantMember}

theorem HasRow.grows {pair : UUID × UUID} (h : HasRow pair d) (hg : Grows d d') :
    HasRow pair d' := by
  obtain ⟨m,hm,rfl⟩ := List.mem_map.mp h
  obtain ⟨m',hm',-,ht,hu⟩ := hg.members m hm
  exact List.mem_map.mpr ⟨m',hm',by rw [ht,hu]⟩

theorem Accepted.grows (h : Accepted P token u m d) (hg : Grows d d') :
    Accepted P token u m d' := by
  obtain ⟨i,hi,hh,ht,hv⟩ := h.invited
  obtain ⟨i',hi',hh',ht',he'⟩ := hg.invitations i hi
  refine ⟨h.user,i',hi',hh'.trans hh,ht'.trans ht,?_⟩
  rw [hg.users,he']
  exact hv

theorem settled_refreshRow {Z : TenantMember → Prop} (hm : m ∈ d.members)
    (h : ∀ m' : TenantMember, m'.id = m.id → m'.tenantId = m.tenantId → m'.userId = m.userId →
      Z m') :
    (refreshRow DB.members fun r => r.id = m.id).Settled (MemberRely P) Z d := by
  unfold refreshRow scalar
  rw [settled_select_bind]
  intro d' hd'
  obtain ⟨m',hm',hid,ht,hu⟩ := hd'.1.members m hm
  have hfind : d'.members.find? (fun r => r.id = m.id) = some m' :=
    find_eq_some_of_unique hm' (by simpa using hid) fun b hb hbid =>
      eq_of_key hd'.2.wf.memberKey hb hm' ((of_decide_eq_true hbid).trans hid.symm)
  rw [hfind]
  exact h m' hid ht hu

theorem acceptInvitation_once :
    (TenantService.acceptInvitation P token u).Once Write.apply (MemberRely P)
      (fun d v m => Accepted P token u m v ∧ ¬ HasRow (m.tenantId,m.userId) d ∧
        HasRow (m.tenantId,m.userId) v) [] d := by
  unfold TenantService.acceptInvitation TenantService.pendingInvitation
    TenantService.getMembership
  simp only [once_bind (quiet_scalar _ _),holds_scalar,flushAll_nil,Except.ok.injEq]
  rintro d1 v - rfl
  cases hi : d1.invitations.find? _ with
  | none => trivial
  | some invitation =>
    simp only [once_bind quiet_now,holds_now,once_bind (quiet_appErrorIf _ _),holds_appErrorIf,
      once_bind (quiet_scalar _ _),holds_scalar,flushAll_nil,Except.ok.injEq,
      once_bind (quiet_add _),holds_add,once_bind quiet_uuid4,holds_uuid4,once_commit_bind,
      List.nil_append,List.cons_append]
    rintro _ _ d2 v h2 rfl hmail y3 d3 v3 h3 - _ y4 y5 d4 v4 h4 hf h4v
    obtain ⟨-,hf⟩ := flushAll_cons.mp hf
    obtain ⟨hv,hd⟩ := flushAll_single.mp hf
    simp only [Write.violation,firstViolation_eq_none,List.forall_mem_cons,vacant_iff] at hv
    have hnew : (⟨y4.uuid,invitation.tenantId,u,invitation.roleId,true,y5.now⟩ : TenantMember) ∈
        v4.members := by
      rw [hd]
      exact List.mem_append_right _ (List.mem_singleton_self _)
    refine settled_refreshRow hnew fun m _ ht hu => ?_
    have hacc : Accepted P token u m d2 := by
      have hhash := List.find?_some hi
      simp only [decide_eq_true_eq] at hhash
      obtain ⟨i,hi2,hh,hit,hie⟩ := h2.1.invitations _ (List.mem_of_find?_eq_some hi)
      obtain ⟨x,hx,hxe⟩ := (Option.any_eq_true _ _).mp (not_not.mp hmail)
      have hxu := List.find?_some hx
      simp only [decide_eq_true_eq] at hxe hxu
      refine ⟨hu,i,hi2,hh.trans hhash.1,hit.trans ht.symm,x,List.mem_of_find?_eq_some hx,hxu,?_⟩
      rw [hie]
      exact hxe
    refine ⟨hacc.grows (h3.1.trans (h4.1.trans h4v.1)),?_,?_⟩
    · -- The unique index lets the row in.
      rw [ht,hu]
      exact hv.2.1
    · rw [ht,hu]
      exact List.mem_map_of_mem hnew

theorem holds_setMember {p : TenantMemberPatch} {Q : Unit → List Write → DB → Prop}
    {ws : List Write} (h : ∀ vs, Q () vs d) :
    (TenantService.setMember m p).Holds Write.apply (MemberRely P) Q ws d := by
  unfold TenantService.setMember
  by_cases hp : p.diff m = {}
  · simpa [hp] using h _
  · simpa [hp] using h _

theorem updateMemberRole_once {t roleId : UUID} :
    (TenantService.updateMemberRole t u roleId).Once Write.apply (MemberRely P)
      (fun _ _ _ => True) [] d := by
  unfold TenantService.updateMemberRole TenantService.getMembership
  simp only [once_bind (quiet_scalar _ _),holds_scalar,flushAll_nil,Except.ok.injEq]
  rintro d1 v - rfl
  cases hm : d1.members.find? _ with
  | none => trivial
  | some member =>
    simp only [once_bind (quiet_scalar _ _),holds_scalar,flushAll_nil,Except.ok.injEq]
    rintro d2 v h2 rfl
    cases d2.roles.find? _ with
    | none => trivial
    | some role =>
      rw [once_bind (quiet_setMember _ _)]
      refine holds_setMember fun vs => ?_
      rw [once_commit_bind]
      intro d3 v3 h3 _ h3v
      have hmem : member ∈ d1.members := List.mem_of_find?_eq_some hm
      obtain ⟨m1,hm1,hid,-⟩ := (h2.1.trans (h3.1.trans h3v.1)).members member hmem
      rw [← hid]
      exact settled_refreshRow hm1 fun _ _ _ _ => trivial

theorem removeMember_once {t : UUID} :
    (TenantService.removeMember t u).Once Write.apply (MemberRely P) (fun _ _ _ => True) [] d := by
  unfold TenantService.removeMember TenantService.getMembership
  simp only [once_bind (quiet_scalar _ _),holds_scalar,flushAll_nil,Except.ok.injEq]
  rintro d1 v - rfl
  cases d1.members.find? _ with
  | none => trivial
  | some member =>
    rw [once_bind (quiet_setMember _ _)]
    exact holds_setMember fun vs => fun _ _ _ _ _ => trivial

/-- A success of `accept_invitation` claims the tenant and the user of its membership. -/
def membershipClaim (P : Platform) :
    Claim DB MemberCall (Option TenantMember) (UUID × UUID) where
  key
    | .acceptInvitation _ _, some m => some (m.tenantId,m.userId)
    | _, _ => none
  taken := HasRow
  good
    | .acceptInvitation token u, a, d => ∃ m, a = some m ∧ Accepted P token u m d
    | _, _, _ => True

theorem MemberCall.once (c : MemberCall) :
    (c.prog P).Once Write.apply (MemberRely P) ((membershipClaim P).Made c) [] d := by
  cases c with
  | acceptInvitation token u =>
    refine once_bind_pure.mpr (acceptInvitation_once.mono fun {d v m} h => ?_)
    refine ⟨⟨m,rfl,h.1⟩,?_⟩
    rintro pair ⟨⟩
    exact h.2
  | updateMemberRole t u roleId =>
    refine once_bind_pure.mpr (updateMemberRole_once.mono fun _ => ⟨trivial,?_⟩)
    rintro pair ⟨⟩
  | removeMember t u =>
    refine once_bind_pure.mpr (removeMember_once.mono fun _ => ⟨trivial,?_⟩)
    rintro pair ⟨⟩

theorem MemberCall.claims (P : Platform) :
    ClaimsOnce (membershipClaim P) Write.apply (MemberCall.prog P) Write.OfMembers Grows
      (Prepared P) where
  keeps := keeps_grows
  writes := MemberCall.writes
  taken hd h := h.grows hd.1
  good {c a d d'} hd h := by
    cases c with
    | acceptInvitation token u =>
      obtain ⟨m,hm,hacc⟩ := h
      exact ⟨m,hm,hacc.grows hd.1⟩
    | _ => trivial
  once _ := MemberCall.once _

end Assertions

section Runs
variable {P : Platform} {o : Readings} {w : World DB Mail}
  {s₀ s : System DB Write Fault Reading Exc Mail (Option TenantMember) MemberCall}

/-- The runs of the calls: any may arrive and any may go on at any time. -/
abbrev MemberRun (P : Platform) (o : Readings)
    (s s' : System DB Write Fault Reading Exc Mail (Option TenantMember) MemberCall) : Prop :=
  Reach Write.apply Write.waitsFor o.read (MemberCall.prog P) (fun _ _ => True) (fun _ => True)
    s s'

theorem MemberRun.within (hs : s₀.Labelled fun _ : MemberCall => Write.OfMembers)
    (hp : Prepared P s₀.world.db) (h : MemberRun P o s₀ s) :
    Reach Write.apply Write.waitsFor o.read (MemberCall.prog P) (fun _ _ => True) (Prepared P)
      s₀ s :=
  Reach.within (keeps_prepared.mono fun ⟨_,hw⟩ => hw) hs MemberCall.writes hp h

theorem Accepted.same {d : DB} {token : String} {u u' : UUID} {m m' : TenantMember}
    (hd : Prepared P d) (h : Accepted P token u m d) (h' : Accepted P token u' m' d) :
    m.tenantId = m'.tenantId ∧ m.userId = m'.userId := by
  obtain ⟨i,hi,hh,ht,v,hv,rfl,hl⟩ := h.invited
  obtain ⟨i',hi',hh',ht',v',hv',rfl,hl'⟩ := h'.invited
  have hii : i = i' := eq_of_key hd.invitations hi hi' (hh.trans hh'.symm)
  subst hii
  have hmail : v.email = v'.email := by
    rw [← hd.emails v hv,hl,← hl',hd.emails v' hv']
  have hvv : v = v' := eq_of_key hd.wf.userEmail hv hv' hmail
  exact ⟨ht.symm.trans ht',by rw [h.user,h'.user,hvv]⟩

/-- In every interleaving of acceptances, role changes and removals, from any state that requests
lead to: a success is the user's own membership in the tenant that he was invited to, no two
successes are of one tenant and user or of one token, and a call that ends without success has
changed nothing. -/
theorem acceptance_safe (hlower : ∀ s, P.lower (P.lower s) = P.lower s)
    (hsecret : Function.Injective fun i => (o.read i).secret) (hd : Deployed w.db)
    (hu : LowerEmails P w.db) (qs : List Request) (h : MemberRun P o ⟨after P o w qs,[]⟩ s) :
    (∀ token u a, (.acceptInvitation token u,.closed (.ok a)) ∈ s.sessions →
      ∃ m, a = some m ∧ Accepted P token u m s.world.db) ∧
    (s.sessions.Pairwise fun x y => ∀ token u m token' u' m',
      x = (.acceptInvitation token u,.closed (.ok (some m))) →
      y = (.acceptInvitation token' u',.closed (.ok (some m'))) →
      (m.tenantId,m.userId) ≠ (m'.tenantId,m'.userId) ∧ token ≠ token') ∧
    ∀ k c r s' s'', s.move Write.apply Write.waitsFor o.read (MemberCall.prog P) (.run k) =
      some s' → MemberRun P o s' s'' → s''.sessions[k]? = some (c,.closed r) →
      r.isOk = false → s'.world.db = s.world.db := by
  have hp : Prepared P (after P o w qs).db := prepared hlower hsecret hd hu qs
  have hc := MemberCall.claims P
  have hrun := MemberRun.within (.start rfl) hp h
  have hgood : ∀ token u a, (.acceptInvitation token u,.closed (.ok a)) ∈ s.sessions →
      ∃ m, a = some m ∧ Accepted P token u m s.world.db :=
    fun token u a hx => hrun.good hc rfl hx rfl
  refine ⟨hgood,?_,fun k c r s' s'' hm h' hr hno => ?_⟩
  · refine List.Pairwise.imp_of_mem ?_ (hrun.claimed hc rfl)
    rintro x y hx hy hxy token u m token' u' m' rfl rfl
    have hne : (m.tenantId,m.userId) ≠ (m'.tenantId,m'.userId) := fun he =>
      hxy _ _ _ rfl rfl rfl (congrArg some he.symm)
    refine ⟨hne,?_⟩
    rintro rfl
    obtain ⟨_,⟨⟩,hacc⟩ := hgood _ _ _ hx
    obtain ⟨_,⟨⟩,hacc'⟩ := hgood _ _ _ hy
    obtain ⟨ht,hu⟩ := hacc.same hrun.inv hacc'
    exact hne (by rw [ht,hu])
  · have hmove : MemberRun P o ⟨after P o w qs,[]⟩ s' := h.move trivial hm trivial
    have hs' : s'.Labelled fun _ : MemberCall => Write.OfMembers :=
      hmove.labelled (.start rfl) MemberCall.writes
    have hp' : Prepared P s'.world.db := (MemberRun.within (.start rfl) hp hmove).inv
    exact hrun.unchanged hc rfl hm (MemberRun.within hs' hp' h') hr hno

end Runs

section Guest
open Seed

def Seed.invitingTwice : List Request :=
  [request 1 (.tenant (.createTenant "A" "a")),request 1 (.tenant (.createTenant "B" "b")),
    request 1 (.tenant (.inviteMember 1010 "guest@example.com" tenantMember)),
    request 1 (.tenant (.inviteMember 1010 "guest@example.com" tenantMember))]

/-- The guest accepts both at once; either session has looked for his membership before the first
commits. -/
def Seed.racing :
    Option (System DB Write Fault Reading Exc Mail (Option TenantMember) MemberCall) :=
  System.play Write.apply Write.waitsFor (readings 0).read (MemberCall.prog (plainPlatform {}))
    (fun _ _ => true) (fun _ => true)
    ⟨after (plainPlatform {}) (readings 0) (world []) invitingTwice,[]⟩
    ([.arrive (.acceptInvitation "ssssssssssssssssss" 2),
      .arrive (.acceptInvitation "sssssssssssssssssssssssss" 2)] ++
      List.replicate 9 (.run 0) ++ List.replicate 9 (.run 1) ++ List.replicate 3 (.run 0))

/-- The second loses the race at its commit. -/
theorem acceptance_safe_race :
    ∃ s s', racing = some s ∧ s.move Write.apply Write.waitsFor (readings 0).read
        (MemberCall.prog (plainPlatform {})) (.run 1) = some s' ∧
      s'.sessions.map (fun x => (x.2.isRunning,x.2.succeeded)) = [(false,true),(false,false)] ∧
      s'.world.db = s.world.db := by
  have hrun : (racing.bind fun s => (s.move Write.apply Write.waitsFor (readings 0).read
      (MemberCall.prog (plainPlatform {})) (.run 1)).map fun s' =>
        s'.sessions.map fun x => (x.2.isRunning,x.2.succeeded)) =
      some [(false,true),(false,false)] := by decide +kernel
  obtain ⟨s,hs,hrest⟩ := Option.bind_eq_some_iff.mp hrun
  obtain ⟨s',hm,hview⟩ := Option.map_eq_some_iff.mp hrest
  refine ⟨s,s',hs,hm,hview,?_⟩
  have hemails : LowerEmails (plainPlatform {}) (world []).db := by
    unfold LowerEmails
    decide
  have hreach : MemberRun (plainPlatform {}) (readings 0) _ s :=
    System.play_reach (fun _ _ _ => trivial) (fun _ _ => trivial) (.start trivial) hs
  obtain ⟨⟨c,x⟩,hx,hclosed⟩ : ∃ x, s'.sessions[1]? = some x ∧
      (x.2.isRunning,x.2.succeeded) = (false,false) := by
    have hget := congrArg (fun l => l[1]?) hview
    simpa using hget
  cases x with
  | running => cases hclosed
  | closed r =>
    refine (acceptance_safe (plainPlatform_lower {}) (readings_secret 0)
      (deployed_world (by simp) (by simp) (by simp)) hemails invitingTwice hreach).2.2 1 c r s' s'
      hm (.start trivial) hx ?_
    cases r with
    | ok a => cases hclosed
    | _ => rfl

end Guest

end TenantAuth
