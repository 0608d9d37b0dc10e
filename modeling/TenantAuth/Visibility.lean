import TenantAuth.Forwarding
set_option autoImplicit false

namespace TenantAuth
open Transact

section Lists
variable {d : DB} {u t : UUID}

theorem filter_member (hw : d.Wf) (a : Bool) :
    (d.members.filter fun m => m.tenantId = t ∧ m.userId = u ∧ m.isActive ∧ a) =
      (d.members.find? fun m => m.tenantId = t ∧ m.userId = u ∧ m.isActive ∧ a).toList := by
  refine filter_eq_find hw.memberPair (k := (t,u)) fun m hm => ?_
  simp only [decide_eq_true_eq] at hm
  rw [hm.1,hm.2.1]

theorem mem_userTenantJoin : t ∈ (TenantService.userTenantJoin d u).map Tenant.id ↔
    TenantActive d t ∧ ActiveMember d t u := by
  simp only [TenantService.userTenantJoin,TenantActive,ActiveMember,List.mem_map,
    List.mem_flatMap,List.mem_filter,decide_eq_true_eq]
  constructor
  · rintro ⟨_,⟨tenant,ht,m,⟨hm,hmt,hmu,hma,hta⟩,rfl⟩,rfl⟩
    exact ⟨⟨_,ht,rfl,hta⟩,m,hm,hmt,hmu,hma⟩
  · rintro ⟨⟨tenant,ht,rfl,hta⟩,m,hm,hmt,hmu,hma⟩
    exact ⟨tenant,⟨tenant,ht,m,⟨hm,hmt,hmu,hma,hta⟩,rfl⟩,rfl⟩

theorem userTenantJoin_sublist (hw : d.Wf) :
    (TenantService.userTenantJoin d u).Sublist d.tenants := by
  refine flatMap_sublist fun tenant _ => ?_
  rw [filter_member hw]
  cases d.members.find? _ <;> simp

theorem listUserTenants_exec (o : Nat → Reading) (n : Nat) (s : List Mail) :
    ∃ ts, (TenantService.listUserTenants u).exec Write.apply o ⟨d,d,[],n,s⟩ =
        (.ok ts,⟨d,d,[],n,s⟩) ∧
      ts.Perm (TenantService.userTenantJoin d u) ∧
      ts.Pairwise fun a b => b.createdAt ≤ a.createdAt := by
  refine ⟨_,rfl,List.mergeSort_perm _ _,?_⟩
  have hsorted : ((TenantService.userTenantJoin d u).mergeSort
      fun a b => b.createdAt ≤ a.createdAt).Pairwise
        fun a b => decide (b.createdAt ≤ a.createdAt) = true := List.pairwise_mergeSort
    (fun a b c hab hbc => by
      simp only [decide_eq_true_eq] at hab hbc ⊢
      exact hbc.trans hab)
    (fun a b => by
      simp only [Bool.or_eq_true,decide_eq_true_eq]
      exact Nat.le_total _ _) (TenantService.userTenantJoin d u)
  simpa only [decide_eq_true_eq] using hsorted

theorem getTenant_exec (o : Nat → Reading) (n : Nat) (s : List Mail) (a : User) :
    (∃ tenant, ((TenantRouter.getTenant t a).exec Write.apply o ⟨d,d,[],n,s⟩).1 =
      .ok (.tenant tenant) ∧ tenant.id = t) ↔ TenantActive d t ∧ ActiveMember d t a.id := by
  rw [← activeTenant_isSome,← membershipOf_isSome]
  unfold TenantRouter.getTenant
  simp only [TenantService.exec_getMembership_bind,flushAll_nil]
  cases hm : membershipOf d t a.id with
  | none => simp
  | some m =>
    simp only [TenantService.exec_getTenant_bind,flushAll_nil]
    cases ht : activeTenant d t with
    | none => simp
    | some tenant =>
      have hid := (TenantService.activeTenant_mem ht).2.1
      simp [hid]

end Lists

section Views
variable {P : Platform} {o : Readings} {w : World DB Mail} {u : User} {e : Nat}

def unscoped (P : Platform) (u : User) (e : Nat) : Option String :=
  some ("Bearer " ++ P.jwtEncode (sessionClaims .access u.id none e))

theorem actsAs_unscoped {n : Nat} (hw : w.db.Wf) (hu : u ∈ w.db.users) (ha : u.isActive = true)
    (he : (o.read n).now < seconds e*1000000) :
    authenticate P (unscoped P u e) (o.read n).now w.db = .ok u := by
  have hfind : w.db.users.find? (fun v => v.id = u.id ∧ v.isActive) = some u := by
    refine find_eq_some_of_unique hu (by simp [ha]) fun v hv hp => ?_
    simp only [decide_eq_true_eq] at hp
    exact eq_of_key hw.userKey hv hu hp.1
  unfold authenticate unscoped
  rw [P.httpBearer_bearer _ (P.jwtEncode_compact _)]
  have hscheme : (⟨"Bearer",P.jwtEncode (sessionClaims .access u.id none e)⟩ :
      HTTPAuthorizationCredentials).isBearer = true := by
    simp [HTTPAuthorizationCredentials.isBearer,lowerHeader]
  simp only [hscheme,Bool.true_eq_false,if_false,decodeAt_access,Nat.not_le.mpr he]
  simp only [hfind]

/-- A user sees the same tenants in his list, by their path and through X-Tenant-ID; the list
has each once, the newest first. -/
theorem views_agree (hr : Reachable P o w) (hu : u ∈ w.db.users) (ha : u.isActive = true)
    (he : (o.read (w.taken+1)).now < seconds e*1000000) :
    ∃ ts, (serve Write.apply o.read (TenantService.listUserTenants u.id) w).1 = .ok ts ∧
      (∀ t, t ∈ ts.map Tenant.id ↔ ∃ tenant, tenant.id = t ∧
        (handle P o w { authorization := unscoped P u e, route := .tenant (.getTenant t) }).1 =
          .success 200 (.tenant tenant)) ∧
      (∀ t header route, HeaderNames P (some header) t → (t ∈ ts.map Tenant.id ↔
        ∃ c, c.tenant.id = t ∧ verdict P o w
          { authorization := unscoped P u e, xTenantId := some header, route := route } =
            .ok (.ok (some c)))) ∧
      (ts.map Tenant.id).Nodup ∧ ts.Pairwise fun a b => b.createdAt ≤ a.createdAt := by
  obtain ⟨ts,hexec,hperm,hsorted⟩ := listUserTenants_exec (d := w.db) (u := u.id) o.read w.taken
    w.sent
  have hmem : ∀ t, t ∈ ts.map Tenant.id ↔ TenantActive w.db t ∧ ActiveMember w.db t u.id :=
    fun t => (hperm.map Tenant.id).mem_iff.trans mem_userTenantJoin
  have hnow : (o.read w.taken).now < seconds e*1000000 :=
    Nat.lt_of_le_of_lt (o.now_le (Nat.le_succ _)) he
  have hminted : MintedOnly P (unscoped P u e) := mintedOnly_encoded u.id none e
  have hbears : Bears P (unscoped P u e) u.id none (o.read w.taken).now := bears_encoded hnow
  refine ⟨ts,by rw [serve,hexec],fun t => ?_,fun t header route hh => ?_,?_,hsorted⟩
  · -- The middleware takes one reading for the token and has no tenant to look up.
    let q : Request := { authorization := unscoped P u e, route := .tenant (.getTenant t) }
    have hadm : verdict P o w q = .ok (.ok none) := by
      refine (verdict_none rfl hminted).mpr ⟨rfl,fun v x hx => ?_⟩
      have hno := (hx.unique hbears).2
      cases hno
    rw [verdict_eq] at hadm
    have hstart : endpointStart P w q = w.taken+1 := by
      unfold endpointStart middlewareReadings
      rw [show bearerToken q.authorization = _ from bearerToken_bearer (P.jwtEncode_compact _)]
      rfl
    have hacts : ActsAs P o w q u := by
      rw [ActsAs,hstart]
      exact actsAs_unscoped hr.wf hu ha he
    have hget := getTenant_exec (d := w.db) (t := t) o.read (endpointStart P w q + 1) w.sent u
    rw [hmem,← hget,handle_tenant rfl ⟨_,hadm⟩ hacts]
    constructor
    · rintro ⟨tenant,hok,hid⟩
      exact ⟨tenant,hid,by rw [TenantRoute.endpoint,hok]; rfl⟩
    · rintro ⟨tenant,hid,hs⟩
      exact ⟨tenant,respond_eq_success hs,hid⟩
  · let q : Request :=
      { authorization := unscoped P u e, xTenantId := some header, route := route }
    have hx : WellFormed P q.xTenantId := hh.wellFormed
    rw [hmem]
    constructor
    · rintro ⟨ht,hm⟩
      obtain ⟨c,hc,hfor⟩ := verdict_asked hx hminted ⟨none,hbears,.inr hh,fun t' ht' =>
        ht'.elim (absurd · (by simp)) hh.unique⟩ ht hm
      exact ⟨c,hfor.tenant.2.1,hc⟩
    · rintro ⟨c,rfl,hc⟩
      obtain ⟨v,⟨x,hb,-⟩,hfor⟩ := verdict_some hx hminted hc
      obtain ⟨rfl,-⟩ := hb.unique hbears
      exact hfor.active
  · exact (hperm.map Tenant.id).nodup_iff.mpr
      (hr.wf.tenantKey.sublist ((userTenantJoin_sublist hr.wf).map Tenant.id))

/-- The owner of 1002 has it in his list. -/
theorem views_agree_owner : ∃ ts, (serve Write.apply (Seed.readings 0).read
    (TenantService.listUserTenants 1) Seed.twoTenants).1 = .ok ts ∧ (ts.map Tenant.id).Nodup := by
  obtain ⟨ts,hts,-,-,hnodup,-⟩ := views_agree (u := Seed.owner) (e := 1000000)
    Seed.reachable_twoTenants (by decide +kernel) rfl (by decide +kernel)
  exact ⟨ts,hts,hnodup⟩

end Views

end TenantAuth
