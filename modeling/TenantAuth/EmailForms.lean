import TenantAuth.Rejoining
import TenantAuth.Registration
set_option autoImplicit false

/-! The email of an account and that of an invitation. `RegisterRequest.email` is an `EmailStr`,
`TenantInviteRequest.email` a plain `str`; they are compared when the invitation is accepted. -/

namespace TenantAuth
open Transact

/-- What is documented of `EmailStr`, which takes the address of a `Name <address>` form, strips
it and normalises it, and of `str.lower`. -/
structure EmailForms (P : Platform) (E : EmailStr P) where
  /-- The address of a `Name <address>` form. -/
  address : String → Option String
  /-- `unicodedata.normalize("NFC", s)`. -/
  nfc : String → String
  validate : ∀ {s e}, E.validate s = .ok e →
    P.lower e = P.lower (nfc (strip ((address s).getD s)))
  address_angle : ∀ {s a}, address s = some a → '>' ∈ (strip s).toList
  validate_angle : ∀ {s e}, E.validate s = .ok e → '>' ∉ e.toList
  lower_angle : ∀ s, '>' ∈ (P.lower s).toList ↔ '>' ∈ s.toList
  lower_lower : ∀ s, P.lower (P.lower s) = P.lower s

/-- The text is the bare address, and normalising it changes the case of letters at most. -/
def EmailForms.Bare {P : Platform} {E : EmailStr P} (F : EmailForms P E) (s : String) : Prop :=
  F.address s = none ∧ P.lower (F.nfc (strip s)) = P.lower (strip s)

/-- A request before the state has added the invitation, to the email `s`. -/
def InvitedAs (P : Platform) (o : Readings) (s : String) (w : World DB Mail)
    (inv : TenantInvitation) : Prop :=
  ∃ w₀ q t roleId qs, Reachable P o w₀ ∧ q.route = .tenant (.inviteMember t s roleId) ∧
    inv.id ∉ w₀.db.invitations.map TenantInvitation.id ∧
    inv ∈ (handle P o w₀ q).2.db.invitations ∧ w = after P o (handle P o w₀ q).2 qs

/-- One has added the account, sent with the email `s`. -/
def RegisteredAs {P : Platform} (E : EmailStr P) (o : Readings) (s : String) (w : World DB Mail)
    (u : User) : Prop :=
  ∃ w₀ w₁ authorization xTenantId password firstName lastName a qs, Reachable P o w₀ ∧
    (submit E o w₀ authorization xTenantId (.register s password firstName lastName)).2 = w₁ ∧
    a.id ∉ w₀.db.users.map User.id ∧ a ∈ w₁.db.users ∧ u.id = a.id ∧ u.email = a.email ∧
    w = after P o w₁ qs

section
variable {P : Platform} {E : EmailStr P} {o : Readings} {w : World DB Mail} {s : String}
  {inv : TenantInvitation} {u : User}

theorem InvitedAs.reachable (h : InvitedAs P o s w inv) : Reachable P o w := by
  obtain ⟨w₀,q,t,roleId,qs,hr,-,-,-,rfl⟩ := h
  exact (hr.serve q).after qs

theorem InvitedAs.email (h : InvitedAs P o s w inv) : inv.email = P.lower (strip s) := by
  obtain ⟨w₀,q,t,roleId,qs,-,hq,hnew,hinv,-⟩ := h
  rcases handle_invitations (P := P) (o := o) (w := w₀) (q := q) with
    hsame | ⟨j,t',email,roleId',hq',-,-,hd⟩
  · have hids := congrArg (List.map Prod.fst) hsame
    simp only [List.map_map] at hids
    have hold : inv.id ∈ w₀.db.invitations.map TenantInvitation.id := by
      have hin := List.mem_map_of_mem (f := Prod.fst ∘ TenantInvitation.drawn) hinv
      rw [hids] at hin
      exact hin
    exact absurd hold hnew
  · rw [hq] at hq'
    cases hq'
    rw [hd] at hinv
    rcases List.mem_append.mp hinv with hinv | hinv
    · exact absurd (List.mem_map_of_mem hinv) hnew
    · rw [List.mem_singleton.mp hinv]
      rfl

/-- What `register` stores: it has seen the validated email. -/
theorem RegisteredAs.email (h : RegisteredAs E o s w u) :
    ∃ e, E.validate s = .ok e ∧ u.email = P.lower e := by
  obtain ⟨w₀,w₁,authorization,xTenantId,password,firstName,lastName,a,qs,-,rfl,hnew,ha,-,he,-⟩ := h
  cases hv : RegisterRequest.validate E s password firstName lastName with
  | error message =>
    have hbody : (AuthBody.register s password firstName lastName).validate E = .error message := by
      simp [AuthBody.validate,hv,bind,Except.bind]
    rw [submit_error hbody] at ha
    exact absurd (List.mem_map_of_mem ha) hnew
  | ok payload =>
    rw [submit_ok (AuthBody.validate_register hv)] at ha
    rcases register_users (o := o) (w := w₀)
      (q := ⟨authorization,xTenantId,.auth (.register payload)⟩) rfl with
      hsame | ⟨b,salt,hadd,-,hemail,-⟩
    · rw [hsame] at ha
      exact absurd (List.mem_map_of_mem ha) hnew
    · rw [hadd] at ha
      rcases List.mem_append.mp ha with ha | ha
      · exact absurd (List.mem_map_of_mem ha) hnew
      · rw [List.mem_singleton.mp ha,hemail] at he
        exact ⟨payload.email,(RegisterRequest.validate_ok.mp hv).1,he⟩

/-- The two agree up to case just when the text is the bare address: an address has no angle
bracket, and a `Name <address>` form keeps its own when it is stored as it is. -/
theorem emails_agree_iff (F : EmailForms P E) (hinv : InvitedAs P o s w inv)
    (hu : RegisteredAs E o s w u) : P.lower u.email = P.lower inv.email ↔ F.Bare s := by
  obtain ⟨e,he,hemail⟩ := hu.email
  rw [hemail,hinv.email,F.lower_lower,F.lower_lower]
  cases ha : F.address s with
  | none => simp [EmailForms.Bare,F.validate he,ha]
  | some a =>
    refine ⟨fun h => ?_,fun h => absurd h.1 (by simp [ha])⟩
    have hangle : '>' ∈ (P.lower (strip s)).toList := (F.lower_angle _).mpr (F.address_angle ha)
    exact absurd ((F.lower_angle e).mp (h ▸ hangle)) (F.validate_angle he)

theorem Joined.addressed {token : String} (hw : w.db.Wf) (hd : DistinctInvitations w.db)
    (hu : u ∈ w.db.users) (hinv : inv ∈ w.db.invitations) (htoken : P.sha256 token = inv.tokenHash)
    (h : Joined P o w token u.id inv) : P.lower u.email = P.lower inv.email := by
  obtain ⟨m,t,hok,-⟩ := h
  rw [serve] at hok
  rcases TenantService.acceptInvitation_cases P o.read w.db w.taken w.sent token u.id with
    ⟨hno,-⟩ | ⟨inv',d',hc,-,-⟩
  · rw [hok] at hno
    cases hno
  · have hfound := List.find?_some hc.pending
    simp only [decide_eq_true_eq] at hfound
    obtain rfl : inv' = inv := eq_of_key hd (List.mem_of_find?_eq_some hc.pending) hinv
      (hfound.1.trans htoken)
    obtain ⟨v,hv,hlower⟩ := hc.addressed
    have hid : v.id = u.id := by simpa using List.find?_some hv
    rwa [eq_of_key hw.userKey (List.mem_of_find?_eq_some hv) hu hid] at hlower

/-- Somebody invited by a text who has registered with the same one and has not been a member can
accept, as long as the invitation is valid, just when the text is a bare address. -/
theorem joins_iff_bare (F : EmailForms P E) {token : String} (hinvited : InvitedAs P o s w inv)
    (hregistered : RegisteredAs E o s w u) (hsecret : Function.Injective fun i => (o.read i).secret)
    (hfresh : FreshKeys o.read w.taken w.db) (hu : u ∈ w.db.users) (hinv : inv ∈ w.db.invitations)
    (hpending : inv.acceptedAt = none) (hexpiry : (o.read w.taken).now ≤ inv.expiresAt)
    (htoken : P.sha256 token = inv.tokenHash)
    (hnever : ∀ m ∈ w.db.members, ¬ (m.tenantId = inv.tenantId ∧ m.userId = u.id)) :
    (P.lower u.email = P.lower inv.email ↔ F.Bare s) ∧
      (Joined P o w token u.id inv ↔ F.Bare s) := by
  have hr := hinvited.reachable
  have hagree := emails_agree_iff F hinvited hregistered
  refine ⟨hagree,fun h => ?_,fun h => ?_⟩
  · exact hagree.mp (h.addressed hr.wf (hr.distinctInvitations hsecret) hu hinv htoken)
  · have hout : ¬ ActiveMember w.db inv.tenantId u.id := by
      rintro ⟨m,hm,ht,hmu,-⟩
      exact hnever m hm ⟨ht,hmu⟩
    exact (joined_iff hr hsecret hfresh hu hinv hpending hexpiry (hagree.mpr h) htoken hout).mpr
      hnever

end

section Computed

def plainForms : EmailForms (plainPlatform {}) (plainEmail (plainPlatform {})
    (plainPlatform_toLower {})) where
  address := Plain.address
  nfc := id
  validate {s e} he := by
    obtain ⟨heq,-⟩ := plainEmail_ok.mp he
    rw [heq,id]
  address_angle {s a} ha := by
    simp only [Plain.address] at ha
    split at ha
    · rename_i h
      exact List.mem_of_getLast? h
    · cases ha
  validate_angle {s e} he := by
    obtain ⟨-,-,-,h,-⟩ := plainEmail_ok.mp he
    exact h
  lower_angle s := by simp [plainPlatform,toLower_eq (by decide : ('>' : Char).val < 65)]
  lower_lower := plainPlatform_lower {}

namespace Seed

def oneTenant : World DB Mail :=
  (handle (plainPlatform {}) (readings 0) (world []) (request 1 (.tenant (.createTenant "A" "a")))).2

def inviting (s : String) : World DB Mail :=
  (handle (plainPlatform {}) (readings 0) oneTenant
    (request 1 (.tenant (.inviteMember 1002 s tenantMember)))).2

def newcomer (s : String) : World DB Mail :=
  (submit (plainEmail (plainPlatform {}) (plainPlatform_toLower {})) (readings 0) (inviting s) none
    none (.register s "Correct-horse1" "N" "U")).2

def invited (email : String) : TenantInvitation :=
  ⟨1012,1002,email,tenantMember,"ssssssssss",604800000000,none⟩

def registrant (email : String) : User :=
  ⟨1016,email,"Correct-horse1","N","U",true,false,0,0⟩

theorem reachable_inviting (s : String) :
    Reachable (plainPlatform {}) (readings 0) (inviting s) :=
  .serve (.serve (.start (deployed_world (by simp) (by simp) (by simp))) _) _

theorem invitedAs_newcomer {s e email : String}
    (hv : RegisterRequest.validate (plainEmail (plainPlatform {}) (plainPlatform_toLower {})) s
      "Correct-horse1" "N" "U" = .ok ⟨e,"Correct-horse1","N","U"⟩)
    (hinv : invited email ∈ (inviting s).db.invitations) :
    InvitedAs (plainPlatform {}) (readings 0) s (newcomer s) (invited email) := by
  unfold inviting at hinv
  refine ⟨oneTenant,request 1 (.tenant (.inviteMember 1002 s tenantMember)),1002,tenantMember,
    [{ route := .auth (.register ⟨e,"Correct-horse1","N","U"⟩) }],
    .serve (.start (deployed_world (by simp) (by simp) (by simp))) _,rfl,?_,hinv,?_⟩
  · have hnone : oneTenant.db.invitations = [] := by decide +kernel
    simp [hnone]
  rw [newcomer,submit_ok (AuthBody.validate_register hv)]
  rfl

theorem registeredAs_newcomer {s email : String}
    (hold : ∀ u ∈ (inviting s).db.users, u.id ≠ 1016)
    (hnew : registrant email ∈ (newcomer s).db.users) :
    RegisteredAs (plainEmail (plainPlatform {}) (plainPlatform_toLower {})) (readings 0) s (newcomer s)
      (registrant email) := by
  have hfree : (registrant email).id ∉ (inviting s).db.users.map User.id := by
    intro hin
    obtain ⟨u,hu,he⟩ := List.mem_map.mp hin
    exact hold u hu he
  exact ⟨inviting s,newcomer s,none,none,"Correct-horse1","N","U",registrant email,[],
    reachable_inviting s,rfl,hfree,hnew,rfl,rfl,rfl⟩

end Seed

/-- Invited and registered as new@example.com. -/
theorem joins_iff_bare_newcomer :
    ((plainPlatform {}).lower "new@example.com" = (plainPlatform {}).lower "new@example.com" ↔
        plainForms.Bare "new@example.com") ∧
      (Joined (plainPlatform {}) (Seed.readings 0) (Seed.newcomer "new@example.com") "ssssssssss" 1016
        (Seed.invited "new@example.com") ↔ plainForms.Bare "new@example.com") :=
  joins_iff_bare (u := Seed.registrant "new@example.com") plainForms
    (Seed.invitedAs_newcomer (e := "new@example.com") (by decide +kernel) (by decide +kernel))
    (Seed.registeredAs_newcomer (by decide +kernel) (by decide +kernel)) (Seed.readings_secret 0)
    (Seed.freshKeys (by decide +kernel)) (by decide +kernel) (by decide +kernel) rfl (by decide +kernel)
    rfl (by decide +kernel)

/-- "Bob <bob@example.com>" cannot accept: his account has the address alone. -/
theorem joins_fails :
    ¬ ∀ (P : Platform) (E : EmailStr P) (o : Readings) (w : World DB Mail) (s token : String)
      (u : User) (inv : TenantInvitation), EmailForms P E → InvitedAs P o s w inv →
      RegisteredAs E o s w u → (Function.Injective fun i => (o.read i).secret) →
      FreshKeys o.read w.taken w.db → u ∈ w.db.users → inv ∈ w.db.invitations →
      inv.acceptedAt = none → (o.read w.taken).now ≤ inv.expiresAt →
      P.sha256 token = inv.tokenHash →
      (∀ m ∈ w.db.members, ¬ (m.tenantId = inv.tenantId ∧ m.userId = u.id)) →
      Joined P o w token u.id inv := by
  intro h
  obtain ⟨m,-,hm,-⟩ := h (plainPlatform {}) (plainEmail (plainPlatform {}) (plainPlatform_toLower {}))
    (Seed.readings 0) (Seed.newcomer "Bob <bob@example.com>") "Bob <bob@example.com>" "ssssssssss"
    (Seed.registrant "bob@example.com") (Seed.invited "bob <bob@example.com>") plainForms
    (Seed.invitedAs_newcomer (e := "bob@example.com") (by decide +kernel) (by decide +kernel))
    (Seed.registeredAs_newcomer (by decide +kernel) (by decide +kernel)) (Seed.readings_secret 0)
    (Seed.freshKeys (by decide +kernel)) (by decide +kernel) (by decide +kernel) rfl (by decide +kernel)
    rfl (by decide +kernel)
  have hraised : (serve Write.apply (Seed.readings 0).read (TenantService.acceptInvitation
      (plainPlatform {}) "ssssssssss" 1016) (Seed.newcomer "Bob <bob@example.com>")).1 =
        .raised (.app TenantService.invitationEmailMismatch) := by decide +kernel
  rw [show (Seed.registrant "bob@example.com").id = 1016 from rfl,hraised] at hm
  cases hm

end Computed

end TenantAuth
