import TenantAuth.Revocation
import TenantAuth.DoubleSpend
set_option autoImplicit false

/-! Password reset tokens over runs of service calls. Like a refresh token, a reset token is
nothing but its claims: who asks twice within a second is sent one string, with two rows. -/

namespace TenantAuth
open Transact

section Collisions
variable (P : Platform) (o : Nat → Reading) (w : World DB Mail)

/-- A token of the same user that expires in the same second is stored already. -/
def ResetCollides (c : Call) : Prop :=
  ∃ email u, c = .forgotPassword email ∧
    w.db.users.find? (fun u => u.email = P.lower email) = some u ∧
    ∃ r ∈ w.db.resetTokens, r.userId = u.id ∧
      seconds r.expiresAt = seconds ((o w.taken).now + timedeltaHours 1)

/-- No call of the run mints a reset token that collides. -/
def ResetCollisionFree : World DB Mail → List Call → Prop
  | _, [] => True
  | w, c :: cs => ¬ ResetCollides P o w c ∧ ResetCollisionFree (call P o w c).2 cs

end Collisions

/-- The rows of the reset tokens: one to a hash, which is that of a token with the row's user
and expiry. -/
structure ResetLedger (P : Platform) (d : DB) : Prop where
  hash : (d.resetTokens.map OneTimeToken.tokenHash).Nodup
  minted : ∀ r ∈ d.resetTokens, ∃ email, r.tokenHash =
    hashToken P (createTypedToken P r.userId email .reset r.expiresAt).1

section Rows
variable {P : Platform} {d d' : DB}

theorem ResetLedger.congr (h : ResetLedger P d) (hr : SameIn .resetTokens d d') :
    ResetLedger P d' := by
  simp only [SameIn] at hr
  exact ⟨hr ▸ h.hash,hr ▸ h.minted⟩

theorem ResetLedger.insert {r : OneTimeToken} {email : String} (h : ResetLedger P d)
    (hm : r.tokenHash = hashToken P (createTypedToken P r.userId email .reset r.expiresAt).1)
    (hnew : ∀ r' ∈ d.resetTokens, r'.userId = r.userId →
      seconds r'.expiresAt ≠ seconds r.expiresAt)
    (hf : flushAll Write.apply [.insertResetToken r] d = .ok d') : ResetLedger P d' := by
  obtain ⟨-,rfl⟩ := flushAll_single.mp hf
  have hfresh : r.tokenHash ∉ d.resetTokens.map OneTimeToken.tokenHash := by
    intro hk
    obtain ⟨r',hr',he⟩ := List.mem_map.mp hk
    obtain ⟨email',hm'⟩ := h.minted r' hr'
    rw [hm',hm] at he
    have hclaims := P.jwtEncode_injective (P.sha256_injective he)
    simp only [Claims.mk.injEq,Option.some.injEq] at hclaims
    exact hnew r' hr' hclaims.1 hclaims.2.2.1
  refine ⟨nodup_append_key h.hash hfresh,fun r' hr' => ?_⟩
  rcases List.mem_append.mp hr' with hr' | hr'
  · exact h.minted r' hr'
  · rw [List.mem_singleton.mp hr']
    exact ⟨email,hm⟩

theorem ResetLedger.use {id : UUID} {t : Nat} (h : ResetLedger P d) :
    ResetLedger P ((Write.useResetToken id t).effect d) := by
  have hhash : (update OneTimeToken.id id (fun r => { r with usedAt := some t }) d.resetTokens).map
      OneTimeToken.tokenHash = d.resetTokens.map OneTimeToken.tokenHash :=
    map_update OneTimeToken.id id (f := fun r => { r with usedAt := some t }) (fun _ => rfl) _
  refine ⟨hhash ▸ h.hash,fun r' hr' => ?_⟩
  rcases mem_update.mp hr' with ⟨r,hr,-,rfl⟩ | ⟨hr,-⟩
  · exact h.minted r hr
  · exact h.minted r' hr

theorem ResetLedger.distinct (h : ResetLedger P d) :
    ((tokenRows .reset d).map StoredToken.tokenHash).Nodup := by
  have hmap : (tokenRows .reset d).map StoredToken.tokenHash =
      d.resetTokens.map OneTimeToken.tokenHash := by
    simp only [tokenRows,List.map_map]
    rfl
  exact hmap ▸ h.hash

end Rows

section Calls
variable {P : Platform} {o : Nat → Reading} {w : World DB Mail} {c : Call} {token : String}

theorem call_resetTokens (hf : ∀ email, c ≠ .forgotPassword email)
    (hr : ∀ token password, c ≠ .resetPassword token password) :
    SameIn .resetTokens w.db (call P o w c).2.db := by
  refine call_rel (keeps_frame .resetTokens) o w fun v hv => ?_
  cases v with
  | insertResetToken r => cases c <;> first | exact absurd rfl (hf _) | exact hv.elim
  | useResetToken id t => cases c <;> first | exact absurd rfl (hr _ _) | exact hv.elim
  | deleteUser id => cases c <;> exact hv.elim
  | _ => simp [Write.touches]

theorem UsedUp.call {k : TokenType × String} (h : UsedUp P k w.db) (c : Call) :
    UsedUp P k (TenantAuth.call P o w c).2.db := by
  refine h.ages (call_rel keeps_ages o w fun v hv id hid => ?_)
  rw [hid] at hv
  cases c <;> exact hv.elim

theorem ResetLedger.call (h : ResetLedger P w.db) (hn : ¬ ResetCollides P o w c) :
    ResetLedger P (call P o w c).2.db := by
  by_cases hf : ∃ email, c = .forgotPassword email
  · obtain ⟨email,rfl⟩ := hf
    rw [call_db]
    rcases AuthService.forgotPassword_cases P o w.db w.taken w.sent email with
      hd | ⟨u,hu,hf⟩
    · rwa [Call.prog,hd]
    · exact h.insert rfl (fun r hr hid ht => hn ⟨email,u,rfl,hu,r,hr,hid,ht⟩) hf
  by_cases hr : ∃ token password, c = .resetPassword token password
  · obtain ⟨token,password,rfl⟩ := hr
    rw [call_db]
    rcases AuthService.resetPassword_cases P o w.db w.taken w.sent token password with
      ⟨-,hd⟩ | ⟨r,u,hash,-,-,-,hf⟩
    · rwa [Call.prog,hd]
    · -- The user's UPDATE comes first and leaves the tokens alone.
      obtain ⟨d,hd,hf⟩ := flushAll_append_iff.mp hf
      obtain ⟨-,he⟩ := flushAll_single.mp hf
      have hsame : SameIn .resetTokens w.db d :=
        flushAll_frame_ne (userWrites_touches _ _ _) (by simp) hd
      exact he ▸ (h.congr hsame).use
  exact h.congr (call_resetTokens (fun email he => hf ⟨email,he⟩)
    fun token password he => hr ⟨token,password,he⟩)

theorem reset_consumes {password : String}
    (hok : (call P o w (.resetPassword token password)).1.isOk = true) :
    (∃ id, Found P .reset token id w.db) ∧
      UsedUp P (.reset,token) (call P o w (.resetPassword token password)).2.db := by
  rw [call_db]
  rcases AuthService.resetPassword_cases P o w.db w.taken w.sent token password with
    ⟨hno,-⟩ | ⟨r,u,hash,⟨⟨i,-,hrow,-⟩,-⟩,-,-,hf⟩
  · exact absurd (hok.symm.trans hno) (by simp)
  have hfound : Found P .reset token r.id w.db := found_oneTime rfl hrow
  exact ⟨⟨_,hfound⟩,flushAll_marks (userWrites_deletesNobody (by simp [Write.DeletesNobody]))
    (List.mem_append_right _ (List.mem_singleton_self _)) rfl hfound.row hf⟩

end Calls

section Runs
variable {P : Platform} {o : Nat → Reading} {w : World DB Mail} {token : String}

theorem ResetLedger.callAll {cs : List Call} (h : ResetLedger P w.db)
    (hcs : ResetCollisionFree P o w cs) : ResetLedger P (callAll P o w cs).db := by
  induction cs generalizing w with
  | nil => exact h
  | cons c cs ih => exact ih (h.call hcs.1) hcs.2

theorem UsedUp.callAll {k : TokenType × String} {cs : List Call} (h : UsedUp P k w.db) :
    UsedUp P k (TenantAuth.callAll P o w cs).db := by
  induction cs generalizing w with
  | nil => exact h
  | cons c cs ih => exact ih (h.call c)

/-- In a run in which no reset token collides, a token that a password was reset with resets
none again. -/
theorem reset_once {cs cs' : List Call} {p p' : String} (hw : w.db.resetTokens = [])
    (hcs : ResetCollisionFree P o w (cs ++ .resetPassword token p :: cs'))
    (hok : (call P o (callAll P o w cs) (.resetPassword token p)).1.isOk = true) :
    (call P o (callAll P o w (cs ++ .resetPassword token p :: cs'))
      (.resetPassword token p')).1.isOk = false := by
  have hstart : ResetLedger P w.db := by
    constructor <;> simp [hw]
  have hledger : ResetLedger P (callAll P o w (cs ++ .resetPassword token p :: cs')).db :=
    hstart.callAll hcs
  have hused : UsedUp P (.reset,token)
      (callAll P o w (cs ++ .resetPassword token p :: cs')).db := by
    rw [callAll_append]
    exact (reset_consumes hok).2.callAll
  cases hr : (call P o (callAll P o w (cs ++ .resetPassword token p :: cs'))
      (.resetPassword token p')).1.isOk with
  | false => rfl
  | true =>
    obtain ⟨id,hfound⟩ := (reset_consumes hr).1
    exact absurd hused (hfound.not_usedUp hledger.distinct)

/-- The guest asks once and resets his password. -/
theorem reset_once_asking :
    let token := (createTypedToken (plainPlatform {}) 2 "guest@example.com" .reset
      (timedeltaHours 1)).1
    (call (plainPlatform {}) (Seed.readings 1000) (callAll (plainPlatform {}) (Seed.readings 1000)
      (Seed.world []) [.forgotPassword "guest@example.com",.resetPassword token "one"])
        (.resetPassword token "two")).1.isOk = false := by
  refine @reset_once _ _ _ _ [.forgotPassword "guest@example.com"] [] _ _ rfl
    ⟨?_,?_,trivial⟩ (by decide +kernel)
  · rintro ⟨_,_,-,-,r,hr,-⟩
    cases hr
  · rintro ⟨_,_,h,-⟩
    cases h

/-- He asks twice within a second: the one token resets his password twice. -/
theorem reset_once_fails :
    ¬ ∀ (P : Platform) (o : Readings) (w : World DB Mail) (cs cs' : List Call)
      (token p p' : String), w.db.resetTokens = [] →
      (call P o (callAll P o w cs) (.resetPassword token p)).1.isOk = true →
      (call P o (callAll P o w (cs ++ .resetPassword token p :: cs'))
        (.resetPassword token p')).1.isOk = false := by
  intro h
  let token := (createTypedToken (plainPlatform {}) 2 "guest@example.com" .reset
    (timedeltaHours 1)).1
  have hno := h (plainPlatform {}) (Seed.readings 1000) (Seed.world [])
    [.forgotPassword "guest@example.com",.forgotPassword "guest@example.com"] [] token "one" "two"
    rfl (by decide +kernel)
  revert hno
  decide +kernel

end Runs

end TenantAuth
