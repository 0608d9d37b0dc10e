import TenantAuth.Expiry
import TenantAuth.Revocation
set_option autoImplicit false

namespace TenantAuth
open Transact

def Request.Presents (q : Request) (k : TokenType) (token : String) : Prop :=
  ∃ r, q.route = .auth r ∧ r.token = some (k,token)

def Request.Deletes (q : Request) (u : UUID) : Prop := q.route = .admin (.deleteUser u)

/-- The write marks no row of the kind with that key, and does not delete the user. -/
def Write.Spares (k : TokenType) (id u : UUID) (v : Write) : Prop :=
  v.marks ≠ some (k,id) ∧ v ≠ .deleteUser u

section Writes
variable {P : Platform} {o : Nat → Reading} {n : Nat} {d : DB} {q : Request} {ws : List Write}
  {v : Write} {k : TokenType}

theorem mem_update_other {α : Type} {key : α → UUID} {id : UUID} {f : α → α} {l : List α} {a : α}
    (ha : a ∈ l) (hne : key a ≠ id) : a ∈ update key id f l :=
  mem_update.mpr (.inr ⟨ha,hne⟩)

theorem keeps_refreshToken (r : RefreshToken) :
    Keeps Write.apply (Write.Spares .refresh r.id r.userId) fun d d' =>
      r ∈ d.refreshTokens → r ∈ d'.refreshTokens := by
  refine .ofInv fun {v d d'} hv ha hr => ?_
  obtain ⟨hmark,hdel⟩ := hv
  rw [(Write.apply_eq_ok.mp ha).2]
  cases v with
  | insertRefreshToken _ => exact List.mem_append_left _ hr
  | revokeRefreshToken id t =>
    refine mem_update_other hr fun h => ?_
    simp [Write.marks,h] at hmark
  | deleteUser id =>
    refine mem_delete.mpr ⟨hr,fun h => ?_⟩
    simp [h] at hdel
  | _ => exact hr

theorem keeps_oneTimeToken (k : TokenType) (r : OneTimeToken) :
    Keeps Write.apply (Write.Spares k r.id r.userId) fun d d' =>
      r ∈ oneTimeTokens k d → r ∈ oneTimeTokens k d' := by
  refine .ofInv fun {v d d'} hv ha hr => ?_
  obtain ⟨hmark,hdel⟩ := hv
  rw [(Write.apply_eq_ok.mp ha).2]
  cases v with
  | insertVerificationToken _ =>
    cases k with
    | verify => exact List.mem_append_left _ hr
    | _ => exact hr
  | insertResetToken _ =>
    cases k with
    | reset => exact List.mem_append_left _ hr
    | _ => exact hr
  | useVerificationToken id t =>
    cases k with
    | verify =>
      refine mem_update_other hr fun h => ?_
      simp [Write.marks,h] at hmark
    | _ => exact hr
  | useResetToken id t =>
    cases k with
    | reset =>
      refine mem_update_other hr fun h => ?_
      simp [Write.marks,h] at hmark
    | _ => exact hr
  | deleteUser id =>
    have hne : r.userId ≠ id := fun h => by simp [h] at hdel
    cases k with
    | verify => exact mem_delete.mpr ⟨hr,hne⟩
    | reset => exact mem_delete.mpr ⟨hr,hne⟩
    | _ => exact hr
  | _ => cases k <;> exact hr

theorem RequestCommit.marks {id : UUID} (hc : RequestCommit P o n d q ws) (hv : v ∈ ws)
    (hm : v.marks = some (k,id)) :
    ∃ token, q.Presents k token ∧
      ∃ x ∈ tokenRows k d, x.id = id ∧ x.tokenHash = hashToken P token := by
  have hedit : ∀ {u : User} {p : UserPatch} {t : Nat}, v ∉ AuthService.userWrites u p t := by
    intro u p t hin
    have hnone : v.marks = none :=
      AuthService.userWrites_forall (S := fun v => v.marks = none) (fun _ _ => rfl) _ hin
    cases hnone.symm.trans hm
  cases hc with
  | idle => cases hv
  | tenant _ _ h =>
    have ht := h.touches _ hv
    cases v <;> simp [Write.marks,Write.touches] at hm ht
  | admin _ _ h =>
    cases h with
    | nothing => cases hv
    | updateUser _ => exact absurd hv hedit
    | _ =>
      cases List.mem_singleton.mp hv
      cases hm
  | auth hq h =>
    cases h with
    | nothing => cases hv
    | register h => cases h <;> simp at hv <;> rcases hv with rfl | rfl <;> cases hm
    | login _ _ | forgotPassword _ =>
      cases List.mem_singleton.mp hv
      cases hm
    | @logout token i r h =>
      cases List.mem_singleton.mp hv
      cases hm
      have hrow := List.find?_some h.row
      simp only [decide_eq_true_eq] at hrow
      exact ⟨token,⟨_,hq,rfl⟩,_,List.mem_map_of_mem (List.mem_of_find?_eq_some h.row),rfl,hrow.1⟩
    | @refresh token i r h =>
      rcases List.mem_cons.mp hv with rfl | hv
      · cases hm
        have hrow := List.find?_some h.presented.row
        simp only [decide_eq_true_eq] at hrow
        exact ⟨token,⟨_,hq,rfl⟩,_,
          List.mem_map_of_mem (List.mem_of_find?_eq_some h.presented.row),rfl,hrow.1⟩
      · cases List.mem_singleton.mp hv
        cases hm
    | @verifyEmail token r u h =>
      rcases List.mem_append.mp hv with hv | hv
      · exact absurd hv hedit
      cases List.mem_singleton.mp hv
      cases hm
      obtain ⟨⟨i,-,hr,-⟩,-⟩ := h
      have hrow := List.find?_some hr
      simp only [decide_eq_true_eq] at hrow
      exact ⟨token,⟨_,hq,rfl⟩,_,List.mem_map_of_mem (List.mem_of_find?_eq_some hr),rfl,hrow.1⟩
    | @resetPassword token newPassword hash r u h =>
      rcases List.mem_append.mp hv with hv | hv
      · exact absurd hv hedit
      cases List.mem_singleton.mp hv
      cases hm
      obtain ⟨⟨i,-,hr,-⟩,-⟩ := h
      have hrow := List.find?_some hr
      simp only [decide_eq_true_eq] at hrow
      exact ⟨token,⟨_,hq,rfl⟩,_,List.mem_map_of_mem (List.mem_of_find?_eq_some hr),rfl,hrow.1⟩

theorem RequestCommit.deletes {u : UUID} (hc : RequestCommit P o n d q ws)
    (hv : .deleteUser u ∈ ws) : q.Deletes u := by
  have hedit : ∀ {a : User} {p : UserPatch} {t : Nat},
      .deleteUser u ∉ AuthService.userWrites a p t := fun hin =>
    AuthService.userWrites_forall (S := fun v => v ≠ .deleteUser u) (by simp) _ hin rfl
  cases hc with
  | idle => cases hv
  | tenant _ _ h =>
    have ht := h.touches _ hv
    simp [Write.touches] at ht
  | auth _ h =>
    have ht := h.touches _ hv
    simp [Write.touches] at ht
  | admin hq _ h =>
    cases h with
    | nothing => cases hv
    | updateUser _ => exact absurd hv hedit
    | @deleteUser id a h =>
      cases List.mem_singleton.mp hv
      obtain rfl : a.id = id := by simpa using List.find?_some h
      exact hq
    | _ => cases List.mem_singleton.mp hv

end Writes

section Runs
variable {P : Platform} {o : Readings} {w : World DB Mail} {q : Request} {k : TokenType}
  {qs : List Request}

theorem DB.Wf.tokenKeys {d : DB} (h : d.Wf) (k : TokenType) :
    ((tokenRows k d).map StoredToken.id).Nodup := by
  cases k with
  | access => exact List.nodup_nil
  | refresh => simpa [tokenRows,Function.comp_def,StoredToken.ofRefresh] using h.refreshTokenKey
  | verify => simpa [tokenRows,Function.comp_def,StoredToken.ofOneTime] using h.verificationTokenKey
  | reset => simpa [tokenRows,Function.comp_def,StoredToken.ofOneTime] using h.resetTokenKey

theorem commits_spare {o : Nat → Reading} {n : Nat} {d : DB} {ws : List Write} {x : StoredToken}
    {u : UUID} (hw : d.Wf) (hc : RequestCommit P o n d q ws) (hx : x ∈ tokenRows k d)
    (hno : ∀ token, x.tokenHash = hashToken P token → ¬ q.Presents k token)
    (hdel : ¬ q.Deletes u) : ∀ v ∈ ws, v.Spares k x.id u := by
  intro v hv
  refine ⟨fun hm => ?_,fun h => hdel (hc.deletes (h ▸ hv))⟩
  obtain ⟨token,hp,y,hy,hid,hh⟩ := hc.marks hv hm
  obtain rfl : y = x := eq_of_key (hw.tokenKeys k) hy hx hid
  exact hno token hh hp

theorem after_keeps (T : DB → Prop) (hw : w.db.Wf) (h : T w.db)
    (hstep : ∀ w : World DB Mail, w.db.Wf → T w.db → ∀ q ∈ qs, T (handle P o w q).2.db) :
    T (after P o w qs).db := by
  induction qs generalizing w with
  | nil => exact h
  | cons q qs ih =>
    refine ih (handle_wf hw q) (hstep w hw h q List.mem_cons_self) fun w hw h q hq => ?_
    exact hstep w hw h q (List.mem_cons_of_mem _ hq)

/-- Nobody uses up the token, and its user stays. -/
def LeavesAlone (qs : List Request) (k : TokenType) (token : String) (u : UUID) : Prop :=
  ∀ q ∈ qs, ¬ q.Presents k token ∧ ¬ q.Deletes u

/-- The row of a refresh token is the same row at the end of a run that leaves the token alone. -/
theorem refreshToken_lasts {r : RefreshToken} {token : String} (hw : w.db.Wf)
    (hr : r ∈ w.db.refreshTokens) (hh : r.tokenHash = hashToken P token)
    (hqs : LeavesAlone qs .refresh token r.userId) : r ∈ (after P o w qs).db.refreshTokens := by
  refine after_keeps (fun d => r ∈ d.refreshTokens) hw hr fun w hw hr q hq => ?_
  obtain ⟨hno,hdel⟩ := hqs q hq
  obtain ⟨ws,hc,hf⟩ := handle_commits P o w q
  have hspare := commits_spare (x := .ofRefresh r) hw hc (List.mem_map_of_mem hr)
    (fun token' hh' hp => hno (P.sha256_injective (hh.symm.trans hh') ▸ hp)) hdel
  exact flushAll_rel (keeps_refreshToken r) hspare hf hr

/-- So is that of a one-time token. -/
theorem oneTimeToken_lasts {r : OneTimeToken} {token : String} (hw : w.db.Wf)
    (hr : r ∈ oneTimeTokens k w.db) (hh : r.tokenHash = hashToken P token)
    (hqs : LeavesAlone qs k token r.userId) : r ∈ oneTimeTokens k (after P o w qs).db := by
  have hrows : ∀ d, r ∈ oneTimeTokens k d → .ofOneTime r ∈ tokenRows k d := by
    intro d hr
    cases k with
    | verify => exact List.mem_map_of_mem hr
    | reset => exact List.mem_map_of_mem hr
    | _ => cases hr
  refine after_keeps (fun d => r ∈ oneTimeTokens k d) hw hr fun w hw hr q hq => ?_
  obtain ⟨hno,hdel⟩ := hqs q hq
  obtain ⟨ws,hc,hf⟩ := handle_commits P o w q
  have hspare := commits_spare (x := .ofOneTime r) hw hc (hrows _ hr)
    (fun token' hh' hp => hno (P.sha256_injective (hh.symm.trans hh') ▸ hp)) hdel
  exact flushAll_rel (keeps_oneTimeToken k r) hspare hf hr

end Runs

end TenantAuth
