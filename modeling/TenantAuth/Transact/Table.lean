import Mathlib.Data.List.Nodup
import Mathlib.Data.List.Dedup
set_option autoImplicit false

namespace Transact

section Keyed
variable {α κ β : Type} [DecidableEq κ]

/-- `UPDATE ... WHERE key = k`. -/
def update (key : α → κ) (k : κ) (f : α → α) (l : List α) : List α :=
  l.map fun r => if key r = k then f r else r

/-- `DELETE ... WHERE key = k`. -/
def delete (key : α → κ) (k : κ) (l : List α) : List α := l.filter fun r => key r ≠ k

/-- A unique index on `key` admits the row. -/
def vacant (key : α → κ) (k : κ) (l : List α) : Bool := l.all fun r => key r ≠ k

/-- A foreign key to `key` finds its row. -/
def present (key : α → κ) (k : κ) (l : List α) : Bool := l.any fun r => key r = k

@[simp] theorem vacant_iff {key : α → κ} {k : κ} {l : List α} :
    vacant key k l = true ↔ k ∉ l.map key := by
  simp only [vacant,List.all_eq_true,decide_eq_true_eq,List.mem_map,not_exists,not_and]

@[simp] theorem present_iff {key : α → κ} {k : κ} {l : List α} :
    present key k l = true ↔ k ∈ l.map key := by
  simp only [present,List.any_eq_true,decide_eq_true_eq,List.mem_map]

theorem all_present_iff {key : α → κ} {o : Option κ} {l : List α} :
    o.all (present key · l) = true ↔ ∀ k ∈ o, k ∈ l.map key := by
  cases o <;> simp

theorem mem_update {key : α → κ} {k : κ} {f : α → α} {l : List α} {r : α} :
    r ∈ update key k f l ↔ (∃ a ∈ l, key a = k ∧ f a = r) ∨ (r ∈ l ∧ key r ≠ k) := by
  simp only [update,List.mem_map]
  constructor
  · rintro ⟨a,ha,h⟩
    by_cases hk : key a = k
    · exact .inl ⟨a,ha,hk,by simpa [hk] using h⟩
    · simp only [hk,if_false] at h
      subst h
      exact .inr ⟨ha,hk⟩
  · rintro (⟨a,ha,hk,h⟩ | ⟨h,hk⟩)
    · exact ⟨a,ha,by simpa [hk] using h⟩
    · exact ⟨r,h,by simp [hk]⟩

theorem exists_mem_update {key : α → κ} {k : κ} {f : α → α} {l : List α} {a : α} {R : α → Prop}
    (ha : a ∈ l) (hf : key a = k → R (f a)) (h : R a) : ∃ b ∈ update key k f l, R b := by
  by_cases hk : key a = k
  · exact ⟨f a,mem_update.mpr (.inl ⟨a,ha,hk,rfl⟩),hf hk⟩
  · exact ⟨a,mem_update.mpr (.inr ⟨ha,hk⟩),h⟩

@[simp] theorem mem_delete {key : α → κ} {k : κ} {l : List α} {r : α} :
    r ∈ delete key k l ↔ r ∈ l ∧ key r ≠ k := by simp [delete]

theorem delete_sublist (key : α → κ) (k : κ) (l : List α) : (delete key k l).Sublist l :=
  List.filter_sublist

theorem filter_delete {key : α → κ} {k : κ} {q : α → Bool} {l : List α}
    (h : ∀ r, q r = true → key r ≠ k) : (delete key k l).filter q = l.filter q := by
  unfold delete
  rw [List.filter_filter]
  refine List.filter_congr fun r _ => ?_
  cases hq : q r with
  | true => simp [h r hq]
  | false => rfl

theorem map_update (key : α → κ) (k : κ) {f : α → α} {g : α → β} (h : ∀ r, g (f r) = g r)
    (l : List α) : (update key k f l).map g = l.map g := by
  simp only [update,List.map_map]
  apply List.map_congr_left
  intro r _
  by_cases hk : key r = k <;> simp [hk,h]

theorem map_key_update (key : α → κ) {k : κ} {a : α} (h : key a = k) (l : List α) :
    (update key k (fun _ => a) l).map key = l.map key := by
  unfold update
  rw [List.map_map]
  refine List.map_congr_left fun b _ => ?_
  by_cases hb : key b = k
  · simp [hb,h]
  · simp [hb]

theorem filter_update {key : α → κ} {k : κ} {f : α → α} {q : α → Bool} {l : List α}
    (h : ∀ r ∈ l, key r = k → q r = false ∧ q (f r) = false) :
    (update key k f l).filter q = l.filter q := by
  induction l with
  | nil => rfl
  | cons a l ih =>
    have hl := ih (fun r hr => h r (by simp [hr]))
    simp only [update,List.map_cons] at hl ⊢
    by_cases hk : key a = k
    · obtain ⟨h1,h2⟩ := h a (by simp) hk
      simp only [hk,if_true,List.filter_cons,h1,h2]
      exact hl
    · simp only [hk,if_false,List.filter_cons,hl]

theorem filter_update_comm {key : α → κ} {k : κ} {f : α → α} {q : α → Bool} {l : List α}
    (h : ∀ r, key r = k → q (f r) = q r) :
    (update key k f l).filter q = update key k f (l.filter q) := by
  unfold update
  rw [List.filter_map]
  refine congrArg _ (List.filter_congr fun r _ => ?_)
  by_cases hk : key r = k
  · simp [hk,h r hk]
  · simp [hk]

theorem filter_update_ne {key : α → κ} {a b : α} {q : α → Bool} {l : List α} (ha : a ∈ l)
    (hq : q a = true) (hne : b ≠ a) :
    (update key (key a) (fun _ => b) l).filter q ≠ l.filter q := by
  intro he
  have hin : a ∈ (update key (key a) (fun _ => b) l).filter q := he ▸ List.mem_filter.mpr ⟨ha,hq⟩
  rcases mem_update.mp (List.mem_filter.mp hin).1 with ⟨_,-,-,hb⟩ | ⟨-,hk⟩
  · exact hne hb
  · exact hk rfl

theorem find_update_isSome {key : α → κ} {k k' : κ} {f : α → α} {l : List α} {a : α}
    (h : ∀ r, key (f r) = key r) (ha : a ∈ l) (hk : key a = k') :
    ∃ b, (update key k f l).find? (fun r => key r = k') = some b := by
  rw [← Option.isSome_iff_exists,List.find?_isSome]
  have hm : k' ∈ (update key k f l).map key := by
    rw [map_update key k h]
    exact hk ▸ List.mem_map_of_mem ha
  obtain ⟨b,hb,he⟩ := List.mem_map.mp hm
  exact ⟨b,hb,by simpa using he⟩

@[simp] theorem update_id (key : α → κ) (k : κ) (l : List α) : update key k id l = l := by
  simp [update]

theorem nodup_delete {key : α → κ} {g : α → β} {k : κ} {l : List α} (hn : (l.map g).Nodup) :
    ((delete key k l).map g).Nodup :=
  hn.sublist ((delete_sublist key k l).map g)

end Keyed

section References
variable {α β κ : Type}

theorem subset_insert_target {g : α → κ} {f : β → κ} {l : List α} {m : List β} (r : β)
    (h : l.map g ⊆ m.map f) : l.map g ⊆ (m ++ [r]).map f := by
  intro k hk
  simp [List.mem_map.mp (h hk)]

theorem subset_insert_source {g : α → κ} {l : List α} {m : List κ} {r : α}
    (h : l.map g ⊆ m) (hr : g r ∈ m) : (l ++ [r]).map g ⊆ m := by
  intro k hk
  rw [List.map_append,List.mem_append] at hk
  rcases hk with hk | hk
  · exact h hk
  · rw [List.mem_singleton.mp hk]; exact hr

theorem optional_insert_target {g : α → Option κ} {f : β → κ} {l : List α} {m : List β} (r : β)
    (h : ∀ a ∈ l, ∀ k ∈ g a, k ∈ m.map f) : ∀ a ∈ l, ∀ k ∈ g a, k ∈ (m ++ [r]).map f := by
  intro a ha k hk
  simp [List.mem_map.mp (h a ha k hk)]

theorem optional_insert_source {g : α → Option κ} {l : List α} {m : List κ} {r : α}
    (h : ∀ a ∈ l, ∀ k ∈ g a, k ∈ m) (hr : ∀ k ∈ g r, k ∈ m) :
    ∀ a ∈ l ++ [r], ∀ k ∈ g a, k ∈ m := by
  intro a ha
  rcases List.mem_append.mp ha with ha | ha
  · exact h a ha
  · rw [List.mem_singleton.mp ha]
    exact hr

theorem subset_delete_source {ι : Type} [DecidableEq ι] {g : α → κ} {key : α → ι} (k : ι)
    {l : List α} {m : List κ} (h : l.map g ⊆ m) : (delete key k l).map g ⊆ m :=
  fun _ hx => h (((delete_sublist key k l).map g).subset hx)

/-- `ON DELETE CASCADE`: the rows that refer to a deleted row go with it. -/
theorem subset_delete_cascade [DecidableEq κ] {g : α → κ} {f : β → κ} (k : κ) {l : List α}
    {m : List β} (h : l.map g ⊆ m.map f) : (delete g k l).map g ⊆ (delete f k m).map f := by
  intro x hx
  obtain ⟨a,ha,rfl⟩ := List.mem_map.mp hx
  obtain ⟨hal,hak⟩ := mem_delete.mp ha
  obtain ⟨b,hb,hbk⟩ := List.mem_map.mp (h (List.mem_map_of_mem hal))
  exact List.mem_map.mpr ⟨b,mem_delete.mpr ⟨hb,hbk ▸ hak⟩,hbk⟩

/-- A row whose key nothing refers to can be deleted. -/
theorem subset_delete_target [DecidableEq κ] {g : α → κ} {f : β → κ} {k : κ} {l : List α}
    {m : List β} (h : l.map g ⊆ m.map f) (hk : k ∉ l.map g) :
    l.map g ⊆ (delete f k m).map f := by
  intro x hx
  obtain ⟨b,hb,hbk⟩ := List.mem_map.mp (h hx)
  exact List.mem_map.mpr ⟨b,mem_delete.mpr ⟨hb,fun e => hk (e ▸ hbk ▸ hx)⟩,hbk⟩

end References

section Unique
variable {α κ : Type}

theorem eq_of_key {key : α → κ} {l : List α} (hn : (l.map key).Nodup) {a b : α} (ha : a ∈ l)
    (hb : b ∈ l) (h : key a = key b) : a = b :=
  List.inj_on_of_nodup_map hn ha hb h

theorem nodup_append_key {key : α → κ} {l : List α} {r : α} (hn : (l.map key).Nodup)
    (h : key r ∉ l.map key) : ((l ++ [r]).map key).Nodup := by
  simp only [List.map_append,List.map_cons,List.map_nil,List.nodup_append]
  refine ⟨hn,by simp,?_⟩
  intro a ha b hb hab
  rw [List.mem_singleton] at hb
  exact h (hb ▸ hab ▸ ha)

theorem nodup_append_row {l : List α} {r : α} (hn : l.Nodup) (h : r ∉ l.map id) :
    (l ++ [r]).Nodup := by
  have hkey : ((l ++ [r]).map id).Nodup := nodup_append_key (by simpa using hn) h
  rwa [List.map_id] at hkey

/-- `SELECT ... WHERE p` through `scalar`: the first matching row, on a unique
selection the only one. -/
theorem find_eq_some_of_unique {p : α → Bool} {l : List α} {a : α} (ha : a ∈ l) (hp : p a = true)
    (hu : ∀ b ∈ l, p b = true → b = a) : l.find? p = some a := by
  cases h : l.find? p with
  | none =>
    have := List.find?_eq_none.mp h a ha
    simp [hp] at this
  | some b => rw [hu b (List.mem_of_find?_eq_some h) (List.find?_some h)]

theorem find_eq_find {p q : α → Bool} {l l' : List α}
    (h : ∀ a, a ∈ l ∧ p a = true ↔ a ∈ l' ∧ q a = true)
    (hu : ∀ a ∈ l, ∀ b ∈ l, p a = true → p b = true → a = b) : l.find? p = l'.find? q := by
  cases hf : l'.find? q with
  | none =>
    rw [List.find?_eq_none]
    exact fun a ha hp => List.find?_eq_none.mp hf a ((h a).mp ⟨ha,hp⟩).1 ((h a).mp ⟨ha,hp⟩).2
  | some a =>
    obtain ⟨ha,hp⟩ := (h a).mpr ⟨List.mem_of_find?_eq_some hf,List.find?_some hf⟩
    exact find_eq_some_of_unique ha hp fun b hb hb' => hu b hb a ha hb' hp

theorem find_filter {p q : α → Bool} {l : List α} (h : ∀ a, p a = true → q a = true) :
    (l.filter q).find? p = l.find? p := by
  rw [List.find?_filter]
  congr 1
  funext a
  cases hp : p a with
  | true => simp [h a hp]
  | false => simp

theorem flatMap_filter {β : Type} {q : α → Bool} {g : α → List β} {l : List α}
    (h : ∀ a, q a = false → g a = []) : (l.filter q).flatMap g = l.flatMap g := by
  induction l with
  | nil => rfl
  | cons a l ih =>
    cases hq : q a with
    | true => simp [hq,ih]
    | false => simp [hq,ih,h a hq]

theorem update_const [DecidableEq κ] {key : α → κ} {l : List α} (hn : (l.map key).Nodup) {a : α}
    (ha : a ∈ l) (f : α → α) : update key (key a) f l = update key (key a) (fun _ => f a) l := by
  refine List.map_congr_left fun b hb => ?_
  by_cases hk : key b = key a
  · rw [eq_of_key hn hb ha hk]
  · simp only [hk,if_false]

theorem update_self [DecidableEq κ] {key : α → κ} {l : List α} (hn : (l.map key).Nodup) {a : α}
    (ha : a ∈ l) : update key (key a) (fun _ => a) l = l :=
  (update_const hn ha id).symm.trans (update_id _ _ _)

theorem countP_update [DecidableEq κ] {key : α → κ} {l : List α} (hn : (l.map key).Nodup) {a : α}
    (ha : a ∈ l) (f : α → α) (p : α → Bool) :
    (update key (key a) f l).countP p + (if p a then 1 else 0) =
      l.countP p + (if p (f a) then 1 else 0) := by
  induction l with
  | nil => cases ha
  | cons b l ih =>
    rw [List.map_cons,List.nodup_cons] at hn
    have hcons : update key (key a) f (b :: l) =
        (if key b = key a then f b else b) :: update key (key a) f l := rfl
    rw [hcons,List.countP_cons,List.countP_cons]
    rcases List.mem_cons.mp ha with rfl | ha
    · -- The keys behind it are others: nothing else is written.
      have hrest : update key (key a) f l = l := by
        refine (List.map_congr_left fun c hc => ?_).trans (List.map_id' l)
        have hne : key c ≠ key a := fun h => hn.1 (h ▸ List.mem_map_of_mem hc)
        simp only [hne,if_false]
      rw [hrest,if_pos rfl]
      omega
    · have hne : key b ≠ key a := fun h => hn.1 (h ▸ List.mem_map_of_mem ha)
      have hih := ih hn.2 ha
      rw [if_neg hne]
      omega

theorem filter_eq_find {key : α → κ} {k : κ} {p : α → Bool} {l : List α} (hn : (l.map key).Nodup)
    (hp : ∀ a, p a = true → key a = k) : l.filter p = (l.find? p).toList := by
  induction l with
  | nil => rfl
  | cons a l ih =>
    rw [List.map_cons,List.nodup_cons] at hn
    cases ha : p a with
    | false =>
      rw [List.filter_cons_of_neg (by simp [ha]),List.find?_cons_of_neg (by simp [ha])]
      exact ih hn.2
    | true =>
      have hrest : l.filter p = [] := by
        rw [List.filter_eq_nil_iff]
        intro b hb hpb
        exact hn.1 ((hp a ha).trans (hp b hpb).symm ▸ List.mem_map_of_mem hb)
      rw [List.filter_cons_of_pos ha,List.find?_cons_of_pos ha,hrest]
      rfl

theorem flatMap_sublist {f : α → List α} {l : List α} (h : ∀ a ∈ l, (f a).Sublist [a]) :
    (l.flatMap f).Sublist l := by
  induction l with
  | nil => exact .slnil
  | cons a l ih =>
    rw [List.flatMap_cons]
    exact (h a (by simp)).append (ih fun b hb => h b (by simp [hb]))

theorem find_key_eq_none [DecidableEq κ] {key : α → κ} {k : κ} {l : List α} :
    l.find? (fun a => key a = k) = none ↔ k ∉ l.map key := by
  simp

theorem find_key_mem [DecidableEq κ] {key : α → κ} {k : κ} {l : List α} {a : α}
    (h : l.find? (fun a => key a = k) = some a) : k ∈ l.map key := by
  have hk : key a = k := by simpa using List.find?_some h
  exact hk ▸ List.mem_map_of_mem (List.mem_of_find?_eq_some h)

theorem find_append_key [DecidableEq κ] {key : α → κ} {l : List α} {r : α}
    (h : key r ∉ l.map key) : (l ++ [r]).find? (fun a => key a = key r) = some r := by
  apply find_eq_some_of_unique (by simp) (by simp)
  intro b hb hk
  rcases List.mem_append.mp hb with hb | hb
  · have hk : key b = key r := by simpa using hk
    exact absurd (hk ▸ List.mem_map_of_mem hb) h
  · exact List.mem_singleton.mp hb

end Unique

section Joins
variable {α β γ : Type}

/-- A row comes out of a join as often as it has partners. -/
theorem count_join [DecidableEq α] {l : List α} (hn : l.Nodup) {a : α} (ha : a ∈ l)
    (partners : α → List β) :
    (l.flatMap fun b => (partners b).map fun _ => b).count a = (partners a).length := by
  induction l with
  | nil => cases ha
  | cons b l ih =>
    obtain ⟨hb,hn⟩ := List.nodup_cons.mp hn
    rw [List.flatMap_cons,List.count_append]
    rcases List.mem_cons.mp ha with rfl | ha
    · have hrest : a ∉ l.flatMap fun b => (partners b).map fun _ => b := by
        intro h
        obtain ⟨c,hc,hac⟩ := List.mem_flatMap.mp h
        obtain ⟨-,-,rfl⟩ := List.mem_map.mp hac
        exact hb hc
      rw [List.count_eq_zero_of_not_mem hrest]
      simp [List.map_const']
    · have hne : b ≠ a := fun h => hb (h ▸ ha)
      rw [ih hn ha]
      simp [List.map_const',List.count_replicate,hne]

theorem nodup_partners {links : List β} {ends : List γ} {p : β → γ → Bool}
    (hl : links.Nodup) (he : ends.Nodup)
    (hp : ∀ x ∈ links, ∀ y ∈ links, ∀ e, p x e = true → p y e = true → x = y) :
    (links.flatMap fun x => ends.filter (p x)).Nodup := by
  rw [List.nodup_flatMap]
  refine ⟨fun x _ => he.filter _,?_⟩
  refine List.Pairwise.imp_of_mem ?_ hl
  intro x y hx hy hne e hex hey
  exact hne (hp x hx y hy e (List.mem_filter.mp hex).2 (List.mem_filter.mp hey).2)

theorem length_eq_one_iff_of_nodup {l : List α} (hn : l.Nodup) {a : α} (ha : a ∈ l) :
    l.length = 1 ↔ ∀ b ∈ l, b = a := by
  constructor
  · intro h b hb
    obtain ⟨c,rfl⟩ := List.length_eq_one_iff.mp h
    exact (List.mem_singleton.mp hb).trans (List.mem_singleton.mp ha).symm
  · intro h
    cases l with
    | nil => cases ha
    | cons c l =>
      have hrest : l = [] := by
        rw [List.eq_nil_iff_forall_not_mem]
        intro b hb
        have hcb : c = b := (h c (by simp)).trans (h b (by simp [hb])).symm
        exact (List.nodup_cons.mp hn).1 (hcb ▸ hb)
      rw [hrest,List.length_singleton]

end Joins

end Transact
