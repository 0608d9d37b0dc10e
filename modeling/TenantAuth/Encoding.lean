import Mathlib.Data.List.Basic
set_option autoImplicit false

namespace Encoding

/-- `s.encode("utf-8")`. -/
def utf8 (s : String) : List UInt8 := s.toList.flatMap String.utf8EncodeChar

theorem utf8_injective : Function.Injective utf8 := by
  intro s t h
  have hbytes : s.toList.utf8Encode = t.toList.utf8Encode := congrArg List.toByteArray h
  rwa [String.utf8Encode_toList,String.utf8Encode_toList,String.toByteArray_inj] at hbytes

@[simp] theorem utf8_append (s t : String) : utf8 (s ++ t) = utf8 s ++ utf8 t := by
  simp [utf8]

theorem length_le_flatMap (cs : List Char) :
    cs.length ≤ (cs.flatMap String.utf8EncodeChar).length := by
  induction cs with
  | nil => exact Nat.le_refl 0
  | cons c cs ih =>
    have hc := c.utf8Size_pos
    simp only [List.length_cons,List.flatMap_cons,List.length_append,String.length_utf8EncodeChar]
    omega

theorem length_le_utf8 (s : String) : s.length ≤ (utf8 s).length := by
  rw [← String.length_toList]
  exact length_le_flatMap _

theorem eq_of_take {n : Nat} {s t : String} (hs : (utf8 s).length < n)
    (h : (utf8 t).take n = (utf8 s).take n) : t = s := by
  rw [List.take_of_length_le (Nat.le_of_lt hs)] at h
  have hlen : min n (utf8 t).length = (utf8 s).length := by
    rw [← List.length_take,h]
  have ht : (utf8 t).length ≤ n := by omega
  rw [List.take_of_length_le ht] at h
  exact utf8_injective h

theorem take_append {n : Nat} {s : String} (hs : n ≤ (utf8 s).length) (t : String) :
    (utf8 (s ++ t)).take n = (utf8 s).take n := by
  rw [utf8_append,List.take_append_of_le_length hs]

/-- There is always another string with the same first bytes: one character longer, or one shorter
where there is no room. -/
theorem exists_ne_take {n m : Nat} {s : String} (hn : n < m) (hs : n ≤ (utf8 s).length)
    (hm : s.length ≤ m) : ∃ t : String, t ≠ s ∧ (utf8 t).take n = (utf8 s).take n ∧
      t.length ≤ m ∧ min s.length (m-1) ≤ t.length := by
  rcases Nat.lt_or_eq_of_le hm with hlt | heq
  · have hlen : (s ++ "x").length = s.length + 1 := by
      rw [String.length_append]
      rfl
    refine ⟨s ++ "x",fun h => ?_,take_append hs _,by omega,by omega⟩
    rw [h] at hlen
    omega
  · have hne : s.toList ≠ [] := by
      intro h
      rw [← String.length_toList,h,List.length_nil] at heq
      omega
    let t := String.ofList s.toList.dropLast
    have hlen : t.length = s.length - 1 := by
      simp [t,← String.length_toList]
    have hsplit : s = t ++ String.ofList [s.toList.getLast hne] := by
      rw [← String.toList_inj]
      simp [t,List.dropLast_append_getLast hne]
    have hbytes := length_le_utf8 t
    refine ⟨t,fun h => ?_,?_,by omega,by omega⟩
    · rw [h] at hlen
      omega
    · rw [hsplit]
      exact (take_append (by omega) _).symm

end Encoding
