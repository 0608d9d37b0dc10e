import Mathlib.Algebra.Order.Field.Basic
import Mathlib.Data.List.Induction
import Mathlib.Tactic.Linarith
set_option autoImplicit false

/-! A token bucket and the windows of its history. What a bucket with a cap lets through is
decided by all windows that end now: the level is the smallest of their rests. -/

namespace TokenBucket

/-- `tokens` were left after the request at `lastRefill`. -/
structure Bucket (K : Type) where
  tokens : K
  lastRefill : K
  deriving DecidableEq, Repr

section Histories
variable {K : Type}

def passed (h : List (K × Bool)) : Nat := h.countP Prod.snd

theorem passed_append (h h' : List (K × Bool)) : passed (h ++ h') = passed h + passed h' :=
  List.countP_append

theorem passed_single (t : K) (ok : Bool) : passed [(t,ok)] = if ok then 1 else 0 := by
  cases ok <;> rfl

end Histories

section Levels
variable {K : Type} [Field K] [LinearOrder K] (burst rate : K)

/-- The tokens at `now`, refilled up to the cap. -/
def Bucket.level (b : Bucket K) (now : K) : K :=
  min burst (b.tokens + (now - b.lastRefill)*rate)

/-- One request: the answer, and the bucket it leaves. A refusal refills as well. -/
def Bucket.take (b : Bucket K) (now : K) : Bool × Bucket K :=
  if b.level burst rate now < 1 then (false,⟨b.level burst rate now,now⟩)
  else (true,⟨b.level burst rate now - 1,now⟩)

/-- At `now` there is room for `x` more after the history `h`: under the cap, and in every
window that starts at an earlier request. -/
def Room (h : List (K × Bool)) (now x : K) : Prop :=
  x ≤ burst ∧ ∀ a e b, h = a ++ e :: b → passed (e :: b) + x ≤ burst + rate*(now - e.1)

/-- The bucket knows of its history exactly how much room it leaves. -/
def Bucket.Tracks (b : Bucket K) (h : List (K × Bool)) : Prop :=
  ∀ now, b.lastRefill ≤ now → ∀ x, x ≤ b.level burst rate now ↔ Room burst rate h now x

/-- Whatever passed had room. -/
def Fitting (h : List (K × Bool)) : Prop :=
  ∀ a t b, h = a ++ (t,true) :: b → Room burst rate a t 1

variable {burst rate}

@[simp] theorem Bucket.take_lastRefill (b : Bucket K) (now : K) :
    (b.take burst rate now).2.lastRefill = now := by
  unfold Bucket.take
  split <;> rfl

theorem Bucket.take_fst {b : Bucket K} {now : K} :
    (b.take burst rate now).1 = true ↔ 1 ≤ b.level burst rate now := by
  unfold Bucket.take
  by_cases h : b.level burst rate now < 1
  · simp [h]
  · simp [h,not_lt.mp h]

theorem Bucket.take_tokens (b : Bucket K) (now : K) :
    (b.take burst rate now).2.tokens =
      b.level burst rate now - passed [(now,(b.take burst rate now).1)] := by
  unfold Bucket.take
  by_cases h : b.level burst rate now < 1
  · simp [h,passed_single]
  · simp [h,passed_single]

theorem Bucket.Tracks.passes {b : Bucket K} {h : List (K × Bool)} {now : K}
    (ht : b.Tracks burst rate h) (hnow : b.lastRefill ≤ now) :
    (b.take burst rate now).1 = true ↔ Room burst rate h now 1 :=
  Bucket.take_fst.trans (ht now hnow 1)

theorem Fitting.initial {h h' : List (K × Bool)} (hf : Fitting burst rate (h ++ h')) :
    Fitting burst rate h :=
  fun a t b hs => hf a t (b ++ h') (by simp [hs])

end Levels

section Windows
variable {K : Type} [Field K] [LinearOrder K] [IsStrictOrderedRing K] {burst rate : K}
  {h : List (K × Bool)}

theorem room_snoc {t now x : K} {ok : Bool} :
    Room burst rate (h ++ [(t,ok)]) now x ↔
      x ≤ burst ∧ Room burst rate h t (passed [(t,ok)] + x - (now - t)*rate) := by
  unfold Room
  refine and_congr_right fun hx => ⟨fun hr => ⟨?_,fun a e b hs => ?_⟩,fun ⟨hc,hr⟩ a e b hs => ?_⟩
  · have hlast := hr h (t,ok) [] rfl
    simp only at hlast
    linarith
  · have hwindow := hr a e (b ++ [(t,ok)]) (by simp [hs])
    rw [← List.cons_append,passed_append,Nat.cast_add] at hwindow
    linarith
  · rcases List.eq_nil_or_concat b with rfl | ⟨b',l,rfl⟩
    · obtain ⟨-,he⟩ := List.append_inj' hs rfl
      obtain rfl : (t,ok) = e := by simpa using he
      simp only
      linarith
    · have hs' : h ++ [(t,ok)] = (a ++ e :: b') ++ [l] := by simpa using hs
      obtain ⟨hh,hl⟩ := List.append_inj' hs' rfl
      obtain rfl : (t,ok) = l := by simpa using hl
      have hwindow := hr a e b' hh
      rw [List.concat_eq_append,← List.cons_append,passed_append,Nat.cast_add]
      linarith

/-- A bucket made full at any time up to now tracks the empty history. -/
theorem tracks_fresh {created : K} (hr : 0 ≤ rate) :
    (⟨burst,created⟩ : Bucket K).Tracks burst rate [] := by
  intro now hnow x
  have hgain : 0 ≤ (now - created)*rate := mul_nonneg (sub_nonneg.mpr hnow) hr
  simp only [Bucket.level,Room,le_min_iff]
  constructor
  · rintro ⟨hx,-⟩
    exact ⟨hx,by simp⟩
  · rintro ⟨hx,-⟩
    exact ⟨hx,by linarith⟩

/-- Step: the answered request joins the history. -/
theorem Bucket.Tracks.take {b : Bucket K} {now : K} (ht : b.Tracks burst rate h)
    (hnow : b.lastRefill ≤ now) :
    (b.take burst rate now).2.Tracks burst rate (h ++ [(now,(b.take burst rate now).1)]) := by
  intro later _ x
  rw [room_snoc,← ht now hnow,Bucket.level,le_min_iff,Bucket.take_lastRefill,Bucket.take_tokens]
  refine and_congr_right fun _ => ⟨fun hx => ?_,fun hx => ?_⟩
  · linarith
  · linarith

def passedBetween (h : List (K × Bool)) (s e : K) : Nat :=
  h.countP fun x => x.2 ∧ s ≤ x.1 ∧ x.1 ≤ e

theorem Fitting.window {s e : K} (hf : Fitting burst rate h) (hb : 0 ≤ burst) (hr : 0 ≤ rate)
    (hse : s ≤ e) : (passedBetween h s e : K) ≤ burst + rate*(e - s) := by
  have hspan : ∀ {x y : K}, y - x ≤ e - s → rate*(y - x) ≤ rate*(e - s) :=
    fun hle => mul_le_mul_of_nonneg_left hle hr
  have hzero : (0 : K) ≤ rate*(e - s) := mul_nonneg hr (sub_nonneg.mpr hse)
  induction h using List.reverseRecOn with
  | nil =>
    simp only [passedBetween,List.countP_nil,Nat.cast_zero]
    linarith
  | append_singleton h l ih =>
    have hrest := ih hf.initial
    have hsnoc : passedBetween (h ++ [l]) s e = passedBetween h s e + passedBetween [l] s e :=
      List.countP_append
    by_cases hl : l.2 ∧ s ≤ l.1 ∧ l.1 ≤ e
    · -- The last request passed in it: count from the first one that did.
      obtain ⟨t,ok⟩ := l
      obtain ⟨rfl,hst,hte⟩ := hl
      obtain ⟨hone,hroom⟩ := hf h t [] rfl
      have hlast : passedBetween [(t,true)] s e = 1 := by simp [passedBetween,hst,hte]
      rw [hsnoc,hlast,Nat.cast_add,Nat.cast_one]
      cases hfind : h.find? fun x => x.2 ∧ s ≤ x.1 ∧ x.1 ≤ e with
      | none =>
        have hnone : passedBetween h s e = 0 :=
          List.countP_eq_zero.mpr (List.find?_eq_none.mp hfind)
        rw [hnone,Nat.cast_zero]
        linarith
      | some x =>
        obtain ⟨hx,a,b,hs,ha⟩ := List.find?_eq_some_iff_append.mp hfind
        have hbefore : passedBetween a s e = 0 :=
          List.countP_eq_zero.mpr fun y hy hp => by
            have hno := ha y hy
            rw [hp] at hno
            cases hno
        have hsplit : passedBetween h s e = passedBetween a s e + passedBetween (x :: b) s e := by
          rw [hs]
          exact List.countP_append
        have hle : passedBetween (x :: b) s e ≤ passed (x :: b) :=
          List.countP_mono_left fun y _ hy => by simp at hy; exact hy.1
        have hcount : (passedBetween h s e : K) ≤ passed (x :: b) := by
          rw [hsplit,hbefore,Nat.zero_add]
          exact Nat.cast_le.mpr hle
        simp only [decide_eq_true_eq] at hx
        have hwindow := hroom a x b hs
        have hshort := hspan (x := x.1) (y := t) (by linarith)
        linarith
    · have hlast : passedBetween [l] s e = 0 :=
        List.countP_eq_zero.mpr fun y hy => by simpa [List.mem_singleton.mp hy] using hl
      rw [hsnoc,hlast,Nat.add_zero]
      exact hrest

end Windows

end TokenBucket
