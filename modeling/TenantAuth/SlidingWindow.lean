import TenantAuth.RateLimit
set_option autoImplicit false

namespace TenantAuth
open TokenBucket

/-- A call of `_allow` with its answer. -/
structure Answered where
  ip : String
  time : ℚ
  allowed : Bool
  deriving DecidableEq, Repr

/-- The answers to a sequence of calls. -/
def RateLimitMiddleware.answers (m : RateLimitMiddleware) : Buckets → List Caller → List Answered
  | _, [] => []
  | buckets, c :: cs =>
    ⟨c.ip,c.now,(m.allow buckets c.ip c.created c.now).1⟩ ::
      m.answers (m.allow buckets c.ip c.created c.now).2 cs

/-- Calls as a clock that never goes back times them. -/
structure InOrder (cs : List Caller) : Prop where
  sorted : cs.Pairwise fun a b => a.now ≤ b.now
  created : ∀ c ∈ cs, c.created ≤ c.now

def history (ip : String) (l : List Answered) : List (ℚ × Bool) :=
  (l.filter (·.ip = ip)).map fun a => (a.time,a.allowed)

def passedFrom (l : List Answered) (ip : String) (j i : Nat) : Nat :=
  ((l.take i).drop j).countP fun a => a.ip = ip ∧ a.allowed

def passedDuring (l : List Answered) (ip : String) (s e : ℚ) : Nat :=
  l.countP fun a => a.ip = ip ∧ a.allowed ∧ s ≤ a.time ∧ a.time ≤ e

theorem passedFrom_self (l : List Answered) (ip : String) (i : Nat) : passedFrom l ip i i = 0 := by
  simp [passedFrom]

section Histories
variable {ip : String} {l : List Answered}

theorem history_append (l l' : List Answered) :
    history ip (l ++ l') = history ip l ++ history ip l' := by
  simp [history]

theorem history_cons_same {a : Answered} (h : a.ip = ip) :
    history ip (a :: l) = (a.time,a.allowed) :: history ip l := by
  simp [history,h]

theorem history_single (t : ℚ) (ok : Bool) : history ip [⟨ip,t,ok⟩] = [(t,ok)] := by
  simp [history]

theorem history_cons_other {a : Answered} (h : a.ip ≠ ip) :
    history ip (a :: l) = history ip l := by
  simp [history,h]

theorem history_split {a b : List (ℚ × Bool)} {e : ℚ × Bool} :
    history ip l = a ++ e :: b ↔ ∃ l₁ x l₂, l = l₁ ++ x :: l₂ ∧ x.ip = ip ∧
      history ip l₁ = a ∧ (x.time,x.allowed) = e ∧ history ip l₂ = b := by
  constructor
  · intro h
    induction l generalizing a with
    | nil => simp [history] at h
    | cons y l ih =>
      by_cases hy : y.ip = ip
      · rw [history_cons_same hy] at h
        cases a with
        | nil =>
          obtain ⟨he,hb⟩ := List.cons.inj h
          exact ⟨[],y,l,rfl,hy,rfl,he,hb⟩
        | cons z a =>
          obtain ⟨hz,ha⟩ := List.cons.inj h
          obtain ⟨l₁,x,l₂,rfl,hx,h₁,he,h₂⟩ := ih ha
          exact ⟨y :: l₁,x,l₂,rfl,hx,by rw [history_cons_same hy,hz,h₁],he,h₂⟩
      · rw [history_cons_other hy] at h
        obtain ⟨l₁,x,l₂,rfl,hx,h₁,he,h₂⟩ := ih h
        exact ⟨y :: l₁,x,l₂,rfl,hx,by rw [history_cons_other hy,h₁],he,h₂⟩
  · rintro ⟨l₁,x,l₂,rfl,hx,rfl,rfl,rfl⟩
    rw [history_append,history_cons_same hx]

theorem passed_history : passed (history ip l) = l.countP fun a => a.ip = ip ∧ a.allowed := by
  simp only [passed,history,List.countP_map,List.countP_filter]
  refine List.countP_congr fun a _ => ?_
  simp [and_comm]

theorem passedBetween_history {s e : ℚ} :
    passedBetween (history ip l) s e = passedDuring l ip s e := by
  simp only [passedBetween,passedDuring,history,List.countP_map,List.countP_filter]
  refine List.countP_congr fun a _ => ?_
  simp only [Function.comp,Bool.and_eq_true,decide_eq_true_eq]
  tauto

theorem room_history {m : RateLimitMiddleware} {i : Nat} {t : ℚ} (hi : i ≤ l.length) :
    Room m.burst m.rate (history ip (l.take i)) t 1 ↔ 1 ≤ m.burst ∧
      ∀ j < i, ∀ b, l[j]? = some b → b.ip = ip →
        (passedFrom l ip j i : ℚ) + 1 ≤ m.burst + m.rate*(t - b.time) := by
  unfold Room
  refine and_congr_right fun _ => ⟨fun hr j hj b hb hip => ?_,fun hr a e b hs => ?_⟩
  · have hget : (l.take i)[j]? = some b := by rw [List.getElem?_take_of_lt hj,hb]
    obtain ⟨hlt,hbj⟩ := List.getElem?_eq_some_iff.mp hget
    have hdrop : (l.take i).drop j = b :: (l.take i).drop (j+1) := by
      rw [List.drop_eq_getElem_cons hlt,hbj]
    have hsplit := (List.take_append_drop j (l.take i)).symm
    rw [hdrop] at hsplit
    have hwindow := hr _ _ _ (history_split.mpr ⟨_,b,_,hsplit,hip,rfl,rfl,rfl⟩)
    rwa [← history_cons_same hip,passed_history,← hdrop] at hwindow
  · obtain ⟨l₁,x,l₂,hl,hx,-,rfl,rfl⟩ := history_split.mp hs
    have hlen := congrArg List.length hl
    simp only [List.length_take,List.length_append,List.length_cons] at hlen
    have hj : l₁.length < i := by omega
    have hxj : l[l₁.length]? = some x := by
      rw [← List.getElem?_take_of_lt hj,hl]
      simp
    have hwindow := hr _ hj x hxj hx
    rw [passedFrom,hl,List.drop_left] at hwindow
    rwa [← history_cons_same hx,passed_history]

end Histories

section Runs
variable {m : RateLimitMiddleware} {buckets : Buckets} {l : List Answered}

/-- Each ip's bucket tracks its calls; an ip without one has not called. -/
def Tracked (m : RateLimitMiddleware) (buckets : Buckets) (l : List Answered) : Prop :=
  ∀ ip, (buckets ip = none ∧ history ip l = []) ∨
    ∃ b, buckets ip = some b ∧ b.Tracks m.burst m.rate (history ip l)

theorem tracked_nil : Tracked m noBuckets [] := fun _ => .inl ⟨rfl,rfl⟩

/-- No bucket was refilled after the calls still to come. -/
def Before (buckets : Buckets) (cs : List Caller) : Prop :=
  ∀ ip b, buckets ip = some b → ∀ c ∈ cs, b.lastRefill ≤ c.now

theorem Tracked.allow (h : Tracked m buckets l) (hr : 0 ≤ m.rate) {c : Caller}
    (hc : c.created ≤ c.now) (hb : ∀ b, buckets c.ip = some b → b.lastRefill ≤ c.now) :
    ((m.allow buckets c.ip c.created c.now).1 = true ↔
      Room m.burst m.rate (history c.ip l) c.now 1) ∧
    Tracked m (m.allow buckets c.ip c.created c.now).2
      (l ++ [⟨c.ip,c.now,(m.allow buckets c.ip c.created c.now).1⟩]) := by
  obtain ⟨htracks,hle⟩ : ((buckets c.ip).getD ⟨m.burst,c.created⟩).Tracks m.burst m.rate
      (history c.ip l) ∧ ((buckets c.ip).getD ⟨m.burst,c.created⟩).lastRefill ≤ c.now := by
    rcases h c.ip with ⟨hn,he⟩ | ⟨b,hs,ht⟩
    · rw [hn,he]
      exact ⟨tracks_fresh hr,hc⟩
    · rw [hs]
      exact ⟨ht,hb b hs⟩
  rw [m.allow_fst,m.allow_snd]
  refine ⟨htracks.passes hle,fun ip => ?_⟩
  by_cases hip : ip = c.ip
  · subst hip
    right
    refine ⟨_,Function.update_self _ _ _,?_⟩
    rw [history_append,history_single]
    exact htracks.take hle
  · rw [Function.update_of_ne hip,history_append,history_cons_other (Ne.symm hip)]
    simpa [history] using h ip

theorem Before.allow {c : Caller} {cs : List Caller} (hb : Before buckets (c :: cs))
    (hs : ∀ c' ∈ cs, c.now ≤ c'.now) :
    Before (m.allow buckets c.ip c.created c.now).2 cs := by
  intro ip b h c' hc'
  rw [m.allow_snd] at h
  by_cases hip : ip = c.ip
  · subst hip
    rw [Function.update_self] at h
    obtain rfl := Option.some.inj h
    rw [Bucket.take_lastRefill]
    exact hs c' hc'
  · rw [Function.update_of_ne hip] at h
    exact hb ip b h c' (List.mem_cons_of_mem _ hc')

/-- A run: every call is answered by the windows of what came before it. -/
theorem answers_room {cs : List Caller} (h : Tracked m buckets l) (hr : 0 ≤ m.rate)
    (ho : InOrder cs) (hb : Before buckets cs) {pre post : List Answered} {a : Answered}
    (hs : m.answers buckets cs = pre ++ a :: post) :
    a.allowed = true ↔ Room m.burst m.rate (history a.ip (l ++ pre)) a.time 1 := by
  induction cs generalizing buckets l pre with
  | nil => simp [RateLimitMiddleware.answers] at hs
  | cons c cs ih =>
    obtain ⟨hnow,hsorted⟩ := List.pairwise_cons.mp ho.sorted
    obtain ⟨hroom,htracked⟩ := h.allow hr (ho.created c (by simp))
      fun b hbc => hb _ b hbc c (by simp)
    rw [RateLimitMiddleware.answers] at hs
    cases pre with
    | nil =>
      obtain ⟨rfl,-⟩ := List.cons.inj hs
      rw [List.append_nil]
      exact hroom
    | cons p pre =>
      obtain ⟨hp,htail⟩ := List.cons.inj hs
      subst hp
      have hrest := ih htracked ⟨hsorted,fun c' hc' => ho.created c' (by simp [hc'])⟩
        (hb.allow hnow) htail
      rwa [List.append_assoc,List.singleton_append] at hrest

theorem answers_fitting {cs : List Caller} (hr : 0 ≤ m.rate) (ho : InOrder cs) (ip : String) :
    Fitting m.burst m.rate (history ip (m.answers noBuckets cs)) := by
  intro a t b hs
  obtain ⟨l₁,x,l₂,hl,rfl,rfl,hx,-⟩ := history_split.mp hs
  obtain ⟨rfl,hok⟩ := Prod.mk.inj hx
  exact (answers_room (l := []) tracked_nil hr ho (fun _ _ h => nomatch h) hl).mp hok

theorem answers_filter {cs : List Caller} {ip : String} {buckets' : Buckets}
    (h : buckets ip = buckets' ip) :
    (m.answers buckets cs).filter (·.ip = ip) = m.answers buckets' (cs.filter (·.ip = ip)) := by
  induction cs generalizing buckets buckets' with
  | nil => rfl
  | cons c cs ih =>
    rw [RateLimitMiddleware.answers,m.allow_fst,m.allow_snd]
    by_cases hc : c.ip = ip
    · subst hc
      simp only [List.filter_cons,decide_true,if_true,RateLimitMiddleware.answers,m.allow_fst,
        m.allow_snd,h]
      exact congrArg _ (ih (by rw [Function.update_self,Function.update_self]))
    · simp only [List.filter_cons,hc,decide_false,Bool.false_eq_true,if_false]
      exact ih (by rw [Function.update_of_ne (Ne.symm hc),h])

/-- The rate limiter is the most generous one that keeps to `burst + rate*w` in every window
of length `w`: a call passes just when no window from an earlier call of its ip is full. -/
theorem sliding_window (hr : 0 ≤ m.rate) {cs : List Caller} (ho : InOrder cs) :
    let l := m.answers noBuckets cs
    l.map (fun a => (a.ip,a.time)) = cs.map (fun c => (c.ip,c.now)) ∧
    (∀ i a, l[i]? = some a → (a.allowed = true ↔ ∀ j ≤ i, ∀ b, l[j]? = some b → b.ip = a.ip →
      (passedFrom l a.ip j i : ℚ) + 1 ≤ m.burst + m.rate*(a.time - b.time))) ∧
    (0 ≤ m.burst → ∀ ip s w, 0 ≤ w → (passedDuring l ip s (s+w) : ℚ) ≤ m.burst + m.rate*w) ∧
    ∀ ip, l.filter (·.ip = ip) = m.answers noBuckets (cs.filter (·.ip = ip)) := by
  refine ⟨?_,fun i a ha => ?_,fun hb ip s w hw => ?_,fun ip => answers_filter rfl⟩
  · generalize noBuckets = buckets
    induction cs generalizing buckets with
    | nil => rfl
    | cons c cs ih =>
      rw [RateLimitMiddleware.answers,List.map_cons,List.map_cons]
      exact congrArg _ (ih ⟨ho.sorted.of_cons,fun c' hc' => ho.created c' (by simp [hc'])⟩ _)
  · obtain ⟨hi,hai⟩ := List.getElem?_eq_some_iff.mp ha
    have hsplit := (List.take_append_drop i (m.answers noBuckets cs)).symm
    rw [List.drop_eq_getElem_cons hi,hai] at hsplit
    rw [answers_room (l := []) tracked_nil hr ho (fun _ _ h => nomatch h) hsplit,List.nil_append,
      room_history hi.le]
    constructor
    · rintro ⟨hone,hwindows⟩ j hj b hb hip
      rcases Nat.lt_or_eq_of_le hj with hlt | rfl
      · exact hwindows j hlt b hb hip
      · obtain rfl : a = b := Option.some.inj (ha.symm.trans hb)
        rw [passedFrom_self,Nat.cast_zero,sub_self]
        linarith
    · intro hall
      have hself := hall i le_rfl a ha rfl
      rw [passedFrom_self,Nat.cast_zero,sub_self] at hself
      exact ⟨by linarith,fun j hj b hb hip => hall j hj.le b hb hip⟩
  · have hwindow := (answers_fitting hr ho ip).window (s := s) hb hr (le_add_of_nonneg_right hw)
    rw [passedBetween_history,add_sub_cancel_left] at hwindow
    exact hwindow

end Runs

def twoIps : List Caller :=
  [⟨"10.0.0.1",0,0⟩,⟨"10.0.0.2",0,0⟩,⟨"10.0.0.1",0,1⟩,⟨"10.0.0.2",0,1⟩]

theorem sliding_window_twoIps :
    (passedDuring (({ rate := 0, burst := 1 } : RateLimitMiddleware).answers noBuckets twoIps)
      "10.0.0.1" 0 (0+1) : ℚ) ≤ 1 + 0*1 :=
  (sliding_window (m := { rate := 0, burst := 1 }) le_rfl
    ⟨by simp [twoIps],by simp [twoIps]⟩).2.2.1 zero_le_one "10.0.0.1" 0 1 zero_le_one

/-- With a negative cap even no request at all is more than the bound. -/
theorem sliding_window_negative :
    ¬ ∀ (m : RateLimitMiddleware) (cs : List Caller) (ip : String) (s w : ℚ), 0 ≤ m.rate →
      InOrder cs → 0 ≤ w →
      (passedDuring (m.answers noBuckets cs) ip s (s+w) : ℚ) ≤ m.burst + m.rate*w := by
  intro h
  have hnone := h { rate := 0, burst := -1 } [] "10.0.0.1" 0 0 le_rfl ⟨.nil,nofun⟩ le_rfl
  have hzero : passedDuring (({ rate := 0, burst := -1 } : RateLimitMiddleware).answers
      noBuckets []) "10.0.0.1" 0 (0+0) = 0 := rfl
  rw [hzero] at hnone
  norm_num at hnone

example : (({ rate := 0, burst := 1 } : RateLimitMiddleware).answers noBuckets twoIps).map
    Answered.allowed = [true,true,false,false] := by decide +kernel

end TenantAuth
