import Mathlib.Data.Nat.Find
import Wpa.Decision.Monotone

/-! # The closed loop

With the queue's metrics fixed, feed each decision back as the next tick's current count.
One tick moves the count towards a target fixed by backlog, velocity floor and bounds,
and never past it, as long as the disruption budget is non-negative; so the run is
monotone and settles. `getMaxDisruptableWorkers` truncates a large percentage to `int32`,
which can make the budget negative, and then the run turns back. Where a run rests, the
count is a bound, the velocity floor, within the 10% stability band of what the backlog
needs, or above what the queue needs with a budget that allows no scale down.
-/

namespace Wpa

/-- The counts of the closed loop: tick `n + 1` decides with the count of tick `n` as
`currentWorkers` and the idle count `idle n`. -/
def closedLoop (queueName : String) (q : Int32) (m s : Float64) (t mn mx : Int32)
    (md : Option String) (idle : ℕ → Int32) (c₀ : Int32) : ℕ → Except Abort Int32
  | 0 => .ok c₀
  | n + 1 => (closedLoop queueName q m s t mn mx md idle c₀ n).bind fun c =>
      GetDesiredWorkers queueName q m s t c (idle n) mn mx md

section Sequences

/-- A non-increasing sequence of naturals is eventually constant. -/
theorem exists_eq_of_antitone {g : ℕ → ℕ} (hg : Antitone g) : ∃ N, ∀ n ≥ N, g n = g N := by
  classical
  have hex : ∃ v n, g n = v := ⟨g 0, 0, rfl⟩
  obtain ⟨N, hN⟩ := Nat.find_spec hex
  exact ⟨N, fun n hn => le_antisymm (hg hn) (hN ▸ Nat.find_min' hex ⟨n, rfl⟩)⟩

/-- A sequence whose every step stays between its current value and a fixed target is
monotone and eventually constant. -/
theorem monotone_settles_of_between {f : ℕ → ℤ} {T : ℤ}
    (h : ∀ n, min (f n) T ≤ f (n + 1) ∧ f (n + 1) ≤ max (f n) T) :
    (Monotone f ∨ Antitone f) ∧ ∃ N, ∀ n ≥ N, f n = f N := by
  rcases le_total (f 0) T with h₀ | h₀
  · have hle : ∀ n, f n ≤ T := fun n => by
      induction n with
      | zero => exact h₀
      | succ n ih => have := h n; omega
    have hmono : Monotone f := monotone_nat_of_le_succ fun n => by
      have := h n; have := hle n; omega
    obtain ⟨N, hN⟩ := exists_eq_of_antitone (g := fun n => (T - f n).toNat)
      fun a b hab => by dsimp only; have := hmono hab; have := hle a; have := hle b; omega
    exact ⟨.inl hmono, N, fun n hn => by have := hN n hn; have := hle n; have := hle N; omega⟩
  · have hge : ∀ n, T ≤ f n := fun n => by
      induction n with
      | zero => exact h₀
      | succ n ih => have := h n; omega
    have hanti : Antitone f := antitone_nat_of_succ_le fun n => by
      have := h n; have := hge n; omega
    obtain ⟨N, hN⟩ := exists_eq_of_antitone (g := fun n => (f n - T).toNat)
      fun a b hab => by dsimp only; have := hanti hab; have := hge a; have := hge b; omega
    exact ⟨.inr hanti, N, fun n hn => by have := hN n hn; have := hge n; have := hge N; omega⟩

end Sequences

variable {queueName : String} {q t c i mn mx mD : Int32} {m s : Float64}
  {md : Option String}

/-- One tick with a non-negative budget lands between the current count and the target
`max mn (min mx ⌈q / t⌉)`. -/
theorem desiredWorkersOf_between (hc : 0 ≤ c.val) (hmD : 0 ≤ mD.val) (hmn : 0 ≤ mn.val)
    (hq : 0 ≤ q.val) (ht : 0 < t.val) (h : mn.val < mx.val) :
    min c.val (max mn.val (min mx.val (ceilQuotient q t).val)) ≤
        (desiredWorkersOf q m s t c i mn mx mD).val ∧
      (desiredWorkersOf q m s t c i mn mx mD).val ≤
        max c.val (max mn.val (min mx.val (ceilQuotient q t).val)) := by
  obtain ⟨hD, hD₀, hDq⟩ := ceilQuotient_val hq ht
  rw [← hD] at hD₀ hDq
  rcases desiredWorkersOf_cases q m s t c i mn mx mD with ⟨d, hd, he⟩ | ⟨-, hq₀, -, -, he⟩
  · rw [he, val_convert h, Int32.val_sub_of_nonneg hc hmD]
    rcases hd with rfl | rfl | ⟨rfl, hq₀⟩
    · rw [Int32.val_sub_of_nonneg hc hD₀]; split_ifs <;> omega
    · rw [Int32.val_sub_of_nonneg hc hc]; split_ifs <;> omega
    · rw [Int32.val_sub_of_nonneg hc hmn]; split_ifs <;> omega
  · rw [he, val_convert h, Int32.val_sub_of_nonneg hc hc, Int32.val_sub_of_nonneg hc (by simp)]
    simp only [Int32.val_zero]; split_ifs <;> omega

/-- Where the closed loop heads: `maxWorkers` when the velocity floor reaches it, and
otherwise what the backlog needs, clamped between the floor and `maxWorkers`. -/
def loopTarget (q : Int32) (m s : Float64) (t mn mx : Int32) : ℤ :=
  if mx.val ≤ (getMinWorkers m mn s).val then mx.val
  else max (getMinWorkers m mn s).val (min mx.val (ceilQuotient q t).val)

section Loop

variable (hq : 0 ≤ q.val) (ht : 0 < t.val) (hmn : 0 ≤ mn.val)
  (hmd : ∀ c : Int32, 0 ≤ c.val → ∃ v, getMaxDisruptableWorkers md c = .ok v ∧ 0 ≤ v.val)
include hq ht hmn hmd

/-- One tick from a non-negative count, or from any count once the floor reaches
`maxWorkers`, decides and lands between the count and the target. -/
theorem GetDesiredWorkers_toward_target (queueName : String) (i : Int32)
    (hc : 0 ≤ c.val ∨ mx.val ≤ (getMinWorkers m mn s).val) :
    ∃ r, GetDesiredWorkers queueName q m s t c i mn mx md = .ok r ∧
      min c.val (loopTarget q m s t mn mx) ≤ r.val ∧ r.val ≤ max c.val (loopTarget q m s t mn mx) ∧
      (0 ≤ r.val ∨ mx.val ≤ (getMinWorkers m mn s).val) := by
  obtain ⟨v₀, hv₀, -⟩ := hmd 0 le_rfl
  obtain ⟨mD, hmD⟩ := getMaxDisruptableWorkers_ok_of_ok hv₀ c
  refine ⟨_, GetDesiredWorkers_of_ok hmD, ?_⟩
  by_cases hl : mx.val ≤ (getMinWorkers m mn s).val
  · rw [(desiredWorkersOf_mem q m s t c i _ mx mD).1 hl, loopTarget, if_pos hl]
    exact ⟨min_le_right _ _, le_max_right _ _, .inr hl⟩
  · obtain ⟨v, hv, hv₀⟩ := hmd c (hc.resolve_right hl)
    rw [hmD] at hv; cases hv
    have hcm : 0 ≤ (getMinWorkers m mn s).val := hmn.trans le_getMinWorkers
    have := desiredWorkersOf_between (m := m) (s := s) (i := i) (hc.resolve_right hl) hv₀ hcm
      hq ht (not_le.mp hl)
    rw [loopTarget, if_neg hl]; omega

/-- One tick of the loop from a count that keeps the invariant. -/
theorem closedLoop_succ (idle : ℕ → Int32) {c₀ v : Int32} {n : ℕ}
    (hv : closedLoop queueName q m s t mn mx md idle c₀ n = .ok v)
    (hinv : 0 ≤ v.val ∨ mx.val ≤ (getMinWorkers m mn s).val) :
    ∃ r, closedLoop queueName q m s t mn mx md idle c₀ (n + 1) = .ok r ∧
      min v.val (loopTarget q m s t mn mx) ≤ r.val ∧ r.val ≤ max v.val (loopTarget q m s t mn mx) ∧
      (0 ≤ r.val ∨ mx.val ≤ (getMinWorkers m mn s).val) := by
  obtain ⟨r, hr, hb⟩ := GetDesiredWorkers_toward_target hq ht hmn hmd queueName (idle n) hinv
  exact ⟨r, by rw [closedLoop, hv]; exact hr, hb⟩

/-- From a non-negative count the loop decides at every tick. -/
theorem closedLoop_ok (queueName : String) (idle : ℕ → Int32) {c₀ : Int32} (hc₀ : 0 ≤ c₀.val)
    (n : ℕ) :
    ∃ v, closedLoop queueName q m s t mn mx md idle c₀ n = .ok v ∧
      (0 ≤ v.val ∨ mx.val ≤ (getMinWorkers m mn s).val) := by
  induction n with
  | zero => exact ⟨c₀, rfl, .inl hc₀⟩
  | succ n ih =>
    obtain ⟨v, hv, hinv⟩ := ih
    obtain ⟨r, hr, -, -, hr'⟩ := closedLoop_succ hq ht hmn hmd idle hv hinv
    exact ⟨r, hr, hr'⟩

end Loop

/-- With a budget that is non-negative at every non-negative count, the closed loop
decides at every tick, is monotone, and settles. -/
theorem closedLoop_settles (hq : 0 ≤ q.val) (ht : 0 < t.val) (hmn : 0 ≤ mn.val)
    (hmd : ∀ c : Int32, 0 ≤ c.val → ∃ v, getMaxDisruptableWorkers md c = .ok v ∧ 0 ≤ v.val)
    (idle : ℕ → Int32) {c₀ : Int32} (hc₀ : 0 ≤ c₀.val) :
    ∃ f : ℕ → Int32, (∀ n, closedLoop queueName q m s t mn mx md idle c₀ n = .ok (f n)) ∧
      (Monotone (fun n => (f n).val) ∨ Antitone (fun n => (f n).val)) ∧
      ∃ N, ∀ n ≥ N, f n = f N := by
  choose f hf hinv using closedLoop_ok (m := m) (s := s) hq ht hmn hmd queueName idle hc₀
  refine ⟨f, hf, ?_⟩
  have hbetween : ∀ n, min (f n).val (loopTarget q m s t mn mx) ≤ (f (n + 1)).val ∧
      (f (n + 1)).val ≤ max (f n).val (loopTarget q m s t mn mx) := fun n => by
    obtain ⟨r, hr, h₁, h₂, -⟩ := closedLoop_succ hq ht hmn hmd idle (hf n) (hinv n)
    rw [hf (n + 1)] at hr; cases hr
    exact ⟨h₁, h₂⟩
  obtain ⟨hmono, N, hN⟩ := monotone_settles_of_between hbetween
  exact ⟨hmono, N, fun n hn => Int32.ext (hN n hn)⟩

theorem closedLoop_settles_tenPercent :
    (0 ≤ (0 : Int32).val ∧ 0 < (1 : Int32).val ∧ 0 ≤ (1 : Int32).val ∧
      (∀ c : Int32, 0 ≤ c.val →
        ∃ v, getMaxDisruptableWorkers (some "10%") c = .ok v ∧ 0 ≤ v.val) ∧
      0 ≤ (2 : Int32).val) ∧
    ∃ f : ℕ → Int32, (∀ n, closedLoop "q" 0 0 0 1 1 10 (some "10%")
        (fun n => if n = 0 then 2 else 0) 2 n = .ok (f n)) ∧
      (Monotone (fun n => (f n).val) ∨ Antitone (fun n => (f n).val)) ∧
      ∃ N, ∀ n ≥ N, f n = f N := by
  have hmd : ∀ c : Int32, 0 ≤ c.val →
      ∃ v, getMaxDisruptableWorkers (some "10%") c = .ok v ∧ 0 ≤ v.val := fun c hc =>
    (getMaxDisruptableWorkers_percent_mem
      (show getIntOrPercentValue (parse "10%") = .ok (10, true) by decide) (by decide)
      (by decide) hc).imp
      fun _ h => ⟨h.1, h.2.1⟩
  exact ⟨⟨by decide, by decide, by decide, hmd, by decide⟩,
    closedLoop_settles (by decide) (by decide) (by decide) hmd _ (by decide)⟩

/-- `429496729500%` of one worker is `4294967295`, which `int32` truncates to `-1`: the
all-idle tick lowers two workers to one, and the next tick raises them back to two. -/
theorem closedLoop_oversized_percentage_turns_back :
    getMaxDisruptableWorkers (some "429496729500%") 1 = .ok (-1) ∧
      closedLoop "q" 0 0 0 1 1 10 (some "429496729500%") (fun n => if n = 0 then 2 else 0) 2 1 =
        .ok 1 ∧
      closedLoop "q" 0 0 0 1 1 10 (some "429496729500%") (fun n => if n = 0 then 2 else 0) 2 2 =
        .ok 2 := by
  decide

section Rest

variable {c d mn mx mD : Int32}

/-- A count the rules keep is `max`, `min` or the desired count itself, or lies above the
desired count with a budget that allows no scale down. -/
theorem convert_fixed (hc : 0 ≤ c.val) (hd : 0 ≤ d.val)
    (hfix : (convertDesiredReplicasWithRules c d mn mx mD).val = c.val) :
    c.val = mx.val ∨ c.val = mn.val ∨ c.val = d.val ∨ (mD.val ≤ 0 ∧ d.val < c.val) := by
  rcases lt_or_le mn.val mx.val with h | h
  · rw [val_convert h, Int32.val_sub_of_nonneg hc hd, Int32.val_sub c mD] at hfix
    have := mD.min_le; have := mD.lt_max; have := c.lt_max
    split_ifs at hfix <;> omega
  · rw [convert_of_le h] at hfix; exact .inl hfix.symm

/-- Where the decision rests: a positive current count that `GetDesiredWorkers` returns
unchanged is `maxReplicas`, or the velocity floor, or within 10% of the workers the backlog
needs, or above what the queue needs while the scale-down budget is zero or negative. -/
theorem GetDesiredWorkers_rest {queueName : String} {q t i : Int32} {m s : Float64}
    {md : Option String} (hq : 0 ≤ q.val) (ht : 0 < t.val) (hc : 0 < c.val) (hmn : 0 ≤ mn.val)
    (hfix : GetDesiredWorkers queueName q m s t c i mn mx md = .ok c) :
    ∃ mD, getMaxDisruptableWorkers md c = .ok mD ∧
      (c.val = mx.val ∨ c.val = (getMinWorkers m mn s).val ∨
        (0 < q.val ∧ 10 * |ceilDiv q.val t.val - c.val| ≤ c.val) ∨
        (mD.val ≤ 0 ∧ (if 0 < q.val then ceilDiv q.val t.val else (getMinWorkers m mn s).val) <
          c.val)) := by
  obtain ⟨mD, hmD, hd⟩ := GetDesiredWorkers_eq_ok hfix
  refine ⟨mD, hmD, ?_⟩
  have hcm : 0 ≤ (getMinWorkers m mn s).val := hmn.trans le_getMinWorkers
  obtain ⟨e, d₀, -⟩ := ceilQuotient_val hq ht
  have hfix' := congrArg Int32.val hd.symm
  have hne : c ≠ 0 := fun h => by rw [h] at hc; exact absurd hc (lt_irrefl 0)
  unfold desiredWorkersOf at hfix'
  dsimp only at hfix'
  rw [if_neg hne] at hfix'
  by_cases hq₀ : q > 0
  · have hq' : 0 < q.val := hq₀
    by_cases hband : 10 * |ceilDiv q.val t.val - c.val| ≤ c.val
    · exact .inr (.inr (.inl ⟨hq', hband⟩))
    rw [if_pos hq₀, isChangeTooSmall_eq_decide hc (e ▸ d₀), e, decide_eq_false hband,
      if_neg Bool.false_ne_true] at hfix'
    rcases convert_fixed hc.le (e ▸ d₀) hfix' with h | h | h | ⟨hmD₀, h⟩
    · exact .inl h
    · exact .inr (.inl h)
    · exact absurd (by rw [e] at h; rw [← h, sub_self, abs_zero]; omega) hband
    · rw [e] at h; exact .inr (.inr (.inr ⟨hmD₀, by rw [if_pos hq']; exact h⟩))
  · have hq' : ¬ 0 < q.val := hq₀
    rw [if_neg hq₀] at hfix'
    have hrest : c.val = mx.val ∨ c.val = (getMinWorkers m mn s).val ∨
        (mD.val ≤ 0 ∧ (getMinWorkers m mn s).val < c.val) := by
      split_ifs at hfix'
      · rcases convert_fixed hc.le hcm hfix' with h | h | h | h
        exacts [.inl h, .inr (.inl h), .inr (.inl h), .inr (.inr h)]
      · -- every worker idle: the budget is the current count, so only a bound can hold
        rcases convert_fixed hc.le (by simp) hfix' with h | h | h | ⟨h, -⟩
        · exact .inl h
        · exact .inr (.inl h)
        · rw [Int32.val_zero] at h; omega
        · omega
      · rcases convert_fixed hc.le hcm hfix' with h | h | h | h
        exacts [.inl h, .inr (.inl h), .inr (.inl h), .inr (.inr h)]
    rcases hrest with h | h | ⟨hmD₀, h⟩
    · exact .inl h
    · exact .inr (.inl h)
    · exact .inr (.inr (.inr ⟨hmD₀, by rw [if_neg hq']; exact h⟩))

/-- Two workers at a floor of two, with no backlog, stay where they are. -/
theorem GetDesiredWorkers_rest_floor :
    (0 ≤ (0 : Int32).val ∧ 0 < (1 : Int32).val ∧ 0 < (2 : Int32).val ∧ 0 ≤ (2 : Int32).val ∧
      GetDesiredWorkers "q" 0 0 0 1 2 0 2 10 (some "10%") = .ok 2) ∧
    ∃ mD, getMaxDisruptableWorkers (some "10%") 2 = .ok mD ∧
      ((2 : Int32).val = (10 : Int32).val ∨ (2 : Int32).val = (getMinWorkers 0 2 0).val ∨
        (0 < (0 : Int32).val ∧
          10 * |ceilDiv (0 : Int32).val (1 : Int32).val - (2 : Int32).val| ≤ (2 : Int32).val) ∨
        (mD.val ≤ 0 ∧ (if 0 < (0 : Int32).val then ceilDiv (0 : Int32).val (1 : Int32).val
          else (getMinWorkers 0 2 0).val) < (2 : Int32).val)) :=
  ⟨⟨by decide, by decide, by decide, by decide, by decide⟩,
    GetDesiredWorkers_rest (by decide) (by decide) (by decide) (by decide)
      (show GetDesiredWorkers "q" 0 0 0 1 2 0 2 10 (some "10%") = .ok 2 by decide)⟩

end Rest

end Wpa
