import Wpa.Decision.Rules

/-! # Bounds on one decision

Whatever branch `GetDesiredWorkers` takes, its result lies in `[minWorkers, maxWorkers]`
for the velocity floor `minWorkers`, or is `maxWorkers` when that floor reaches it. With a
non-negative disruption budget it removes at most the budget outside the all-idle
branch, and it never goes above both the current count and what backlog and floor need.
A negative budget, which the parser accepts, turns the limit on a scale down into a
forced scale up.
-/

namespace Wpa

variable {queueName : String} {q t c i mn mx mD : Int32} {m s : Float64}
  {md : Option String}

theorem GetDesiredWorkers_within_bounds (h : getMaxDisruptableWorkers md c = .ok mD) :
    ∃ r, GetDesiredWorkers queueName q m s t c i mn mx md = .ok r ∧
      (mx.val ≤ (getMinWorkers m mn s).val → r = mx) ∧
      ((getMinWorkers m mn s).val < mx.val →
        (getMinWorkers m mn s).val ≤ r.val ∧ r.val ≤ mx.val) ∧
      r.val ≤ mx.val ∧ (mn.val ≤ mx.val → mn.val ≤ r.val) ∧
      (s ≠ 0 → min mx.val (ceilToInt32 (s * m / 60)).val ≤ r.val) := by
  refine ⟨_, GetDesiredWorkers_of_ok h, ?_⟩
  obtain ⟨h₁, h₂⟩ := desiredWorkersOf_mem q m s t c i (getMinWorkers m mn s) mx mD
  refine ⟨h₁, h₂, desiredWorkersOf_floor_bounds.1, desiredWorkersOf_floor_bounds.2,
    fun hs => ?_⟩
  have : (ceilToInt32 (s * m / 60)).val ≤ (getMinWorkers m mn s).val := getMinWorkers_of_ne hs
  rcases lt_or_le (getMinWorkers m mn s).val mx.val with hl | hl
  · have := h₂ hl; omega
  · rw [h₁ hl]; exact min_le_left _ _

theorem GetDesiredWorkers_within_bounds_otpsms :
    getMaxDisruptableWorkers (some "0%") 10 = .ok 0 ∧
      ∃ r, GetDesiredWorkers "otpsms" 1 2136.6 10 2500 10 0 2 20 (some "0%") = .ok r ∧
        ((20 : Int32).val ≤ (getMinWorkers 2136.6 2 10).val → r = 20) ∧
        ((getMinWorkers 2136.6 2 10).val < (20 : Int32).val →
          (getMinWorkers 2136.6 2 10).val ≤ r.val ∧ r.val ≤ (20 : Int32).val) ∧
        r.val ≤ (20 : Int32).val ∧ ((2 : Int32).val ≤ (20 : Int32).val → (2 : Int32).val ≤ r.val) ∧
        ((10 : Float64) ≠ 0 → min (20 : Int32).val (ceilToInt32 (10 * 2136.6 / 60)).val ≤ r.val) :=
  ⟨by decide, GetDesiredWorkers_within_bounds
    (show getMaxDisruptableWorkers (some "0%") 10 = .ok 0 by decide)⟩

theorem GetDesiredWorkers_disruption_bound (hc : 0 ≤ c.val) (hq : 0 ≤ q.val) (ht : 0 < t.val)
    (hmn : 0 ≤ mn.val) (h : getMaxDisruptableWorkers md c = .ok mD) (hmD : 0 ≤ mD.val) :
    ∃ r, GetDesiredWorkers queueName q m s t c i mn mx md = .ok r ∧
      (¬ (q.val = 0 ∧ ¬ (m > 0 ∧ s > 0) ∧ c = i ∧ 0 < c.val) →
        min mx.val (c.val - mD.val) ≤ r.val) := by
  refine ⟨_, GetDesiredWorkers_of_ok h, fun hm => ?_⟩
  have hcm : 0 ≤ (getMinWorkers m mn s).val := hmn.trans le_getMinWorkers
  rcases desiredWorkersOf_cases q m s t c i (getMinWorkers m mn s) mx mD with ⟨d, hd, he⟩ | ⟨h₀, hq₀, hv, hi, -⟩
  · rw [he]
    refine convert_ge_sub hc ?_ hmD
    rcases hd with rfl | rfl | ⟨rfl, -⟩
    · exact (ceilQuotient_val hq ht).2.1.trans_eq (ceilQuotient_val hq ht).1.symm
    · exact hc
    · exact hcm
  · exact absurd ⟨by omega, hv, hi, by have : c.val ≠ 0 := fun h => h₀ (Int32.ext h); omega⟩ hm

theorem GetDesiredWorkers_disruption_bound_otpsms :
    (0 ≤ (20 : Int32).val ∧ 0 ≤ (10 : Int32).val ∧ 0 < (200 : Int32).val ∧ 0 ≤ (0 : Int32).val ∧
      getMaxDisruptableWorkers (some "10%") 20 = .ok 2 ∧ 0 ≤ (2 : Int32).val) ∧
      ∃ r, GetDesiredWorkers "otpsms" 10 10 0.3 200 20 0 0 20 (some "10%") = .ok r ∧
        (¬ ((10 : Int32).val = 0 ∧ ¬ ((10 : Float64) > 0 ∧ (0.3 : Float64) > 0) ∧
            (20 : Int32) = 0 ∧ 0 < (20 : Int32).val) →
          min (20 : Int32).val ((20 : Int32).val - (2 : Int32).val) ≤ r.val) :=
  ⟨⟨by decide, by decide, by decide, by decide, by decide, by decide⟩,
    GetDesiredWorkers_disruption_bound (by decide) (by decide) (by decide) (by decide)
      (show getMaxDisruptableWorkers (some "10%") 20 = .ok 2 by decide) (by decide)⟩

/-- The bound an amended disruption rule keeps: the current count, or what backlog, sender
velocity and `minReplicas` need within `maxWorkers`. -/
theorem GetDesiredWorkers_le_current_or_needed (hc : 0 ≤ c.val) (hq : 0 ≤ q.val)
    (ht : 0 < t.val) (h : getMaxDisruptableWorkers md c = .ok mD) (hmD : 0 ≤ mD.val) :
    ∃ r, GetDesiredWorkers queueName q m s t c i mn mx md = .ok r ∧
      r.val ≤ max c.val (min mx.val (max (getMinWorkers m mn s).val ⌈(q.val : ℚ) / t.val⌉)) := by
  refine ⟨_, GetDesiredWorkers_of_ok h, ?_⟩
  obtain ⟨hD, hD₀, -⟩ := ceilQuotient_val hq ht
  rw [← ceilDiv_eq_ceil ht.ne', ← hD]
  rcases lt_or_le (getMinWorkers m mn s).val mx.val with hl | hl
  · rcases desiredWorkersOf_cases q m s t c i (getMinWorkers m mn s) mx mD with ⟨d, hd, he⟩ | ⟨-, -, -, -, he⟩
    · rw [he]
      have := convert_le_max (d := d) hc hmD hl
      rcases hd with rfl | rfl | ⟨rfl, -⟩ <;> omega
    · rw [he]
      have := convert_le_max (d := 0) hc hc hl
      simp only [Int32.val_zero] at this; omega
  · obtain ⟨d, mD', he⟩ := desiredWorkersOf_eq_convert q m s t c i
      (getMinWorkers m mn s) mx mD
    rw [he, convert_of_le hl]; omega

theorem GetDesiredWorkers_le_current_or_needed_otpsms :
    (0 ≤ (20 : Int32).val ∧ 0 ≤ (10 : Int32).val ∧ 0 < (200 : Int32).val ∧
      getMaxDisruptableWorkers (some "10%") 20 = .ok 2 ∧ 0 ≤ (2 : Int32).val) ∧
      ∃ r, GetDesiredWorkers "otpsms" 10 10 0.3 200 20 0 0 20 (some "10%") = .ok r ∧
        r.val ≤ max (20 : Int32).val (min (20 : Int32).val
          (max (getMinWorkers 10 0 0.3).val ⌈((10 : Int32).val : ℚ) / (200 : Int32).val⌉)) :=
  ⟨⟨by decide, by decide, by decide, by decide, by decide⟩,
    GetDesiredWorkers_le_current_or_needed (by decide) (by decide) (by decide)
      (show getMaxDisruptableWorkers (some "10%") 20 = .ok 2 by decide) (by decide)⟩

/-- With the budget `"-1"`, five busy workers and no backlog, the partial scale down
adds a worker. -/
theorem GetDesiredWorkers_negative_budget_scales_up :
    getMaxDisruptableWorkers (some "-1") 5 = .ok (-1) ∧
      GetDesiredWorkers "q" 0 0 0 1 5 0 0 10 (some "-1") = .ok 6 ∧
      max (5 : Int) (min 10 (max (getMinWorkers 0 0 0).val ⌈(((0 : Int32).val : ℚ)) / (1 : Int32).val⌉)) < 6 :=
  ⟨by decide, by decide, by norm_num [getMinWorkers]⟩

end Wpa
