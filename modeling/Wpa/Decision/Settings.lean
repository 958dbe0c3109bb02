import Wpa.Decision.Monotone

/-! # Monotonicity in the policy's settings and the send rate

A policy that asks for more never gets fewer workers: raising `minReplicas` or
`maxReplicas`, lowering `targetMessagesPerWorker`, or a queue that receives messages
faster never lowers what `GetDesiredWorkers` returns. The settings reach the decision
through the clamp, through the velocity floor (which both the floor and the desired count
of the send-rate branches use), and through the backlog quotient. The send rate also
picks the branch once the queue is empty; the branch it picks then starts from the floor,
which every branch without backlog clamps to. Go's `int32(math.Ceil(x))` gives `-2^31`
for a floor beyond `int32`, so the rate is bounded by that.
-/

namespace Wpa

variable {queueName : String} {q t c i mD : Int32} {m s : Float64} {md : Option String}

section Convert

variable {d mn mx mn₁ mn₂ mx₁ mx₂ : Int32}

theorem val_convert_le (c d mn mx mD : Int32) :
    (convertDesiredReplicasWithRules c d mn mx mD).val ≤ mx.val := by
  rcases lt_or_le mn.val mx.val with h | h
  · exact ((convert_mem c d mn mx mD).2 h).2
  · rw [convert_of_le h]

theorem min_le_val_convert (c d mn mx mD : Int32) :
    min mn.val mx.val ≤ (convertDesiredReplicasWithRules c d mn mx mD).val := by
  rcases lt_or_le mn.val mx.val with h | h
  · exact (min_le_left _ _).trans ((convert_mem c d mn mx mD).2 h).1
  · rw [convert_of_le h]; exact min_le_right _ _

/-- Raising `min` or `max` never lowers the rules' result. -/
theorem convert_mono_bounds (hmn : mn₁.val ≤ mn₂.val) (hmx : mx₁.val ≤ mx₂.val) :
    (convertDesiredReplicasWithRules c d mn₁ mx₁ mD).val ≤
      (convertDesiredReplicasWithRules c d mn₂ mx₂ mD).val := by
  rcases lt_or_le mn₂.val mx₂.val with h₂ | h₂
  · rcases lt_or_le mn₁.val mx₁.val with h₁ | h₁
    · rw [val_convert h₁, val_convert h₂]; omega
    · have := min_le_val_convert c d mn₂ mx₂ mD
      rw [convert_of_le h₁]; omega
  · have := val_convert_le c d mn₁ mx₁ mD
    rw [convert_of_le h₂]; omega

/-- With the floor as the desired count, a higher floor or `max` never lowers the result,
whatever the budget: the budget only matters while it keeps the count above the floor. -/
theorem convert_self_mono (hc : 0 ≤ c.val) (h₀ : 0 ≤ mn₁.val) (hmn : mn₁.val ≤ mn₂.val)
    (hmx : mx₁.val ≤ mx₂.val) :
    (convertDesiredReplicasWithRules c mn₁ mn₁ mx₁ mD).val ≤
      (convertDesiredReplicasWithRules c mn₂ mn₂ mx₂ mD).val := by
  rcases lt_or_le mn₂.val mx₂.val with h₂ | h₂
  · rcases lt_or_le mn₁.val mx₁.val with h₁ | h₁
    · rw [val_convert h₁, val_convert h₂, Int32.val_sub_of_nonneg hc h₀,
        Int32.val_sub_of_nonneg hc (h₀.trans hmn), Int32.val_sub c mD]
      have := mD.min_le; have := mD.lt_max; have := c.lt_max
      split_ifs <;> omega
    · have := min_le_val_convert c mn₂ mn₂ mx₂ mD
      rw [convert_of_le h₁]; omega
  · have := val_convert_le c mn₁ mn₁ mx₁ mD
    rw [convert_of_le h₂]; omega

/-- The all-idle scale down gives the floor, clamped to `max`. -/
theorem val_convert_zero_self (hc : 0 ≤ c.val) (h₀ : 0 ≤ mn.val) :
    (convertDesiredReplicasWithRules c 0 mn mx c).val = min mn.val mx.val := by
  rcases lt_or_le mn.val mx.val with h | h
  · rw [convert_zero_self hc h₀ h]; omega
  · rw [convert_of_le h]; omega

end Convert

/-- The branches at two floors and two `max`es, where the send rate picks the send-rate
branch at the second whenever it does at the first, and everything else is shared. -/
theorem desiredWorkersOf_mono_floor {m₁ m₂ : Float64} {mn₁ mn₂ mx₁ mx₂ : Int32}
    (hc : 0 ≤ c.val) (h₀ : 0 ≤ mn₁.val) (hmn : mn₁.val ≤ mn₂.val) (hmx : mx₁.val ≤ mx₂.val)
    (hrate : m₁ > 0 ∧ s > 0 → m₂ > 0 ∧ s > 0) :
    (desiredWorkersOf q m₁ s t c i mn₁ mx₁ mD).val ≤
      (desiredWorkersOf q m₂ s t c i mn₂ mx₂ mD).val := by
  have hbounds : ∀ d mD', (convertDesiredReplicasWithRules c d mn₁ mx₁ mD').val ≤
      (convertDesiredReplicasWithRules c d mn₂ mx₂ mD').val :=
    fun _ _ => convert_mono_bounds hmn hmx
  have hself : (convertDesiredReplicasWithRules c mn₁ mn₁ mx₁ mD).val ≤
      (convertDesiredReplicasWithRules c mn₂ mn₂ mx₂ mD).val := convert_self_mono hc h₀ hmn hmx
  unfold desiredWorkersOf
  dsimp only
  by_cases hc₀ : c = 0
  · simp only [if_pos hc₀]; exact hbounds _ _
  simp only [if_neg hc₀]
  by_cases hq : q > 0
  · simp only [if_pos hq]; split_ifs <;> exact hbounds _ _
  simp only [if_neg hq]
  by_cases hr₁ : m₁ > 0 ∧ s > 0
  · simp only [if_pos hr₁, if_pos (hrate hr₁)]; exact hself
  simp only [if_neg hr₁]
  by_cases hr₂ : m₂ > 0 ∧ s > 0
  · simp only [if_pos hr₂]
    split_ifs
    · -- every worker idle at the first rate: the floor, clamped
      have := min_le_val_convert c mn₂ mn₂ mx₂ mD
      rw [val_convert_zero_self hc h₀]; omega
    · exact hself
  · simp only [if_neg hr₂]
    split_ifs
    · exact hbounds _ _
    · exact hself

/-- A larger target per worker never gives more workers. -/
theorem desiredWorkersOf_anti_target {t₁ t₂ mn mx : Int32} (hq : 0 ≤ q.val)
    (ht : 0 < t₁.val) (htt : t₁.val ≤ t₂.val) (hc : 0 ≤ c.val) :
    (desiredWorkersOf q m s t₂ c i mn mx mD).val ≤ (desiredWorkersOf q m s t₁ c i mn mx mD).val := by
  obtain ⟨e₁, -, -⟩ := ceilQuotient_val hq ht
  obtain ⟨e₂, d₂, -⟩ := ceilQuotient_val hq (ht.trans_le htt)
  have hD : (ceilQuotient q t₂).val ≤ (ceilQuotient q t₁).val := by
    rw [e₁, e₂, ceilDiv_eq_ceil (by omega), ceilDiv_eq_ceil (by omega)]
    exact Int.ceil_mono (div_le_div_of_nonneg_left (by exact_mod_cast hq)
      (by exact_mod_cast ht) (by exact_mod_cast htt))
  unfold desiredWorkersOf
  dsimp only
  by_cases hc₀ : c = 0
  · simp only [if_pos hc₀]; exact convert_mono hc (by omega) hD
  have hc₁ : 0 < c.val := lt_of_le_of_ne hc fun h => hc₀ (Int32.ext h.symm)
  simp only [if_neg hc₀]
  by_cases hq₀ : q > 0
  · simp only [if_pos hq₀, ite_convert]
    exact convert_mono hc (by split_ifs <;> omega) (bandDesired_mono hc₁ (by omega) hD)
  · simp only [if_neg hq₀]; exact le_rfl

/-- `int32(math.Ceil(x))` grows with `x` while the ceiling fits in `int32`. -/
theorem ceilToInt32_mono {x y : Float64} (hxy : x ≤ y) (hy : y ≤ 2147483647) :
    (ceilToInt32 x).val ≤ (ceilToInt32 y).val := by
  have h₁ : ⌈x⌉ ≤ ⌈y⌉ := Int.ceil_mono hxy
  have h₂ : ⌈y⌉ ≤ 2147483647 := Int.ceil_le.2 (by exact_mod_cast hy)
  unfold ceilToInt32 Int32.ofIntOrMin
  split_ifs with hx hy hy
  · exact h₁
  · exact absurd ⟨hx.1.trans h₁, by omega⟩ hy
  · exact hy.1
  · exact le_rfl

/-- The velocity floor grows with the send rate and with `minWorkers`, for a non-negative
processing time and while the workers the rate asks for fit in `int32`. -/
theorem getMinWorkers_mono {m₁ m₂ : Float64} {mn₁ mn₂ : Int32} (hs : 0 ≤ s) (hm : m₁ ≤ m₂)
    (hmn : mn₁.val ≤ mn₂.val) (hfit : s * m₂ / 60 ≤ 2147483647) :
    (getMinWorkers m₁ mn₁ s).val ≤ (getMinWorkers m₂ mn₂ s).val := by
  have hw := ceilToInt32_mono (div_le_div_of_nonneg_right (mul_le_mul_of_nonneg_left hm hs)
    (by norm_num : (0 : Float64) ≤ 60)) hfit
  unfold getMinWorkers
  dsimp only
  split_ifs <;> simp only [gt_iff_lt, Int32.lt_iff] at * <;> omega

/-- Raising `minReplicas`, `maxReplicas` or the send rate, or lowering
`targetMessagesPerWorker`, never lowers the desired count, while the rate's floor fits in
`int32`. -/
theorem GetDesiredWorkers_mono_settings {m₁ m₂ : Float64} {t₁ t₂ mn₁ mn₂ mx₁ mx₂ : Int32}
    (hq : 0 ≤ q.val) (hc : 0 ≤ c.val) (hs : 0 ≤ s) (h₀ : 0 ≤ mn₁.val) (ht : 0 < t₁.val)
    (hm : m₁ ≤ m₂) (hmn : mn₁.val ≤ mn₂.val) (hmx : mx₁.val ≤ mx₂.val) (htt : t₁.val ≤ t₂.val)
    (hfit : s * m₂ / 60 ≤ 2147483647) (h : getMaxDisruptableWorkers md c = .ok mD) :
    ∃ r₁ r₂, GetDesiredWorkers queueName q m₁ s t₂ c i mn₁ mx₁ md = .ok r₁ ∧
      GetDesiredWorkers queueName q m₂ s t₁ c i mn₂ mx₂ md = .ok r₂ ∧ r₁.val ≤ r₂.val := by
  refine ⟨_, _, GetDesiredWorkers_of_ok h, GetDesiredWorkers_of_ok h, ?_⟩
  calc _ ≤ (desiredWorkersOf q m₁ s t₁ c i (getMinWorkers m₁ mn₁ s) mx₁ mD).val :=
        desiredWorkersOf_anti_target hq ht htt hc
    _ ≤ _ := desiredWorkersOf_mono_floor hc (h₀.trans le_getMinWorkers)
        (getMinWorkers_mono hs hm hmn hfit) hmx
        fun hr => ⟨lt_of_lt_of_le hr.1 hm, hr.2⟩

theorem GetDesiredWorkers_mono_settings_otpsms :
    (0 ≤ (0 : Int32).val ∧ 0 ≤ (20 : Int32).val ∧ (0 : Float64) ≤ 0.3 ∧ 0 ≤ (0 : Int32).val ∧
      0 < (400 : Int32).val ∧ (10 : Float64) ≤ 900 ∧ (0 : Int32).val ≤ (2 : Int32).val ∧
      (20 : Int32).val ≤ (30 : Int32).val ∧ (400 : Int32).val ≤ (500 : Int32).val ∧
      (0.3 : Float64) * 900 / 60 ≤ 2147483647 ∧
      getMaxDisruptableWorkers (some "10%") 20 = .ok 2) ∧
      ∃ r₁ r₂, GetDesiredWorkers "otpsms" 0 10 0.3 500 20 20 0 20 (some "10%") = .ok r₁ ∧
        GetDesiredWorkers "otpsms" 0 900 0.3 400 20 20 2 30 (some "10%") = .ok r₂ ∧
        r₁.val ≤ r₂.val :=
  ⟨⟨by decide, by decide, by norm_num, by decide, by decide, by norm_num, by decide, by decide,
      by decide, by norm_num, by decide⟩,
    GetDesiredWorkers_mono_settings (by decide) (by decide) (by norm_num) (by decide) (by decide)
      (by norm_num) (by decide) (by decide) (by decide) (by norm_num)
      (show getMaxDisruptableWorkers (some "10%") 20 = .ok 2 by decide)⟩

end Wpa
