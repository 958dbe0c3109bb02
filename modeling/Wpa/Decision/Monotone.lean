import Wpa.Decision.Rules

/-! # Monotonicity in the backlog

With everything else fixed, a larger backlog never yields fewer desired workers. The
stability band keeps the desired count monotone across both of its edges, and at the
switch from an empty to a non-empty queue every branch without backlog gives at most what
the backlog branch gives, since all of them start from the velocity floor.
-/

namespace Wpa

variable {queueName : String} {q t c i mn mx mD : Int32} {m s : Float64}
  {md : Option String}

theorem isChangeTooSmall_eq_decide (hc : 0 < c.val) {d : Int32} (hd : 0 ≤ d.val) :
    isChangeTooSmall d c 0.1 = decide (10 * |d.val - c.val| ≤ c.val) := by
  rw [Bool.eq_iff_iff, isChangeTooSmall_iff hc, Int32.val_sub_of_nonneg hd hc.le, decide_eq_true_iff]

/-- The desired count of the backlog branch: the current count inside the stability
band, the quotient outside it. It grows with the quotient. -/
theorem bandDesired_mono (hc : 0 < c.val) {D₁ D₂ : Int32} (h₀ : 0 ≤ D₁.val)
    (h : D₁.val ≤ D₂.val) :
    (if isChangeTooSmall D₁ c 0.1 then c else D₁).val ≤
      (if isChangeTooSmall D₂ c 0.1 then c else D₂).val := by
  rw [isChangeTooSmall_eq_decide hc h₀, isChangeTooSmall_eq_decide hc (h₀.trans h)]
  simp only [decide_eq_true_eq]
  rcases abs_cases (D₁.val - c.val) with ⟨a₁, s₁⟩ | ⟨a₁, s₁⟩ <;>
  rcases abs_cases (D₂.val - c.val) with ⟨a₂, s₂⟩ | ⟨a₂, s₂⟩ <;>
  split_ifs <;> omega

theorem ite_convert (b : Bool) {d : Int32} :
    (if b then convertDesiredReplicasWithRules c c mn mx mD
      else convertDesiredReplicasWithRules c d mn mx mD) =
      convertDesiredReplicasWithRules c (if b then c else d) mn mx mD := by
  cases b <;> rfl

/-- With every worker idle and no backlog, the rules give exactly the velocity floor. -/
theorem convert_zero_self (hc : 0 ≤ c.val) (hmn : 0 ≤ mn.val) (h : mn.val < mx.val) :
    (convertDesiredReplicasWithRules c 0 mn mx c).val = mn.val := by
  rw [val_convert h, Int32.val_sub_of_nonneg hc (by simp)]
  simp only [Int32.val_zero, sub_zero, lt_self_iff_false, if_false]; omega

theorem desiredWorkersOf_mono {q₁ q₂ : Int32} (ht : 0 < t.val) (hc : 0 ≤ c.val) (hmn : 0 ≤ mn.val)
    (h₀ : 0 ≤ q₁.val) (h₁₂ : q₁.val ≤ q₂.val) :
    (desiredWorkersOf q₁ m s t c i mn mx mD).val ≤ (desiredWorkersOf q₂ m s t c i mn mx mD).val := by
  obtain ⟨e₁, d₁, -⟩ := ceilQuotient_val h₀ ht
  obtain ⟨e₂, -, -⟩ := ceilQuotient_val (h₀.trans h₁₂) ht
  have hD : (ceilQuotient q₁ t).val ≤ (ceilQuotient q₂ t).val := by
    rw [e₁, e₂]; exact ceilDiv_mono ht h₁₂
  unfold desiredWorkersOf
  dsimp only
  by_cases hc₀ : c = 0
  · simp only [hc₀, if_true]
    exact convert_mono (by simp) (by omega) hD
  have hc₁ : 0 < c.val := lt_of_le_of_ne hc fun h => hc₀ (Int32.ext h.symm)
  simp only [hc₀, if_false]
  by_cases hq₁ : q₁ > 0
  · have hq₂ : q₂ > 0 := lt_of_lt_of_le hq₁ h₁₂
    simp only [hq₁, hq₂, if_true, ite_convert]
    exact convert_mono hc (by split_ifs <;> omega) (bandDesired_mono hc₁ (by omega) hD)
  by_cases hq₂ : q₂ > 0
  · simp only [hq₁, hq₂, if_true, if_false, ite_convert]
    have hd₂ : 0 ≤ (if isChangeTooSmall (ceilQuotient q₂ t) c 0.1 then c else
        ceilQuotient q₂ t).val := by
      split_ifs <;> omega
    generalize (if isChangeTooSmall (ceilQuotient q₂ t) c 0.1 then c else ceilQuotient q₂ t) = d₂
      at *
    have hfloor : (convertDesiredReplicasWithRules c mn mn mx mD).val ≤
        (convertDesiredReplicasWithRules c d₂ mn mx mD).val := by
      rcases lt_or_le d₂.val mn.val with hlt | hle
      · rw [convert_of_lt_min hc hd₂ hlt]
      · exact convert_mono hc hmn hle
    split_ifs
    · exact hfloor
    · rcases lt_or_le mn.val mx.val with hl | hl
      · rw [convert_zero_self hc hmn hl]; exact ((convert_mem _ _ _ _ _).2 hl).1
      · rw [convert_of_le hl, convert_of_le hl]
    · exact hfloor
  · have : q₁ = q₂ := Int32.ext (by simp only [gt_iff_lt, Int32.lt_iff, Int32.val_zero] at hq₁ hq₂; omega)
    subst this; exact le_rfl

theorem GetDesiredWorkers_mono_queueMessages {q₁ q₂ : Int32} (ht : 0 < t.val) (hc : 0 ≤ c.val)
    (hmn : 0 ≤ mn.val) (h : getMaxDisruptableWorkers md c = .ok mD) (h₀ : 0 ≤ q₁.val)
    (h₁₂ : q₁.val ≤ q₂.val) :
    ∃ r₁ r₂, GetDesiredWorkers queueName q₁ m s t c i mn mx md = .ok r₁ ∧
      GetDesiredWorkers queueName q₂ m s t c i mn mx md = .ok r₂ ∧ r₁.val ≤ r₂.val :=
  ⟨_, _, GetDesiredWorkers_of_ok h, GetDesiredWorkers_of_ok h,
    desiredWorkersOf_mono ht hc (hmn.trans le_getMinWorkers) h₀ h₁₂⟩

theorem GetDesiredWorkers_mono_queueMessages_otpsms :
    (0 < (200 : Int32).val ∧ 0 ≤ (20 : Int32).val ∧ 0 ≤ (0 : Int32).val ∧
      getMaxDisruptableWorkers (some "10%") 20 = .ok 2 ∧ 0 ≤ (0 : Int32).val ∧
      (0 : Int32).val ≤ (4100 : Int32).val) ∧
      ∃ r₁ r₂, GetDesiredWorkers "otpsms" 0 10 0.3 200 20 0 0 20 (some "10%") = .ok r₁ ∧
        GetDesiredWorkers "otpsms" 4100 10 0.3 200 20 0 0 20 (some "10%") = .ok r₂ ∧
        r₁.val ≤ r₂.val :=
  ⟨⟨by decide, by decide, by decide, by decide, by decide, by decide⟩,
    GetDesiredWorkers_mono_queueMessages (by decide) (by decide) (by decide)
      (show getMaxDisruptableWorkers (some "10%") 20 = .ok 2 by decide) (by decide) (by decide)⟩

end Wpa
