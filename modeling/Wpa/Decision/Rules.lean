import Wpa.Basic.IntStr

/-! # The scaling decision

`GetDesiredWorkers` turns a queue's backlog and send rate into a replica count. It picks
one desired count by branch (cold start, backlog with its 10% stability band, send rate
without backlog, an all-idle fleet, partial scale down) and hands it to
`convertDesiredReplicasWithRules`, which limits a scale down to `maxDisruptableWorkers`
and clamps into `[minWorkers, maxWorkers]`.
-/

namespace Wpa

/-- `getMinWorkers`: `minWorkers`, raised to the workers the send rate needs when the
policy sets a processing time. The quotient is exact here; Go rounds the product and the
quotient in `float64`, so the two ceilings differ where the exact quotient is an integer
or lies within rounding of one: `1.1 * 1800 / 60` is `33` here and `34` in Go, whose
`1.1` lies just above `11/10`. -/
def getMinWorkers (messagesSentPerMinute : Float64) (minWorkers : Int32)
    (secondsToProcessOneJob : Float64) : Int32 :=
  if secondsToProcessOneJob = 0 then minWorkers
  else
    let workersBasedOnMessagesSent :=
      ceilToInt32 (secondsToProcessOneJob * messagesSentPerMinute / 60)
    if workersBasedOnMessagesSent > minWorkers then workersBasedOnMessagesSent else minWorkers

/-- `isChangeTooSmall`. Go divides in `float64`; for `int32` operands and the tolerance
`0.1` the float comparison agrees with the exact one, and a zero `current` gives an
infinity or NaN, which compares false. -/
def isChangeTooSmall (desired current : Int32) (tolerance : Float64) : Bool :=
  decide (current.val ≠ 0 ∧ |((desired - current).val : Float64)| / current.val ≤ tolerance)

/-- `int32(math.Ceil(float64(a) / float64(b)))`. For `int32` operands the float quotient
never rounds across an integer, so the ceiling is exact; a zero `b` gives an infinity or
NaN, which converts to `-2^31`. -/
def ceilQuotient (a b : Int32) : Int32 :=
  if b.val = 0 then Int32.minValue else Int32.ofIntOrMin (ceilDiv a.val b.val)

/-- `convertDesiredReplicasWithRules`. -/
def convertDesiredReplicasWithRules (current desired min max maxDisruptable : Int32) :
    Int32 :=
  if min ≥ max then max
  else
    let desired := if current - desired > maxDisruptable then current - maxDisruptable
      else desired
    if desired > max then max
    else if desired < min then min
    else desired

/-- The branches of `GetDesiredWorkers`, once `minWorkers` holds the velocity floor and
`maxDisruptableWorkers` is known. -/
def desiredWorkersOf (queueMessages : Int32) (messagesSentPerMinute secondsToProcessOneJob : Float64)
    (targetMessagesPerWorker currentWorkers idleWorkers minWorkers maxWorkers
      maxDisruptableWorkers : Int32) : Int32 :=
  let tolerance : Float64 := 0.1
  let desiredWorkers := ceilQuotient queueMessages targetMessagesPerWorker
  if currentWorkers = 0 then
    convertDesiredReplicasWithRules currentWorkers desiredWorkers minWorkers maxWorkers
      maxDisruptableWorkers
  else if queueMessages > 0 then
    if isChangeTooSmall desiredWorkers currentWorkers tolerance then
      convertDesiredReplicasWithRules currentWorkers currentWorkers minWorkers maxWorkers
        maxDisruptableWorkers
    else
      convertDesiredReplicasWithRules currentWorkers desiredWorkers minWorkers maxWorkers
        maxDisruptableWorkers
  else if messagesSentPerMinute > 0 ∧ secondsToProcessOneJob > 0 then
    convertDesiredReplicasWithRules currentWorkers minWorkers minWorkers maxWorkers
      maxDisruptableWorkers
  else if currentWorkers = idleWorkers then
    convertDesiredReplicasWithRules currentWorkers 0 minWorkers maxWorkers currentWorkers
  else
    convertDesiredReplicasWithRules currentWorkers minWorkers minWorkers maxWorkers
      maxDisruptableWorkers

/-- `GetDesiredWorkers`. -/
def GetDesiredWorkers (queueName : String) (queueMessages : Int32)
    (messagesSentPerMinute secondsToProcessOneJob : Float64)
    (targetMessagesPerWorker currentWorkers idleWorkers minWorkers maxWorkers : Int32)
    (maxDisruption : Option String) : Except Abort Int32 := do
  let minWorkers := getMinWorkers messagesSentPerMinute minWorkers secondsToProcessOneJob
  let maxDisruptableWorkers ← getMaxDisruptableWorkers maxDisruption currentWorkers
  return desiredWorkersOf queueMessages messagesSentPerMinute secondsToProcessOneJob
    targetMessagesPerWorker currentWorkers idleWorkers minWorkers maxWorkers
    maxDisruptableWorkers

section Lemmas

variable {queueName : String} {q t c i mn mx d mD : Int32} {m s : Float64}
  {md : Option String}

theorem GetDesiredWorkers_of_ok (h : getMaxDisruptableWorkers md c = .ok mD) :
    GetDesiredWorkers queueName q m s t c i mn mx md =
      .ok (desiredWorkersOf q m s t c i (getMinWorkers m mn s) mx mD) := by
  simp [GetDesiredWorkers, h, bind, Except.bind, pure, Except.pure]

theorem GetDesiredWorkers_eq_ok (h : GetDesiredWorkers queueName q m s t c i mn mx md = .ok d) :
    ∃ mD, getMaxDisruptableWorkers md c = .ok mD ∧
      d = desiredWorkersOf q m s t c i (getMinWorkers m mn s) mx mD := by
  cases hmd : getMaxDisruptableWorkers md c with
  | error a => simp [GetDesiredWorkers, hmd, bind, Except.bind] at h
  | ok mD => rw [GetDesiredWorkers_of_ok hmd] at h; cases h; exact ⟨mD, rfl, rfl⟩

theorem le_getMinWorkers : mn.val ≤ (getMinWorkers m mn s).val := by
  unfold getMinWorkers; dsimp only; split_ifs <;> simp_all; omega

theorem getMinWorkers_of_ne (hs : s ≠ 0) :
    (ceilToInt32 (s * m / 60)).val ≤ (getMinWorkers m mn s).val := by
  unfold getMinWorkers; dsimp only; split_ifs <;> simp_all

theorem isChangeTooSmall_iff (hc : 0 < c.val) :
    isChangeTooSmall d c 0.1 = true ↔ 10 * |(d - c).val| ≤ c.val := by
  have hc' : (0 : ℚ) < c.val := by exact_mod_cast hc
  have h10 : (0.1 : ℚ) = 1 / 10 := by norm_num
  simp only [isChangeTooSmall, decide_eq_true_eq, ne_eq, hc.ne', not_false_eq_true, true_and,
    div_le_iff₀ hc', h10]
  constructor <;> intro h
  · exact_mod_cast (show ((10 * |(d - c).val| : ℤ) : ℚ) ≤ c.val by push_cast; linarith)
  · have : ((10 * |(d - c).val| : ℤ) : ℚ) ≤ c.val := by exact_mod_cast h
    push_cast at this; linarith

theorem ceilQuotient_val (hq : 0 ≤ q.val) (ht : 0 < t.val) :
    (ceilQuotient q t).val = ceilDiv q.val t.val ∧ 0 ≤ ceilDiv q.val t.val ∧
      ceilDiv q.val t.val ≤ q.val := by
  have h₁ : 0 ≤ ceilDiv q.val t.val := by
    have := Int.ediv_le_ediv ht (show -q.val ≤ 0 by omega)
    simp only [ceilDiv, ht, if_true, Int.zero_ediv] at this ⊢; omega
  have h₂ : ceilDiv q.val t.val ≤ q.val := by
    have := Int.le_ediv_of_mul_le ht (show -q.val * t.val ≤ -q.val by nlinarith)
    simp only [ceilDiv, ht, if_true]; omega
  refine ⟨?_, h₁, h₂⟩
  rw [ceilQuotient, if_neg ht.ne', Int32.val_ofIntOrMin_of_mem (by omega) (by have := q.lt_max; omega)]

theorem ceilDiv_mono {a b t : Int} (ht : 0 < t) (h : a ≤ b) : ceilDiv a t ≤ ceilDiv b t := by
  have := Int.ediv_le_ediv ht (show -b ≤ -a by omega)
  simp only [ceilDiv, ht, if_true]; omega

end Lemmas

section Convert

variable {c d d' mn mx mD : Int32}

theorem convert_of_le (h : mx.val ≤ mn.val) :
    convertDesiredReplicasWithRules c d mn mx mD = mx := by
  simp [convertDesiredReplicasWithRules, h]

/-- Below `max`, the rules clamp the disruption-limited desired count into `[min, max]`. -/
theorem val_convert (h : mn.val < mx.val) :
    (convertDesiredReplicasWithRules c d mn mx mD).val =
      max mn.val (min mx.val (if mD.val < (c - d).val then (c - mD).val else d.val)) := by
  unfold convertDesiredReplicasWithRules
  dsimp only
  split_ifs <;> simp_all <;> omega

theorem convert_mem (c d mn mx mD : Int32) :
    (mx.val ≤ mn.val → convertDesiredReplicasWithRules c d mn mx mD = mx) ∧
      (mn.val < mx.val → mn.val ≤ (convertDesiredReplicasWithRules c d mn mx mD).val ∧
        (convertDesiredReplicasWithRules c d mn mx mD).val ≤ mx.val) := by
  refine ⟨convert_of_le, fun h => ?_⟩
  rw [val_convert h]; omega

/-- For non-negative counts, a larger desired count never gives fewer replicas, whatever
the disruption budget. -/
theorem convert_mono (hc : 0 ≤ c.val) (hd : 0 ≤ d.val) (hdd : d.val ≤ d'.val) :
    (convertDesiredReplicasWithRules c d mn mx mD).val ≤
      (convertDesiredReplicasWithRules c d' mn mx mD).val := by
  rcases lt_or_le mn.val mx.val with h | h
  · rw [val_convert h, val_convert h, Int32.val_sub_of_nonneg hc hd,
      Int32.val_sub_of_nonneg (b := d') hc (by omega), Int32.val_sub c mD]
    have := d'.lt_max; have := mD.min_le
    split_ifs <;> omega
  · rw [convert_of_le h, convert_of_le h]

/-- A desired count below a non-negative `min` gives what `min` itself gives. -/
theorem convert_of_lt_min (hc : 0 ≤ c.val) (hd : 0 ≤ d.val) (hdm : d.val < mn.val) :
    convertDesiredReplicasWithRules c d mn mx mD = convertDesiredReplicasWithRules c mn mn mx mD := by
  rcases lt_or_le mn.val mx.val with h | h
  · ext
    rw [val_convert h, val_convert h, Int32.val_sub_of_nonneg hc hd,
      Int32.val_sub_of_nonneg (b := mn) hc (by omega), Int32.val_sub c mD]
    have := mn.lt_max; have := mD.min_le
    split_ifs <;> omega
  · rw [convert_of_le h, convert_of_le h]

/-- A non-negative budget never takes a non-negative count below `current - budget`, or
`max` when that is lower. -/
theorem convert_ge_sub (hc : 0 ≤ c.val) (hd : 0 ≤ d.val) (hmD : 0 ≤ mD.val) :
    min mx.val (c.val - mD.val) ≤ (convertDesiredReplicasWithRules c d mn mx mD).val := by
  rcases lt_or_le mn.val mx.val with h | h
  · rw [val_convert h, Int32.val_sub_of_nonneg hc hd, Int32.val_sub_of_nonneg hc hmD]
    split_ifs <;> omega
  · rw [convert_of_le h]; omega

/-- A non-negative budget only slows a scale down: the rules never go above both the
current count and the clamped desired count. -/
theorem convert_le_max (hc : 0 ≤ c.val) (hmD : 0 ≤ mD.val) (h : mn.val < mx.val) :
    (convertDesiredReplicasWithRules c d mn mx mD).val ≤
      max c.val (max mn.val (min mx.val d.val)) := by
  rw [val_convert h, Int32.val_sub_of_nonneg hc hmD]
  split_ifs <;> omega

end Convert

section Branches

variable {q t c i mn mx mD : Int32} {m s : Float64}

/-- Every branch applies the rules to one desired count: the backlog quotient, the current
count or the velocity floor under the policy's budget, or zero with the budget lifted to
the current count when every worker is idle. -/
theorem desiredWorkersOf_cases (q : Int32) (m s : Float64) (t c i mn mx mD : Int32) :
    (∃ d, (d = ceilQuotient q t ∨ d = c ∨ d = mn ∧ ¬ 0 < q.val) ∧
        desiredWorkersOf q m s t c i mn mx mD = convertDesiredReplicasWithRules c d mn mx mD) ∨
      (c ≠ 0 ∧ ¬ 0 < q.val ∧ ¬ (m > 0 ∧ s > 0) ∧ c = i ∧
        desiredWorkersOf q m s t c i mn mx mD = convertDesiredReplicasWithRules c 0 mn mx c) := by
  unfold desiredWorkersOf
  dsimp only
  split_ifs with h₁ h₂ h₃ h₄ h₅
  · exact .inl ⟨_, .inl rfl, rfl⟩
  · exact .inl ⟨_, .inr (.inl rfl), rfl⟩
  · exact .inl ⟨_, .inl rfl, rfl⟩
  · exact .inl ⟨_, .inr (.inr ⟨rfl, h₂⟩), rfl⟩
  · exact .inr ⟨h₁, h₂, h₄, h₅, rfl⟩
  · exact .inl ⟨_, .inr (.inr ⟨rfl, h₂⟩), rfl⟩

/-- Each branch is the rules applied to some desired count and budget. -/
theorem desiredWorkersOf_eq_convert (q : Int32) (m s : Float64) (t c i mn mx mD : Int32) :
    ∃ d mD', desiredWorkersOf q m s t c i mn mx mD = convertDesiredReplicasWithRules c d mn mx mD' := by
  rcases desiredWorkersOf_cases q m s t c i mn mx mD with ⟨d, -, he⟩ | ⟨-, -, -, -, he⟩ <;>
    exact ⟨_, _, he⟩

/-- Every branch ends in the clamp: the result is `maxWorkers` when `minWorkers` reaches
it, and otherwise lies in `[minWorkers, maxWorkers]`. -/
theorem desiredWorkersOf_mem (q : Int32) (m s : Float64) (t c i mn mx mD : Int32) :
    (mx.val ≤ mn.val → desiredWorkersOf q m s t c i mn mx mD = mx) ∧
      (mn.val < mx.val → mn.val ≤ (desiredWorkersOf q m s t c i mn mx mD).val ∧
        (desiredWorkersOf q m s t c i mn mx mD).val ≤ mx.val) := by
  obtain ⟨d, mD', he⟩ := desiredWorkersOf_eq_convert q m s t c i mn mx mD
  rw [he]; exact convert_mem c d mn mx mD'

/-- With the velocity floor over `minWorkers`, a decision is at most `maxWorkers`, and at
least `minWorkers` when `minWorkers ≤ maxWorkers`. -/
theorem desiredWorkersOf_floor_bounds :
    (desiredWorkersOf q m s t c i (getMinWorkers m mn s) mx mD).val ≤ mx.val ∧
      (mn.val ≤ mx.val → mn.val ≤ (desiredWorkersOf q m s t c i (getMinWorkers m mn s) mx mD).val) := by
  have hfloor : mn.val ≤ (getMinWorkers m mn s).val := le_getMinWorkers
  obtain ⟨h₁, h₂⟩ := desiredWorkersOf_mem q m s t c i (getMinWorkers m mn s) mx mD
  rcases lt_or_le (getMinWorkers m mn s).val mx.val with hl | hl
  · have := h₂ hl; omega
  · rw [h₁ hl]; exact ⟨le_rfl, id⟩

end Branches

end Wpa
