import Wpa.Basic.Go

/-! # Disruption budgets

A policy's `maxDisruption` is an integer or a percentage of the current workers.
`getMaxDisruptableWorkers` reads it through `intstr.Parse` and
`intstr.GetValueFromIntOrPercent` of the Kubernetes libraries, rounds a percentage up,
converts the result to `int32`, and exits through `klog.Fatalf` when there is no text or
the library rejects it. `GetValueFromIntOrPercent` reads a text with the deprecated
`getIntOrPercentValue`: it removes every `%` and takes whatever integer is left as a
percentage, so `10%`, `%10` and `10%%` all mean ten percent.
-/

namespace Wpa

/-- `strconv.ParseUint`'s scan of decimal digits after the digits already worth `n`: the
value, or why it stops, at a character that is not a digit or at a value past `2^64 - 1`,
whichever comes first. -/
def scanDigits : List Char → Nat → Except String Nat
  | [], n => .ok n
  | c :: cs, n =>
    if c.isDigit then
      let n' := 10 * n + (c.toNat - 48)
      if n' < 18446744073709551616 then scanDigits cs n' else .error "value out of range"
    else .error "invalid syntax"

/-- `strconv.Atoi` with 64-bit `int`: an optional sign, then one or more decimal digits,
of a value in the range of `int`; otherwise the reason its `strconv.NumError` gives. -/
def atoi (s : List Char) : Except String Int :=
  let (neg, digits) : Bool × List Char := match s with
    | '-' :: cs => (true, cs)
    | '+' :: cs => (false, cs)
    | cs => (false, cs)
  if digits = [] then .error "invalid syntax" else
    (scanDigits digits 0).bind fun n =>
      let v : Int := if neg then -n else n
      if -9223372036854775808 ≤ v ∧ v < 9223372036854775808 then .ok v
      else .error "value out of range"

/-- `strconv.Quote` on text whose only characters to escape are the double quote and the
backslash (codes 34 and 92), each written after a backslash; `Quote` also escapes control
and non-printable characters, which are kept here as they are. -/
def quote (s : String) : String :=
  let dq := Char.ofNat 34
  let bs := Char.ofNat 92
  String.mk (dq :: (s.toList.flatMap fun c => if c = dq ∨ c = bs then [bs, c] else [c]) ++ [dq])

/-- `intstr.IntOrString`. -/
inductive IntOrString
  | int (v : Int32)
  | str (s : String)
  deriving DecidableEq, Repr

/-- `intstr.Parse`: an integer when `strconv.Atoi` accepts the text, kept as `int32` by
the conversion in `FromInt`, and otherwise the text. -/
def parse (val : String) : IntOrString :=
  match atoi val.toList with
  | .ok i => .int (Int32.wrap i)
  | .error _ => .str val

/-- The deprecated `getIntOrPercentValue`: the number and whether it is a percentage. Any
text is a percentage once every `%` in it is removed. -/
def getIntOrPercentValue : IntOrString → Except String (Int × Bool)
  | .int v => .ok (v.val, false)
  | .str s =>
    let digits := s.toList.filter (· ≠ '%')
    match atoi digits with
    | .ok v => .ok (v, true)
    | .error reason => .error ("invalid value " ++ quote s ++ ": strconv.Atoi: parsing " ++
        quote (String.mk digits) ++ ": " ++ reason)

/-- `intstr.GetValueFromIntOrPercent`. The library rounds `value * total / 100` in
`float64`; the exact rounding here agrees with it whenever `|value * total| ≤ 2^53`, where
the product is exact and the quotient's rounding error stays below its distance to the
next integer. -/
def getValueFromIntOrPercent (intOrPercent : IntOrString) (total : Int) (roundUp : Bool) :
    Except String Int :=
  match getIntOrPercentValue intOrPercent with
  | .error e => .error ("invalid value for IntOrString: " ++ e)
  | .ok (value, isPercent) =>
    if isPercent then
      .ok (if roundUp then ceilDiv (value * total) 100 else value * total / 100)
    else .ok value

/-- `getMaxDisruptableWorkers`: the most workers one scale down may remove. -/
def getMaxDisruptableWorkers (maxDisruption : Option String) (currentWorkers : Int32) :
    Except Abort Int32 :=
  match maxDisruption with
  | none => .error (.fatal "maxDisruption default is not being set. Exiting")
  | some s =>
    match getValueFromIntOrPercent (parse s) currentWorkers.val true with
    | .ok v => .ok (Int32.wrap v)
    | .error e => .error (.fatal ("Error calculating maxDisruptable workers, err: " ++ e))

example : getMaxDisruptableWorkers (some "10%") 20 = .ok 2 := by decide
example : getMaxDisruptableWorkers (some "4294967295") 7 = .ok (-1) := by decide

/-- Whether the text is accepted does not depend on the current count. -/
theorem getMaxDisruptableWorkers_ok_of_ok {md : Option String} {c : Int32} {v : Int32}
    (h : getMaxDisruptableWorkers md c = .ok v) (c' : Int32) :
    ∃ v', getMaxDisruptableWorkers md c' = .ok v' := by
  rcases md with _ | s
  · cases h
  · unfold getMaxDisruptableWorkers getValueFromIntOrPercent at *
    cases hs : getIntOrPercentValue (parse s) with
    | error e => simp [hs] at h
    | ok p => by_cases hp : p.2 <;> simp [hs, hp]

theorem getMaxDisruptableWorkers_of_percent {s : String} {p : Int}
    (hs : getIntOrPercentValue (parse s) = .ok (p, true)) (c : Int32) :
    getMaxDisruptableWorkers (some s) c = .ok (Int32.wrap (ceilDiv (p * c.val) 100)) := by
  simp [getMaxDisruptableWorkers, getValueFromIntOrPercent, hs]

/-- A percentage in `[0, 100]` of a non-negative count is a budget between zero and the
count. -/
theorem getMaxDisruptableWorkers_percent_mem {s : String} {p : Int}
    (hs : getIntOrPercentValue (parse s) = .ok (p, true)) (hp₀ : 0 ≤ p) (hp : p ≤ 100)
    {c : Int32} (hc : 0 ≤ c.val) :
    ∃ v, getMaxDisruptableWorkers (some s) c = .ok v ∧ 0 ≤ v.val ∧ v.val ≤ c.val := by
  have h₁ : 0 ≤ p * c.val := mul_nonneg hp₀ hc
  have h₂ : p * c.val ≤ 100 * c.val := mul_le_mul_of_nonneg_right hp hc
  have hlt := c.lt_max
  refine ⟨_, getMaxDisruptableWorkers_of_percent hs c, ?_⟩
  rw [Int32.val_wrap_of_mem] <;> simp only [ceilDiv, show (0 : Int) < 100 by decide, if_true] <;>
    omega

example : getIntOrPercentValue (parse "10%") = .ok (10, true) := by decide
example : getIntOrPercentValue (parse "%10") = .ok (10, true) := by decide

end Wpa
