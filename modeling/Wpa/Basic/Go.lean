import Mathlib.Data.Rat.Floor

/-! # The Go values the controller computes with

`int32` keeps its range as fields, and its subtraction wraps modulo `2^32`. A `float64`
is an exact rational. The controller reads floats from a policy's JSON and from a queue's
counters, multiplies and divides them in `getMinWorkers` and `isChangeTooSmall`, compares
them with zero and rounds quotients up to integers. Go rounds each product and quotient
to the nearest `float64` and the model does not, and a decimal such as `1.1` is exact here
where Go stores the nearest binary fraction; a ceiling can therefore differ by one when
the exact value lies within a few units in the last place of an integer. A call that does
not return ends the process, through `klog.Fatalf` or a nil dereference.
-/

namespace Wpa

/-- A value of Go's `int32`. -/
structure Int32 where
  val : Int
  min_le : -2147483648 ≤ val
  lt_max : val < 2147483648
  deriving DecidableEq

namespace Int32

/-- Reduce an integer modulo `2^32` into the range of `int32`, as Go's conversion
`int32(x)` from a wider integer and its wrapping arithmetic do. -/
def wrap (x : Int) : Int32 :=
  ⟨(x + 2147483648) % 4294967296 - 2147483648, by omega, by omega⟩

/-- `-2^31`, the value amd64 gives to a float-to-`int32` conversion out of range. -/
def minValue : Int32 := ⟨-2147483648, by omega, by omega⟩

instance : OfNat Int32 n := ⟨wrap n⟩
instance : Neg Int32 := ⟨fun a => wrap (-a.val)⟩
instance : Sub Int32 := ⟨fun a b => wrap (a.val - b.val)⟩
instance : LT Int32 := ⟨fun a b => a.val < b.val⟩
instance : LE Int32 := ⟨fun a b => a.val ≤ b.val⟩
instance (a b : Int32) : Decidable (a < b) := inferInstanceAs (Decidable (a.val < b.val))
instance (a b : Int32) : Decidable (a ≤ b) := inferInstanceAs (Decidable (a.val ≤ b.val))
instance : Repr Int32 := ⟨fun a _ => repr a.val⟩

@[ext] theorem ext {a b : Int32} (h : a.val = b.val) : a = b := by
  cases a; cases b; cases h; rfl

@[simp] theorem lt_iff {a b : Int32} : a < b ↔ a.val < b.val := Iff.rfl
@[simp] theorem le_iff {a b : Int32} : a ≤ b ↔ a.val ≤ b.val := Iff.rfl
@[simp] theorem val_zero : (0 : Int32).val = 0 := rfl

theorem val_wrap (x : Int) : (wrap x).val = (x + 2147483648) % 4294967296 - 2147483648 := rfl

theorem val_sub (a b : Int32) :
    (a - b).val = (a.val - b.val + 2147483648) % 4294967296 - 2147483648 := rfl

theorem val_wrap_of_mem {x : Int} (h₁ : -2147483648 ≤ x) (h₂ : x < 2147483648) :
    (wrap x).val = x := by
  rw [val_wrap]; omega

theorem val_sub_of_mem {a b : Int32} (h₁ : -2147483648 ≤ a.val - b.val)
    (h₂ : a.val - b.val < 2147483648) : (a - b).val = a.val - b.val :=
  val_wrap_of_mem h₁ h₂

/-- Subtracting a non-negative value from a non-negative one never wraps. -/
theorem val_sub_of_nonneg {a b : Int32} (ha : 0 ≤ a.val) (hb : 0 ≤ b.val) :
    (a - b).val = a.val - b.val :=
  val_sub_of_mem (by have := b.lt_max; omega) (by have := a.lt_max; omega)

/-- Go's `int32(f)` for an integral `f`, as amd64 converts it: the value when it fits,
and `-2^31` otherwise (for an infinity or NaN too, which the callers route here). -/
def ofIntOrMin (x : Int) : Int32 :=
  if h : -2147483648 ≤ x ∧ x < 2147483648 then ⟨x, h.1, h.2⟩ else minValue

theorem val_ofIntOrMin_of_mem {x : Int} (h₁ : -2147483648 ≤ x) (h₂ : x < 2147483648) :
    (ofIntOrMin x).val = x := by
  simp [ofIntOrMin, h₁, h₂]

end Int32

/-- `⌈a / b⌉` on integers, for a nonzero `b`. -/
def ceilDiv (a b : Int) : Int := if 0 < b then -((-a) / b) else -(a / -b)

theorem ceilDiv_eq_ceil {a b : Int} (hb : b ≠ 0) : ceilDiv a b = ⌈(a : ℚ) / b⌉ := by
  have key : ∀ x y : Int, 0 < y → -((-x) / y) = ⌈(x : ℚ) / y⌉ := fun x y hy => by
    lift y to ℕ using hy.le
    rw [← neg_neg ⌈(x : ℚ) / _⌉, ← Int.floor_neg, ← neg_div, ← Int.cast_neg, Int.cast_natCast,
      Rat.floor_intCast_div_natCast]
  unfold ceilDiv
  split_ifs with h
  · exact key a b h
  · have := key (-a) (-b) (by omega)
    rw [neg_neg] at this
    rw [this]
    push_cast
    rw [neg_div_neg_eq]

/-- Go's `float64`, by its exact value. -/
abbrev Float64 := ℚ

/-- Go's `int32(math.Ceil(x))` for a finite `x`. -/
def ceilToInt32 (x : Float64) : Int32 := Int32.ofIntOrMin ⌈x⌉

/-- How a call leaves the process other than by returning: `klog.Fatalf` logs and exits,
and a nil pointer dereference panics. -/
inductive Abort
  | fatal (msg : String)
  | panic (msg : String)
  deriving DecidableEq, Repr

instance instDecidableEqExcept {ε α : Type} [DecidableEq ε] [DecidableEq α] :
    DecidableEq (Except ε α)
  | .error a, .error b => decidable_of_iff (a = b) (by simp)
  | .ok a, .ok b => decidable_of_iff (a = b) (by simp)
  | .error _, .ok _ => isFalse (by simp)
  | .ok _, .error _ => isFalse (by simp)

end Wpa
