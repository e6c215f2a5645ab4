import Mathlib

/-! # Fixed-width integers

The `int64` arithmetic of Go on unbounded integers: results are reduced to 64 bits, and a
number that came through a `float64` has 53 significant bits. -/

namespace TelemetryForge.Word64

def wrap (value : Int) : Int := value.bmod (2 ^ 64)

theorem wrap_lt (value : Int) : wrap value < 2 ^ 63 := by
  have upper := Int.bmod_lt (x := value) (m := 2 ^ 64) (by decide)
  rw [wrap]
  omega

theorem wrap_of_lt {value : Int} (nonnegative : 0 ≤ value) (small : value < 2 ^ 63) :
    wrap value = value := by
  rw [wrap]
  apply Int.bmod_eq_of_le <;> omega

theorem wrap_le {value : Int} (nonnegative : 0 ≤ value) : wrap value ≤ value := by
  rw [wrap, Int.bmod_def]
  split <;> omega

theorem wrap_of_carry {value : Int} (large : 2 ^ 63 ≤ value) (small : value < 2 ^ 64) :
    wrap value < 0 := by
  have negative : wrap value = value - 2 ^ 64 := by
    rw [wrap, Int.bmod_def]
    omega
  omega

def roundToFloat (value : Nat) : Nat :=
  if value < 2 ^ 53 then value
  else
    let unit := 2 ^ (value.log2 - 52)
    let quotient := value / unit
    let rest := value % unit
    if 2 * rest < unit ∨ 2 * rest = unit ∧ quotient % 2 = 0 then quotient * unit
    else (quotient + 1) * unit

/-- `int64(value)` for a `float64` that is a natural number or infinite. What a number out of
range becomes is left to the processor. -/
def ofFloat (outOfRange : Int) (value : Nat) : Int :=
  if value < 2 ^ 63 then value else outOfRange

theorem roundToFloat_of_lt {value : Nat} (small : value < 2 ^ 53) : roundToFloat value = value :=
  if_pos small

theorem ofFloat_of_lt (outOfRange : Int) {value : Nat} (small : value < 2 ^ 63) :
    ofFloat outOfRange value = value := if_pos small

end TelemetryForge.Word64

/-! ## Instants and durations

A `time.Time` as the moment it denotes, in nanoseconds since Go's zero time, and a
`time.Duration` in nanoseconds. -/

namespace TelemetryForge

namespace Duration

def millisecond : Int := 1000000

def second : Int := 1000000000

def minute : Int := 60 * second

def hour : Int := 60 * minute

def shortest : Int := -9223372036854775808

def longest : Int := 9223372036854775807

end Duration

namespace Instant

def sub (instant other : Int) : Int :=
  max Duration.shortest (min (instant - other) Duration.longest)

def unixEpoch : Int := 62135596800 * Duration.second

def unixMilli (instant : Int) : Int := (instant - unixEpoch) / Duration.millisecond

def truncate (instant duration : Int) : Int :=
  if duration ≤ 0 then instant else instant - instant % duration

theorem sub_lt_iff (instant other : Int) {duration : Int}
    (lower : Duration.shortest < duration) (upper : duration ≤ Duration.longest) :
    sub instant other < duration ↔ instant - other < duration := by
  simp only [Duration.shortest, Duration.longest] at lower upper
  simp only [sub, Duration.shortest, Duration.longest]
  omega

end Instant

abbrev ClockReading := { now : Int // 0 < now }

end TelemetryForge

/-! ## Comparing floating-point numbers

A `float64` as its bits. Finite numbers and infinities are ordered as their sign
and magnitude are; nothing is less than a NaN or greater than one. -/

namespace TelemetryForge.Float64

def magnitude (bits : UInt64) : Nat := bits.toNat % 2 ^ 63

def isNegative (bits : UInt64) : Bool := 2 ^ 63 ≤ bits.toNat

def infinity : Nat := 0x7FF0000000000000

def isNaN (bits : UInt64) : Bool := infinity < magnitude bits

def rank (bits : UInt64) : Int :=
  if isNegative bits then -(magnitude bits : Int) else magnitude bits

def less (left right : UInt64) : Bool :=
  !isNaN left && !isNaN right && rank left < rank right

def atMost (left right : UInt64) : Bool :=
  !isNaN left && !isNaN right && rank left ≤ rank right

end TelemetryForge.Float64

/-! ## Rates

The arithmetic of sample rates: an order, a product, and the fraction that a 64-bit
number is of the largest one. The engines are generic in it; the rationals are the
numbers that floating-point arithmetic approximates. -/

namespace TelemetryForge

class Rates (R : Type) extends LinearOrder R, MulZeroClass R, One R where
  zero_lt_one : (0 : R) < 1
  fraction : Nat → R

instance : Rates ℚ where
  zero_lt_one := by norm_num
  fraction value := value / (2 ^ 64 - 1)

section Clamp

variable {R : Type} [LinearOrder R]

def clamp (value low high : R) : R :=
  if value < low then low else if high < value then high else value

variable {high low : R}

theorem low_le_clamp (order : low ≤ high) (value : R) :
    low ≤ clamp value low high := by
  unfold clamp
  split_ifs with below above
  · exact le_rfl
  · exact order
  · exact not_lt.mp below

theorem clamp_le_high (order : low ≤ high) (value : R) :
    clamp value low high ≤ high := by
  unfold clamp
  split_ifs with below above
  · exact order
  · exact le_rfl
  · exact not_lt.mp above

theorem clamp_of_mem {value : R} (above : low ≤ value) (below : value ≤ high) :
    clamp value low high = value := by
  rw [clamp, if_neg (not_lt.mpr above), if_neg (not_lt.mpr below)]

theorem clamp_mono {left right : R} (order : low ≤ high) (less : left ≤ right) :
    clamp left low high ≤ clamp right low high := by
  by_cases below : left < low
  · rw [clamp, if_pos below]
    exact low_le_clamp order right
  by_cases above : high < right
  · have top : clamp right low high = high := by
      rw [clamp, if_neg (not_lt.mpr (order.trans above.le)), if_pos above]
    rw [top]
    exact clamp_le_high order left
  · rw [not_lt] at below above
    rwa [clamp_of_mem below (less.trans above), clamp_of_mem (below.trans less) above]

theorem clamp_clamp (order : low ≤ high) (value : R) :
    clamp (clamp value low high) low high = clamp value low high :=
  clamp_of_mem (low_le_clamp order value) (clamp_le_high order value)

end Clamp

end TelemetryForge
