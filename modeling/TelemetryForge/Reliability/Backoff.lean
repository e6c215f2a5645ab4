import TelemetryForge.Foundation.Numbers

/-! # Backing off

The delays between attempts of the router (`retryDelay`) and of the workers (`RetryPolicy.Delay`
without jitter). -/

namespace TelemetryForge.Reliability

open Word64

/-- The delay before the next attempt, in nanoseconds. A power of two beyond the range of a
`float64` is infinite and out of range for an integer like any other large one. -/
def retryDelay (outOfRange attempt baseMS maxMS : Int) : Int :=
  let attempt := if attempt < 1 then 1 else attempt
  let baseMS := if baseMS < 1 then 500 else baseMS
  let maxMS := if maxMS < baseMS then baseMS else maxMS
  let product := roundToFloat baseMS.toNat * 2 ^ (attempt - 1).toNat
  let delay := wrap (ofFloat outOfRange product * Duration.millisecond)
  let maximum := wrap (maxMS * Duration.millisecond)
  if delay > maximum then maximum else delay

/-- The policy of a worker, without its jitter and its number of attempts. -/
structure RetryPolicy where
  baseDelay : Int
  maxDelay : Int
deriving DecidableEq

/-- `Delay` where there is no jitter. A shift drops the bits that leave the word. -/
def RetryPolicy.delay (policy : RetryPolicy) (attempt : Int) : Int :=
  let attempt := if attempt < 1 then 1 else attempt
  let delay := wrap (policy.baseDelay * 2 ^ (attempt - 1).toNat)
  if delay > policy.maxDelay then policy.maxDelay else delay

structure BacksOff (delay : Int → Int) (base maximum last : Int) : Prop where
  bounds : ∀ attempt, 1 ≤ attempt → attempt ≤ last → base ≤ delay attempt ∧ delay attempt ≤ maximum
  monotone : ∀ earlier later, 1 ≤ earlier → earlier ≤ later → later ≤ last →
    delay earlier ≤ delay later

structure Doubles (delay : Int → Int) (unit cap : Int) : Prop where
  unit_pos : 0 < unit
  fits : ∀ attempt, 1 ≤ attempt → unit * 2 ^ (attempt - 1).toNat < 2 ^ 63 →
    delay attempt = min (unit * 2 ^ (attempt - 1).toNat) cap
  overflows : ∀ attempt, 1 ≤ attempt → 2 ^ 63 ≤ unit * 2 ^ (attempt - 1).toNat →
    unit * 2 ^ (attempt - 1).toNat < 2 ^ 64 → delay attempt < unit
  small : ∀ attempt, 1 ≤ attempt → delay attempt < 2 ^ 63

theorem doubled_le {unit : Int} (positive : 0 < unit) {earlier later : Int}
    (ordered : earlier ≤ later) :
    unit * 2 ^ (earlier - 1).toNat ≤ unit * 2 ^ (later - 1).toNat := by
  have exponents : (earlier - 1).toNat ≤ (later - 1).toNat := by omega
  have powers : (2 : Int) ^ (earlier - 1).toNat ≤ 2 ^ (later - 1).toNat :=
    pow_le_pow_right₀ (by decide) exponents
  exact mul_le_mul_of_nonneg_left powers positive.le

theorem exists_carry {unit : Int} (positive : 0 < unit) (fits : unit < 2 ^ 63) {last : Int}
    (large : 2 ^ 63 ≤ unit * 2 ^ (last - 1).toNat) :
    ∃ attempt, 1 ≤ attempt ∧ attempt ≤ last ∧ 2 ^ 63 ≤ unit * 2 ^ (attempt - 1).toNat ∧
      unit * 2 ^ (attempt - 1).toNat < 2 ^ 64 := by
  have exists_ : ∃ steps : Nat, 2 ^ 63 ≤ unit * 2 ^ steps := ⟨_, large⟩
  have least := Nat.find_spec exists_
  have least_le := Nat.find_min' exists_ large
  generalize found : Nat.find exists_ = steps at least least_le
  cases steps with
  | zero => simp at least; omega
  | succ steps =>
    have before : ¬(2 ^ 63 ≤ unit * 2 ^ steps) := Nat.find_min exists_ (by omega)
    have index : ((steps : Int) + 2 - 1).toNat = steps + 1 := by omega
    refine ⟨steps + 2, by omega, by omega, ?_, ?_⟩
    · rw [index]
      exact least
    · rw [index, pow_succ, ← mul_assoc]
      omega

theorem Doubles.backsOff {delay : Int → Int} {unit cap maximum : Int}
    (doubles : Doubles delay unit cap) (ordered : unit ≤ cap) (within : cap ≤ maximum)
    {last : Int} (first : 1 ≤ last) :
    BacksOff delay unit maximum last ↔ unit * 2 ^ (last - 1).toNat < 2 ^ 63 := by
  constructor
  · intro backsOff
    by_contra large
    rw [not_lt] at large
    by_cases fits : unit < 2 ^ 63
    · rcases exists_carry doubles.unit_pos fits large with
        ⟨attempt, positive, before, carry, small⟩
      have below := doubles.overflows attempt positive carry small
      have above := (backsOff.bounds attempt positive before).1
      omega
    · have above := (backsOff.bounds 1 le_rfl first).1
      have small := doubles.small 1 le_rfl
      omega
  · intro small
    have delays : ∀ attempt, 1 ≤ attempt → attempt ≤ last →
        delay attempt = min (unit * 2 ^ (attempt - 1).toNat) cap := by
      intro attempt positive before
      have below := doubled_le doubles.unit_pos before
      exact doubles.fits attempt positive (by omega)
    constructor
    · intro attempt positive before
      have above := doubled_le doubles.unit_pos positive
      simp only [sub_self, Int.toNat_zero, pow_zero, mul_one] at above
      rw [delays attempt positive before]
      omega
    · intro earlier later positive ordered before
      have below := doubled_le doubles.unit_pos ordered
      rw [delays earlier positive (by omega), delays later (by omega) before]
      omega

variable {base : Int}

theorem retryDelay_eq (outOfRange : Int) {attempt maximum : Int} (positive : 1 ≤ attempt)
    (basePositive : 0 < base) (ordered : base ≤ maximum) :
    retryDelay outOfRange attempt base maximum =
      min (wrap (ofFloat outOfRange (roundToFloat base.toNat * 2 ^ (attempt - 1).toNat) *
        Duration.millisecond)) (wrap (maximum * Duration.millisecond)) := by
  have attemptKept : ¬attempt < 1 := by omega
  have baseKept : ¬base < 1 := by omega
  have maximumKept : ¬maximum < base := by omega
  simp only [retryDelay, if_neg attemptKept, if_neg baseKept, if_neg maximumKept]
  split <;> omega

theorem product_eq (outOfRange : Int) (positive : 0 < base) {steps : Nat}
    (small : base * Duration.millisecond * 2 ^ steps < 2 ^ 64) :
    ofFloat outOfRange (roundToFloat base.toNat * 2 ^ steps) * Duration.millisecond =
      base * Duration.millisecond * 2 ^ steps := by
  simp only [Duration.millisecond] at small ⊢
  have power : (1 : Int) ≤ 2 ^ steps := one_le_pow₀ (by decide)
  have baseBound : base ≤ base * 2 ^ steps := le_mul_of_one_le_right positive.le power
  have product : base * 1000000 * 2 ^ steps = base * 2 ^ steps * 1000000 := by ring
  rw [product] at small ⊢
  have exact : roundToFloat base.toNat = base.toNat := roundToFloat_of_lt (by omega)
  have cast : ((base.toNat * 2 ^ steps : Nat) : Int) = base * 2 ^ steps := by
    push_cast
    rw [Int.toNat_of_nonneg positive.le]
  rw [exact, ofFloat_of_lt outOfRange (by omega), cast]

theorem retryDelay_doubles (outOfRange : Int) {maximum : Int} (positive : 0 < base)
    (ordered : base ≤ maximum) :
    Doubles (fun attempt => retryDelay outOfRange attempt base maximum)
      (base * Duration.millisecond) (wrap (maximum * Duration.millisecond)) where
  unit_pos := by
    simp only [Duration.millisecond]
    omega
  fits attempt first small := by
    have nonnegative : 0 ≤ base * Duration.millisecond * 2 ^ (attempt - 1).toNat := by
      simp only [Duration.millisecond]
      positivity
    rw [retryDelay_eq outOfRange first positive ordered,
      product_eq outOfRange positive (by omega), wrap_of_lt nonnegative small]
  overflows attempt first large small := by
    rw [retryDelay_eq outOfRange first positive ordered, product_eq outOfRange positive small]
    have negative := wrap_of_carry large small
    have unitPositive : 0 < base * Duration.millisecond := by
      simp only [Duration.millisecond]
      omega
    exact (min_le_left _ _).trans_lt (negative.trans unitPositive)
  small attempt first := by
    rw [retryDelay_eq outOfRange first positive ordered]
    exact (min_le_left _ _).trans_lt (wrap_lt _)

theorem RetryPolicy.delay_eq {policy : RetryPolicy} {attempt : Int} (first : 1 ≤ attempt) :
    policy.delay attempt =
      min (wrap (policy.baseDelay * 2 ^ (attempt - 1).toNat)) policy.maxDelay := by
  have kept : ¬attempt < 1 := by omega
  simp only [delay, if_neg kept]
  split <;> omega

theorem RetryPolicy.delay_doubles {maximum : Int} (positive : 0 < base) :
    Doubles (RetryPolicy.delay ⟨base, maximum⟩) base maximum where
  unit_pos := positive
  fits attempt first small := by
    have nonnegative : 0 ≤ base * 2 ^ (attempt - 1).toNat := by positivity
    rw [delay_eq first, wrap_of_lt nonnegative small]
  overflows attempt first large small := by
    have negative := wrap_of_carry large small
    rw [delay_eq first]
    exact (min_le_left _ _).trans_lt (negative.trans positive)
  small attempt first := by
    rw [delay_eq first]
    exact (min_le_left _ _).trans_lt (wrap_lt _)

/-- Up to a given attempt the delays lie between base and maximum and never fall exactly when
the doubled base, in nanoseconds, stays in the word; the router also multiplies its maximum by
a million, and what is left of that must not be below the base. -/
theorem backsOff_iff (outOfRange : Int) {base maximum last : Int} (positive : 0 < base)
    (ordered : base ≤ maximum) (first : 1 ≤ last) :
    (BacksOff (fun attempt => retryDelay outOfRange attempt base maximum)
        (base * Duration.millisecond) (maximum * Duration.millisecond) last ↔
      base * Duration.millisecond * 2 ^ (last - 1).toNat < 2 ^ 63 ∧
        base * Duration.millisecond ≤ wrap (maximum * Duration.millisecond)) ∧
    (BacksOff (RetryPolicy.delay ⟨base, maximum⟩) base maximum last ↔
      base * 2 ^ (last - 1).toNat < 2 ^ 63) := by
  refine ⟨?_, (RetryPolicy.delay_doubles positive).backsOff ordered le_rfl first⟩
  have doubles := retryDelay_doubles outOfRange positive ordered
  have within : wrap (maximum * Duration.millisecond) ≤ maximum * Duration.millisecond := by
    apply wrap_le
    simp only [Duration.millisecond]
    omega
  by_cases capped : base * Duration.millisecond ≤ wrap (maximum * Duration.millisecond)
  · rw [doubles.backsOff capped within first, and_iff_left capped]
  · refine iff_of_false ?_ fun both => capped both.2
    intro backsOff
    have above := (backsOff.bounds 1 le_rfl first).1
    have below : retryDelay outOfRange 1 base maximum ≤ wrap (maximum * Duration.millisecond) := by
      rw [retryDelay_eq outOfRange le_rfl positive ordered]
      exact min_le_right _ _
    omega

theorem backsOff_iff_defaults :
    BacksOff (fun attempt => retryDelay (-2 ^ 63) attempt 500 30000)
        (500 * Duration.millisecond) (30000 * Duration.millisecond) 35 ∧
      BacksOff (RetryPolicy.delay ⟨250000000, 5000000000⟩) 250000000 5000000000 36 :=
  ⟨(backsOff_iff (-2 ^ 63) (by decide) (by decide) (by decide)).1.mpr (by decide),
    (backsOff_iff (-2 ^ 63) (by decide) (by decide) (by decide)).2.mpr (by decide)⟩

/-- With the default delays the router's delay for attempt 36 and a worker's for attempt 37
are negative. -/
theorem delay_negative :
    retryDelay (-2 ^ 63) 36 500 30000 < 0 ∧ RetryPolicy.delay ⟨250000000, 5000000000⟩ 37 < 0 := by
  decide

end TelemetryForge.Reliability
