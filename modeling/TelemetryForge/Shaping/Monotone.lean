import TelemetryForge.Shaping.Engine

/-! # Sample rates under pressure

With rates read as exact rationals: the effective rate stays between the minimum and the
base rate, falls with pressure and rises with the multiplier, and protected events are
neither dropped nor changed. -/

namespace TelemetryForge.Shaping

namespace Progress

variable {R : Type}

@[simp] theorem dropTag_rates (progress : Progress R) (key : Bytes) :
    (progress.dropTag key).rate = progress.rate ∧
      (progress.dropTag key).minRate = progress.minRate := by
  unfold dropTag
  split_ifs <;> exact ⟨rfl, rfl⟩

@[simp] theorem renameTag_rates (progress : Progress R) (rename : Bytes × Bytes) :
    (progress.renameTag rename).rate = progress.rate ∧
      (progress.renameTag rename).minRate = progress.minRate := by
  unfold renameTag
  split <;> exact ⟨rfl, rfl⟩

theorem foldl_rates {α : Type} {step : Progress R → α → Progress R}
    (kept : ∀ progress entry, (step progress entry).rate = progress.rate ∧
      (step progress entry).minRate = progress.minRate) (entries : List α) (progress : Progress R) :
    (entries.foldl step progress).rate = progress.rate ∧
      (entries.foldl step progress).minRate = progress.minRate := by
  induction entries generalizing progress with
  | nil => exact ⟨rfl, rfl⟩
  | cons entry rest induction =>
    have later := induction (step progress entry)
    rwa [(kept progress entry).1, (kept progress entry).2] at later

theorem transform_rates (progress : Progress R) (rule : Rule R) :
    (progress.transform rule).rate = progress.rate ∧
      (progress.transform rule).minRate = progress.minRate := by
  have dropped := foldl_rates dropTag_rates rule.dropTags progress
  have renamed := foldl_rates renameTag_rates rule.renameTags.entries
    (rule.dropTags.foldl dropTag progress)
  rw [dropped.1, dropped.2] at renamed
  simp only [transform, dropPayload]
  split_ifs <;> exact renamed

structure Rated [Rates R] (progress : Progress R) : Prop where
  minimum : 0 ≤ progress.minRate
  ordered : progress.minRate ≤ progress.rate
  rate : progress.rate ≤ 1

variable [Rates R]

variable {progress : Progress R}

theorem note_rated (rated : progress.Rated) {rule : Rule R}
    (bounded : rule.Bounded) : (progress.note rule).Rated := by
  unfold note
  split
  · exact ⟨rated.minimum, rated.ordered, rated.rate⟩
  · rename_i rate sampled
    exact ⟨bounded.minimum, bounded.below rate sampled, (bounded.rate rate sampled).2⟩

theorem apply_rated (rated : progress.Rated) {rule : Rule R}
    (bounded : rule.Bounded) (guarded : Bool) : (progress.apply guarded rule).Rated := by
  have noted := note_rated rated bounded
  unfold apply
  dsimp only
  split_ifs
  · exact noted
  · rcases transform_rates (progress.note rule) rule with ⟨rate, minRate⟩
    exact ⟨by rw [minRate]; exact noted.minimum, by rw [minRate, rate]; exact noted.ordered,
      by rw [rate]; exact noted.rate⟩

theorem applyRules_rated [Strings] (event : Event) (guarded : Bool) {rules : List (Rule R)}
    (bounded : ∀ rule ∈ rules, rule.Bounded) (rated : progress.Rated) :
    (applyRules event guarded rules progress).Rated := by
  induction rules generalizing progress with
  | nil => exact rated
  | cons rule rest induction =>
    rw [List.forall_mem_cons] at bounded
    have applied := apply_rated rated bounded.1 guarded
    simp only [applyRules]
    split_ifs
    · exact applied
    · exact induction bounded.2 applied
    · exact induction bounded.2 rated

theorem start_rated {config : Config R} (bounded : config.Bounded) (event : Event) :
    (start config event).Rated :=
  ⟨le_rfl, bounded.default.1, bounded.default.2⟩

omit [Rates R] in
theorem applyRules_shaped [Strings] {event : Event} {rules : List (Rule R)}
    (unshaped : ∀ rule ∈ rules, ruleMatches rule event = true → rule.shapeProtected = false)
    (progress : Progress R) : (applyRules event true rules progress).shaped = progress.shaped := by
  induction rules generalizing progress with
  | nil => rfl
  | cons rule rest induction =>
    rw [List.forall_mem_cons] at unshaped
    simp only [applyRules]
    split_ifs with matching stop
    all_goals try rw [induction unshaped.2]
    all_goals
      simp only [apply, unshaped.1 matching, Bool.not_false, Bool.and_self, if_true, note]
      split <;> rfl

end Progress

theorem protectionReason_isSome [Strings] (protection : Protection)
    {order other : List (Bytes × Bytes)} (same : order.Perm other) (event : Event) :
    (protectionReason protection order event).isSome =
      (protectionReason protection other event).isSome := by
  have found : (protectingTag event order).isSome = (protectingTag event other).isSome := by
    rw [protectingTag, protectingTag, Bool.eq_iff_iff, List.find?_isSome, List.find?_isSome]
    exact ⟨fun ⟨entry, member, matching⟩ => ⟨entry, same.mem_iff.mp member, matching⟩,
      fun ⟨entry, member, matching⟩ => ⟨entry, same.mem_iff.mpr member, matching⟩⟩
  unfold protectionReason
  dsimp only
  split_ifs
  · rfl
  · rfl
  split
  · rfl
  cases first : protectingTag event order <;> cases second : protectingTag event other <;>
    simp_all

section Rational

variable {pressure : PressureConfig ℚ} {base minimum : ℚ}

def pressureFactor (pressure : PressureConfig ℚ) (current : ℚ) : ℚ :=
  if pressure.enabled = false ∨ current < pressure.highWatermark then 1
  else if pressure.criticalWatermark ≤ current then pressure.criticalFactor
  else pressure.highFactor

section

variable (bounded : pressure.enabled = true → pressure.Bounded)
include bounded

theorem pressureFactor_mem (current : ℚ) :
    0 < pressureFactor pressure current ∧ pressureFactor pressure current ≤ 1 := by
  unfold pressureFactor
  split_ifs with calm critical
  · norm_num
  all_goals
    simp only [not_or, Bool.not_eq_false] at calm
    have factors := bounded calm.1
  · exact ⟨factors.critical.1, factors.critical.2.trans factors.high.2⟩
  · exact factors.high

theorem pressureFactor_antitone
    {lower higher : ℚ} (less : lower ≤ higher) :
    pressureFactor pressure higher ≤ pressureFactor pressure lower := by
  by_cases calm : pressure.enabled = false ∨ lower < pressure.highWatermark
  · have top : pressureFactor pressure lower = 1 := if_pos calm
    rw [top]
    exact (pressureFactor_mem bounded higher).2
  · simp only [not_or, Bool.not_eq_false, not_lt] at calm
    have factors := bounded calm.1
    have high : pressure.highWatermark ≤ higher := calm.2.trans less
    simp only [pressureFactor, calm.1, Bool.true_eq_false, false_or, not_lt.mpr calm.2,
      not_lt.mpr high, if_false]
    by_cases below : pressure.criticalWatermark ≤ lower
    · rw [if_pos below, if_pos (below.trans less)]
    · rw [if_neg below]
      split_ifs
      · exact factors.critical.2
      · exact le_rfl

theorem effectiveRate_eq
    (least : 0 ≤ minimum) (ordered : minimum ≤ base) (most : base ≤ 1) (current : ℚ) :
    effectiveRate pressure base minimum current =
      max minimum (base * pressureFactor pressure (clamp current 0 1)) := by
  have positive : 0 ≤ base := least.trans ordered
  have factor := pressureFactor_mem bounded (clamp current 0 1)
  unfold effectiveRate
  dsimp only
  rw [clamp_of_mem positive most, clamp_of_mem least ordered]
  by_cases calm : pressure.enabled = false ∨ clamp current 0 1 < pressure.highWatermark
  · have top : pressureFactor pressure (clamp current 0 1) = 1 := if_pos calm
    rw [if_pos calm, top, mul_one, max_eq_right ordered]
  · have scaled : pressureFactor pressure (clamp current 0 1) = _ := if_neg calm
    rw [if_neg calm, ← scaled]
    have product : base * pressureFactor pressure (clamp current 0 1) ≤ base :=
      mul_le_of_le_one_right positive factor.2
    rw [show (if base * pressureFactor pressure (clamp current 0 1) < minimum then minimum
        else base * pressureFactor pressure (clamp current 0 1)) =
          max minimum (base * pressureFactor pressure (clamp current 0 1)) from
        (max_def_lt' _ _).symm]
    exact clamp_of_mem (least.trans (le_max_left _ _))
      (max_le (ordered.trans most) (product.trans most))

end

theorem multipliedRate_eq (minimum : ℚ) (guarded : Bool) {effective : ℚ} (ordered : minimum ≤ effective)
    {multiplier : ℚ} (most : multiplier ≤ 1) :
    multipliedRate guarded minimum effective multiplier =
      if guarded then effective else max minimum (effective * multiplier) := by
  unfold multipliedRate
  cases guarded with
  | true => simp
  | false =>
    by_cases less : multiplier < 1
    · simp only [less, and_self, if_true, Bool.false_eq_true, if_false]
      exact (max_def_lt' _ _).symm
    · obtain rfl : multiplier = 1 := le_antisymm most (not_lt.mp less)
      simp [max_eq_right ordered]

theorem deterministicKeep_mono {event : Event} {config : Config ℚ} {lower higher : ℚ}
    (less : lower ≤ higher) (kept : deterministicKeep event config lower = true) :
    deterministicKeep event config higher = true := by
  unfold deterministicKeep at kept ⊢
  split_ifs at kept with low high
  · have top : 1 ≤ higher := high.trans less
    rw [if_neg (by linarith), if_pos top]
  · rw [if_neg (by linarith)]
    split_ifs
    · rfl
    · simp only [decide_eq_true_eq] at kept ⊢
      exact kept.trans_le less

end Rational

section Decisions

variable [Strings] [Json.FloatText] {config : Config ℚ} {order other : List (Bytes × Bytes)}
  {event : Event}

def progressFor (config : Config ℚ) (event : Event) (guarded : Bool) : Progress ℚ :=
  .applyRules event guarded config.rules (.start config event)

omit [Json.FloatText] in
theorem progressFor_rated (bounded : config.Bounded) (event : Event) (guarded : Bool) :
    (progressFor config event guarded).Rated :=
  Progress.applyRules_rated event guarded bounded.rules (Progress.start_rated bounded event)

omit [Json.FloatText] in
def scaledRate (config : Config ℚ) (event : Event) (guarded : Bool) (pressure multiplier : ℚ) : ℚ :=
  let progress := progressFor config event guarded
  let pressed := max progress.minRate
    (progress.rate * pressureFactor config.pressure (clamp pressure 0 1))
  if guarded then pressed else max progress.minRate (pressed * clamp multiplier 0 1)

theorem effectiveRate_evaluate (bounded : config.Bounded) (order : List (Bytes × Bytes))
    (event : Event) (pressure : ℚ) (now : Int) (multiplier : ℚ) :
    (evaluateConfig config order event pressure now multiplier).2.effectiveRate =
      scaledRate config event (protectionReason config.protection order event).isSome pressure
        multiplier := by
  have rated := progressFor_rated bounded event
    (protectionReason config.protection order event).isSome
  have pressed := effectiveRate_eq bounded.pressure rated.minimum rated.ordered rated.rate pressure
  have multiplied := multipliedRate_eq (progressFor config event
      (protectionReason config.protection order event).isSome).minRate
    (protectionReason config.protection order event).isSome
    (le_max_left _ ((progressFor config event
      (protectionReason config.protection order event).isSome).rate *
        pressureFactor config.pressure (clamp pressure 0 1)))
    (clamp_le_high (by norm_num : (0 : ℚ) ≤ 1) multiplier)
  rw [← pressed] at multiplied
  rw [scaledRate, ← pressed]
  exact multiplied

omit [Json.FloatText] in
theorem scaledRate_mem (bounded : config.Bounded) (event : Event) (guarded : Bool) (pressure multiplier : ℚ) :
    (progressFor config event guarded).minRate ≤
        scaledRate config event guarded pressure multiplier ∧
      scaledRate config event guarded pressure multiplier ≤
        (progressFor config event guarded).rate := by
  have rated := progressFor_rated bounded event guarded
  have factor := pressureFactor_mem bounded.pressure (clamp pressure 0 1)
  have positive := rated.minimum.trans rated.ordered
  have pressed := mul_le_of_le_one_right positive factor.2
  have unit : (0 : ℚ) ≤ 1 := by norm_num
  unfold scaledRate
  dsimp only
  split_ifs
  · exact ⟨le_max_left _ _, max_le rated.ordered pressed⟩
  · refine ⟨le_max_left _ _, max_le rated.ordered ?_⟩
    refine (mul_le_of_le_one_right ?_ (clamp_le_high unit multiplier)).trans
      (max_le rated.ordered pressed)
    exact rated.minimum.trans (le_max_left _ _)

omit [Json.FloatText] in
theorem scaledRate_mono (bounded : config.Bounded) (event : Event) (guarded : Bool)
    {pressure pressure' multiplier multiplier' : ℚ} (calmer : pressure' ≤ pressure)
    (raised : multiplier ≤ multiplier') :
    scaledRate config event guarded pressure multiplier ≤
      scaledRate config event guarded pressure' multiplier' := by
  have rated := progressFor_rated bounded event guarded
  have unit : (0 : ℚ) ≤ 1 := by norm_num
  have factor := pressureFactor_antitone bounded.pressure (clamp_mono unit calmer)
  have pressed := max_le_max_left (progressFor config event guarded).minRate
    (mul_le_mul_of_nonneg_left factor (rated.minimum.trans rated.ordered))
  unfold scaledRate
  dsimp only
  split_ifs
  · exact pressed
  · apply max_le_max_left
    exact mul_le_mul pressed (clamp_mono unit raised) (low_le_clamp unit multiplier)
      (rated.minimum.trans (le_max_left _ _))

end Decisions

/-- Under a valid configuration the effective rate lies between the rates in force; less
pressure or a higher multiplier keeps what was kept; and a protected event is kept, and
unchanged unless a matching rule shapes protected events. -/
theorem evaluate_monotone [Strings] [Json.FloatText] (config : Config ℚ)
    (valid : config.validate = .ok ()) (event : Event) (order : List (Bytes × Bytes))
    (isOrder : order.Perm config.protection.tags.entries) (pressure multiplier : ℚ) (now : Int) :
    let result := evaluateConfig config order event pressure now multiplier
    let rates := ratesInForce config order event
    (rates.1 ≤ result.2.effectiveRate ∧ result.2.effectiveRate ≤ rates.2) ∧
    (∀ (pressure' multiplier' : ℚ) (now' : Int) (order' : List (Bytes × Bytes)),
      order'.Perm config.protection.tags.entries → pressure' ≤ pressure →
      multiplier ≤ multiplier' → result.2.keep = true →
        (evaluateConfig config order' event pressure' now' multiplier').2.keep = true) ∧
    (result.2.guarded = true → result.2.keep = true) ∧
    (result.2.guarded = true →
      (∀ rule ∈ config.rules, ruleMatches rule event = true → rule.shapeProtected = false) →
        result.1 = event) := by
  have bounded := Config.bounded valid
  refine ⟨?_, ?_, ?_, ?_⟩
  · have members := scaledRate_mem bounded event
      (protectionReason config.protection order event).isSome pressure multiplier
    rw [← effectiveRate_evaluate bounded order event pressure now multiplier] at members
    exact members
  · intro pressure' multiplier' now' order' isOrder' calmer raised kept
    have same := protectionReason_isSome config.protection (isOrder'.trans isOrder.symm) event
    have before := effectiveRate_evaluate bounded order event pressure now multiplier
    have after := effectiveRate_evaluate bounded order' event pressure' now' multiplier'
    have risen := scaledRate_mono bounded event
      (protectionReason config.protection order event).isSome calmer raised
    rw [← before, ← same, ← after] at risen
    simp only [evaluateConfig, Bool.or_eq_true] at kept risen ⊢
    rcases kept with guarded | sampled
    · exact .inl (same.trans guarded)
    · exact .inr (deterministicKeep_mono risen sampled)
  · intro guarded
    simp only [evaluateConfig] at guarded ⊢
    simp [guarded]
  · intro guarded unshaped
    simp only [evaluateConfig] at guarded ⊢
    rw [guarded]
    exact Progress.applyRules_shaped unshaped _

namespace Sample

@[reducible] def strings : Strings where
  toLower := lowercase
  equalFold left right := lowercase left == lowercase right
  pathMatch pattern name := some (pattern == name)

@[reducible] def floatText : Json.FloatText := .ofBits

def rule : Rule ℚ where
  name := ascii "debug"
  tenant := []
  source := []
  type := ascii "*"
  severity := []
  tags := .empty
  sampleRate := some (3 / 4)
  minSampleRate := 1 / 8
  dropTags := [ascii "host"]
  renameTags := .empty
  payloadMaxBytes := 0
  payloadAction := []
  shapeProtected := false
  stop := false

def config : Config ℚ where
  name := ascii "default"
  version := ascii "1"
  defaultSampleRate := 1
  protection := ⟨true, [], [], .empty, 0⟩
  pressure := ⟨true, 7 / 10, 9 / 10, 1 / 2, 1 / 4⟩
  rules := [rule]

def event : Event :=
  { Event.zero with
    id := ascii "e1", source := ascii "api", type := ascii "error"
    tags := SortedMap.empty.insert (ascii "host") (ascii "h1") }

end Sample

theorem evaluate_monotone_sample :
    @Config.validate ℚ _ Sample.strings Sample.config = .ok () ∧
      (@evaluateConfig ℚ _ Sample.strings Sample.floatText Sample.config [] Sample.event 1 0
        (1 / 2)).1 = Sample.event :=
  ⟨by decide +kernel,
    (@evaluate_monotone Sample.strings Sample.floatText Sample.config (by decide +kernel)
      Sample.event [] (.refl _) 1 (1 / 2) 0).2.2.2 (by decide +kernel) (by decide +kernel)⟩

end TelemetryForge.Shaping
