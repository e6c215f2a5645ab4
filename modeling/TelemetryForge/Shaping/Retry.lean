import TelemetryForge.Shaping.Monotone

/-! # Shaping an event again

`AdaptiveShaper.Process` stores its decision, and a later attempt for the same event reads it
back and evaluates the event at the stored pressure and time. -/

namespace TelemetryForge.Shaping

open SortedMap Option

section Storage

variable {R : Type} [Rates R]

def Decision.key (decision : Decision R) : Bytes × Bytes × Bytes × Bytes :=
  (decision.tenantID, decision.eventID, decision.configName, decision.configVersion)

/-- The row of a decision as it is read back: renames pass through JSON, and the autonomy
multiplier is not stored. -/
def Decision.stored (decision : Decision R) : Decision R :=
  { decision with
    renamedTags := Event.rereadTags decision.renamedTags
    autonomyMultiplier := 0 }

abbrev Table (R : Type) := Bytes × Bytes × Bytes × Bytes → Option (Decision R)

def Decision.resolved (proposed : Decision R) (tenantID : Bytes) : Decision R :=
  { proposed with tenantID := if proposed.tenantID = [] then tenantID else proposed.tenantID }

/-- `ResolveShapingDecision`: the decision in force, whether it was already stored, and the
table afterwards. -/
def resolve (tenantID : Bytes) (table : Table R) (proposed : Decision R) :
    Decision R × Bool × Table R :=
  let decision := proposed.resolved tenantID
  match table decision.key with
  | some existing => (existing, true, table)
  | none => (decision, false, Function.update table decision.key (some decision.stored))

theorem resolve_some {tenantID : Bytes} {table : Table R} {proposed existing : Decision R}
    (found : table (proposed.resolved tenantID).key = some existing) :
    resolve tenantID table proposed = (existing, true, table) := by
  simp only [resolve, found]

theorem resolve_none {tenantID : Bytes} {table : Table R} {proposed : Decision R}
    (absent : table (proposed.resolved tenantID).key = none) :
    resolve tenantID table proposed = (proposed.resolved tenantID, false,
      Function.update table (proposed.resolved tenantID).key
        (some (proposed.resolved tenantID).stored)) := by
  simp only [resolve, absent]

def sameRenames (left right : SortedMap Bytes Bytes) : Bool :=
  left.entries.length == right.entries.length &&
    left.entries.all fun (key, value) => right.getD key [] == value

def sameShapingDecision (left right : Decision R) : Bool :=
  left.tenantID == right.tenantID && left.eventID == right.eventID &&
    left.source == right.source && left.eventType == right.eventType &&
    left.configName == right.configName && left.configVersion == right.configVersion &&
    left.keep == right.keep && left.guarded == right.guarded &&
    left.protectionReason == right.protectionReason &&
    decide (left.baseRate = right.baseRate) && decide (left.effectiveRate = right.effectiveRate) &&
    decide (left.queuePressure = right.queuePressure) &&
    decide (left.autonomyMultiplier = right.autonomyMultiplier) &&
    left.payloadDropped == right.payloadDropped && left.originalBytes == right.originalBytes &&
    left.shapedBytes == right.shapedBytes && left.reason == right.reason &&
    left.observedAt == right.observedAt && left.rules == right.rules &&
    left.droppedTags == right.droppedTags && sameRenames left.renamedTags right.renamedTags

end Storage

structure Attempt (R : Type) where
  now : Int
  pressure : R
  multiplier : R
  order : List (Bytes × Bytes)
  reorder : List (Bytes × Bytes)

structure Outcome where
  event : Event
  keep : Bool
deriving DecidableEq

section Process

variable {R : Type} [Rates R] [Strings] [Json.FloatText]

/-- `Process` without storage errors. -/
def process (config : Config R) (tenantID : Bytes) (attempt : Attempt R) (event : Event)
    (table : Table R) : Outcome × Table R :=
  let proposal := evaluateConfig config attempt.order event attempt.pressure attempt.now
    attempt.multiplier
  let (decision, reused, table) := resolve tenantID table proposal.2
  if reused then
    let again := evaluateConfig config attempt.reorder event decision.queuePressure
      decision.observedAt decision.autonomyMultiplier
    if sameShapingDecision decision again.2 then (⟨again.1, decision.keep⟩, table)
    else (⟨event, true⟩, table)
  else (⟨proposal.1, decision.keep⟩, table)

@[mk_iff] structure Reproducible (config : Config R) (first second : Attempt R)
    (event : Event) : Prop where
  tenant : event.tenantID ≠ []
  reason : protectionReason config.protection second.reorder event =
    protectionReason config.protection first.order event
  rate : (protectionReason config.protection first.order event).isSome = true ∨
    (evaluateConfig config first.order event first.pressure first.now
      first.multiplier).2.effectiveRate = (ratesInForce config first.order event).1
  renames : Event.rereadTags (evaluateConfig config first.order event first.pressure first.now
      first.multiplier).2.renamedTags =
    (evaluateConfig config first.order event first.pressure first.now
      first.multiplier).2.renamedTags

section Equivalence

variable {config : Config R} {first second : Attempt R} {event : Event} {tenantID : Bytes}

def evaluation (config : Config R) (attempt : Attempt R) (event : Event) : Event × Decision R :=
  evaluateConfig config attempt.order event attempt.pressure attempt.now attempt.multiplier

def reevaluation (config : Config R) (first second : Attempt R) (event : Event) :
    Event × Decision R :=
  evaluateConfig config second.reorder event (clamp first.pressure 0 1) first.now 0

omit [Strings] [Json.FloatText] in
theorem effectiveRate_clamp (pressure : PressureConfig R) (base minimum current : R) :
    effectiveRate pressure base minimum (clamp current 0 1) =
      effectiveRate pressure base minimum current := by
  simp only [effectiveRate, clamp_clamp Rates.zero_lt_one.le]

omit [Strings] [Json.FloatText] in
theorem multipliedRate_zero (guarded : Bool) {minimum : R} (least : 0 ≤ minimum) (effective : R) :
    multipliedRate guarded minimum effective 0 = if guarded then effective else minimum := by
  cases guarded with
  | true => simp [multipliedRate]
  | false =>
    simp only [multipliedRate, Rates.zero_lt_one, and_self, if_true, mul_zero,
      Bool.false_eq_true, if_false]
    split_ifs with positive
    · rfl
    · exact le_antisymm least (not_lt.mp positive)

omit [Json.FloatText] in
theorem minimum_nonneg (bounded : config.Bounded) (event : Event) (order : List (Bytes × Bytes)) :
    0 ≤ (ratesInForce config order event).1 :=
  (Progress.applyRules_rated event _ bounded.rules (Progress.start_rated bounded event)).minimum

omit R [Rates R] [Strings] [Json.FloatText] in
theorem sameRenames_iff {left right : SortedMap Bytes Bytes}
    (targets : ∀ entry ∈ left.entries, entry.2 ≠ []) :
    sameRenames left right = true ↔ left = right := by
  simp only [sameRenames, Bool.and_eq_true, beq_iff_eq, List.all_eq_true]
  constructor
  · rintro ⟨length, agree⟩
    have subset : left.entries ⊆ right.entries := by
      intro entry member
      have value := agree entry member
      rw [← right.find?_eq_some_iff]
      cases found : right.find? entry.1 with
      | none =>
        simp only [SortedMap.getD, found, Option.getD_none] at value
        exact absurd value.symm (targets entry member)
      | some other => simpa [SortedMap.getD, found] using value
    have nodup : left.entries.Nodup := List.Nodup.of_map _ left.nodup_keys
    have same := (List.subperm_of_subset nodup subset).perm_of_length_le length.ge
    apply SortedMap.ext
    intro key
    apply Option.ext
    intro value
    rw [left.find?_eq_some_iff, right.find?_eq_some_iff, same.mem_iff]
  · rintro rfl
    refine ⟨rfl, fun entry member => ?_⟩
    rw [SortedMap.getD, (left.find?_eq_some_iff entry.1 entry.2).mpr member]
    rfl

/-! ### Targets of renames -/

omit [Rates R] [Strings] [Json.FloatText] in
theorem foldl_renamed {α : Type} {step : Progress R → α → Progress R}
    (kept : ∀ progress entry, (step progress entry).renamed = progress.renamed) (entries : List α)
    (progress : Progress R) : (entries.foldl step progress).renamed = progress.renamed := by
  induction entries generalizing progress with
  | nil => rfl
  | cons entry rest induction => rw [List.foldl_cons, induction, kept]

omit [Strings] [Json.FloatText] in
theorem transform_targets {rule : Rule R} (bounded : rule.Bounded) {progress : Progress R}
    (targets : ∀ entry ∈ progress.renamed.entries, entry.2 ≠ []) :
    ∀ entry ∈ (progress.transform rule).renamed.entries, entry.2 ≠ [] := by
  have dropped : (rule.dropTags.foldl Progress.dropTag progress).renamed = progress.renamed := by
    apply foldl_renamed
    intro progress key
    unfold Progress.dropTag
    split_ifs <;> rfl
  have renamed (renames : List (Bytes × Bytes)) (valid : ∀ entry ∈ renames, entry.2 ≠ [])
      (progress : Progress R) (before : ∀ entry ∈ progress.renamed.entries, entry.2 ≠ []) :
      ∀ entry ∈ (renames.foldl Progress.renameTag progress).renamed.entries, entry.2 ≠ [] := by
    induction renames generalizing progress with
    | nil => exact before
    | cons rename rest induction =>
      rw [List.forall_mem_cons] at valid
      apply induction valid.2
      unfold Progress.renameTag
      split
      · exact before
      · intro entry member
        rcases mem_insertEntry member with rfl | member
        · exact valid.1
        · exact before entry member
  have result := renamed rule.renameTags.entries bounded.targets
    (rule.dropTags.foldl Progress.dropTag progress) (by rwa [dropped])
  simp only [Progress.transform, Progress.dropPayload]
  split_ifs <;> exact result

omit [Json.FloatText] in
theorem applyRules_targets (event : Event) (guarded : Bool) {rules : List (Rule R)}
    (bounded : ∀ rule ∈ rules, rule.Bounded) (progress : Progress R)
    (targets : ∀ entry ∈ progress.renamed.entries, entry.2 ≠ []) :
    ∀ entry ∈ (Progress.applyRules event guarded rules progress).renamed.entries, entry.2 ≠ [] := by
  induction rules generalizing progress with
  | nil => exact targets
  | cons rule rest induction =>
    rw [List.forall_mem_cons] at bounded
    have noted : (progress.note rule).renamed = progress.renamed := by
      unfold Progress.note
      split <;> rfl
    have applied : ∀ entry ∈ (progress.apply guarded rule).renamed.entries, entry.2 ≠ [] := by
      unfold Progress.apply
      dsimp only
      split_ifs
      · rwa [noted]
      · exact transform_targets bounded.1 (by rwa [noted])
    simp only [Progress.applyRules]
    split_ifs
    · exact applied
    · exact induction bounded.2 _ applied
    · exact induction bounded.2 _ targets

omit R [Rates R] [Strings] [Json.FloatText] in
theorem rereadTags_targets {renames : SortedMap Bytes Bytes}
    (targets : ∀ entry ∈ renames.entries, entry.2 ≠ []) :
    ∀ entry ∈ (Event.rereadTags renames).entries, entry.2 ≠ [] := by
  refine forall_mem_insertAll (fun entry => entry.2 ≠ []) (by simp [empty]) ?_
  intro entry member
  rcases List.mem_map.mp member with ⟨rename, isRename, rfl⟩
  simpa [Utf8.coerce_eq_nil_iff] using targets rename isRename

/-! ### The second decision -/

theorem sameShapingDecision_iff (bounded : config.Bounded) (event : Event) (named : tenantID ≠ [])
    (firstOrder : first.order.Perm config.protection.tags.entries)
    (secondOrder : second.reorder.Perm config.protection.tags.entries) :
    sameShapingDecision
        ((evaluation config first event).2.resolved tenantID).stored
        (reevaluation config first second event).2 = true ↔
      Reproducible config first second event := by
  have guarded := protectionReason_isSome config.protection
    (secondOrder.trans firstOrder.symm) event
  have least := minimum_nonneg bounded event first.order
  have targets := rereadTags_targets (applyRules_targets event
    (protectionReason config.protection first.order event).isSome bounded.rules
    (.start config event) (by simp [Progress.start, empty]))
  have tenant : (if event.tenantID = [] then tenantID else event.tenantID) = event.tenantID ↔
      event.tenantID ≠ [] := by
    split_ifs with empty <;> simp [empty, named]
  have zero : clamp (0 : R) 0 1 = 0 := clamp_of_mem le_rfl Rates.zero_lt_one.le
  have rate := multipliedRate_zero
    (protectionReason config.protection first.order event).isSome least (effectiveRate config.pressure (ratesInForce config first.order event).2
      (ratesInForce config first.order event).1 first.pressure)
  simp only [ratesInForce] at rate
  simp only [sameShapingDecision, Decision.stored, Decision.resolved, evaluation, reevaluation,
    evaluateConfig, guarded, effectiveRate_clamp, clamp_clamp Rates.zero_lt_one.le, rate, zero, Bool.and_eq_true,
    beq_iff_eq, decide_eq_true_eq, sameRenames_iff targets, and_true]
  simp only [reproducible_iff, evaluateConfig, ratesInForce]
  cases firstReason : protectionReason config.protection first.order event with
  | some reason =>
    obtain ⟨other, otherReason⟩ :
        ∃ other, protectionReason config.protection second.reorder event = some other := by
      rw [firstReason] at guarded
      exact isSome_iff_exists.mp guarded
    simp only [otherReason, isSome_some, getD_some, Bool.true_or, if_true,
      multipliedRate, Bool.true_eq_false, false_and, if_false, true_or, true_and, and_true,
      List.append_cancel_left_eq, some.injEq]
    constructor
    · rintro ⟨⟨⟨resolved, same⟩, _⟩, renames⟩
      exact ⟨tenant.mp resolved, same.symm, renames⟩
    · rintro ⟨present, same, renames⟩
      exact ⟨⟨⟨tenant.mpr present, same.symm⟩, same.symm⟩, renames⟩
  | none =>
    have otherReason : protectionReason config.protection second.reorder event = none := by
      rw [firstReason] at guarded
      simpa using guarded
    simp only [otherReason, isSome_none, getD_none, Bool.false_or,
      Bool.false_eq_true, if_false, false_or, true_and, and_true]
    constructor
    · rintro ⟨⟨⟨⟨resolved, _⟩, rate⟩, _⟩, renames⟩
      exact ⟨tenant.mp resolved, rate, renames⟩
    · rintro ⟨present, rate, renames⟩
      refine ⟨⟨⟨⟨tenant.mpr present, ?_⟩, rate⟩, ?_⟩, renames⟩
      · rw [rate]
      · simp only [rate]

end Equivalence

end Process

/-- The second attempt ends as the first one did exactly when the stored decision can be
reproduced, or the first attempt kept the event as it was. -/
theorem retry_iff {R : Type} [Rates R] [Strings] [Json.FloatText] (config : Config R)
    (valid : config.validate = .ok ()) (event : Event) (tenantID : Bytes) (named : tenantID ≠ [])
    (first second : Attempt R) (firstOrder : first.order.Perm config.protection.tags.entries)
    (secondOrder : second.reorder.Perm config.protection.tags.entries) (table : Table R)
    (stored : (resolve tenantID table (evaluation config first event).2).2.1 = false) :
    let before := process config tenantID first event table
    (process config tenantID second event before.2).1 = before.1 ↔
      Reproducible config first second event ∨ before.1.keep = true ∧ before.1.event = event := by
  intro before
  have same := sameShapingDecision_iff (Config.bounded valid) event named firstOrder secondOrder
  let decision := (evaluation config first event).2.resolved tenantID
  have absent : table decision.key = none := by
    cases found : table decision.key with
    | none => rfl
    | some existing =>
      rw [resolve_some found] at stored
      cases stored
  have isBefore : before = (⟨(evaluation config first event).1, decision.keep⟩,
      Function.update table decision.key (some decision.stored)) := by
    have resolved := resolve_none absent
    simp only [evaluation] at resolved
    simp only [before, process, resolved]
    rfl
  -- The proposal of the second attempt has the key of the stored decision.
  have again : resolve tenantID before.2 (evaluation config second event).2 =
      (decision.stored, true, before.2) := by
    apply resolve_some
    rw [isBefore]
    exact Function.update_self ..
  have unshaped : (reevaluation config first second event).1 = (evaluation config first event).1 := by
    simp only [reevaluation, evaluation, evaluateConfig,
      protectionReason_isSome config.protection (secondOrder.trans firstOrder.symm) event]
  have after : (process config tenantID second event before.2).1 =
      if sameShapingDecision decision.stored (reevaluation config first second event).2 then
        ⟨(evaluation config first event).1, decision.keep⟩
      else ⟨event, true⟩ := by
    simp only [process]
    rw [show evaluateConfig config second.order event second.pressure second.now
      second.multiplier = evaluation config second event from rfl, again, ← unshaped]
    change (if sameShapingDecision decision.stored (reevaluation config first second event).2 then
      ((⟨(reevaluation config first second event).1, decision.keep⟩, before.2) : Outcome × Table R)
      else (⟨event, true⟩, before.2)).1 = _
    split_ifs with equal
    · rfl
    · rfl
  rw [after, isBefore]
  dsimp only
  by_cases reproducible : Reproducible config first second event
  · rw [if_pos (same.mpr reproducible)]
    simp [reproducible]
  · rw [if_neg (fun holds => reproducible (same.mp holds))]
    simp only [reproducible, false_or, Outcome.mk.injEq]
    constructor
    · rintro ⟨event, keep⟩
      exact ⟨keep.symm, event.symm⟩
    · rintro ⟨keep, event⟩
      exact ⟨event.symm, keep.symm⟩

namespace Sample

def calm : Attempt ℚ := ⟨1, 0, 1, [], []⟩

def emptyTable : Table ℚ := fun _ => none

def urgent : Event := { event with tenantID := ascii "acme" }

def routine : Event := { urgent with type := ascii "debug" }

end Sample

theorem retry_iff_sample : letI := Sample.strings
    letI := Sample.floatText
    Reproducible Sample.config Sample.calm Sample.calm Sample.urgent ∧
      let before := process Sample.config (ascii "acme") Sample.calm Sample.urgent Sample.emptyTable
      (process Sample.config (ascii "acme") Sample.calm Sample.urgent before.2).1 = before.1 := by
  let _ := Sample.strings
  let _ := Sample.floatText
  have reproducible : Reproducible Sample.config Sample.calm Sample.calm Sample.urgent := by
    constructor <;> decide +kernel
  refine ⟨reproducible, ?_⟩
  exact (retry_iff Sample.config (by decide +kernel) Sample.urgent (ascii "acme")
    (by decide +kernel) Sample.calm Sample.calm (.refl _) (.refl _) Sample.emptyTable
    (by decide +kernel)).mpr (.inl reproducible)

/-- The first attempt drops the tag, and the second one returns the event as it came. -/
theorem retry_returns_original : letI := Sample.strings
    letI := Sample.floatText
    let before := process Sample.config (ascii "acme") Sample.calm Sample.routine Sample.emptyTable
    before.1 = ⟨{ Sample.routine with tags := .empty }, true⟩ ∧
      (process Sample.config (ascii "acme") Sample.calm Sample.routine before.2).1 =
        ⟨Sample.routine, true⟩ := by
  decide +kernel

end TelemetryForge.Shaping
