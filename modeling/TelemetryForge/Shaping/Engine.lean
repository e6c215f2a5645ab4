import TelemetryForge.Domain.Event
import TelemetryForge.Foundation.Numbers
import TelemetryForge.Foundation.Result
import TelemetryForge.Foundation.Digest

/-! # Shaping configurations

`shaping.Config`, its validation, and which events a rule or a protection applies to. -/

namespace TelemetryForge.Shaping

structure Protection where
  errors : Bool
  severities : List Bytes
  types : List Bytes
  tags : SortedMap Bytes Bytes
  latencyThresholdMS : UInt64
deriving DecidableEq

structure PressureConfig (R : Type) where
  enabled : Bool
  highWatermark : R
  criticalWatermark : R
  highFactor : R
  criticalFactor : R
deriving DecidableEq

structure Rule (R : Type) where
  name : Bytes
  tenant : Bytes
  source : Bytes
  type : Bytes
  severity : List Bytes
  tags : SortedMap Bytes Bytes
  sampleRate : Option R
  minSampleRate : R
  dropTags : List Bytes
  renameTags : SortedMap Bytes Bytes
  payloadMaxBytes : Int
  payloadAction : Bytes
  shapeProtected : Bool
  stop : Bool
deriving DecidableEq

structure Config (R : Type) where
  name : Bytes
  version : Bytes
  defaultSampleRate : R
  protection : Protection
  pressure : PressureConfig R
  rules : List (Rule R)
deriving DecidableEq

def payloadKeep : Bytes := ascii "keep"

def payloadDrop : Bytes := ascii "drop"

def maxConfigIdentityLength : Nat := 128

def maxRules : Nat := 256

def maxRuleNameLength : Nat := 128

def maxRuleTagMatchers : Nat := 128

def maxRuleTransforms : Nat := 128

inductive ConfigError
  | nameRequired
  | nameTooLong
  | versionRequired
  | versionTooLong
  | tooManyRules (count : Nat)
  | defaultSampleRate
  | highWatermark
  | criticalWatermark
  | highFactor
  | criticalFactor
  | protectionType (pattern : Bytes)
  | protectionTagKey
  | protectionTag (key pattern : Bytes)
  | ruleNameRequired (index : Nat)
  | ruleNameTooLong (rule : Bytes)
  | tooManyTagMatchers (rule : Bytes)
  | tooManyTransforms (rule : Bytes)
  | duplicateRule (rule : Bytes)
  | rulePattern (rule pattern : Bytes)
  | ruleTagKey (rule : Bytes)
  | sampleRate (rule : Bytes)
  | minSampleRate (rule : Bytes)
  | minAboveSampleRate (rule : Bytes)
  | payloadMaxBytes (rule : Bytes)
  | payloadAction (rule : Bytes)
  | emptyDropTag (rule : Bytes)
  | invalidRename (rule source target : Bytes)
  | dropAndRename (rule tag : Bytes)
  | duplicateTarget (rule target : Bytes)
deriving DecidableEq

section Validation

variable {R : Type} [Rates R] [Strings]

omit [Strings] in
def PressureConfig.validate (pressure : PressureConfig R) : Except ConfigError Unit :=
  if pressure.enabled = false then .ok ()
  else do
    refuse (pressure.highWatermark ≤ 0 ∨ 1 ≤ pressure.highWatermark) .highWatermark
    refuse (pressure.criticalWatermark ≤ pressure.highWatermark ∨ 1 < pressure.criticalWatermark)
      .criticalWatermark
    refuse (pressure.highFactor ≤ 0 ∨ 1 < pressure.highFactor) .highFactor
    refuse (pressure.criticalFactor ≤ 0 ∨ pressure.highFactor < pressure.criticalFactor)
      .criticalFactor

section

omit R [Rates R]

def checkGlob (pattern : Bytes) (error : ConfigError) : Except ConfigError Unit :=
  refuse (isValidGlob pattern = false) error

def checkTag (entry : Bytes × Bytes) (blank error : ConfigError) : Except ConfigError Unit := do
  refuse (trimSpace entry.1 = []) blank
  checkGlob entry.2 error

def Protection.validate (protection : Protection) : Except ConfigError Unit := do
  protection.types.forM fun pattern => checkGlob pattern (.protectionType pattern)
  protection.tags.entries.forM fun entry =>
    checkTag entry .protectionTagKey (.protectionTag entry.1 entry.2)

end

omit R [Rates R] [Strings] in
def checkRenames (rule : Bytes) (dropped : List Bytes) :
    (targets : List Bytes) → List (Bytes × Bytes) → Except ConfigError Unit
  | _, [] => .ok ()
  | targets, (source, target) :: rest => do
    let source := trimSpace source
    let target := trimSpace target
    refuse (source = [] ∨ target = [] ∨ source = target) (.invalidRename rule source target)
    refuse (source ∈ dropped) (.dropAndRename rule source)
    refuse (target ∈ targets) (.duplicateTarget rule target)
    checkRenames rule dropped (target :: targets) rest

omit [Strings] in
def Rule.checkRates (rule : Rule R) : Except ConfigError Unit := do
  refuse (∃ rate ∈ rule.sampleRate, rate < 0 ∨ 1 < rate) (.sampleRate rule.name)
  refuse (rule.minSampleRate < 0 ∨ 1 < rule.minSampleRate) (.minSampleRate rule.name)
  refuse (∃ rate ∈ rule.sampleRate, rate < rule.minSampleRate) (.minAboveSampleRate rule.name)

def Rule.validate (rule : Rule R) (index : Nat) (seen : List Bytes) : Except ConfigError Unit := do
  refuse (trimSpace rule.name = []) (.ruleNameRequired index)
  refuse (maxRuleNameLength < rule.name.length) (.ruleNameTooLong rule.name)
  refuse (maxRuleTagMatchers < rule.tags.entries.length) (.tooManyTagMatchers rule.name)
  refuse (maxRuleTransforms < rule.dropTags.length + rule.renameTags.entries.length)
    (.tooManyTransforms rule.name)
  refuse (rule.name ∈ seen) (.duplicateRule rule.name)
  [rule.tenant, rule.source, rule.type].forM fun pattern =>
    checkGlob pattern (.rulePattern rule.name pattern)
  rule.tags.entries.forM fun entry =>
    checkTag entry (.ruleTagKey rule.name) (.rulePattern rule.name entry.2)
  rule.checkRates
  refuse (rule.payloadMaxBytes < 0) (.payloadMaxBytes rule.name)
  refuse (rule.payloadAction ≠ [] ∧ rule.payloadAction ≠ payloadKeep ∧
    rule.payloadAction ≠ payloadDrop) (.payloadAction rule.name)
  rule.dropTags.forM fun key => refuse (trimSpace key = []) (.emptyDropTag rule.name)
  checkRenames rule.name (rule.dropTags.map trimSpace) [] rule.renameTags.entries

def validateRules : (index : Nat) → (seen : List Bytes) → List (Rule R) →
    Except ConfigError Unit
  | _, _, [] => .ok ()
  | index, seen, rule :: rest => do
    rule.validate index seen
    validateRules (index + 1) (rule.name :: seen) rest

def Config.validate (config : Config R) : Except ConfigError Unit := do
  refuse (trimSpace config.name = []) .nameRequired
  refuse (maxConfigIdentityLength < config.name.length) .nameTooLong
  refuse (trimSpace config.version = []) .versionRequired
  refuse (maxConfigIdentityLength < config.version.length) .versionTooLong
  refuse (maxRules < config.rules.length) (.tooManyRules config.rules.length)
  refuse (config.defaultSampleRate < 0 ∨ 1 < config.defaultSampleRate) .defaultSampleRate
  config.pressure.validate
  config.protection.validate
  validateRules 0 [] config.rules

structure Rule.Bounded (rule : Rule R) : Prop where
  rate : ∀ rate ∈ rule.sampleRate, 0 ≤ rate ∧ rate ≤ 1
  minimum : 0 ≤ rule.minSampleRate
  below : ∀ rate ∈ rule.sampleRate, rule.minSampleRate ≤ rate
  targets : ∀ entry ∈ rule.renameTags.entries, entry.2 ≠ []

structure PressureConfig.Bounded (pressure : PressureConfig R) : Prop where
  watermarks : pressure.highWatermark < pressure.criticalWatermark
  high : 0 < pressure.highFactor ∧ pressure.highFactor ≤ 1
  critical : 0 < pressure.criticalFactor ∧ pressure.criticalFactor ≤ pressure.highFactor

structure Config.Bounded (config : Config R) : Prop where
  default : 0 ≤ config.defaultSampleRate ∧ config.defaultSampleRate ≤ 1
  pressure : config.pressure.enabled = true → config.pressure.Bounded
  rules : ∀ rule ∈ config.rules, rule.Bounded

omit [Strings] in
theorem PressureConfig.bounded {pressure : PressureConfig R} (valid : pressure.validate = .ok ())
    (enabled : pressure.enabled = true) : pressure.Bounded := by
  simp only [validate, enabled, Bool.true_eq_false, if_false, andThen_eq_ok, refuse_eq_ok,
    not_or, not_le, not_lt] at valid
  rcases valid with ⟨_, ⟨watermarks, _⟩, high, critical⟩
  exact ⟨watermarks, high, critical⟩

omit R [Rates R] [Strings] in
theorem targets_of_checkRenames {rule : Bytes} {dropped targets : List Bytes}
    {renames : List (Bytes × Bytes)} (valid : checkRenames rule dropped targets renames = .ok ()) :
    ∀ entry ∈ renames, entry.2 ≠ [] := by
  induction renames generalizing targets with
  | nil => simp
  | cons entry rest induction =>
    simp only [checkRenames, andThen_eq_ok, refuse_eq_ok, not_or] at valid
    rw [List.forall_mem_cons]
    refine ⟨?_, induction valid.2.2.2⟩
    intro empty
    apply valid.1.2.1
    rw [empty]
    rfl

theorem Rule.bounded {rule : Rule R} {index : Nat} {seen : List Bytes}
    (valid : rule.validate index seen = .ok ()) : rule.Bounded := by
  simp only [validate, andThen_eq_ok] at valid
  rcases valid with ⟨_, _, _, _, _, _, _, rates, _, _, _, renames⟩
  simp only [checkRates, andThen_eq_ok, refuse_eq_ok, not_exists, not_and, not_or, not_lt] at rates
  exact ⟨rates.1, rates.2.1.1, rates.2.2, targets_of_checkRenames renames⟩

theorem rules_bounded {index : Nat} {seen : List Bytes} {rules : List (Rule R)}
    (valid : validateRules index seen rules = .ok ()) : ∀ rule ∈ rules, rule.Bounded := by
  induction rules generalizing index seen with
  | nil => simp
  | cons rule rest induction =>
    simp only [validateRules, andThen_eq_ok] at valid
    rw [List.forall_mem_cons]
    exact ⟨Rule.bounded valid.1, induction valid.2⟩

theorem Config.bounded {config : Config R} (valid : config.validate = .ok ()) : config.Bounded := by
  simp only [validate, andThen_eq_ok, refuse_eq_ok, not_or, not_lt] at valid
  rcases valid with ⟨_, _, _, _, _, default, pressure, _, rules⟩
  exact ⟨default, PressureConfig.bounded pressure, rules_bounded rules⟩

end Validation

/-! ## The shaping engine

`evaluateConfig` folds the matching rules over an event, scales the sample rate by queue
pressure and by the autonomy multiplier, and decides by a hash of the event. -/

section Matching

variable [Strings]

def severity (event : Event) : Bytes :=
  let tagged := [ascii "severity", ascii "level"].find? fun key =>
    trimSpace (event.tags.getD key []) ≠ []
  match tagged with
  | some key => Strings.toLower (trimSpace (event.tags.getD key []))
  | none =>
    if contains (Strings.toLower event.type) (ascii "error") then ascii "error" else []

def ruleMatches {R : Type} (rule : Rule R) (event : Event) : Bool :=
  glob rule.tenant event.tenantID && glob rule.source event.source && glob rule.type event.type &&
    (rule.severity.isEmpty || rule.severity.any fun candidate =>
      Strings.equalFold (trimSpace candidate) (severity event)) &&
    rule.tags.entries.all fun (key, pattern) =>
      match event.tags.find? key with
      | none => false
      | some value => glob pattern value

def protectingTag (event : Event) (order : List (Bytes × Bytes)) : Option (Bytes × Bytes) :=
  order.find? fun (key, pattern) =>
    match event.tags.find? key with
    | none => false
    | some value => glob pattern value

/-- `isProtected`: why the event is protected, if it is. `order` is the order in which the loop
over the map of protected tags runs. -/
def protectionReason (protection : Protection) (order : List (Bytes × Bytes)) (event : Event) :
    Option Bytes :=
  let actual := severity event
  let kind := Strings.toLower event.type
  if protection.errors && (contains kind (ascii "error") || actual == ascii "error" ||
      actual == ascii "critical" || actual == ascii "fatal") then
    some (ascii "error/severe telemetry")
  else if protection.severities.any fun candidate =>
      Strings.equalFold (trimSpace candidate) actual && actual != [] then
    some (ascii "protected severity " ++ actual)
  else
    match protection.types.find? fun pattern => glob pattern event.type with
    | some pattern => some (ascii "protected event type " ++ pattern)
    | none =>
      match protectingTag event order with
      | some (key, _) => some (ascii "protected tag " ++ key)
      | none =>
        match event.value with
        | none => none
        | some value =>
          if Float64.less 0 protection.latencyThresholdMS &&
              Strings.equalFold event.unit (ascii "ms") &&
              (contains kind (ascii "latency") || contains kind (ascii "duration")) &&
              Float64.atMost protection.latencyThresholdMS value then
            some (ascii "high-latency telemetry")
          else none

end Matching

section Rate

variable {R : Type} [Rates R]

def effectiveRate (pressure : PressureConfig R) (base minimum current : R) : R :=
  let base := clamp base 0 1
  let minimum := clamp minimum 0 base
  let current := clamp current 0 1
  if pressure.enabled = false ∨ current < pressure.highWatermark then base
  else
    let factor :=
      if pressure.criticalWatermark ≤ current then pressure.criticalFactor else pressure.highFactor
    let result := base * factor
    clamp (if result < minimum then minimum else result) 0 1

def multipliedRate (guarded : Bool) (minimum effective multiplier : R) : R :=
  if guarded = false ∧ multiplier < 1 then
    let scaled := effective * multiplier
    if scaled < minimum then minimum else scaled
  else effective

def identity (event : Event) : Bytes :=
  if event.id ≠ [] then event.id
  else event.tenantID ++ ascii "|" ++ event.source ++ ascii "|" ++ event.type ++ ascii "|" ++
    event.timestamp.utc.utcText ++ ascii "|" ++ event.correlationID

def deterministicKeep (event : Event) (config : Config R) (rate : R) : Bool :=
  if rate ≤ 0 then false
  else if 1 ≤ rate then true
  else
    let value := hash64 (config.name ++ ascii "|" ++ config.version ++ ascii "|" ++ identity event)
    decide (Rates.fraction value < rate)

end Rate

structure Progress (R : Type) where
  rate : R
  minRate : R
  shaped : Event
  matched : List Bytes
  dropped : SortedMap Bytes Unit
  renamed : SortedMap Bytes Bytes
  payloadDropped : Bool

namespace Progress

variable {R : Type}

def dropTag (progress : Progress R) (key : Bytes) : Progress R :=
  if (progress.shaped.tags.find? key).isSome then
    { progress with
      shaped := { progress.shaped with tags := progress.shaped.tags.erase key }
      dropped := progress.dropped.insert key () }
  else progress

def renameTag (progress : Progress R) (rename : Bytes × Bytes) : Progress R :=
  match progress.shaped.tags.find? rename.1 with
  | none => progress
  | some value =>
    let tags := progress.shaped.tags
    let tags := if (tags.find? rename.2).isSome then tags else tags.insert rename.2 value
    { progress with
      shaped := { progress.shaped with tags := tags.erase rename.1 }
      renamed := progress.renamed.insert rename.1 rename.2 }

def dropPayload (progress : Progress R) (rule : Rule R) : Progress R :=
  if 0 < rule.payloadMaxBytes ∧ rule.payloadMaxBytes < progress.shaped.payload.length ∧
      rule.payloadAction = payloadDrop then
    { progress with
      shaped := { progress.shaped with
        payload := []
        tags := progress.shaped.tags.insert (ascii "telemetryforge.payload_oversize")
          (ascii "true") }
      payloadDropped := true }
  else progress

def transform (progress : Progress R) (rule : Rule R) : Progress R :=
  let progress := rule.dropTags.foldl dropTag progress
  let progress := rule.renameTags.entries.foldl renameTag progress
  progress.dropPayload rule

def note (progress : Progress R) (rule : Rule R) : Progress R :=
  let progress := { progress with matched := progress.matched ++ [rule.name] }
  match rule.sampleRate with
  | none => progress
  | some rate => { progress with rate := rate, minRate := rule.minSampleRate }

def apply (guarded : Bool) (progress : Progress R) (rule : Rule R) : Progress R :=
  let progress := progress.note rule
  if guarded && !rule.shapeProtected then progress else progress.transform rule

def applyRules [Strings] (event : Event) (guarded : Bool) : List (Rule R) → Progress R → Progress R
  | [], progress => progress
  | rule :: rest, progress =>
    if ruleMatches rule event then
      let progress := progress.apply guarded rule
      if rule.stop then progress else applyRules event guarded rest progress
    else applyRules event guarded rest progress

def start [Rates R] (config : Config R) (event : Event) : Progress R :=
  ⟨config.defaultSampleRate, 0, event, [], .empty, .empty, false⟩

end Progress

structure Decision (R : Type) where
  tenantID : Bytes
  eventID : Bytes
  source : Bytes
  eventType : Bytes
  observedAt : Int
  configName : Bytes
  configVersion : Bytes
  rules : List Bytes
  keep : Bool
  guarded : Bool
  protectionReason : Bytes
  baseRate : R
  effectiveRate : R
  queuePressure : R
  autonomyMultiplier : R
  droppedTags : List Bytes
  renamedTags : SortedMap Bytes Bytes
  payloadDropped : Bool
  originalBytes : Nat
  shapedBytes : Nat
  reason : Bytes
deriving DecidableEq

section Evaluation

variable {R : Type} [Rates R] [Strings] [Json.FloatText]

omit R [Rates R] [Strings] in
def canonicalBytes (event : Event) : Nat := (event.marshal.getD []).length

def evaluateConfig (config : Config R) (order : List (Bytes × Bytes)) (event : Event)
    (queuePressure : R) (now : Int) (autonomyMultiplier : R) : Event × Decision R :=
  let protection := protectionReason config.protection order event
  let guarded := protection.isSome
  let progress := Progress.applyRules event guarded config.rules (.start config event)
  let multiplier := clamp autonomyMultiplier 0 1
  let effective := multipliedRate guarded progress.minRate
    (effectiveRate config.pressure progress.rate progress.minRate queuePressure) multiplier
  let keep := guarded || deterministicKeep event config effective
  let reason :=
    if guarded then ascii "protected: " ++ protection.getD []
    else if 1 ≤ effective then ascii "sample rate keeps all matching events"
    else if keep then ascii "sampled by deterministic event hash"
    else ascii "deterministic sample excluded event"
  (progress.shaped,
    { tenantID := event.tenantID
      eventID := event.id
      source := event.source
      eventType := event.type
      observedAt := now
      configName := config.name
      configVersion := config.version
      rules := progress.matched
      keep := keep
      guarded := guarded
      protectionReason := protection.getD []
      baseRate := progress.rate
      effectiveRate := effective
      queuePressure := clamp queuePressure 0 1
      autonomyMultiplier := multiplier
      droppedTags := progress.dropped.entries.map Prod.fst
      renamedTags := progress.renamed
      payloadDropped := progress.payloadDropped
      originalBytes := canonicalBytes event
      shapedBytes := canonicalBytes progress.shaped
      reason := reason })

def ratesInForce (config : Config R) (order : List (Bytes × Bytes)) (event : Event) : R × R :=
  let guarded := (protectionReason config.protection order event).isSome
  let progress := Progress.applyRules event guarded config.rules (.start config event)
  (progress.minRate, progress.rate)

end Evaluation

end TelemetryForge.Shaping
