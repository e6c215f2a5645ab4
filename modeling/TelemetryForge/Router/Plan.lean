import TelemetryForge.Domain.Event

/-! # Routing plans

Which destinations `router.Config.Plan` chooses for an event. Of a destination only the
fields are kept that end up in a plan. -/

namespace TelemetryForge.Router

structure Destination where
  name : Bytes
  enabled : Bool
  maxAttempts : Int
  baseDelayMS : Int
  maxDelayMS : Int
  failureFallback : Bytes
deriving DecidableEq

structure Rule where
  name : Bytes
  tenant : Bytes
  source : Bytes
  type : Bytes
  severity : List Bytes
  tags : SortedMap Bytes Bytes
  destinations : List Bytes
  stop : Bool
deriving DecidableEq

structure Config where
  name : Bytes
  version : Bytes
  destinations : List Destination
  rules : List Rule
  fallbackDestination : Bytes
deriving DecidableEq

structure Decision where
  destination : Bytes
  routeRules : List Bytes
  maxAttempts : Int
  baseDelayMS : Int
  maxDelayMS : Int
  failureFallback : Bytes
deriving DecidableEq

def withDestinationDefaults (destination : Destination) : Destination :=
  let maxAttempts := if destination.maxAttempts ≤ 0 then 5 else destination.maxAttempts
  let baseDelayMS := if destination.baseDelayMS ≤ 0 then 500 else destination.baseDelayMS
  let maxDelayMS := if destination.maxDelayMS ≤ 0 then 30000 else destination.maxDelayMS
  { destination with
    maxAttempts := maxAttempts
    baseDelayMS := baseDelayMS
    maxDelayMS := max maxDelayMS baseDelayMS }

def Config.destinationByName (config : Config) (name : Bytes) : Option Destination :=
  (config.destinations.find? fun destination => decide (destination.name = name)).map
    withDestinationDefaults

section Rules

variable [Strings]

def eventSeverity (event : Event) : Bytes :=
  let severity (key : String) :=
    Strings.toLower (trimSpace (event.tags.getD (ascii key) []))
  if severity "severity" ≠ [] then severity "severity"
  else if severity "level" ≠ [] then severity "level"
  else if contains (Strings.toLower event.type) (ascii "error") then ascii "error"
  else []

def ruleMatches (rule : Rule) (event : Event) : Bool :=
  glob rule.tenant event.tenantID && glob rule.source event.source &&
    glob rule.type event.type &&
    (rule.severity.isEmpty || rule.severity.any fun candidate =>
      Strings.equalFold (trimSpace candidate) (eventSeverity event)) &&
    rule.tags.entries.all fun (key, pattern) =>
      match event.tags.find? key with
      | none => false
      | some value => glob pattern value

end Rules

abbrev Chosen := SortedMap Bytes (List Bytes)

def appendUnique (values : List Bytes) (value : Bytes) : List Bytes :=
  if value ∈ values then values else values ++ [value]

def Config.isEnabled (config : Config) (name : Bytes) : Bool :=
  match config.destinationByName name with
  | none => false
  | some destination => destination.enabled

def Config.choose (config : Config) (rule : Rule) (chosen : Chosen) (name : Bytes) : Chosen :=
  if config.isEnabled name then
    chosen.insert name (appendUnique (chosen.getD name []) rule.name)
  else chosen

def Config.chooseAll (config : Config) (chosen : Chosen) (rule : Rule) : Chosen :=
  rule.destinations.foldl (config.choose rule) chosen

def Config.applyRules [Strings] (config : Config) (event : Event) :
    List Rule → Chosen × Bool → Chosen × Bool
  | [], reached => reached
  | rule :: rest, (chosen, matchedAny) =>
    if ruleMatches rule event then
      if rule.stop then (config.chooseAll chosen rule, true)
      else config.applyRules event rest (config.chooseAll chosen rule, true)
    else config.applyRules event rest (chosen, matchedAny)

def Config.chosen [Strings] (config : Config) (event : Event) : Chosen :=
  let (chosen, matchedAny) := config.applyRules event config.rules (.empty, false)
  if matchedAny = false ∧ config.fallbackDestination ≠ [] then
    chosen.insert config.fallbackDestination [ascii "fallback"]
  else chosen

def Config.decisionFor (config : Config) (entry : Bytes × List Bytes) : Decision :=
  let destination := (config.destinationByName entry.1).getD ⟨[], false, 0, 0, 0, []⟩
  { destination := entry.1
    routeRules := entry.2
    maxAttempts := destination.maxAttempts
    baseDelayMS := destination.baseDelayMS
    maxDelayMS := destination.maxDelayMS
    failureFallback := destination.failureFallback }

def Config.plan [Strings] (config : Config) (event : Event) : List Decision :=
  (config.chosen event).entries.map config.decisionFor

section Planned

variable [Strings]

def reachedRules (event : Event) : List Rule → List Rule
  | [] => []
  | rule :: rest =>
    if ruleMatches rule event then
      if rule.stop then [rule] else rule :: reachedRules event rest
    else reachedRules event rest

def Config.PlansTo (config : Config) (event : Event) (name : Bytes) : Prop :=
  (∃ rule ∈ reachedRules event config.rules,
      name ∈ rule.destinations ∧ config.isEnabled name = true) ∨
    reachedRules event config.rules = [] ∧ name = config.fallbackDestination ∧ name ≠ []

theorem Config.applyRules_eq (config : Config) (event : Event) (rules : List Rule)
    (chosen : Chosen) (matchedAny : Bool) :
    config.applyRules event rules (chosen, matchedAny) =
      ((reachedRules event rules).foldl config.chooseAll chosen,
        matchedAny || !(reachedRules event rules).isEmpty) := by
  induction rules generalizing chosen matchedAny with
  | nil => simp [applyRules, reachedRules]
  | cons rule rest induction =>
    simp only [applyRules, reachedRules]
    split_ifs
    · simp
    · rw [induction]
      simp
    · exact induction chosen matchedAny

section

omit [Strings]

theorem Config.find?_choose_isSome (config : Config) (rule : Rule) (chosen : Chosen)
    (name other : Bytes) : ((config.choose rule chosen name).find? other).isSome = true ↔
      (chosen.find? other).isSome = true ∨ other = name ∧ config.isEnabled other = true := by
  unfold choose
  split_ifs with enabled
  · rw [SortedMap.find?_insert]
    by_cases same : other = name
    · simp [same, enabled]
    · simp [same]
  · constructor
    · exact .inl
    · rintro (found | ⟨rfl, isEnabled⟩)
      · exact found
      · exact absurd isEnabled enabled

theorem Config.find?_chooseAll_isSome (config : Config) (rule : Rule) (chosen : Chosen)
    (other : Bytes) : ((config.chooseAll chosen rule).find? other).isSome = true ↔
      (chosen.find? other).isSome = true ∨
        other ∈ rule.destinations ∧ config.isEnabled other = true := by
  unfold chooseAll
  induction rule.destinations generalizing chosen with
  | nil => simp
  | cons name rest induction =>
    rw [List.foldl_cons, induction, find?_choose_isSome, List.mem_cons]
    tauto

theorem Config.find?_foldl_chooseAll_isSome (config : Config) (rules : List Rule)
    (chosen : Chosen) (other : Bytes) :
    ((rules.foldl config.chooseAll chosen).find? other).isSome = true ↔
      (chosen.find? other).isSome = true ∨
        ∃ rule ∈ rules, other ∈ rule.destinations ∧ config.isEnabled other = true := by
  induction rules generalizing chosen with
  | nil => simp
  | cons rule rest induction =>
    rw [List.foldl_cons, induction, find?_chooseAll_isSome]
    simp [or_assoc]

end

theorem Config.find?_chosen_isSome (config : Config) (event : Event) (name : Bytes) :
    ((config.chosen event).find? name).isSome = true ↔ config.PlansTo event name := by
  have found := config.find?_foldl_chooseAll_isSome (reachedRules event config.rules) .empty name
  unfold chosen
  rw [applyRules_eq]
  simp only [PlansTo, Bool.false_or, Bool.not_eq_false', List.isEmpty_iff]
  split_ifs with falls
  · rw [SortedMap.find?_insert, falls.1]
    by_cases same : name = config.fallbackDestination
    · simp [same, falls.2]
    · simp [same]
  · rw [found]
    constructor
    · rintro (absent | planned)
      · simp at absent
      · exact .inl planned
    · rintro (planned | ⟨unmatched, rfl, named⟩)
      · exact .inr planned
      · exact absurd ⟨unmatched, named⟩ falls

theorem Config.mem_plan_iff (config : Config) (event : Event) (name : Bytes) :
    (∃ decision ∈ config.plan event, decision.destination = name) ↔ config.PlansTo event name := by
  rw [← find?_chosen_isSome, Option.isSome_iff_exists]
  simp only [plan, List.mem_map, SortedMap.find?_eq_some_iff]
  constructor
  · rintro ⟨_, ⟨⟨other, rules⟩, member, rfl⟩, same⟩
    cases same
    exact ⟨rules, member⟩
  · rintro ⟨rules, member⟩
    exact ⟨_, ⟨(name, rules), member, rfl⟩, rfl⟩

end Planned

end TelemetryForge.Router
