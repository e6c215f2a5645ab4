import TelemetryForge.Domain.Event
import TelemetryForge.Foundation.Result
import TelemetryForge.Cardinality.Cluster
import TelemetryForge.Foundation.Suppression

/-! # Policy documents

`policy.Policy`, its validation, and what it decides for a dimension. -/

namespace TelemetryForge

namespace Policy

inductive Action
  | allow
  | dropTag
  | quarantine
  | other (text : Bytes)
deriving DecidableEq

def Action.text : Action → Bytes
  | .allow => ascii "allow"
  | .dropTag => ascii "drop_tag"
  | .quarantine => ascii "quarantine"
  | .other text => text

def Action.isValid : Action → Bool
  | .allow | .dropTag | .quarantine => true
  | .other _ => false

structure Rule where
  source : Bytes
  type : Bytes
  dimension : Bytes
  uniqueThreshold : UInt64
  action : Action
deriving DecidableEq

structure Budget where
  name : Bytes
  source : Bytes
  type : Bytes
  seriesLimit : UInt64
  warningPercent : Float
  criticalPercent : Float

end Policy

structure Policy where
  name : Bytes
  version : Bytes
  defaultUniqueThreshold : UInt64
  defaultAction : Policy.Action
  dangerousKeys : List Bytes
  rules : List Policy.Rule
  budgets : List Policy.Budget

namespace Policy

def maxPersistedCardinality : UInt64 := 9223372036854775807

inductive PolicyError
  | nameRequired
  | versionRequired
  | defaultThresholdTooSmall
  | defaultThresholdTooLarge
  | invalidDefaultAction (action : Action)
  | rulePattern (index : Nat) (pattern : Bytes)
  | ruleDimensionRequired (index : Nat)
  | ruleThresholdTooSmall (index : Nat)
  | ruleThresholdTooLarge (index : Nat)
  | invalidRuleAction (index : Nat) (action : Action)
  | budgetNameRequired (index : Nat)
  | duplicateBudget (budget : Bytes)
  | budgetPattern (budget pattern : Bytes)
  | seriesLimitTooSmall (budget : Bytes)
  | seriesLimitTooLarge (budget : Bytes)
  | warningPercent (budget : Bytes)
  | criticalPercent (budget : Bytes)
deriving DecidableEq

section Validation

variable [Strings]

def Rule.validate (rule : Rule) (index : Nat) : Except PolicyError Unit := do
  refuse (isValidGlob rule.source = false) (.rulePattern index rule.source)
  refuse (isValidGlob rule.type = false) (.rulePattern index rule.type)
  refuse (trimSpace rule.dimension = []) (.ruleDimensionRequired index)
  refuse (isValidGlob rule.dimension = false) (.rulePattern index rule.dimension)
  refuse (rule.uniqueThreshold < 2) (.ruleThresholdTooSmall index)
  refuse (maxPersistedCardinality < rule.uniqueThreshold) (.ruleThresholdTooLarge index)
  refuse (rule.action.isValid = false) (.invalidRuleAction index rule.action)

def Budget.validate (budget : Budget) (seen : List Bytes) (index : Nat) :
    Except PolicyError Unit := do
  let name := trimSpace budget.name
  refuse (name = []) (.budgetNameRequired index)
  refuse (name ∈ seen) (.duplicateBudget name)
  refuse (isValidGlob budget.source = false) (.budgetPattern name budget.source)
  refuse (isValidGlob budget.type = false) (.budgetPattern name budget.type)
  refuse (budget.seriesLimit < 2) (.seriesLimitTooSmall name)
  refuse (maxPersistedCardinality < budget.seriesLimit) (.seriesLimitTooLarge name)
  refuse (budget.warningPercent ≤ 0 ∨ 100 ≤ budget.warningPercent) (.warningPercent name)
  refuse (budget.criticalPercent ≤ budget.warningPercent ∨ 100 < budget.criticalPercent)
    (.criticalPercent name)

def validateBudgets (seen : List Bytes) (index : Nat) : List Budget → Except PolicyError Unit
  | [] => .ok ()
  | budget :: rest => do
    budget.validate seen index
    validateBudgets (trimSpace budget.name :: seen) (index + 1) rest

def validate (policy : Policy) : Except PolicyError Unit := do
  refuse (trimSpace policy.name = []) .nameRequired
  refuse (trimSpace policy.version = []) .versionRequired
  refuse (policy.defaultUniqueThreshold < 2) .defaultThresholdTooSmall
  refuse (maxPersistedCardinality < policy.defaultUniqueThreshold) .defaultThresholdTooLarge
  refuse (policy.defaultAction.isValid = false) (.invalidDefaultAction policy.defaultAction)
  policy.rules.zipIdx.forM fun (rule, index) => rule.validate index
  validateBudgets [] 0 policy.budgets

end Validation

section Decisions

variable [Strings]

def isDangerousKey (policy : Policy) (dimension : Bytes) : Bool :=
  let lower := Strings.toLower dimension
  policy.dangerousKeys.any fun key =>
    let key := Strings.toLower (trimSpace key)
    decide (key ≠ []) && (decide (lower = key) || contains lower key)

def Rule.applies (rule : Rule) (source eventType dimension : Bytes) : Bool :=
  glob rule.source source && glob rule.type eventType && glob rule.dimension dimension

def decision (policy : Policy) (source eventType dimension : Bytes) : UInt64 × Action × Bool :=
  match policy.rules.find? fun rule => rule.applies source eventType dimension with
  | some rule => (rule.uniqueThreshold, rule.action, policy.isDangerousKey dimension)
  | none =>
    (policy.defaultUniqueThreshold, policy.defaultAction, policy.isDangerousKey dimension)

def matchingBudgets (policy : Policy) (source eventType : Bytes) : List Budget :=
  policy.budgets.filter fun budget => glob budget.source source && glob budget.type eventType

end Decisions

end Policy

end TelemetryForge

/-! ## The policy engine

`policy.Engine`: the active policy changes events, the shadow policy is only evaluated.
Trackers and the recorder are whatever the engine is given. What reaches them is kept in
one log, so that its order can be compared between runs. -/

namespace TelemetryForge.Policy

open Cardinality (Observation)

inductive Mode
  | active
  | shadow
deriving DecidableEq

def Mode.text : Mode → Bytes
  | .active => ascii "active"
  | .shadow => ascii "shadow"

structure Observe where
  tenant : Bytes
  source : Bytes
  eventType : Bytes
  dimension : Bytes
  value : Bytes
  now : Int
deriving DecidableEq

structure Finding where
  tenantID : Bytes
  policyName : Bytes
  policyVersion : Bytes
  mode : Mode
  source : Bytes
  eventType : Bytes
  dimension : Bytes
  observedUnique : UInt64
  projectedUnique : UInt64
  action : Action
  reason : Bytes
  valueFingerprint : Bytes
  firstSeen : Int
  lastSeen : Int
deriving DecidableEq

inductive BudgetState
  | healthy
  | warning
  | critical
  | exceeded
deriving DecidableEq

def BudgetState.text : BudgetState → Bytes
  | .healthy => ascii "healthy"
  | .warning => ascii "warning"
  | .critical => ascii "critical"
  | .exceeded => ascii "exceeded"

structure BudgetStatus where
  tenantID : Bytes
  policyName : Bytes
  policyVersion : Bytes
  mode : Mode
  budgetName : Bytes
  source : Bytes
  eventType : Bytes
  windowStart : Int
  seriesLimit : UInt64
  observedUnique : UInt64
  projectedUnique : UInt64
  consumptionPercent : Float
  status : BudgetState
  observedAt : Int

structure Diff where
  tenantID : Bytes
  observedAt : Int
  source : Bytes
  eventType : Bytes
  dimension : Bytes
  activePolicy : Bytes
  activeVersion : Bytes
  activeAction : Action
  shadowPolicy : Bytes
  shadowVersion : Bytes
  shadowAction : Action
  reason : Bytes
deriving DecidableEq

inductive Entry
  | observed (mode : Mode) (call : Observe)
  | finding (finding : Finding)
  | budget (status : BudgetStatus)
  | diff (diff : Diff)
  | quarantine (event : Event) (reason : Bytes)

def Entry.isActive : Entry → Bool
  | .observed mode _ => decide (mode = .active)
  | .finding found => decide (found.mode = .active)
  | .budget status => decide (status.mode = .active)
  | .diff _ => false
  | .quarantine _ _ => true

abbrev Tracker (σ : Type) := σ → Observe → Except Bytes (σ × Observation)

abbrev Recorder := List Entry → Entry → Except Bytes Unit

structure ReportKey where
  tenant : Bytes
  mode : Bytes
  source : Bytes
  eventType : Bytes
  dimension : Bytes
  action : Bytes

def ReportKey.texts (key : ReportKey) : List Bytes :=
  [key.tenant, key.mode, key.source, key.eventType, key.dimension, key.action]

theorem ReportKey.texts_injective : Function.Injective ReportKey.texts := by
  rintro ⟨_, _, _, _, _, _⟩ ⟨_, _, _, _, _, _⟩ same
  simpa [texts] using same

instance : LinearOrder ReportKey := LinearOrder.lift' ReportKey.texts ReportKey.texts_injective

abbrev ReportTable := SortedMap ReportKey Int

def reserveReportInterval (maxReportEntries : Nat) (table : ReportTable) (key : ReportKey)
    (now interval : Int) : Bool × ReportTable :=
  let interval := if interval ≤ 0 then Duration.minute else interval
  Suppression.reserve maxReportEntries Duration.minute table key now interval

def Finding.reportKey (finding : Finding) : ReportKey where
  tenant := finding.tenantID
  mode := finding.mode.text
  source := finding.source
  eventType := finding.eventType
  dimension := finding.dimension
  action := finding.action.text

def BudgetStatus.reportKey (status : BudgetStatus) : ReportKey where
  tenant := status.tenantID
  mode := ascii "budget:" ++ status.mode.text
  source := status.source
  eventType := status.eventType
  dimension := status.budgetName
  action := status.status.text

def Diff.reportKey (diff : Diff) : ReportKey where
  tenant := diff.tenantID
  mode := ascii "diff"
  source := diff.source
  eventType := diff.eventType
  dimension := diff.dimension
  action := diff.shadowAction.text

structure Engine (τ υ : Type) where
  active : Policy
  activeTracker : Tracker τ
  shadow : Option Policy
  shadowTracker : Tracker υ
  recorder : Option Recorder
  maxReportEntries : Nat

structure Session (τ υ : Type) where
  active : τ
  shadow : υ
  lastReport : ReportTable
  log : List Entry

inductive EngineError
  | observe (cause : Bytes)
  | observeBudget (budget cause : Bytes)
  | recordFinding (cause : Bytes)
  | recordShadowFinding (cause : Bytes)
  | recordBudget (cause : Bytes)
  | recordDiff (cause : Bytes)
  | recordQuarantine (cause : Bytes)
deriving DecidableEq

variable {τ υ : Type}

def Session.initial (active : τ) (shadow : υ) : Session τ υ := ⟨active, shadow, .empty, []⟩

def Session.note (session : Session τ υ) (entry : Entry) : Session τ υ :=
  { session with log := session.log ++ [entry] }

def newEngineWithTrackers [Strings] (active : Policy) (shadow : Option Policy)
    (recorder : Option Recorder) (activeTracker : Tracker τ) (shadowTracker : Tracker υ)
    (maxDimensions : Int) : Except PolicyError (Engine τ υ) := do
  active.validate
  shadow.forM fun shadow => shadow.validate
  return ⟨active, activeTracker, shadow, shadowTracker, recorder, max 100 (maxDimensions * 4).toNat⟩

namespace Engine

def observe (engine : Engine τ υ) (wrap : Bytes → EngineError) (mode : Mode) (call : Observe)
    (session : Session τ υ) : Except EngineError (Session τ υ × Observation) :=
  match mode with
  | .active => do
    let (state, observation) ← (engine.activeTracker session.active call).mapError wrap
    return ({ session with active := state }.note (.observed mode call), observation)
  | .shadow => do
    let (state, observation) ← (engine.shadowTracker session.shadow call).mapError wrap
    return ({ session with shadow := state }.note (.observed mode call), observation)

def record (recorder : Recorder) (wrap : Bytes → EngineError) (entry : Entry)
    (session : Session τ υ) : Except EngineError (Session τ υ) := do
  (recorder session.log entry).mapError wrap
  return session.note entry

/-- Record an entry unless its key was reported within the interval. Without a recorder not
even the table of reports is looked at. -/
def report (engine : Engine τ υ) (wrap : Bytes → EngineError) (key : ReportKey)
    (now interval : Int) (entry : Entry) (session : Session τ υ) :
    Except EngineError (Session τ υ) :=
  match engine.recorder with
  | none => .ok session
  | some recorder =>
    let (due, table) :=
      reserveReportInterval engine.maxReportEntries session.lastReport key now interval
    let session := { session with lastReport := table }
    if due then record recorder wrap entry session else .ok session

/-! ### Budgets -/

def seriesTags [Strings] (event : Event) : List (Bytes × Bytes) :=
  event.tags.entries.filter fun (key, _) =>
    !(ascii "telemetryforge.").isPrefixOf (Strings.toLower key)

def seriesIdentity [Strings] (event : Event) : Bytes :=
  event.source ++ ascii "|" ++ event.type ++
    (seriesTags event).flatMap fun (key, value) => ascii "|" ++ key ++ ascii "=" ++ value

def consumptionPercent (budget : Budget) (observation : Observation) : Float :=
  let risk := max observation.projectedUnique observation.observedUnique
  100 * risk.toFloat / budget.seriesLimit.toFloat

def budgetState (budget : Budget) (percent : Float) : BudgetState :=
  if 100 ≤ percent then .exceeded
  else if budget.criticalPercent ≤ percent then .critical
  else if budget.warningPercent ≤ percent then .warning
  else .healthy

def budgetStatus (policy : Policy) (mode : Mode) (event : Event) (budget : Budget) (now : Int)
    (observation : Observation) : BudgetStatus where
  tenantID := event.tenantID
  policyName := policy.name
  policyVersion := policy.version
  mode := mode
  budgetName := budget.name
  source := budget.source
  eventType := budget.type
  windowStart := observation.windowStart
  seriesLimit := budget.seriesLimit
  observedUnique := observation.observedUnique
  projectedUnique := observation.projectedUnique
  consumptionPercent := consumptionPercent budget observation
  status := budgetState budget (consumptionPercent budget observation)
  observedAt := now

def budgetCall [Strings] (event : Event) (budget : Budget) (now : Int) : Observe where
  tenant := event.tenantID
  source := ascii "__budget__"
  eventType := budget.name
  dimension := ascii "__series__"
  value := seriesIdentity event
  now := now

def evaluateBudget [Strings] (engine : Engine τ υ) (policy : Policy) (mode : Mode)
    (event : Event) (now : Int) (session : Session τ υ) (budget : Budget) :
    Except EngineError (Session τ υ) := do
  let (session, observation) ←
    engine.observe (.observeBudget budget.name) mode (budgetCall event budget now) session
  let status := budgetStatus policy mode event budget now observation
  engine.report .recordBudget status.reportKey now (10 * Duration.second) (.budget status) session

def evaluateBudgets [Strings] (engine : Engine τ υ) (policy : Policy) (mode : Mode)
    (event : Event) (now : Int) (session : Session τ υ) : Except EngineError (Session τ υ) :=
  (policy.matchingBudgets event.source event.type).foldlM
    (engine.evaluateBudget policy mode event now) session

/-! ### Dimensions -/

def warningReason (observed threshold : UInt64) : Bytes :=
  ascii "identifier-shaped dimension warning: estimated cardinality " ++ decimal observed.toNat ++
    ascii " is approaching threshold " ++ decimal threshold.toNat

def crossedReason (observed projected threshold : UInt64) : Bytes :=
  ascii "estimated cardinality " ++ decimal observed.toNat ++ ascii " (projected " ++
    decimal projected.toNat ++ ascii ") meets policy threshold " ++ decimal threshold.toNat

def judge [Strings] (policy : Policy) (mode : Mode) (event : Event) (dimension : Bytes)
    (observation : Observation) : Option Finding :=
  let (threshold, action, dangerous) := policy.decision event.source event.type dimension
  let observed := observation.observedUnique
  let projected := observation.projectedUnique
  let thresholdCrossed := decide (threshold ≤ observed ∨ threshold ≤ projected)
  let earlyDangerousWarning :=
    dangerous && decide (max 3 (threshold / 10) ≤ observed) && !thresholdCrossed
  if thresholdCrossed || earlyDangerousWarning then
    some
      { tenantID := event.tenantID
        policyName := policy.name
        policyVersion := policy.version
        mode := mode
        source := event.source
        eventType := event.type
        dimension := dimension
        observedUnique := observed
        projectedUnique := projected
        action := if earlyDangerousWarning then .allow else action
        reason :=
          if earlyDangerousWarning then warningReason observed threshold
          else crossedReason observed projected threshold
        valueFingerprint := observation.fingerprint
        firstSeen := observation.firstSeen
        lastSeen := observation.lastSeen }
  else none

def dimensionCall (event : Event) (dimension value : Bytes) (now : Int) : Observe where
  tenant := event.tenantID
  source := event.source
  eventType := event.type
  dimension := dimension
  value := value
  now := now

def evaluate [Strings] (engine : Engine τ υ) (policy : Policy) (mode : Mode) (event : Event)
    (dimension value : Bytes) (now : Int) (session : Session τ υ) :
    Except EngineError (Session τ υ × Option Finding) := do
  let (session, observation) ←
    engine.observe .observe mode (dimensionCall event dimension value now) session
  return (session, judge policy mode event dimension observation)

def reportFinding (engine : Engine τ υ) (wrap : Bytes → EngineError) (now : Int)
    (finding : Option Finding) (session : Session τ υ) : Except EngineError (Session τ υ) :=
  match finding with
  | none => .ok session
  | some finding =>
    engine.report wrap finding.reportKey now Duration.minute (.finding finding) session

/-- The action that a policy takes, which is to allow when nothing was found. -/
def actionOf (finding : Option Finding) : Action := (finding.map Finding.action).getD .allow

def policyDiff (active shadow : Policy) (event : Event) (dimension : Bytes)
    (activeAction shadowAction : Action) (now : Int) : Diff where
  tenantID := event.tenantID
  observedAt := now
  source := event.source
  eventType := event.type
  dimension := dimension
  activePolicy := active.name
  activeVersion := active.version
  activeAction := activeAction
  shadowPolicy := shadow.name
  shadowVersion := shadow.version
  shadowAction := shadowAction
  reason := ascii "shadow policy would change the active action"

def evaluateShadow [Strings] (engine : Engine τ υ) (event : Event) (dimension value : Bytes)
    (now : Int) (activeAction : Action) (session : Session τ υ) :
    Except EngineError (Session τ υ) :=
  match engine.shadow with
  | none => .ok session
  | some shadow => do
    let (session, finding) ← engine.evaluate shadow .shadow event dimension value now session
    let session ← engine.reportFinding .recordShadowFinding now finding session
    if activeAction = actionOf finding then .ok session
    else
      let diff :=
        policyDiff engine.active shadow event dimension activeAction (actionOf finding) now
      engine.report .recordDiff diff.reportKey now Duration.minute (.diff diff) session

structure Marks where
  tags : SortedMap Bytes Bytes
  quarantineDimensions : List Bytes
  quarantineReasons : List Bytes
deriving DecidableEq

def Marks.take (marks : Marks) (dimension : Bytes) : Option Finding → Marks
  | none => marks
  | some finding =>
    match finding.action with
    | .dropTag => { marks with tags := marks.tags.erase dimension }
    | .quarantine =>
      ⟨marks.tags.erase dimension, marks.quarantineDimensions ++ [dimension],
        marks.quarantineReasons ++ [finding.reason]⟩
    | .allow | .other _ => marks

def evaluateDimension [Strings] (engine : Engine τ υ) (event : Event) (now : Int)
    (reached : Session τ υ × Marks) (entry : Bytes × Bytes) :
    Except EngineError (Session τ υ × Marks) := do
  let (session, finding) ← engine.evaluate engine.active .active event entry.1 entry.2 now reached.1
  let session ← engine.reportFinding .recordFinding now finding session
  let session ← engine.evaluateShadow event entry.1 entry.2 now (actionOf finding) session
  return (session, reached.2.take entry.1 finding)

/-! ### Events -/

def joinTexts (separator : Bytes) (texts : List Bytes) : Bytes :=
  (texts.intersperse separator).flatten

def quarantinedTag : Bytes := ascii "telemetryforge.quarantined"

def quarantineDimensionsTag : Bytes := ascii "telemetryforge.quarantine_dimensions"

def Marks.processed (marks : Marks) (event : Event) : Event :=
  if marks.quarantineDimensions = [] then { event with tags := marks.tags }
  else
    { event with
      tags := (marks.tags.insert quarantinedTag (ascii "true")).insert quarantineDimensionsTag
        (joinTexts (ascii ",") marks.quarantineDimensions) }

def recordQuarantine (engine : Engine τ υ) (event : Event) (marks : Marks)
    (session : Session τ υ) : Except EngineError (Session τ υ) :=
  match engine.recorder with
  | none => .ok session
  | some recorder =>
    if marks.quarantineDimensions = [] then .ok session
    else
      record recorder .recordQuarantine
        (.quarantine event (joinTexts (ascii "; ") marks.quarantineReasons)) session

def evaluateShadowBudgets [Strings] (engine : Engine τ υ) (event : Event) (now : Int)
    (session : Session τ υ) : Except EngineError (Session τ υ) :=
  match engine.shadow with
  | none => .ok session
  | some shadow => engine.evaluateBudgets shadow .shadow event now session

/-- The body of `EvaluateAt`, at the time that it has settled on. The tags of an event are kept
in the order of their keys, which is the order in which the loop takes them. -/
def evaluateEvent [Strings] (engine : Engine τ υ) (event : Event) (now : Int)
    (session : Session τ υ) : Except EngineError (Session τ υ × Event) := do
  let session ← engine.evaluateBudgets engine.active .active event now session
  let session ← engine.evaluateShadowBudgets event now session
  if event.tags.entries = [] then return (session, event)
  let (session, marks) ←
    event.tags.entries.foldlM (engine.evaluateDimension event now) (session, ⟨event.tags, [], []⟩)
  let session ← engine.recordQuarantine event marks session
  return (session, marks.processed event)

def evaluateAt [Strings] (engine : Engine τ υ) (event : Event) (now clock : Int)
    (session : Session τ υ) : Except EngineError (Session τ υ × Event) :=
  engine.evaluateEvent event (if now = 0 then clock else now) session

end Engine

def isQuarantined [Strings] (event : Event) : Bool :=
  Strings.equalFold (event.tags.getD Engine.quarantinedTag []) (ascii "true")

end TelemetryForge.Policy
