import TelemetryForge.Foundation.Bytes
import TelemetryForge.Foundation.Numbers
import TelemetryForge.Foundation.Result
import TelemetryForge.Foundation.Machine

/-! # The autonomy controller

`autonomy.Config`, the trend projection of queue pressure, and the control loop that
starts and ends temporary sampling multipliers. Floating-point numbers are read as exact
rationals; counters and accumulated latencies wrap as Go's integers do. -/

namespace TelemetryForge.Autonomy

inductive Mode
  | off
  | shadow
  | auto
  | unsupported (text : Bytes)
deriving DecidableEq

inductive ActionState
  | shadow
  | applied
  | rolledBack
  | expired
deriving DecidableEq, Repr

structure Config where
  mode : Mode
  window : Int
  horizon : Int
  tickInterval : Int
  triggerPressure : ℚ
  recoverPressure : ℚ
  minMultiplier : ℚ
  maxActionTTL : Int
  cooldown : Int
  minObservations : Int
  maxErrorRateIncrease : ℚ
  maxLatencyIncreaseRatio : ℚ
deriving DecidableEq

def defaultConfig : Config where
  mode := .shadow
  window := 12
  horizon := 30 * Duration.second
  tickInterval := 5 * Duration.second
  triggerPressure := 82 / 100
  recoverPressure := 55 / 100
  minMultiplier := 35 / 100
  maxActionTTL := 2 * Duration.minute
  cooldown := 30 * Duration.second
  minObservations := 4
  maxErrorRateIncrease := 2 / 100
  maxLatencyIncreaseRatio := 25 / 100

inductive ConfigError
  | unsupportedMode (mode : Bytes)
  | window
  | minObservations
  | horizon
  | tickInterval
  | triggerPressure
  | recoverPressure
  | minMultiplier
  | maxActionTTL
  | cooldown
  | maxErrorRateIncrease
  | maxLatencyIncreaseRatio
deriving DecidableEq

def Mode.validate : Mode → Except ConfigError Unit
  | .off | .shadow | .auto => .ok ()
  | .unsupported text => .error (.unsupportedMode text)

def Config.validate (config : Config) : Except ConfigError Unit := do
  config.mode.validate
  refuse (config.window < 3 ∨ 256 < config.window) .window
  refuse (config.minObservations < 3 ∨ config.window < config.minObservations) .minObservations
  refuse (config.horizon ≤ 0 ∨ 10 * Duration.minute < config.horizon) .horizon
  refuse (config.tickInterval ≤ 0 ∨ Duration.minute < config.tickInterval) .tickInterval
  refuse (config.triggerPressure ≤ 0 ∨ 1 < config.triggerPressure) .triggerPressure
  refuse (config.recoverPressure < 0 ∨ config.triggerPressure ≤ config.recoverPressure)
    .recoverPressure
  refuse (config.minMultiplier ≤ 0 ∨ 1 < config.minMultiplier) .minMultiplier
  refuse (config.maxActionTTL ≤ 0 ∨ 30 * Duration.minute < config.maxActionTTL) .maxActionTTL
  refuse (config.cooldown < 0 ∨ 30 * Duration.minute < config.cooldown) .cooldown
  refuse (config.maxErrorRateIncrease < 0 ∨ 1 < config.maxErrorRateIncrease) .maxErrorRateIncrease
  refuse (config.maxLatencyIncreaseRatio < 0 ∨ 10 < config.maxLatencyIncreaseRatio)
    .maxLatencyIncreaseRatio

example : defaultConfig.validate = .ok () := by decide +kernel

structure Config.Bounded (config : Config) : Prop where
  minMultiplier : config.minMultiplier ≤ 1
  maxActionTTL : 0 < config.maxActionTTL

theorem Config.bounded {config : Config} (valid : config.validate = .ok ()) : config.Bounded := by
  simp only [validate, andThen_eq_ok, refuse_eq_ok, not_or, not_lt, not_le] at valid
  rcases valid with ⟨_, _, _, _, _, _, _, minMultiplier, maxActionTTL, _⟩
  exact ⟨minMultiplier.2, maxActionTTL.1⟩

structure Observation where
  observedAt : Int
  queuePressure : ℚ
  errorRate : ℚ
  meanLatencyMS : ℚ
  retryRate : ℚ
  completed : UInt64
deriving DecidableEq

inductive Confidence
  | insufficient
  | low
  | medium
  | high
deriving DecidableEq, Repr

structure Forecast where
  generatedAt : Int
  horizon : Int
  samples : Nat
  currentPressure : ℚ
  predictedPressure : ℚ
  slopePerSecond : ℚ
  confidence : Confidence
deriving DecidableEq

def seconds (duration : Int) : ℚ := duration / 1000000000

structure Sums where
  x : ℚ
  y : ℚ
  xy : ℚ
  xx : ℚ

def Sums.add (origin : Int) (sums : Sums) (sample : Observation) : Sums :=
  let x := seconds (Instant.sub sample.observedAt origin)
  let y := clamp sample.queuePressure 0 1
  ⟨sums.x + x, sums.y + y, sums.xy + x * y, sums.xx + x * x⟩

def forecastPressure (history : List Observation) (horizon now : Int) : Forecast :=
  let result : Forecast := ⟨now, horizon, history.length, 0, 0, 0, .insufficient⟩
  match history.head?, history.getLast? with
  | some first, some last =>
    let current := clamp last.queuePressure 0 1
    let result := { result with currentPressure := current, predictedPressure := current }
    if history.length < 2 then result
    else
      let sums := history.foldl (Sums.add first.observedAt) ⟨0, 0, 0, 0⟩
      let n : ℚ := history.length
      let denom := n * sums.xx - sums.x * sums.x
      if |denom| < 1 / 1000000000000 then result
      else
        let slope := (n * sums.xy - sums.x * sums.y) / denom
        { result with
          slopePerSecond := slope
          predictedPressure := clamp (current + slope * seconds horizon) 0 1
          confidence :=
            if 8 ≤ history.length then .high
            else if 4 ≤ history.length then .medium
            else .low }
  | _, _ => result

structure Action where
  id : Bytes
  state : ActionState
  createdAt : Int
  updatedAt : Int
  expiresAt : Int
  multiplier : ℚ
  predictedPressure : ℚ
  baselineErrorRate : ℚ
  baselineMeanLatencyMS : ℚ
  reason : Bytes
  rollbackReason : Bytes
deriving DecidableEq

structure Controller where
  config : Config
  multiplier : ℚ
  queuePressure : ℚ
  completed : UInt64
  failed : UInt64
  retries : UInt64
  totalLatency : Int64
  lastCompleted : UInt64
  lastFailed : UInt64
  lastRetries : UInt64
  lastLatency : Int64
  history : List Observation
  forecast : Forecast
  active : Option Action
  recent : List Action
  cooldownUntil : Int
  sequence : UInt64
deriving DecidableEq

abbrev Auditor := Action → Option Bytes

def newController (config : Config) : Controller where
  config := config
  multiplier := 1
  queuePressure := 0
  completed := 0
  failed := 0
  retries := 0
  totalLatency := 0
  lastCompleted := 0
  lastFailed := 0
  lastRetries := 0
  lastLatency := 0
  history := []
  forecast := ⟨0, 0, 0, 0, 0, 0, .insufficient⟩
  active := none
  recent := []
  cooldownUntil := 0
  sequence := 0

def latencyRegression (baseline current ratio : ℚ) : Bool :=
  if baseline ≤ 0 ∨ current ≤ 0 then false else decide (baseline * (1 + ratio) < current)

def recommendedMultiplier (predicted minimum : ℚ) : ℚ :=
  let candidate : ℚ :=
    if 95 / 100 ≤ predicted then 1 / 2 else if 90 / 100 ≤ predicted then 60 / 100 else 3 / 4
  let candidate := if candidate < minimum then minimum else candidate
  if 1 < candidate then 1 else candidate

theorem minimum_le_recommendedMultiplier (predicted : ℚ) {minimum : ℚ} (bound : minimum ≤ 1) :
    minimum ≤ recommendedMultiplier predicted minimum := by
  simp only [recommendedMultiplier]
  split_ifs <;> first | exact bound | exact le_rfl | (rw [not_lt] at *; assumption)

theorem recommendedMultiplier_le_one (predicted minimum : ℚ) :
    recommendedMultiplier predicted minimum ≤ 1 := by
  unfold recommendedMultiplier
  dsimp only
  generalize (if _ < minimum then minimum else _) = candidate
  split_ifs with above
  · exact le_rfl
  · exact not_lt.mp above

def Action.answered (action : Action) : Option Bytes → Action
  | none => action
  | some error =>
    { action with
      state := .shadow
      reason := ascii "automatic action suppressed because audit persistence failed: " ++ error }

def keepLast {α : Type} (count : Nat) (list : List α) : List α :=
  list.drop (list.length - count)

namespace Controller

def currentMultiplier (controller : Controller) : ℚ := controller.multiplier

def queueDepth (controller : Controller) (current capacity : Int) : Controller :=
  { controller with
    queuePressure := if capacity ≤ 0 then 0 else clamp (current / capacity) 0 1 }

def jobCompleted (controller : Controller) (duration : Int64) (attempts : Int)
    (outcome : Bytes) : Controller :=
  { controller with
    completed := controller.completed + 1
    totalLatency := controller.totalLatency + duration
    failed :=
      if outcome = ascii "failed" ∨ outcome = ascii "ack_failed" ∨ outcome = ascii "dlq" then
        controller.failed + 1
      else controller.failed
    retries :=
      if 1 < attempts then controller.retries + UInt64.ofNat (attempts - 1).toNat
      else controller.retries }

def observe (controller : Controller) (now : Int) : Observation :=
  let completed := controller.completed - controller.lastCompleted
  let failed := controller.failed - controller.lastFailed
  let retries := controller.retries - controller.lastRetries
  let latency := controller.totalLatency - controller.lastLatency
  if 0 < completed then
    { observedAt := now
      queuePressure := controller.queuePressure
      errorRate := failed.toNat / completed.toNat
      retryRate := retries.toNat / completed.toNat
      meanLatencyMS := (latency.toInt.tdiv 1000 : ℚ) / 1000 / completed.toNat
      completed := completed }
  else ⟨now, controller.queuePressure, 0, 0, 0, completed⟩

def proposedAction (controller : Controller) (observation : Observation) (now : Int) : Action where
  id := ascii "autonomy-" ++ decimalInt (Instant.unixMilli now) ++ ascii "-" ++
    zeroPadded 4 (controller.sequence + 1).toNat
  state := if controller.config.mode = .auto then .applied else .shadow
  createdAt := now
  updatedAt := now
  expiresAt := now + controller.config.maxActionTTL
  multiplier :=
    recommendedMultiplier controller.forecast.predictedPressure controller.config.minMultiplier
  predictedPressure := controller.forecast.predictedPressure
  baselineErrorRate := observation.errorRate
  baselineMeanLatencyMS := observation.meanLatencyMS
  reason := ascii
    "forecast pressure crossed configured trigger; reduce only non-protected telemetry"
  rollbackReason := []

/-- `startActionLocked`: the controller with its new action, and what the auditor was given
and answered. -/
def startAction (controller : Controller) (auditor : Auditor) (observation : Observation)
    (now : Int) : Controller × Action × Option Bytes :=
  let action := controller.proposedAction observation now
  let started := action.answered (auditor action)
  ({ controller with
      sequence := controller.sequence + 1
      multiplier :=
        if started.state = .applied then started.multiplier else controller.multiplier
      active := some started },
    action, auditor action)

def rollback (controller : Controller) (action : Action) (observation : Observation)
    (now : Int) : Option (ActionState × Bytes) :=
  if action.expiresAt ≤ now then some (.expired, ascii "action TTL expired")
  else if observation.queuePressure ≤ controller.config.recoverPressure then
    some (.rolledBack, ascii "queue pressure recovered below rollback threshold")
  else if action.baselineErrorRate + controller.config.maxErrorRateIncrease <
      observation.errorRate then
    some (.rolledBack, ascii "error rate exceeded action guardrail")
  else if latencyRegression action.baselineMeanLatencyMS observation.meanLatencyMS
      controller.config.maxLatencyIncreaseRatio then
    some (.rolledBack, ascii "mean processing latency exceeded action guardrail")
  else none

def evaluateActive (controller : Controller) (auditor : Auditor) (action : Action)
    (observation : Observation) (now : Int) : Controller × List (Action × Option Bytes) :=
  match controller.rollback action observation now with
  | none => (controller, [])
  | some (terminal, reason) =>
    let ended := { action with state := terminal, updatedAt := now, rollbackReason := reason }
    let kept :=
      match auditor ended with
      | none => ended
      | some error =>
        { ended with
          rollbackReason := reason ++ ascii "; audit persistence also failed: " ++ error }
    ({ controller with
        multiplier := 1
        recent := keepLast 16 (controller.recent ++ [kept])
        active := none
        cooldownUntil := now + controller.config.cooldown },
      [(ended, auditor ended)])

def record (controller : Controller) (observation : Observation) (now : Int) : Controller :=
  let history := keepLast controller.config.window.toNat (controller.history ++ [observation])
  { controller with
    lastCompleted := controller.completed
    lastFailed := controller.failed
    lastRetries := controller.retries
    lastLatency := controller.totalLatency
    history := history
    forecast := forecastPressure history controller.config.horizon now }

def settle (controller : Controller) (auditor : Auditor) (now : Int) :
    Controller × List (Action × Option Bytes) :=
  let observation := controller.observe now
  let recorded := controller.record observation now
  match recorded.active with
  | none => (recorded, [])
  | some action => recorded.evaluateActive auditor action observation now

def triggers (controller : Controller) (now : Int) : Bool :=
  controller.active.isNone && decide (controller.config.mode ≠ .off) &&
    decide (controller.cooldownUntil ≤ now) &&
    decide (controller.config.minObservations ≤ controller.history.length) &&
    decide (controller.config.triggerPressure ≤ controller.forecast.predictedPressure)

/-- `Tick`: the controller afterwards, and the actions that were given to the auditor with its
answers. -/
def tick (controller : Controller) (auditor : Auditor) (now : Int) :
    Controller × List (Action × Option Bytes) :=
  let (settled, ended) := controller.settle auditor now
  if settled.triggers now then
    let (started, audited) := settled.startAction auditor (controller.observe now) now
    (started, ended ++ [audited])
  else (settled, ended)

end Controller

structure Snapshot where
  mode : Mode
  currentMultiplier : ℚ
  forecast : Forecast
  lastObservation : Option Observation
  activeAction : Option Action
  recentActions : List Action
  cooldownUntil : Int
deriving DecidableEq

/-- `Snapshot`, and what `Tick` returns. Before the first tick there is no last observation. -/
def Controller.snapshot (controller : Controller) : Snapshot where
  mode := controller.config.mode
  currentMultiplier := controller.currentMultiplier
  forecast := controller.forecast
  lastObservation := controller.history.getLast?
  activeAction := controller.active
  recentActions := controller.recent
  cooldownUntil := controller.cooldownUntil

/-! ## What the autonomy controller may do -/

structure System where
  controller : Controller
  trail : List (Action × Option Bytes)
  lastTick : Option Int

inductive Call
  | queueDepth (current capacity : Int)
  | jobCompleted (duration : Int64) (attempts : Int) (outcome : Bytes)
  | tick (now : Int) (auditor : Auditor)

namespace System

def initial (config : Config) : System := ⟨newController config, [], none⟩

def step (system : System) : Call → System
  | .queueDepth current capacity =>
    { system with controller := system.controller.queueDepth current capacity }
  | .jobCompleted duration attempts outcome =>
    { system with controller := system.controller.jobCompleted duration attempts outcome }
  | .tick now auditor =>
    let (controller, audited) := system.controller.tick auditor now
    ⟨controller, system.trail ++ audited, some now⟩

end System

def machine : Machine System Call := ⟨System.step, fun _ _ => True⟩

/-- What holds of the active action at a time before which nothing was ticked. -/
structure Action.Sound (config : Config) (trail : List (Action × Option Bytes)) (lastTick : Int)
    (action : Action) : Prop where
  minimum : config.minMultiplier ≤ action.multiplier
  maximum : action.multiplier ≤ 1
  unexpired : lastTick < action.expiresAt
  audited : action.state = .applied → config.mode = .auto ∧ (action, none) ∈ trail

def Controller.Consistent (controller : Controller) : Prop :=
  controller.multiplier = match controller.active with
    | some action => if action.state = .applied then action.multiplier else 1
    | none => 1

def Controller.Cooling (controller : Controller) : Prop :=
  ∀ ended ∈ controller.recent.getLast?,
    controller.cooldownUntil = ended.updatedAt + controller.config.cooldown

structure System.Invariant (config : Config) (system : System) : Prop where
  configured : system.controller.config = config
  consistent : system.controller.Consistent
  sound : ∀ action ∈ system.controller.active,
    ∃ lastTick, system.lastTick = some lastTick ∧ action.Sound config system.trail lastTick
  cooling : system.controller.Cooling

theorem System.initial_invariant (config : Config) : (System.initial config).Invariant config where
  configured := rfl
  consistent := rfl
  sound := by simp [initial, newController]
  cooling := by simp [initial, newController, Controller.Cooling]

theorem Action.Sound.mono {config : Config} {trail more : List (Action × Option Bytes)}
    {before now : Int} {action : Action} (sound : action.Sound config trail before)
    (unexpired : now < action.expiresAt) : action.Sound config (trail ++ more) now where
  minimum := sound.minimum
  maximum := sound.maximum
  unexpired := unexpired
  audited := fun applied =>
    ⟨(sound.audited applied).1, List.mem_append_left _ (sound.audited applied).2⟩

theorem getLast?_keepLast {α : Type} {count : Nat} (positive : 0 < count) (list : List α) (last : α) :
    (keepLast count (list ++ [last])).getLast? = some last := by
  rw [keepLast, List.getLast?_drop, if_neg]
  · simp
  · simp only [List.length_append, List.length_singleton]
    omega

namespace Controller

variable {controller : Controller} {auditor : Auditor} {action : Action}
  {observation : Observation} {now : Int}

theorem unexpired_of_rollback_none (continues : controller.rollback action observation now = none) :
    now < action.expiresAt := by
  by_contra expired
  rw [rollback, if_pos (not_lt.mp expired)] at continues
  cases continues

theorem settle_sequence : (controller.settle auditor now).1.sequence = controller.sequence := by
  simp only [settle, evaluateActive]
  split
  · rfl
  · split <;> rfl

theorem startAction_consistent (inactive : controller.multiplier = 1) :
    (controller.startAction auditor observation now).1.Consistent := by
  simp only [startAction, Consistent, inactive]

theorem startAction_sound (bounded : controller.config.Bounded)
    (trail : List (Action × Option Bytes)) : ((controller.proposedAction observation now).answered
      (auditor (controller.proposedAction observation now))).Sound controller.config
        (trail ++ [(controller.startAction auditor observation now).2]) now := by
  have minimum := minimum_le_recommendedMultiplier controller.forecast.predictedPressure
    bounded.minMultiplier
  have maximum := recommendedMultiplier_le_one controller.forecast.predictedPressure
    controller.config.minMultiplier
  have unexpired : now < now + controller.config.maxActionTTL := by
    have := bounded.maxActionTTL
    omega
  cases answer : auditor (controller.proposedAction observation now) with
  | none =>
    refine ⟨minimum, maximum, unexpired, fun applied => ⟨?_, ?_⟩⟩
    · by_contra other
      simp [Action.answered, proposedAction, other] at applied
    · simp [startAction, answer, Action.answered]
  | some error => exact ⟨minimum, maximum, unexpired, fun applied => by cases applied⟩

end Controller

namespace System

variable {config : Config} {system : System}

section

variable (invariant : system.Invariant config)
include invariant

theorem Invariant.queueDepth (current capacity : Int) :
    (system.step (.queueDepth current capacity)).Invariant config :=
  ⟨invariant.configured, invariant.consistent, invariant.sound, invariant.cooling⟩

theorem Invariant.jobCompleted (duration : Int64) (attempts : Int) (outcome : Bytes) :
    (system.step (.jobCompleted duration attempts outcome)).Invariant config :=
  ⟨invariant.configured, invariant.consistent, invariant.sound, invariant.cooling⟩

theorem Invariant.record (observation : Observation) (now : Int) :
    Invariant config { system with controller := system.controller.record observation now } :=
  ⟨invariant.configured, invariant.consistent, invariant.sound, invariant.cooling⟩

theorem Invariant.evaluateActive {action : Action}
    (active : system.controller.active = some action) (auditor : Auditor)
    (observation : Observation) (now : Int) :
    Invariant config
      ⟨(system.controller.evaluateActive auditor action observation now).1,
        system.trail ++ (system.controller.evaluateActive auditor action observation now).2,
        some now⟩ := by
  unfold Controller.evaluateActive
  cases ends : system.controller.rollback action observation now with
  | none =>
    refine ⟨invariant.configured, invariant.consistent, ?_, invariant.cooling⟩
    intro other isActive
    obtain rfl := Option.some.inj (active.symm.trans isActive)
    rcases invariant.sound action active with ⟨_, _, sound⟩
    exact ⟨now, rfl, sound.mono (Controller.unexpired_of_rollback_none ends)⟩
  | some terminal =>
    refine ⟨invariant.configured, rfl, by simp, ?_⟩
    intro ended isLast
    simp only [getLast?_keepLast (by decide : 0 < 16)] at isLast
    obtain rfl := Option.some.inj isLast
    dsimp only
    rw [invariant.configured]
    split <;> rfl

theorem Invariant.settle (auditor : Auditor) (now : Int) :
    Invariant config ⟨(system.controller.settle auditor now).1,
      system.trail ++ (system.controller.settle auditor now).2, some now⟩ := by
  have recorded := invariant.record (system.controller.observe now) now
  unfold Controller.settle
  dsimp only
  split
  case h_1 inactive =>
      refine ⟨recorded.configured, recorded.consistent, ?_, recorded.cooling⟩
      simp [inactive]
  case h_2 action active => exact recorded.evaluateActive active auditor _ now

end

theorem Invariant.tick (bounded : config.Bounded) (invariant : system.Invariant config)
    (auditor : Auditor) (now : Int) : (system.step (.tick now auditor)).Invariant config := by
  have settled := invariant.settle auditor now
  simp only [step, Controller.tick]
  split_ifs with triggers
  · simp only [Controller.triggers, Bool.and_eq_true, Option.isNone_iff_eq_none] at triggers
    have inactive := settled.consistent
    simp only [Controller.Consistent, triggers.1.1.1.1] at inactive
    refine ⟨settled.configured, Controller.startAction_consistent inactive, ?_, settled.cooling⟩
    intro started isStarted
    obtain rfl := Option.some.inj isStarted
    rw [← List.append_assoc]
    obtain rfl := settled.configured
    exact ⟨now, rfl, Controller.startAction_sound bounded _⟩
  · exact settled

theorem step_invariant (bounded : config.Bounded) (invariant : system.Invariant config)
    (call : Call) : (system.step call).Invariant config := by
  cases call with
  | queueDepth current capacity => exact invariant.queueDepth current capacity
  | jobCompleted duration attempts outcome =>
    exact invariant.jobCompleted duration attempts outcome
  | tick now auditor => exact invariant.tick bounded auditor now

theorem run_invariant (bounded : config.Bounded) (calls : List Call) :
    (machine.run (initial config) calls).Invariant config :=
  Machine.invariant (Invariant config)
    (fun _ call invariant _ => step_invariant bounded invariant call) (initial_invariant config)
    (machine.admits_of_forall (fun _ _ => trivial) _ calls)

theorem Invariant.started_after_cooldown (invariant : system.Invariant config) (auditor : Auditor)
    (now : Int)
    (starts : (system.controller.tick auditor now).1.sequence ≠ system.controller.sequence) :
    ∀ ended ∈ (system.controller.tick auditor now).1.recent.getLast?,
      ended.updatedAt + config.cooldown ≤ now := by
  have settled := invariant.settle auditor now
  unfold Controller.tick at starts ⊢
  dsimp only at starts ⊢
  split_ifs at starts ⊢ with triggers
  · intro ended isLast
    have cooling : (system.controller.settle auditor now).1.cooldownUntil =
        ended.updatedAt + (system.controller.settle auditor now).1.config.cooldown :=
      settled.cooling ended isLast
    rw [settled.configured] at cooling
    simp only [Controller.triggers, Bool.and_eq_true, decide_eq_true_eq] at triggers
    exact cooling ▸ triggers.1.1.2
  · exact absurd Controller.settle_sequence starts

end System

/-- Over every sequence of calls: while the multiplier is not one, the mode is `auto` and an
audited action that has not expired is applied; and no tick starts an action before the cooldown
of the last one is over. -/
theorem autonomy_safe (config : Config) (valid : config.validate = .ok ()) (calls : List Call) :
    let system := machine.run (System.initial config) calls
    let snapshot := system.controller.snapshot
    (snapshot.currentMultiplier ≠ 1 → snapshot.mode = .auto ∧
      ∃ action, snapshot.activeAction = some action ∧ action.state = .applied ∧
        (action, none) ∈ system.trail ∧ snapshot.currentMultiplier = action.multiplier ∧
        config.minMultiplier ≤ snapshot.currentMultiplier ∧ snapshot.currentMultiplier ≤ 1 ∧
        ∃ lastTick, system.lastTick = some lastTick ∧ lastTick < action.expiresAt) ∧
    ∀ now auditor,
      (system.controller.tick auditor now).1.sequence ≠ system.controller.sequence →
        ∀ ended ∈ (system.controller.tick auditor now).1.snapshot.recentActions.getLast?,
          ended.updatedAt + config.cooldown ≤ now := by
  intro system snapshot
  have invariant : system.Invariant config := System.run_invariant (Config.bounded valid) calls
  refine ⟨fun reduced => ?_, fun now auditor => invariant.started_after_cooldown auditor now⟩
  have consistent : snapshot.currentMultiplier = _ := invariant.consistent
  cases active : system.controller.active with
  | none =>
    rw [active] at consistent
    exact absurd consistent reduced
  | some action =>
    rw [active] at consistent
    rcases invariant.sound action active with ⟨lastTick, isLast, sound⟩
    by_cases applied : action.state = .applied
    · simp only [applied, if_true] at consistent
      rcases sound.audited applied with ⟨auto, audited⟩
      have mode : snapshot.mode = .auto := by
        rw [← auto, ← invariant.configured]
        rfl
      exact ⟨mode, action, active, applied, audited, consistent, consistent ▸ sound.minimum,
        consistent ▸ sound.maximum, lastTick, isLast, sound.unexpired⟩
    · simp only [applied, if_false] at consistent
      exact absurd consistent reduced

namespace Sample

def config : Config :=
  { defaultConfig with mode := .auto, window := 3, minObservations := 3 }

def calls : List Call :=
  .queueDepth 9 10 :: .jobCompleted 2000000 1 (ascii "processed") ::
    [1, 2, 3].map fun count => .tick (count * (5 * Duration.second)) fun _ => none

end Sample

theorem autonomy_safe_sample :
    (machine.run (System.initial Sample.config) Sample.calls).controller.snapshot.mode = .auto ∧
      (machine.run (System.initial Sample.config) Sample.calls).controller.currentMultiplier ≤ 1 := by
  have reduced :
      (machine.run (System.initial Sample.config) Sample.calls).controller.currentMultiplier ≠ 1 := by
    decide +kernel
  rcases (autonomy_safe Sample.config (by decide +kernel) Sample.calls).1 reduced with
    ⟨mode, _, _, _, _, _, _, maximum, _⟩
  exact ⟨mode, maximum⟩

end TelemetryForge.Autonomy
