import TelemetryForge.Domain.Event
import TelemetryForge.Foundation.Numbers
import TelemetryForge.Foundation.Machine

/-! # Automatic incident detection

`incident.Detector` watches processed events and freezes the flight recorder when a
latency or an error threshold is breached. Its state is shared by concurrent calls of
`Observe`: each of the functions below is what one call does while it holds the lock. -/

namespace TelemetryForge.Incident

structure Config where
  latencyThresholdMS : UInt64
  errorThreshold : Int
  errorWindow : Int
  freezeLookback : Int
  cooldown : Int
  maxTrackedSources : Int
  inRange : Duration.shortest ≤ cooldown ∧ cooldown ≤ Duration.longest
deriving DecidableEq

def defaultMaxTrackedSources : Int := 10000

def defaultConfig : Config where
  latencyThresholdMS := 0x408F400000000000
  errorThreshold := 5
  errorWindow := Duration.minute
  freezeLookback := 15 * Duration.minute
  cooldown := 10 * Duration.minute
  maxTrackedSources := defaultMaxTrackedSources
  inRange := by decide

/-- The defaults that `NewDetector` puts in place of unusable values. A cooldown of zero or
less stays: it turns the cooldown off. -/
def Config.normalized (config : Config) : Config where
  latencyThresholdMS :=
    if Float64.atMost config.latencyThresholdMS 0 then defaultConfig.latencyThresholdMS
    else config.latencyThresholdMS
  errorThreshold :=
    if config.errorThreshold < 1 then defaultConfig.errorThreshold else config.errorThreshold
  errorWindow := if config.errorWindow ≤ 0 then defaultConfig.errorWindow else config.errorWindow
  freezeLookback :=
    if config.freezeLookback ≤ 0 then defaultConfig.freezeLookback else config.freezeLookback
  cooldown := config.cooldown
  maxTrackedSources :=
    if config.maxTrackedSources < 1 then defaultConfig.maxTrackedSources
    else config.maxTrackedSources
  inRange := config.inRange

structure Detector where
  config : Config
  errors : SortedMap Bytes (List Int)
  lastTrigger : SortedMap Bytes Int
deriving DecidableEq

def newDetector (config : Config) : Detector := ⟨config.normalized, .empty, .empty⟩

inductive Category
  | latency
  | errors
deriving DecidableEq, Repr

def Category.text : Category → Bytes
  | .latency => ascii "latency"
  | .errors => ascii "errors"

inductive Reason
  | latency (value threshold : UInt64)
  | errors (count : Nat) (window : Int)
deriving DecidableEq

def Reason.category : Reason → Category
  | .latency _ _ => .latency
  | .errors _ _ => .errors

def sourceKey (event : Event) : Bytes := event.tenantID ++ ascii "|" ++ event.source

def triggerKey (event : Event) (category : Category) : Bytes :=
  sourceKey event ++ ascii "|" ++ category.text

def isError (event : Event) : Bool :=
  contains (toLower event.type) (ascii "error") ||
    [ascii "severity", ascii "level"].any fun key =>
      let value := toLower (event.tags.getD key [])
      value == ascii "error" || value == ascii "critical" || value == ascii "fatal"

namespace Detector

def latencyBreach (detector : Detector) (event : Event) : Option Reason :=
  match event.value with
  | none => none
  | some value =>
    let kind := toLower event.type
    if Json.foldName event.unit ≠ ascii "ms" then none
    else if !contains kind (ascii "latency") && !contains kind (ascii "duration") then none
    else if Float64.less value detector.config.latencyThresholdMS then none
    else some (.latency value detector.config.latencyThresholdMS)

/-- The key with the oldest time. Go leaves it open which of several oldest keys a loop
over a map meets first. -/
def oldest : List (Bytes × Int) → Option (Bytes × Int)
  | [] => none
  | entry :: rest =>
    match oldest rest with
    | none => some entry
    | some other => if other.2 < entry.2 then some other else some entry

def evictOldestErrorSource (errors : SortedMap Bytes (List Int)) : SortedMap Bytes (List Int) :=
  let held := errors.filter fun _ timestamps => !timestamps.isEmpty
  match oldest (held.entries.map fun entry => (entry.1, entry.2.getLastD 0)) with
  | none => held
  | some entry => held.erase entry.1

def keptErrors (detector : Detector) (source : Bytes) (now : Int) : List Int :=
  (detector.errors.getD source []).filter fun timestamp =>
    now - detector.config.errorWindow < timestamp

def currentErrors (detector : Detector) (source : Bytes) (now : Int) : SortedMap Bytes (List Int) :=
  if detector.keptErrors source now = [] then detector.errors.erase source else detector.errors

def hasErrorRoom (detector : Detector) (source : Bytes) (now : Int) : Bool :=
  let errors := detector.currentErrors source now
  (errors.find? source).isSome || errors.entries.length < detector.config.maxTrackedSources

def recordError (detector : Detector) (source : Bytes) (now : Int) : Detector × Option Reason :=
  let kept := detector.keptErrors source now ++ [now]
  let current := detector.currentErrors source now
  let errors := if detector.hasErrorRoom source now then current else evictOldestErrorSource current
  ({ detector with errors := errors.insert source kept },
    if kept.length < detector.config.errorThreshold then none
    else some (.errors kept.length detector.config.errorWindow))

def breach (detector : Detector) (event : Event) (now : Int) : Detector × Option Reason :=
  match detector.latencyBreach event with
  | some reason => (detector, some reason)
  | none =>
    if isError event then detector.recordError (sourceKey event) now else (detector, none)

def pruneExpiredTriggers (detector : Detector) (now : Int) : SortedMap Bytes Int :=
  if detector.config.cooldown ≤ 0 then .empty
  else detector.lastTrigger.filter fun _ timestamp =>
    !decide (timestamp < now - detector.config.cooldown)

def evictOldestTrigger (lastTrigger : SortedMap Bytes Int) : SortedMap Bytes Int :=
  match oldest lastTrigger.entries with
  | none => lastTrigger
  | some entry => lastTrigger.erase entry.1

def suppresses (detector : Detector) (key : Bytes) (now : Int) : Bool :=
  let last := (detector.pruneExpiredTriggers now).getD key 0
  last ≠ 0 && 0 < detector.config.cooldown && Instant.sub now last < detector.config.cooldown

def maxTriggerEntries (detector : Detector) : Int := detector.config.maxTrackedSources * 2

def hasTriggerRoom (detector : Detector) (key : Bytes) (now : Int) : Bool :=
  let triggers := detector.pruneExpiredTriggers now
  (triggers.find? key).isSome || triggers.entries.length < detector.maxTriggerEntries

/-- The locked part of `trigger`: the detector afterwards, and whether the key was reserved. -/
def reserve (detector : Detector) (key : Bytes) (now : Int) : Detector × Bool :=
  let pruned := detector.pruneExpiredTriggers now
  if detector.suppresses key now then ({ detector with lastTrigger := pruned }, false)
  else
    let triggers := if detector.hasTriggerRoom key now then pruned else evictOldestTrigger pruned
    ({ detector with lastTrigger := triggers.insert key now }, true)

def releaseTriggerReservation (detector : Detector) (key : Bytes) (reservedAt : Int) : Detector :=
  if detector.lastTrigger.find? key = some reservedAt then
    { detector with lastTrigger := detector.lastTrigger.erase key }
  else detector

section

variable (detector : Detector)
include detector

@[simp] theorem recordError_config (source : Bytes) (now : Int) :
    (detector.recordError source now).1.config = detector.config := rfl

@[simp] theorem breach_config (event : Event) (now : Int) :
    (detector.breach event now).1.config = detector.config := by
  unfold breach
  split
  · rfl
  · split_ifs <;> rfl

@[simp] theorem breach_lastTrigger (event : Event) (now : Int) :
    (detector.breach event now).1.lastTrigger = detector.lastTrigger := by
  unfold breach
  split
  · rfl
  · split_ifs <;> rfl

@[simp] theorem reserve_config (key : Bytes) (now : Int) :
    (detector.reserve key now).1.config = detector.config := by
  unfold reserve
  split_ifs <;> rfl

@[simp] theorem reserve_errors (key : Bytes) (now : Int) :
    (detector.reserve key now).1.errors = detector.errors := by
  unfold reserve
  split_ifs <;> rfl

@[simp] theorem releaseTriggerReservation_config (key : Bytes)
    (reservedAt : Int) :
    (detector.releaseTriggerReservation key reservedAt).config = detector.config := by
  unfold releaseTriggerReservation
  split_ifs <;> rfl

@[simp] theorem releaseTriggerReservation_errors (key : Bytes)
    (reservedAt : Int) :
    (detector.releaseTriggerReservation key reservedAt).errors = detector.errors := by
  unfold releaseTriggerReservation
  split_ifs <;> rfl

end

theorem find?_prune {detector : Detector} (positive : 0 < detector.config.cooldown) (now : Int)
    (key : Bytes) : (detector.pruneExpiredTriggers now).find? key =
      (detector.lastTrigger.find? key).filter fun timestamp =>
        !decide (timestamp < now - detector.config.cooldown) := by
  rw [pruneExpiredTriggers, if_neg (by omega), SortedMap.find?_filter]

theorem suppresses_iff {detector : Detector} (positive : 0 < detector.config.cooldown)
    (key : Bytes) (now : Int) :
    detector.suppresses key now = true ↔
      ∃ last, (detector.pruneExpiredTriggers now).find? key = some last ∧ last ≠ 0 ∧
        now - last < detector.config.cooldown := by
  have saturates (last : Int) := Instant.sub_lt_iff now last
    (show Duration.shortest < detector.config.cooldown by
      simp only [Duration.shortest]
      omega) detector.config.inRange.2
  cases found : (detector.pruneExpiredTriggers now).find? key with
  | none => simp [suppresses, SortedMap.getD, found]
  | some last => simp [suppresses, SortedMap.getD, found, positive, saturates]

end Detector

def slugRune (built : Bytes) : Rune → Bytes
  | .ascii byte =>
    if (97 ≤ byte ∧ byte ≤ 122) ∨ (48 ≤ byte ∧ byte ≤ 57) then built ++ [byte]
    else if built = [] then [] else built ++ ascii "-"
  | _ => if built = [] then [] else built ++ ascii "-"

def slugRunes (built : Bytes) : List Rune → Bytes
  | [] => built
  | rune :: rest =>
    let built := slugRune built rune
    if 64 ≤ built.length then built else slugRunes built rest

def trimDashes (text : Bytes) : Bytes :=
  ((text.dropWhile (· == 45)).reverse.dropWhile (· == 45)).reverse

def slug (value : Bytes) : Bytes :=
  let result := trimDashes (slugRunes [] ((Utf8.runes (trimSpace value)).map lowerRune))
  if result = [] then ascii "unknown" else result

def signedDecimal (value : Int) : Bytes :=
  if value < 0 then ascii "-" ++ decimal value.natAbs else decimal value.natAbs

def tenantOf (tenantID : Bytes) : Bytes :=
  let tenant := trimSpace tenantID
  if tenant = [] then ascii "default" else tenant

structure Freeze where
  tenantID : Bytes
  incidentID : Bytes
  title : Bytes
  frozenFrom : Int
  frozenTo : Int
deriving DecidableEq

def freezeFor (config : Config) (event : Event) (category : Category) (now : Int) : Freeze where
  tenantID := tenantOf event.tenantID
  incidentID := ascii "AUTO-" ++ signedDecimal (Instant.unixMilli now) ++ ascii "-" ++
    slug event.source ++ ascii "-" ++ category.text
  title := ascii "Automatic incident: " ++ event.source
  frozenFrom := now - config.freezeLookback
  frozenTo := now

/-! ## The cooldown of concurrent observations

Calls of `Observe` interleave: each takes the lock to count an error, takes it again to
reserve its trigger key, freezes the incident without the lock, and takes the lock once
more to release the reservation if the freeze failed. A step of the system below is one of
these sections of one call. -/

open Option

inductive Phase
  | triggering
  | suppressed
  | freezing
  | releasing
  | released
  | annotating
  | returned
deriving DecidableEq, Repr

def Phase.reserves : Phase → Bool
  | .freezing | .releasing | .annotating | .returned => true
  | .triggering | .suppressed | .released => false

def Phase.frozen : Phase → Bool
  | .annotating | .returned => true
  | _ => false

structure Call where
  event : Event
  now : ClockReading
  reason : Reason
  phase : Phase
deriving DecidableEq

def Call.key (call : Call) : Bytes := triggerKey call.event call.reason.category

def Call.reservation (call : Call) : Option (Bytes × Int) :=
  if call.phase.reserves then some (call.key, call.now.1) else none

structure System where
  detector : Detector
  calls : List Call
  lockedAt : Int
deriving DecidableEq

inductive Section
  | observe (event : Event) (now : ClockReading)
  | reserve (index : Nat)
  | freeze (index : Nat) (succeeds : Bool)
  | release (index : Nat)
  | annotate (index : Nat)
deriving DecidableEq

namespace System

def initial (config : Config) : System := ⟨newDetector config, [], 0⟩

def callIn (system : System) (phase : Phase) (index : Nat) : Option Call :=
  (system.calls[index]?).filter (·.phase == phase)

def moveTo (system : System) (index : Nat) (call : Call) (phase : Phase) : System :=
  { system with calls := system.calls.set index { call with phase := phase } }

def step (system : System) : Section → System
  | .observe event now =>
    match system.detector.breach event now with
    | (detector, none) => { system with detector := detector }
    | (detector, some reason) =>
      { system with
        detector := detector
        calls := system.calls ++ [⟨event, now, reason, .triggering⟩] }
  | .reserve index =>
    match system.callIn .triggering index with
    | none => system
    | some call =>
      let (detector, reserved) := system.detector.reserve call.key call.now
      { system.moveTo index call (if reserved then .freezing else .suppressed) with
        detector := detector, lockedAt := call.now }
  | .freeze index succeeds =>
    match system.callIn .freezing index with
    | none => system
    | some call => system.moveTo index call (if succeeds then .annotating else .releasing)
  | .release index =>
    match system.callIn .releasing index with
    | none => system
    | some call =>
      { system.moveTo index call .released with
        detector := system.detector.releaseTriggerReservation call.key call.now }
  | .annotate index =>
    match system.callIn .annotating index with
    | none => system
    | some call => system.moveTo index call .returned

def allowed (system : System) : Section → Prop
  | .reserve index =>
    ∀ call ∈ system.callIn .triggering index,
      system.lockedAt ≤ call.now ∧ system.detector.hasTriggerRoom call.key call.now = true
  | _ => True

instance (system : System) (action : Section) : Decidable (system.allowed action) :=
  match action with
  | .reserve index =>
    inferInstanceAs (Decidable (∀ call ∈ system.callIn .triggering index, _))
  | .observe _ _ | .freeze _ _ | .release _ | .annotate _ => isTrue trivial

def machine : Machine System Section := ⟨step, allowed⟩

instance (system : System) (action : Section) : Decidable (machine.allowed system action) :=
  inferInstanceAs (Decidable (system.allowed action))

def reservations (system : System) : Reservations Nat Bytes where
  holder index := (system.calls[index]?).bind Call.reservation
  last := system.detector.lastTrigger.find?
  clock := system.lockedAt

variable {system : System} {index : Nat} {call : Call}

theorem callIn_eq_some {phase : Phase} : system.callIn phase index = some call ↔
    system.calls[index]? = some call ∧ call.phase = phase := by
  simp [callIn, filter_eq_some_iff]

theorem holder_of_callIn {phase : Phase} (found : system.callIn phase index = some call) :
    system.reservations.holder index =
      if phase.reserves then some (call.key, call.now.1) else none := by
  rcases callIn_eq_some.mp found with ⟨isCall, rfl⟩
  simp [reservations, isCall, Call.reservation]

theorem holder_moveTo (phase : Phase) (found : system.calls[index]? = some call) :
    (system.moveTo index call phase).reservations.holder =
      Function.update system.reservations.holder index
        (if phase.reserves then some (call.key, call.now.1) else none) := by
  have inside : index < system.calls.length := (List.getElem?_eq_some_iff.mp found).1
  funext other
  by_cases same : other = index
  · subst same
    simp [reservations, moveTo, inside, Call.reservation, Call.key]
  · simp [reservations, moveTo, List.getElem?_set_ne (Ne.symm same), same]

theorem reservations_moveTo {phase : Phase} (next : Phase)
    (found : system.callIn phase index = some call) (same : next.reserves = phase.reserves) :
    (system.moveTo index call next).reservations = system.reservations := by
  have holder := holder_moveTo next (callIn_eq_some.mp found).1
  rw [same, ← holder_of_callIn found, Function.update_eq_self] at holder
  simp only [reservations, Reservations.mk.injEq] at holder ⊢
  exact ⟨holder, rfl, rfl⟩

theorem step_config (system : System) (action : Section) :
    (system.step action).detector.config = system.detector.config := by
  cases action with
  | observe event now =>
    have kept := system.detector.breach_config event now
    simp only [step]
    split <;> rename_i equal <;> rw [equal] at kept <;> exact kept
  | reserve index =>
    simp only [step]
    split
    · rfl
    · exact system.detector.reserve_config _ _
  | freeze index succeeds =>
    simp only [step]
    split <;> rfl
  | release index =>
    simp only [step]
    split
    · rfl
    · exact system.detector.releaseTriggerReservation_config _ _
  | annotate index =>
    simp only [step]
    split <;> rfl

theorem cooling_pruned (cooling : system.reservations.Cooling system.detector.config.cooldown)
    (positive : 0 < system.detector.config.cooldown) {now : Int} (later : system.lockedAt ≤ now) :
    Reservations.Cooling system.detector.config.cooldown
      ⟨system.reservations.holder, (system.detector.pruneExpiredTriggers now).find?, now⟩ := by
  apply cooling.expire later
  · intro key time kept
    rw [Detector.find?_prune positive, filter_eq_some_iff] at kept
    exact kept.1
  · intro key time recorded
    rw [Detector.find?_prune positive, filter_eq_some_iff]
    by_cases expired : time < now - system.detector.config.cooldown
    · exact .inr (by omega)
    · exact .inl ⟨recorded, by simpa using expired⟩

theorem positive_of_owned {book : Reservations Nat Bytes} {period : Int}
    (cooling : book.Cooling period) (holder : book.holder = system.reservations.holder)
    {key : Bytes} {time : Int} (recorded : book.last key = some time) : 0 < time := by
  rcases cooling.owned key time recorded with ⟨index, holds⟩
  rw [holder] at holds
  rcases bind_eq_some_iff.mp holds with ⟨call, _, reserved⟩
  simp only [Call.reservation, ite_none_right_eq_some, some.injEq, Prod.mk.injEq]
    at reserved
  rw [← reserved.2.2]
  exact call.now.2

theorem step_cooling (cooling : system.reservations.Cooling system.detector.config.cooldown)
    (positive : 0 < system.detector.config.cooldown) (action : Section)
    (allowed : system.allowed action) :
    (system.step action).reservations.Cooling system.detector.config.cooldown := by
  cases action with
  | observe event now =>
    have kept := system.detector.breach_lastTrigger event now
    suffices (system.step (.observe event now)).reservations = system.reservations by
      rwa [this]
    simp only [step]
    split
    · rename_i detector equal
      rw [equal] at kept
      dsimp only at kept
      simp [reservations, kept]
    · rename_i detector reason equal
      rw [equal] at kept
      dsimp only at kept
      simp only [reservations, kept, Reservations.mk.injEq, and_true]
      funext index
      rcases lt_trichotomy index system.calls.length with inside | rfl | outside
      · rw [List.getElem?_append_left inside]
      · simp [Call.reservation, Phase.reserves]
      · rw [List.getElem?_eq_none (by simp; omega), List.getElem?_eq_none (by omega)]
  | reserve index =>
    simp only [step]
    split
    · exact cooling
    rename_i call found
    rcases allowed call found with ⟨later, room⟩
    have pruned := cooling_pruned cooling positive later
    have idle := holder_of_callIn found
    simp only [Phase.reserves, Bool.false_eq_true, if_false] at idle
    have holder (next : Phase) := holder_moveTo next (callIn_eq_some.mp found).1
    simp only [reservations] at holder idle
    by_cases suppressed : system.detector.suppresses call.key call.now = true
    · simpa [reservations, Detector.reserve, suppressed, holder, Phase.reserves, ← idle]
        using pruned
    · have free : ∀ time, (system.detector.pruneExpiredTriggers call.now).find? call.key =
          some time → time + system.detector.config.cooldown ≤ call.now := by
        intro time recorded
        rw [Detector.suppresses_iff positive] at suppressed
        simp only [not_exists, not_and] at suppressed
        have nonzero := positive_of_owned pruned rfl recorded
        have far := suppressed time recorded (by omega)
        omega
      have taken := pruned.take idle le_rfl free
      have records (map : SortedMap Bytes Int) :
          (map.insert call.key call.now).find? =
            Function.update map.find? call.key (some call.now.1) := by
        funext key
        simp [Function.update_apply]
      simp only [reservations, Detector.reserve, suppressed, room, holder, Phase.reserves,
        if_true, Bool.false_eq_true, if_false, records]
      exact taken
  | freeze index succeeds =>
    simp only [step]
    split
    · exact cooling
    · rename_i call found
      rw [reservations_moveTo _ found (by cases succeeds <;> rfl)]
      exact cooling
  | release index =>
    simp only [step]
    split
    · exact cooling
    rename_i call found
    have holds := holder_of_callIn found
    simp only [Phase.reserves, if_true] at holds
    have dropped := cooling.drop positive holds
    have holder := holder_moveTo .released (callIn_eq_some.mp found).1
    have records : (system.detector.releaseTriggerReservation call.key call.now).lastTrigger.find? =
        if system.detector.lastTrigger.find? call.key = some call.now.1 then
          Function.update system.detector.lastTrigger.find? call.key none
        else system.detector.lastTrigger.find? := by
      rw [Detector.releaseTriggerReservation]
      split_ifs with own
      · funext key
        simp [Function.update_apply]
      · rfl
    simp only [reservations, Phase.reserves, Bool.false_eq_true, if_false] at holder dropped ⊢
    rw [holder, records]
    exact dropped
  | annotate index =>
    simp only [step]
    split
    · exact cooling
    · rename_i call found
      rw [reservations_moveTo .returned found rfl]
      exact cooling

theorem initial_cooling (config : Config) :
    (initial config).reservations.Cooling config.cooldown where
  apart := by simp [initial, reservations]
  covered := by simp [initial, reservations]
  owned := by simp [initial, reservations, newDetector]

structure Cooled (config : Config) (system : System) : Prop where
  configured : system.detector.config = config.normalized
  cooling : system.reservations.Cooling config.cooldown

theorem run_cooled {config : Config} (positive : 0 < config.cooldown) {sections : List Section}
    (admits : machine.Admits (initial config) sections) :
    Cooled config (machine.run (initial config) sections) := by
  refine Machine.invariant _ ?_ ⟨rfl, initial_cooling config⟩ admits
  rintro system action ⟨same, cooling⟩ allowed
  have period : system.detector.config.cooldown = config.cooldown := by rw [same]; rfl
  refine ⟨(step_config system action).trans same, ?_⟩
  have stepped := step_cooling (by rwa [period]) (by rwa [period]) action allowed
  rwa [period] at stepped

end System

def Call.Alike (first second : Call) : Prop :=
  first.event.tenantID = second.event.tenantID ∧ first.event.source = second.event.source ∧
    first.reason.category = second.reason.category

theorem Call.Alike.key {first second : Call} (alike : first.Alike second) :
    first.key = second.key := by
  simp only [Call.key, triggerKey, sourceKey, alike.1, alike.2.1, alike.2.2]

/-- Whatever the interleaving, the observation times of two successful freezes for one
tenant, source and category are a cooldown apart, and a call is only ever suppressed by
another call that has not released its reservation. -/
theorem cooldown_run (config : Config) (positive : 0 < config.cooldown) (sections : List Section)
    (admits : System.machine.Admits (System.initial config) sections) :
    let system := System.machine.run (System.initial config) sections
    (∀ (first second : Nat) (before after : Call), first ≠ second →
      system.calls[first]? = some before → system.calls[second]? = some after →
      before.phase.frozen = true → after.phase.frozen = true → before.Alike after →
        config.cooldown ≤ |before.now.1 - after.now.1|) ∧
    (∀ (index : Nat) (call : Call), system.callIn .triggering index = some call →
      system.allowed (.reserve index) →
      (system.step (.reserve index)).calls[index]? = some { call with phase := .suppressed } →
        ∃ (other : Nat) (holder : Call), system.calls[other]? = some holder ∧
          holder.key = call.key ∧ holder.phase.reserves = true ∧
          call.now.1 - holder.now.1 < config.cooldown) := by
  intro system
  have cooled : System.Cooled config system := System.run_cooled positive admits
  have frozenHolds {call : Call} (frozen : call.phase.frozen = true) :
      call.reservation = some (call.key, call.now.1) := by
    have reserves : call.phase.reserves = true := by
      revert frozen
      cases call.phase <;> simp [Phase.frozen, Phase.reserves]
    simp [Call.reservation, reserves]
  constructor
  · intro first second before after different isBefore isAfter beforeFrozen afterFrozen alike
    apply cooled.cooling.apart first second before.key _ _ different
    · simp [System.reservations, isBefore, frozenHolds beforeFrozen]
    · simp [System.reservations, isAfter, frozenHolds afterFrozen, alike.key]
  · intro index call found allowed suppressed
    have period : system.detector.config.cooldown = config.cooldown := by
      rw [cooled.configured]
      rfl
    have inside := (List.getElem?_eq_some_iff.mp (System.callIn_eq_some.mp found).1).1
    have later := (allowed call found).1
    have pruned := System.cooling_pruned (by rw [period]; exact cooled.cooling)
      (by rwa [period]) later
    have suppresses : system.detector.suppresses call.key call.now = true := by
      by_contra reserves
      simp [System.step, found, System.moveTo, Detector.reserve, reserves, inside] at suppressed
    rw [Detector.suppresses_iff (by rwa [period]), period] at suppresses
    rcases suppresses with ⟨last, recorded, _, near⟩
    rcases pruned.owned call.key last recorded with ⟨other, holds⟩
    rcases bind_eq_some_iff.mp holds with ⟨holder, isHolder, reservation⟩
    simp only [Call.reservation, ite_none_right_eq_some, some.injEq, Prod.mk.injEq] at reservation
    exact ⟨other, holder, isHolder, reservation.2.1, reservation.1, by
      rw [reservation.2.2]
      exact near⟩

namespace Sample

def config : Config where
  latencyThresholdMS := 0x408F400000000000
  errorThreshold := 1
  errorWindow := Duration.minute
  freezeLookback := Duration.minute
  cooldown := 10
  maxTrackedSources := 4
  inRange := by decide

def event : Event :=
  { Event.zero with tenantID := ascii "acme", source := ascii "api", type := ascii "error" }

def sections : List Section := [
  .observe event ⟨1000, by decide⟩, .reserve 0, .observe event ⟨1004, by decide⟩,
  .freeze 0 false, .release 0, .reserve 1, .observe event ⟨1005, by decide⟩, .reserve 2,
  .freeze 1 true, .observe event ⟨1020, by decide⟩, .reserve 3, .annotate 1, .freeze 3 true]

def call (now : ClockReading) (count : Nat) (phase : Phase) : Call :=
  ⟨event, now, .errors count Duration.minute, phase⟩

end Sample

theorem cooldown_run_sample :
    System.machine.Admits (System.initial Sample.config) Sample.sections ∧
    (System.machine.run (System.initial Sample.config) Sample.sections).calls.map Call.phase =
      [.released, .returned, .suppressed, .annotating] ∧
    Sample.config.cooldown ≤ |(1004 : Int) - 1020| :=
  ⟨by decide +kernel, by decide +kernel,
    (cooldown_run Sample.config (by decide) Sample.sections (by decide +kernel)).1 1 3
      (Sample.call ⟨1004, by decide⟩ 2 .returned) (Sample.call ⟨1020, by decide⟩ 4 .annotating)
      (by decide) (by decide +kernel) (by decide +kernel) rfl rfl ⟨rfl, rfl, rfl⟩⟩

end TelemetryForge.Incident
