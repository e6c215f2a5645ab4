import TelemetryForge.Incident.Detector
import TelemetryForge.Security.ApiKeys

/-! # Incident detection for each tenant

The detector keeps the errors and the reservations of all tenants in two maps. -/

namespace TelemetryForge.Incident

open Security List SortedMap

structure Observation where
  event : Event
  now : ClockReading
  freezes : Bool
deriving DecidableEq

structure Watch where
  detector : Detector
  frozen : List Freeze
  clock : Int
deriving DecidableEq

namespace Watch

def start (config : Config) : Watch := ⟨newDetector config, [], 0⟩

/-- `trigger`, run without interruption. -/
def trigger (watch : Watch) (observation : Observation) (reason : Reason) : Watch :=
  let event := observation.event
  let now := observation.now.1
  let key := triggerKey event reason.category
  let reserved := watch.detector.reserve key now
  if !reserved.2 then { watch with detector := reserved.1 }
  else if observation.freezes then
    { watch with
      detector := reserved.1
      frozen := watch.frozen ++ [freezeFor watch.detector.config event reason.category now] }
  else { watch with detector := reserved.1.releaseTriggerReservation key now }

def observe (watch : Watch) (observation : Observation) : Watch :=
  let breach := watch.detector.breach observation.event observation.now.1
  let watch := { watch with detector := breach.1, clock := observation.now.1 }
  match breach.2 with
  | none => watch
  | some reason => watch.trigger observation reason

def allowed (watch : Watch) (observation : Observation) : Prop :=
  let event := observation.event
  let now := observation.now.1
  watch.clock ≤ now ∧
    (watch.detector.latencyBreach event = none → isError event = true →
      watch.detector.hasErrorRoom (sourceKey event) now = true) ∧
    ∀ reason ∈ (watch.detector.breach event now).2,
      (watch.detector.breach event now).1.hasTriggerRoom (triggerKey event reason.category) now =
        true

instance (watch : Watch) (observation : Observation) : Decidable (watch.allowed observation) :=
  inferInstanceAs (Decidable (_ ∧ _ ∧ _))

def machine : Machine Watch Observation := ⟨observe, allowed⟩

instance (watch : Watch) (observation : Observation) :
    Decidable (machine.allowed watch observation) :=
  inferInstanceAs (Decidable (watch.allowed observation))

def frozenFor (watch : Watch) (tenantID : Bytes) : List Freeze :=
  watch.frozen.filter fun freeze => freeze.tenantID == tenantID

end Watch

def ofTenant (tenantID : Bytes) (observation : Observation) : Bool :=
  observation.event.tenantID == tenantID

def Isolated (config : Config) (tenantIDs : List Bytes) : Prop :=
  ∀ observations, (∀ observation ∈ observations, observation.event.tenantID ∈ tenantIDs) →
    Watch.machine.Admits (Watch.start config) observations →
    ∀ tenantID ∈ tenantIDs,
      (Watch.machine.run (Watch.start config) observations).frozenFor tenantID =
        (Watch.machine.run (Watch.start config)
          (observations.filter (ofTenant tenantID))).frozenFor tenantID

def Unambiguous (tenantIDs : List Bytes) : Prop :=
  ∀ tenantID ∈ tenantIDs, ∀ other ∈ tenantIDs, ¬tenantID ++ ascii "|" <+: other

instance (tenantIDs : List Bytes) : Decidable (Unambiguous tenantIDs) :=
  inferInstanceAs (Decidable (∀ tenantID ∈ tenantIDs, ∀ other ∈ tenantIDs, _))

def ownsKey (tenantID key : Bytes) : Bool := (tenantID ++ ascii "|").isPrefixOf key

theorem ownsKey_sourceKey (event : Event) : ownsKey event.tenantID (sourceKey event) = true := by
  rw [ownsKey, isPrefixOf_iff_prefix]
  exact prefix_append _ _

theorem ownsKey_triggerKey (event : Event) (category : Category) :
    ownsKey event.tenantID (triggerKey event category) = true := by
  rw [ownsKey, isPrefixOf_iff_prefix, triggerKey, sourceKey]
  simp only [append_assoc]
  exact ⟨_, append_assoc _ _ _⟩

variable {tenantIDs : List Bytes} {tenantID : Bytes}

theorem not_ownsKey_of_unambiguous (unambiguous : Unambiguous tenantIDs)
    {other key : Bytes} (isTenant : tenantID ∈ tenantIDs) (isOther : other ∈ tenantIDs)
    (different : other ≠ tenantID) (owned : ownsKey other key = true) :
    ownsKey tenantID key = false := by
  rw [Bool.eq_false_iff, ownsKey, ne_eq, isPrefixOf_iff_prefix]
  rw [ownsKey, isPrefixOf_iff_prefix] at owned
  intro also
  have bar (text : Bytes) : (text ++ ascii "|").length = text.length + 1 := by
    rw [length_append]
    rfl
  rcases lt_trichotomy tenantID.length other.length with shorter | same | longer
  · apply unambiguous tenantID isTenant other isOther
    apply prefix_of_prefix_length_le also ((prefix_append _ _).trans owned)
    rw [bar]
    omega
  · apply different
    exact ((prefix_of_prefix_length_le ((prefix_append _ _).trans owned)
      ((prefix_append _ _).trans also) same.ge).eq_of_length same.symm)
  · apply unambiguous other isOther tenantID isTenant
    apply prefix_of_prefix_length_le owned ((prefix_append _ _).trans also)
    rw [bar]
    omega

/-- The second detector has what the first one has under owned keys. Reservations agree from
the clock on, because pruning may be further ahead in the first detector. -/
structure Mirrors (owns : Bytes → Bool) (clock : Int) (full reduced : Detector) : Prop where
  config : reduced.config = full.config
  errors : reduced.errors = full.errors.restrict owns
  triggers : ∀ now, clock ≤ now →
    reduced.pruneExpiredTriggers now = (full.pruneExpiredTriggers now).restrict owns

section Mirror

variable {owns : Bytes → Bool} {clock now : Int} {full reduced : Detector} {key : Bytes}

theorem getD_restrict {ν : Type} (map : SortedMap Bytes ν) (owned : owns key = true)
    (default : ν) : (map.restrict owns).getD key default = map.getD key default := by
  simp [SortedMap.getD, SortedMap.find?_restrict, owned]

section

variable (mirrors : Mirrors owns clock full reduced)
include mirrors

variable (now) in
theorem keptErrors_mirrors (owned : owns key = true) :
    reduced.keptErrors key now = full.keptErrors key now := by
  rw [Detector.keptErrors, Detector.keptErrors, mirrors.errors, mirrors.config,
    getD_restrict _ owned]

variable (now) in
theorem currentErrors_mirrors
    (owned : owns key = true) :
    reduced.currentErrors key now = (full.currentErrors key now).restrict owns := by
  rw [Detector.currentErrors, Detector.currentErrors, keptErrors_mirrors now mirrors owned,
    mirrors.errors]
  split_ifs
  · rw [restrict_erase]
  · rfl

theorem recordError_mirrors (owned : owns key = true) (room : full.hasErrorRoom key now = true) :
    (reduced.recordError key now).2 = (full.recordError key now).2 ∧
      Mirrors owns clock (full.recordError key now).1 (reduced.recordError key now).1 := by
  have current := currentErrors_mirrors now mirrors owned
  have kept := keptErrors_mirrors now mirrors owned
  have reducedRoom : reduced.hasErrorRoom key now = true := by
    have smaller := (full.currentErrors key now).length_restrict_le owns
    simp only [Detector.hasErrorRoom, current, mirrors.config, find?_restrict, owned,
      if_true, Bool.or_eq_true, decide_eq_true_eq] at room ⊢
    rcases room with found | below
    · exact .inl found
    · exact .inr (by omega)
  refine ⟨?_, ?_, ?_, ?_⟩
  · simp only [Detector.recordError, kept, mirrors.config]
  · exact mirrors.config
  · simp only [Detector.recordError, reducedRoom, room, if_true, kept, current,
      restrict_insert, owned]
  · exact mirrors.triggers

theorem recordError_other (other : owns key = false) (room : full.hasErrorRoom key now = true) :
    Mirrors owns clock (full.recordError key now).1 reduced := by
  refine ⟨mirrors.config, ?_, mirrors.triggers⟩
  have current : (full.currentErrors key now).restrict owns = full.errors.restrict owns := by
    rw [Detector.currentErrors]
    split_ifs
    · rw [restrict_erase, erase_of_absent]
      simp [find?_restrict, other]
    · rfl
  simp only [Detector.recordError, room, if_true, restrict_insert, other,
    Bool.false_eq_true, if_false, current]
  exact mirrors.errors

end

theorem prune_prune (detector : Detector) {earlier later : Int} (order : earlier ≤ later) :
    Detector.pruneExpiredTriggers
        { detector with lastTrigger := detector.pruneExpiredTriggers earlier } later =
      detector.pruneExpiredTriggers later := by
  by_cases off : detector.config.cooldown ≤ 0
  · simp [Detector.pruneExpiredTriggers, off]
  · apply ext
    intro key
    rw [Detector.find?_prune (by dsimp only; omega), Detector.find?_prune (by omega)]
    dsimp only
    rw [Detector.find?_prune (by omega), Option.filter_filter]
    congr 1
    funext timestamp
    by_cases expired : timestamp < later - detector.config.cooldown
    · simp [expired]
    · have fresh : ¬timestamp < earlier - detector.config.cooldown := by omega
      simp [expired, fresh]

theorem prune_restrict (full reduced : Detector) (config : reduced.config = full.config)
    (triggers : reduced.lastTrigger = full.lastTrigger.restrict owns) (now : Int) :
    reduced.pruneExpiredTriggers now = (full.pruneExpiredTriggers now).restrict owns := by
  by_cases off : full.config.cooldown ≤ 0
  · simp [Detector.pruneExpiredTriggers, config, off, restrict_empty]
  · apply ext
    intro key
    rw [Detector.find?_prune (by rw [config]; omega), find?_restrict,
      Detector.find?_prune (by omega), triggers, config, find?_restrict]
    cases owns key <;> simp

theorem prune_other (detector : Detector) {triggers : SortedMap Bytes Int}
    (same : ∀ key, owns key = true → triggers.find? key = detector.lastTrigger.find? key)
    (now : Int) :
    (Detector.pruneExpiredTriggers { detector with lastTrigger := triggers } now).restrict owns =
      (detector.pruneExpiredTriggers now).restrict owns := by
  by_cases off : detector.config.cooldown ≤ 0
  · simp [Detector.pruneExpiredTriggers, off]
  · apply ext
    intro key
    rw [find?_restrict, find?_restrict,
      Detector.find?_prune (by dsimp only; omega), Detector.find?_prune (by omega)]
    split_ifs with owned
    · rw [same key owned]
    · rfl

theorem reserve_mirrors (mirrors : Mirrors owns clock full reduced) (owned : owns key = true)
    (later : clock ≤ now) (room : full.hasTriggerRoom key now = true) :
    (reduced.reserve key now).2 = (full.reserve key now).2 ∧
      (reduced.reserve key now).1.lastTrigger =
        (full.reserve key now).1.lastTrigger.restrict owns := by
  have pruned := mirrors.triggers now later
  have suppresses : reduced.suppresses key now = full.suppresses key now := by
    simp only [Detector.suppresses, pruned, mirrors.config, getD_restrict _ owned]
  have reducedRoom : reduced.hasTriggerRoom key now = true := by
    have smaller := (full.pruneExpiredTriggers now).length_restrict_le owns
    simp only [Detector.hasTriggerRoom, Detector.maxTriggerEntries, pruned, mirrors.config,
      find?_restrict, owned, if_true, Bool.or_eq_true, decide_eq_true_eq] at room ⊢
    rcases room with found | below
    · exact .inl found
    · have fewer := of_decide_eq_true below
      exact .inr (by omega)
  simp only [Detector.reserve, suppresses, room, reducedRoom, if_true]
  split_ifs
  · exact ⟨rfl, pruned⟩
  · simp only [restrict_insert, owned, if_true, pruned, and_self]

theorem reserve_other (mirrors : Mirrors owns clock full reduced) (other : owns key = false)
    (later : clock ≤ now) (room : full.hasTriggerRoom key now = true) :
    Mirrors owns now (full.reserve key now).1 reduced := by
  refine ⟨by simpa using mirrors.config, by simpa using mirrors.errors, ?_⟩
  intro next after
  rw [mirrors.triggers next (later.trans after), ← prune_prune full after]
  simp only [Detector.reserve, room, if_true]
  split_ifs
  · rfl
  · refine (prune_other { full with lastTrigger := full.pruneExpiredTriggers now } ?_ next).symm
    intro candidate owned
    rw [find?_insert, if_neg]
    rintro rfl
    simp [other] at owned

theorem release_restrict (same : reduced.lastTrigger = full.lastTrigger.restrict owns)
    (owned : owns key = true) : (reduced.releaseTriggerReservation key now).lastTrigger =
      (full.releaseTriggerReservation key now).lastTrigger.restrict owns := by
  simp only [Detector.releaseTriggerReservation, same, find?_restrict, owned, if_true]
  split_ifs
  · exact (restrict_erase _ _ _).symm
  · exact same

section

variable (mirrors : Mirrors owns clock full reduced)
include mirrors

theorem release_other (other : owns key = false)
    (reservedAt : Int) :
    Mirrors owns clock (full.releaseTriggerReservation key reservedAt) reduced := by
  refine ⟨by simpa using mirrors.config, by simpa using mirrors.errors, ?_⟩
  intro next after
  rw [mirrors.triggers next after, Detector.releaseTriggerReservation]
  split_ifs
  · refine (prune_other full ?_ next).symm
    intro candidate owned
    rw [find?_erase, if_neg]
    rintro rfl
    simp [other] at owned
  · rfl

theorem breach_mirrors {event : Event}
    (owned : owns (sourceKey event) = true)
    (room : full.latencyBreach event = none → isError event = true →
      full.hasErrorRoom (sourceKey event) now = true) :
    (reduced.breach event now).2 = (full.breach event now).2 ∧
      Mirrors owns clock (full.breach event now).1 (reduced.breach event now).1 := by
  have latency : reduced.latencyBreach event = full.latencyBreach event := by
    simp only [Detector.latencyBreach, mirrors.config]
  simp only [Detector.breach, latency]
  split
  · exact ⟨rfl, mirrors⟩
  · rename_i none
    split_ifs with error
    · exact recordError_mirrors mirrors owned (room none error)
    · exact ⟨rfl, mirrors⟩

theorem breach_other {event : Event}
    (other : owns (sourceKey event) = false)
    (room : full.latencyBreach event = none → isError event = true →
      full.hasErrorRoom (sourceKey event) now = true) :
    Mirrors owns clock (full.breach event now).1 reduced := by
  simp only [Detector.breach]
  split
  · exact mirrors
  · rename_i none
    split_ifs with error
    · exact recordError_other mirrors other (room none error)
    · exact mirrors

end

end Mirror

structure Related (tenantID : Bytes) (full reduced : Watch) : Prop where
  mirrors : Mirrors (ownsKey tenantID) full.clock full.detector reduced.detector
  frozen : full.frozenFor tenantID = reduced.frozenFor tenantID

variable {observation : Observation}

theorem observe_kept {full reduced : Watch}
    (related : Related tenantID full reduced) (allowed : full.allowed observation)
    (own : observation.event.tenantID = tenantID) :
    Related tenantID (full.observe observation) (reduced.observe observation) := by
  rcases allowed with ⟨later, errorRoom, triggerRoom⟩
  subst own
  rcases breach_mirrors related.mirrors (ownsKey_sourceKey _) errorRoom with ⟨same, mirrors⟩
  simp only [Watch.observe, same]
  split
  · refine ⟨⟨mirrors.config, mirrors.errors, fun next after => ?_⟩, related.frozen⟩
    exact mirrors.triggers next (later.trans after)
  rename_i reason found
  have owned := ownsKey_triggerKey observation.event reason.category
  rcases reserve_mirrors mirrors owned later (triggerRoom reason found) with ⟨decided, triggers⟩
  -- Whatever is decided, both detectors end with the same owned reservations.
  have ends (full' reduced' : Detector)
      (fullConfig : full'.config = full.detector.config)
      (reducedConfig : reduced'.config = reduced.detector.config)
      (fullErrors : full'.errors = (full.detector.breach observation.event observation.now).1.errors)
      (reducedErrors : reduced'.errors =
        (reduced.detector.breach observation.event observation.now).1.errors)
      (same : reduced'.lastTrigger =
        full'.lastTrigger.restrict (ownsKey observation.event.tenantID)) :
      Mirrors (ownsKey observation.event.tenantID) observation.now full' reduced' := by
    have config : reduced'.config = full'.config := by
      rw [fullConfig, reducedConfig, related.mirrors.config]
    exact ⟨config, by rw [fullErrors, reducedErrors, mirrors.errors],
      fun next _ => prune_restrict _ _ config same next⟩
  simp only [Watch.trigger, decided]
  split_ifs
  · exact ⟨ends _ _ (by simp) (by simp) (by simp) (by simp) triggers, related.frozen⟩
  · refine ⟨ends _ _ (by simp) (by simp) (by simp) (by simp) triggers, ?_⟩
    have frozen := related.frozen
    simp only [Watch.frozenFor, filter_append, Detector.breach_config,
      related.mirrors.config] at frozen ⊢
    rw [frozen]
  · exact ⟨ends _ _ (by simp) (by simp) (by simp) (by simp) (release_restrict triggers owned),
      related.frozen⟩

theorem observe_dropped (unambiguous : Unambiguous tenantIDs)
    (trimmed : ∀ tenantID ∈ tenantIDs, Trimmed tenantID)
    (isTenant : tenantID ∈ tenantIDs) {full reduced : Watch}
    (isOther : observation.event.tenantID ∈ tenantIDs)
    (related : Related tenantID full reduced) (allowed : full.allowed observation)
    (different : observation.event.tenantID ≠ tenantID) :
    Related tenantID (full.observe observation) reduced := by
  rcases allowed with ⟨later, errorRoom, triggerRoom⟩
  have foreign {key : Bytes} (owned : ownsKey observation.event.tenantID key = true) :
      ownsKey tenantID key = false :=
    not_ownsKey_of_unambiguous unambiguous isTenant isOther different owned
  have mirrors := breach_other related.mirrors (foreign (ownsKey_sourceKey _)) errorRoom
  simp only [Watch.observe]
  split
  · refine ⟨⟨mirrors.config, mirrors.errors, fun next after => ?_⟩, related.frozen⟩
    exact mirrors.triggers next (later.trans after)
  rename_i reason found
  have other := foreign (ownsKey_triggerKey observation.event reason.category)
  have reserved := reserve_other mirrors other later (triggerRoom reason found)
  have tenant : tenantOf observation.event.tenantID ≠ tenantID := by
    rcases trimmed _ isOther with ⟨trim, nonblank⟩
    rwa [tenantOf, trim, if_neg nonblank]
  simp only [Watch.trigger]
  split_ifs
  · exact ⟨reserved, related.frozen⟩
  · refine ⟨reserved, ?_⟩
    rw [← related.frozen]
    simp [Watch.frozenFor, filter_append, freezeFor, tenant]
  · exact ⟨release_other reserved other _, related.frozen⟩

theorem isolated_of_unambiguous (config : Config)
    (trimmed : ∀ tenantID ∈ tenantIDs, Trimmed tenantID) (unambiguous : Unambiguous tenantIDs) :
    Isolated config tenantIDs := by
  intro observations known admits tenantID isTenant
  have initially : Related tenantID (Watch.start config) (Watch.start config) := by
    refine ⟨⟨rfl, rfl, fun now _ => ?_⟩, rfl⟩
    exact prune_restrict (newDetector config) _ rfl rfl now
  refine (Machine.related_filter _ ?_ ?_ initially admits).frozen
  · intro full reduced observation _ related allowed own
    exact observe_kept related allowed (by simpa [ofTenant] using own)
  · intro full reduced observation member related allowed other
    exact observe_dropped unambiguous trimmed isTenant (known observation member) related allowed
      (by simpa [ofTenant] using other)

/-! ## Detection without memory

With a threshold of one error and no cooldown, every breach is frozen. -/

def instantFreeze (config : Config) (observation : Observation) : List Freeze :=
  let event := observation.event
  let freeze (category : Category) :=
    if observation.freezes then [freezeFor config event category observation.now] else []
  if ((Detector.mk config .empty .empty).latencyBreach event).isSome then freeze .latency
  else if isError event then freeze .errors
  else []

theorem latencyBreach_category {detector : Detector} {event : Event} {reason : Reason}
    (breached : detector.latencyBreach event = some reason) : reason.category = .latency := by
  simp only [Detector.latencyBreach] at breached
  split at breached
  · cases breached
  · split_ifs at breached
    cases breached
    rfl

theorem reserve_of_off {detector : Detector} (off : detector.config.cooldown ≤ 0) (key : Bytes)
    (now : Int) : (detector.reserve key now).2 = true := by
  have suppresses : detector.suppresses key now = false := by
    simp [Detector.suppresses, not_lt.mpr off]
  simp [Detector.reserve, suppresses]

theorem trigger_of_off (watch : Watch) (off : watch.detector.config.cooldown ≤ 0)
    (observation : Observation) (reason : Reason) :
    (watch.trigger observation reason).detector.config = watch.detector.config ∧
      (watch.trigger observation reason).frozen = watch.frozen ++ if observation.freezes then
          [freezeFor watch.detector.config observation.event reason.category observation.now]
        else [] := by
  have reserved := reserve_of_off off (triggerKey observation.event reason.category) observation.now
  simp only [Watch.trigger, reserved, Bool.not_true, Bool.false_eq_true, if_false]
  split_ifs <;> simp

theorem observe_instant {watch : Watch} {config : Config} (same : watch.detector.config = config)
    (off : config.cooldown ≤ 0) (single : config.errorThreshold = 1) (observation : Observation) :
    (watch.observe observation).detector.config = config ∧
      (watch.observe observation).frozen = watch.frozen ++ instantFreeze config observation := by
  subst same
  have latency : (Detector.mk watch.detector.config .empty .empty).latencyBreach observation.event =
      watch.detector.latencyBreach observation.event := rfl
  have triggers (detector : Detector) (config : detector.config = watch.detector.config)
      (reason : Reason) :=
    trigger_of_off { watch with detector := detector, clock := observation.now.1 }
      (by rwa [config]) observation reason
  cases breached : watch.detector.latencyBreach observation.event with
  | some reason =>
    have category := latencyBreach_category breached
    have triggered := triggers watch.detector rfl reason
    simpa [Watch.observe, Detector.breach, breached, instantFreeze, latency, category]
      using triggered
  | none =>
    by_cases error : isError observation.event = true
    · -- The error itself reaches a threshold of one.
      have counted : ∃ count window,
          (watch.detector.recordError (sourceKey observation.event) observation.now).2 =
            some (.errors count window) := by
        have reached : ¬((watch.detector.keptErrors (sourceKey observation.event)
            observation.now ++ [observation.now.1]).length : Int) < 1 := by
          simp
        simp only [Detector.recordError, single, if_neg reached]
        exact ⟨_, _, rfl⟩
      rcases counted with ⟨count, window, counted⟩
      have triggered := triggers
        (watch.detector.recordError (sourceKey observation.event) observation.now).1 rfl
        (.errors count window)
      simp only [Watch.observe, Detector.breach, breached, error, if_true, counted]
      simpa [instantFreeze, latency, breached, error, Reason.category] using triggered
    · simp [Watch.observe, Detector.breach, breached, instantFreeze, latency, error]

theorem instantFreeze_tenant {config : Config} {freeze : Freeze}
    (member : freeze ∈ instantFreeze config observation) :
    freeze.tenantID = tenantOf observation.event.tenantID := by
  simp only [instantFreeze] at member
  split_ifs at member <;> simp only [mem_singleton, not_mem_nil] at member
  all_goals rw [member]; rfl

theorem isolated_of_instant (config : Config)
    (trimmed : ∀ tenantID ∈ tenantIDs, Trimmed tenantID) (off : config.cooldown ≤ 0)
    (single : config.normalized.errorThreshold = 1) : Isolated config tenantIDs := by
  intro observations known admits tenantID _
  let Related (full reduced : Watch) : Prop :=
    full.detector.config = config.normalized ∧ reduced.detector.config = config.normalized ∧
      full.frozenFor tenantID = reduced.frozenFor tenantID
  have initially : Related (Watch.start config) (Watch.start config) := ⟨rfl, rfl, rfl⟩
  refine (Machine.related_filter Related ?_ ?_ initially admits).2.2
  · rintro full reduced observation _ ⟨fullConfig, reducedConfig, frozen⟩ _ _
    have fullStep := observe_instant fullConfig off single observation
    have reducedStep := observe_instant reducedConfig off single observation
    refine ⟨fullStep.1, reducedStep.1, ?_⟩
    simp only [Watch.frozenFor, Watch.machine, fullStep.2, reducedStep.2, filter_append] at frozen ⊢
    rw [frozen]
  · rintro full reduced observation member ⟨fullConfig, reducedConfig, frozen⟩ _ other
    have fullStep := observe_instant fullConfig off single observation
    refine ⟨fullStep.1, reducedConfig, ?_⟩
    have foreign : (instantFreeze config.normalized observation).filter
        (fun freeze => freeze.tenantID == tenantID) = [] := by
      rw [filter_eq_nil_iff]
      intro freeze frozen
      rcases trimmed _ (known observation member) with ⟨trim, nonblank⟩
      simpa [instantFreeze_tenant frozen, tenantOf, trim, nonblank, ofTenant] using other
    simp only [Watch.frozenFor, Watch.machine, fullStep.2, filter_append, foreign,
      append_nil] at frozen ⊢
    exact frozen

section Shared

variable (config : Config) (key : Bytes)

def tally (count : Nat) : SortedMap Bytes (List Int) :=
  if count = 0 then .empty else SortedMap.empty.insert key (List.replicate count 1)

theorem getD_tally (count : Nat) : (tally key count).getD key [] = List.replicate count 1 := by
  unfold tally
  split_ifs with zero
  · simp [SortedMap.getD, zero]
  · simp [SortedMap.getD]

theorem normalized_positive : 1 ≤ config.normalized.errorThreshold ∧
    0 < config.normalized.errorWindow ∧ 1 ≤ config.normalized.maxTrackedSources := by
  simp only [Config.normalized, defaultConfig, defaultMaxTrackedSources, Duration.minute,
    Duration.second]
  refine ⟨?_, ?_, ?_⟩ <;> split_ifs <;> omega

theorem recordError_tally (count : Nat) (triggers : SortedMap Bytes Int) :
    (Detector.mk config.normalized (tally key count) triggers).hasErrorRoom key 1 = true ∧
    (Detector.mk config.normalized (tally key count) triggers).recordError key 1 =
      (⟨config.normalized, tally key (count + 1), triggers⟩,
        if (count : Int) + 1 < config.normalized.errorThreshold then none
        else some (.errors (count + 1) config.normalized.errorWindow)) := by
  rcases normalized_positive config with ⟨_, window, sources⟩
  have kept : (Detector.mk config.normalized (tally key count) triggers).keptErrors key 1 =
      replicate count 1 := by
    simp only [Detector.keptErrors, getD_tally]
    rw [filter_eq_self]
    intro timestamp member
    rw [eq_of_mem_replicate member]
    simpa using window
  have room : (Detector.mk config.normalized (tally key count) triggers).hasErrorRoom key 1 =
      true := by
    simp only [Detector.hasErrorRoom, Detector.currentErrors, kept]
    rcases Nat.eq_zero_or_pos count with rfl | positive
    · simp only [replicate_zero, if_true, tally, Bool.or_eq_true, decide_eq_true_eq]
      right
      have nothing : ((empty : SortedMap Bytes (List Int)).erase key).entries.length = 0 :=
        rfl
      rw [nothing]
      simp only [Nat.cast_zero]
      omega
    · have seen : replicate count (1 : Int) ≠ [] := by simpa using positive.ne'
      simp [seen, tally, positive.ne']
  refine ⟨room, ?_⟩
  simp only [Detector.recordError, room, if_true, kept, Prod.mk.injEq, Detector.mk.injEq, true_and,
    and_true]
  constructor
  · rw [Detector.currentErrors, kept]
    apply ext
    intro other
    by_cases same : other = key
    · simp [same, tally, replicate_succ']
    · by_cases zero : count = 0 <;> simp [same, tally, zero]
  · simp

structure Failure (event : Event) : Prop where
  error : isError event = true
  valueless : event.value = none
  key : sourceKey event = key

variable {config key} {event : Event} {count : Nat} {clock : Int}

def counting (config : Config) (key : Bytes) (count : Nat) (clock : Int) : Watch :=
  ⟨⟨config.normalized, tally key count, .empty⟩, [], clock⟩

def momentary (event : Event) : Observation := ⟨event, ⟨1, by decide⟩, true⟩

variable (config count) in
theorem breach_counting (failure : Failure key event) (triggers : SortedMap Bytes Int) :
    (Detector.mk config.normalized (tally key count) triggers).breach event 1 =
      (⟨config.normalized, tally key (count + 1), triggers⟩,
        if (count : Int) + 1 < config.normalized.errorThreshold then none
        else some (.errors (count + 1) config.normalized.errorWindow)) := by
  have latency : (Detector.mk config.normalized (tally key count) triggers).latencyBreach event =
      none := by
    simp [Detector.latencyBreach, failure.valueless]
  rw [Detector.breach, latency]
  simp only [failure.error, if_true, failure.key]
  exact (recordError_tally config key count triggers).2

theorem prune_empty (config : Config) (errors : SortedMap Bytes (List Int)) (now : Int) :
    (Detector.mk config errors .empty).pruneExpiredTriggers now = .empty := by
  unfold Detector.pruneExpiredTriggers
  split_ifs <;> rfl

variable (config count clock) in
theorem observe_counting (failure : Failure key event) (early : clock ≤ 1) :
    (counting config key count clock).allowed (momentary event) ∧
    (counting config key count clock).observe (momentary event) =
      if (count : Int) + 1 < config.normalized.errorThreshold then
        counting config key (count + 1) 1
      else
        ⟨⟨config.normalized, tally key (count + 1),
            SortedMap.empty.insert (triggerKey event .errors) 1⟩,
          [freezeFor config.normalized event .errors 1], 1⟩ := by
  have breached := breach_counting config count failure .empty
  rcases normalized_positive config with ⟨_, _, sources⟩
  have room (triggered : Bytes) : (Detector.mk config.normalized (tally key (count + 1))
      .empty).hasTriggerRoom triggered 1 = true := by
    simp only [Detector.hasTriggerRoom, prune_empty, SortedMap.find?_empty, Option.isSome_none,
      Bool.false_or, decide_eq_true_eq, Detector.maxTriggerEntries]
    change ((0 : Nat) : Int) < config.normalized.maxTrackedSources * 2
    omega
  constructor
  · refine ⟨early, ?_, ?_⟩
    · intro _ _
      simp only [momentary, counting, failure.key]
      exact (recordError_tally config key count .empty).1
    · intro reason _
      simp only [momentary, counting, breached]
      exact room _
  · simp only [Watch.observe, momentary, counting, breached]
    split_ifs
    · rfl
    · have suppresses (triggered : Bytes) : (Detector.mk config.normalized (tally key (count + 1))
          .empty).suppresses triggered 1 = false := by
        simp [Detector.suppresses, prune_empty, SortedMap.getD]
      simp [Watch.trigger, Detector.reserve, suppresses, room, prune_empty, Reason.category]

variable (config count clock) in
theorem run_counting (failure : Failure key event) (early : clock ≤ 1) (more : Nat)
    (below : (count : Int) + more < config.normalized.errorThreshold) :
    Watch.machine.Admits (counting config key count clock)
        (List.replicate more (momentary event)) ∧
      ∃ clock' ≤ 1, Watch.machine.run (counting config key count clock)
        (List.replicate more (momentary event)) = counting config key (count + more) clock' := by
  induction more generalizing count clock with
  | zero => exact ⟨trivial, clock, early, rfl⟩
  | succ more induction =>
    rcases observe_counting config count clock failure early with
      ⟨allowed, observed⟩
    rw [if_pos (by omega)] at observed
    rcases induction (count + 1) 1 le_rfl (by push_cast at below ⊢; omega)
      with ⟨admits, clock', bound, runs⟩
    have step : Watch.machine.step (counting config key count clock) (momentary event) =
        counting config key (count + 1) 1 := observed
    rw [replicate_succ]
    refine ⟨⟨allowed, ?_⟩, clock', bound, ?_⟩
    · rwa [step]
    · rw [Machine.run_cons, step, runs]
      congr 1
      omega

theorem observe_suppressed {second : Event} (failure : Failure key event)
    (again : Failure key second) (cools : 0 < config.cooldown)
    (single : config.normalized.errorThreshold = 1) :
    let watch := (counting config key 0 0).observe (momentary event)
    watch.allowed (momentary second) ∧
      (watch.observe (momentary second)).frozen =
        [freezeFor config.normalized event .errors 1] := by
  intro watch
  have first : watch = _ := (observe_counting config 0 _ failure (by omega)).2
  rw [if_neg (by omega)] at first
  have breached := breach_counting config 1 again
    (empty.insert (triggerKey event .errors) 1)
  rw [if_neg (by omega)] at breached
  have sameKey : triggerKey event .errors = triggerKey second .errors := by
    rw [triggerKey, triggerKey, failure.key, again.key]
  -- The reservation of the first event is as old as the second one.
  have held : ((Detector.mk config.normalized (tally key 2)
      (empty.insert (triggerKey event .errors) 1)).pruneExpiredTriggers 1).find?
        (triggerKey second .errors) = some 1 := by
    rw [Detector.find?_prune cools, ← sameKey]
    have fresh : ¬(1 : Int) < 1 - config.normalized.cooldown := by
      change ¬(1 : Int) < 1 - config.cooldown
      omega
    simp [Option.filter, fresh]
  rw [first]
  constructor
  · refine ⟨le_rfl, ?_, ?_⟩
    · intro _ _
      simp only [momentary, again.key]
      exact (recordError_tally config key 1 _).1
    · intro reason member
      simp only [momentary, breached, Option.mem_def, Option.some.injEq] at member ⊢
      subst member
      simp [Detector.hasTriggerRoom, Reason.category, held]
  · have suppressed : (Detector.mk config.normalized (tally key 2)
        (empty.insert (triggerKey event .errors) 1)).suppresses
          (triggerKey second .errors) 1 = true := by
      rw [Detector.suppresses_iff cools]
      refine ⟨1, held, by decide, ?_⟩
      change 1 - 1 < config.cooldown
      omega
    simp [Watch.observe, momentary, breached, Watch.trigger, Reason.category, Detector.reserve,
      suppressed]

end Shared

def sharedFirst (tenantID rest : Bytes) : Event :=
  { Event.zero with
    tenantID := tenantID, source := rest ++ ascii "|x", type := ascii "error" }

def sharedSecond (other : Bytes) : Event :=
  { Event.zero with tenantID := other, source := ascii "x", type := ascii "error" }

theorem isError_of_type {event : Event} (type : event.type = ascii "error") :
    isError event = true := by
  have found : contains (toLower (ascii "error")) (ascii "error") = true := by decide +kernel
  simp [isError, type, found]

theorem failure_first {rest other : Bytes}
    (shared : tenantID ++ ascii "|" ++ rest = other) :
    Failure (sourceKey (sharedSecond other)) (sharedFirst tenantID rest) := by
  refine ⟨isError_of_type rfl, rfl, ?_⟩
  simp only [sourceKey, sharedFirst, sharedSecond, ← shared, append_assoc]
  rfl

theorem failure_second (other : Bytes) :
    Failure (sourceKey (sharedSecond other)) (sharedSecond other) :=
  ⟨isError_of_type rfl, rfl, rfl⟩

theorem not_isolated {config : Config}
    (trimmed : ∀ tenantID ∈ tenantIDs, Trimmed tenantID) (ambiguous : ¬Unambiguous tenantIDs)
    (remembers : ¬(config.cooldown ≤ 0 ∧ config.normalized.errorThreshold = 1)) :
    ¬Isolated config tenantIDs := by
  simp only [Unambiguous, not_forall, not_not] at ambiguous
  rcases ambiguous with ⟨tenantID, isTenant, other, isOther, rest, shared⟩
  intro isolated
  have first := failure_first shared
  have second := failure_second other
  have different : tenantID ≠ other := by
    rintro rfl
    have lengths := congrArg length shared
    simp only [length_append] at lengths
    have bar : (ascii "|").length = 1 := rfl
    omega
  have isFirst : ofTenant other (momentary (sharedFirst tenantID rest)) = false := by
    simpa [ofTenant, momentary, sharedFirst] using different
  have isSecond : ofTenant other (momentary (sharedSecond other)) = true := by
    simp [ofTenant, momentary, sharedSecond]
  have start : Watch.start config = counting config (sourceKey (sharedSecond other)) 0 0 := rfl
  have tenantOther : (freezeFor config.normalized (sharedSecond other) .errors 1).tenantID =
      other := by
    rcases trimmed _ isOther with ⟨trim, nonblank⟩
    simp only [freezeFor, sharedSecond, tenantOf, trim, if_neg nonblank]
  have alone := observe_counting config 0 0 second (by omega)
  rcases normalized_positive config with ⟨threshold, _, _⟩
  by_cases single : config.normalized.errorThreshold = 1
  · -- The event of the first tenant suppresses the one of the second.
    have cools : 0 < config.cooldown := by
      by_contra off
      exact remembers ⟨by omega, single⟩
    have firstStep := observe_counting config 0 0 first (by omega)
    rcases observe_suppressed first second cools single with ⟨allowed, frozen⟩
    have tenantFirst : (freezeFor config.normalized (sharedFirst tenantID rest) .errors 1).tenantID =
        tenantID := by
      rcases trimmed _ isTenant with ⟨trim, nonblank⟩
      simp only [freezeFor, sharedFirst, tenantOf, trim, if_neg nonblank]
    have equal := isolated
      [momentary (sharedFirst tenantID rest), momentary (sharedSecond other)]
      (by simp [momentary, sharedFirst, sharedSecond, isTenant, isOther])
      ⟨firstStep.1, allowed, trivial⟩ _ isOther
    rw [filter_cons_of_neg (by simp [isFirst]), filter_cons_of_pos isSecond] at equal
    simp only [filter_nil, Machine.run_cons, Machine.run_nil] at equal
    simp only [start, Watch.frozenFor, Watch.machine, frozen, alone.2, single] at equal
    simp [tenantFirst, tenantOther, different] at equal
  · -- The errors of the first tenant count toward the threshold of the second.
    obtain ⟨more, isMore⟩ : ∃ more : Nat, (more : Int) + 1 = config.normalized.errorThreshold :=
      ⟨(config.normalized.errorThreshold - 1).toNat, by omega⟩
    rcases run_counting config 0 0 first (by omega) more
      (by push_cast; omega) with ⟨admits, clock, early, runs⟩
    have last := observe_counting config (0 + more) _ second early
    have equal := isolated
      (replicate more (momentary (sharedFirst tenantID rest)) ++
        [momentary (sharedSecond other)])
      (by
        intro observation member
        rcases mem_append.mp member with member | member
        · rw [eq_of_mem_replicate member]
          exact isTenant
        · rw [mem_singleton.mp member]
          exact isOther)
      ((Watch.machine.admits_append).mpr
        ⟨admits, by rw [start, runs]; exact ⟨last.1, trivial⟩⟩) _ isOther
    have dropped : (replicate more (momentary (sharedFirst tenantID rest)) ++
        [momentary (sharedSecond other)]).filter (ofTenant other) =
        [momentary (sharedSecond other)] := by
      rw [filter_append, filter_replicate, filter_cons_of_pos isSecond]
      simp [isFirst]
    rw [dropped, Machine.run_append, start, runs] at equal
    simp only [Machine.run_cons, Machine.run_nil, Watch.frozenFor, Watch.machine, last.2,
      alone.2] at equal
    rw [if_neg (by push_cast; omega), if_pos (by push_cast; omega)] at equal
    simp [counting, tenantOther] at equal

/-- For the tenants that the loader accepts, what is frozen for one of them is independent of
the others exactly when none of their IDs is another one followed by a bar, or the detector
remembers nothing. -/
theorem isolated_iff (document : KeyDocument) (credentials : List Credential)
    (loaded : loadKeys document = .ok credentials) (config : Config) :
    Isolated config (tenants credentials) ↔
      Unambiguous (tenants credentials) ∨
        config.cooldown ≤ 0 ∧ config.normalized.errorThreshold = 1 := by
  have trimmed := loadKeys_trimmed loaded
  constructor
  · intro isolated
    by_contra neither
    rw [not_or] at neither
    exact not_isolated trimmed neither.1 neither.2 isolated
  · rintro (unambiguous | ⟨off, single⟩)
    · exact isolated_of_unambiguous config trimmed unambiguous
    · exact isolated_of_instant config trimmed off single

namespace Sample

def digest (digit : String) : Bytes := List.flatten (List.replicate 64 (ascii digit))

def keys (tenantIDs : List String) : KeyDocument where
  keys := (tenantIDs.zip ["a", "b"]).map fun (tenantID, digit) =>
    ⟨ascii "edge", digest digit, ascii tenantID, [ascii "ingest"]⟩

def credentials (tenantIDs : List String) : List Credential :=
  match loadKeys (keys tenantIDs) with
  | .ok credentials => credentials
  | .error _ => []

theorem loaded : loadKeys (keys ["acme", "globex"]) = .ok (credentials ["acme", "globex"]) := by
  decide +kernel

theorem shared_loaded : loadKeys (keys ["acme", "acme|eu"]) =
    .ok (credentials ["acme", "acme|eu"]) := by
  decide +kernel

end Sample

theorem isolated_iff_sample :
    loadKeys (Sample.keys ["acme", "globex"]) = .ok (Sample.credentials ["acme", "globex"]) ∧
      Isolated defaultConfig (tenants (Sample.credentials ["acme", "globex"])) :=
  ⟨Sample.loaded, (isolated_iff _ _ Sample.loaded defaultConfig).mpr (.inl (by decide +kernel))⟩

/-- The loader accepts the tenants `acme` and `acme|eu`, which are not isolated. -/
theorem not_isolated_shared :
    loadKeys (Sample.keys ["acme", "acme|eu"]) = .ok (Sample.credentials ["acme", "acme|eu"]) ∧
      tenants (Sample.credentials ["acme", "acme|eu"]) = [ascii "acme", ascii "acme|eu"] ∧
      ¬Isolated defaultConfig (tenants (Sample.credentials ["acme", "acme|eu"])) :=
  ⟨Sample.shared_loaded, by decide +kernel,
    not_isolated (loadKeys_trimmed Sample.shared_loaded) (by decide +kernel) (by decide)⟩

end TelemetryForge.Incident
