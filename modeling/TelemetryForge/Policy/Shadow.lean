import TelemetryForge.Policy.Engine

/-! # The shadow policy does not interfere

Two runs over the same events, with the shadow policy and without it. -/

namespace TelemetryForge.Policy

open List

open Cardinality (Observation)

variable {τ υ : Type}

def ReportKey.IsActive (key : ReportKey) : Prop :=
  key.mode = ascii "active" ∨ key.mode = ascii "budget:active"

theorem Finding.isActive_reportKey_iff (finding : Finding) :
    finding.reportKey.IsActive ↔ finding.mode = .active := by
  rcases finding with ⟨_, _, _, mode, _, _, _, _, _, _, _, _, _, _⟩
  simp only [reportKey, ReportKey.IsActive]
  cases mode <;> decide

theorem BudgetStatus.isActive_reportKey_iff (status : BudgetStatus) :
    status.reportKey.IsActive ↔ status.mode = .active := by
  rcases status with ⟨_, _, _, mode, _, _, _, _, _, _, _, _, _, _⟩
  simp only [reportKey, ReportKey.IsActive]
  cases mode <;> decide

theorem Diff.not_isActive_reportKey (diff : Diff) : ¬diff.reportKey.IsActive := by
  simp only [reportKey, ReportKey.IsActive]
  decide

structure Alike (now : Int) (full reduced : Session τ υ) : Prop where
  tracker : full.active = reduced.active
  reports : Suppression.AgreeOn ReportKey.IsActive Duration.minute now full.lastReport
    reduced.lastReport
  log : full.log.filter Entry.isActive = reduced.log.filter Entry.isActive

namespace Alike

variable {now : Int} {full reduced : Session τ υ}

theorem refl (session : Session τ υ) : Alike now session session := ⟨rfl, .refl _, rfl⟩

section

variable (alike : Alike now full reduced)
include alike

theorem later {after : Int} (later : now ≤ after) :
    Alike after full reduced := ⟨alike.tracker, alike.reports.later later, alike.log⟩

theorem with_reports {left right : ReportTable}
    (reports : Suppression.AgreeOn ReportKey.IsActive Duration.minute now left right) :
    Alike now { full with lastReport := left } { reduced with lastReport := right } :=
  ⟨alike.tracker, reports, alike.log⟩

theorem note_both (entry : Entry) :
    Alike now (full.note entry) (reduced.note entry) where
  tracker := alike.tracker
  reports := alike.reports
  log := by simp only [Session.note, filter_append, alike.log]

theorem note_left {entry : Entry}
    (other : entry.isActive = false) : Alike now (full.note entry) reduced where
  tracker := alike.tracker
  reports := alike.reports
  log := by simp [Session.note, filter_append, alike.log, other]

end

end Alike

def AlikeWith {α : Type} (now : Int) (full reduced : Session τ υ × α) : Prop :=
  Alike now full.1 reduced.1 ∧ full.2 = reduced.2

namespace Engine

def withoutShadow (engine : Engine τ υ) : Engine τ υ := { engine with shadow := none }

structure Faultless (engine : Engine τ υ) : Prop where
  active : ∀ state call, ∃ result, engine.activeTracker state call = .ok result
  shadow : ∀ state call, ∃ result, engine.shadowTracker state call = .ok result
  recorder : ∀ recorder, engine.recorder = some recorder → ∀ log entry, recorder log entry = .ok ()

variable {engine : Engine τ υ} {now : Int} {full reduced : Session τ υ}

theorem observe_active (faultless : engine.Faultless) (alike : Alike now full reduced)
    (wrap : Bytes → EngineError) (call : Observe) :
    Coupled (AlikeWith now) (engine.observe wrap .active call full)
      (engine.withoutShadow.observe wrap .active call reduced) := by
  rcases faultless.active full.active call with ⟨⟨state, observation⟩, answered⟩
  have answeredAgain : engine.activeTracker reduced.active call = .ok (state, observation) := by
    rw [← alike.tracker]
    exact answered
  unfold observe withoutShadow
  simp only [answered, answeredAgain, Except.mapError]
  refine Coupled.ok ⟨Alike.note_both ?_ _, rfl⟩
  exact ⟨rfl, alike.reports, alike.log⟩

theorem record_active (faultless : engine.Faultless) {recorder : Recorder}
    (given : engine.recorder = some recorder) (alike : Alike now full reduced)
    (wrap : Bytes → EngineError) (entry : Entry) :
    Coupled (Alike now) (record recorder wrap entry full) (record recorder wrap entry reduced) := by
  unfold record
  rw [faultless.recorder recorder given, faultless.recorder recorder given]
  exact .ok (alike.note_both entry)

theorem reserveReportInterval_both (alike : Alike now full reduced) (limit : Nat)
    {key : ReportKey} (active : key.IsActive) {interval : Int}
    (within : interval ≤ Duration.minute) :
    (reserveReportInterval limit full.lastReport key now interval).1 =
        (reserveReportInterval limit reduced.lastReport key now interval).1 ∧
      Suppression.AgreeOn ReportKey.IsActive Duration.minute now
        (reserveReportInterval limit full.lastReport key now interval).2
        (reserveReportInterval limit reduced.lastReport key now interval).2 := by
  refine alike.reports.reserve_both limit active ?_ ?_ ?_
  all_goals
    simp only [Duration.minute, Duration.second, Duration.shortest, Duration.longest] at within ⊢
    split_ifs <;> omega

theorem report_active (faultless : engine.Faultless) (alike : Alike now full reduced)
    (wrap : Bytes → EngineError) {key : ReportKey} (active : key.IsActive) {interval : Int}
    (within : interval ≤ Duration.minute) (entry : Entry) :
    Coupled (Alike now) (engine.report wrap key now interval entry full)
      (engine.withoutShadow.report wrap key now interval entry reduced) := by
  unfold report withoutShadow
  dsimp only
  cases given : engine.recorder with
  | none => exact .ok alike
  | some recorder =>
    rcases reserveReportInterval_both alike engine.maxReportEntries active within with
      ⟨due, reports⟩
    dsimp only
    rw [due]
    split_ifs
    · exact record_active faultless given (alike.with_reports reports) wrap entry
    · exact .ok (alike.with_reports reports)

theorem observe_shadow (faultless : engine.Faultless) (alike : Alike now full reduced)
    (wrap : Bytes → EngineError) (call : Observe) :
    Coupled (fun result : Session τ υ × Observation => Alike now result.1)
      (engine.observe wrap .shadow call full) (.ok reduced) := by
  rcases faultless.shadow full.shadow call with ⟨⟨state, observation⟩, answered⟩
  unfold observe
  simp only [answered, Except.mapError]
  refine Coupled.ok (Alike.note_left ?_ rfl)
  exact ⟨alike.tracker, alike.reports, alike.log⟩

theorem report_shadow (faultless : engine.Faultless) (alike : Alike now full reduced)
    (wrap : Bytes → EngineError) {key : ReportKey} (foreign : ¬key.IsActive) (interval : Int)
    {entry : Entry} (other : entry.isActive = false) :
    Coupled (Alike now) (engine.report wrap key now interval entry full) (.ok reduced) := by
  unfold report
  cases given : engine.recorder with
  | none => exact .ok alike
  | some recorder =>
    have reports : Suppression.AgreeOn ReportKey.IsActive Duration.minute now
        (reserveReportInterval engine.maxReportEntries full.lastReport key now interval).2
        reduced.lastReport := alike.reports.reserve_left _ foreign _
    dsimp only
    split_ifs
    · unfold record
      rw [faultless.recorder recorder given]
      exact .ok ((alike.with_reports reports).note_left other)
    · exact .ok (alike.with_reports reports)

variable [Strings]

theorem evaluateBudgets_active (faultless : engine.Faultless) (alike : Alike now full reduced)
    (policy : Policy) (event : Event) :
    Coupled (Alike now) (engine.evaluateBudgets policy .active event now full)
      (engine.withoutShadow.evaluateBudgets policy .active event now reduced) := by
  refine Coupled.foldlM (fun budget _ full reduced alike => ?_) alike
  refine (observe_active faultless alike _ _).bind ?_
  rintro ⟨full, observation⟩ ⟨reduced, _⟩ ⟨alike, rfl⟩
  have active : (budgetStatus policy .active event budget now observation).reportKey.IsActive :=
    (BudgetStatus.isActive_reportKey_iff _).mpr rfl
  exact report_active faultless alike _ active (by decide) _

theorem evaluateBudgets_shadow (faultless : engine.Faultless) (alike : Alike now full reduced)
    (policy : Policy) (event : Event) :
    Coupled (Alike now) (engine.evaluateBudgets policy .shadow event now full) (.ok reduced) := by
  refine Coupled.foldlM_left (fun budget _ full alike => ?_) alike
  refine (observe_shadow faultless alike _ _).bind_left ?_
  rintro ⟨full, observation⟩ reduced alike
  have foreign : ¬(budgetStatus policy .shadow event budget now observation).reportKey.IsActive :=
    fun active => nomatch (BudgetStatus.isActive_reportKey_iff _).mp active
  exact report_shadow faultless alike _ foreign _ rfl

theorem evaluateShadowBudgets_shadow (faultless : engine.Faultless)
    (alike : Alike now full reduced) (event : Event) :
    Coupled (Alike now) (engine.evaluateShadowBudgets event now full) (.ok reduced) := by
  unfold evaluateShadowBudgets
  cases engine.shadow with
  | none => exact .ok alike
  | some shadow => exact evaluateBudgets_shadow faultless alike shadow event

theorem judge_mode {policy : Policy} {mode : Mode} {event : Event} {dimension : Bytes}
    {observation : Observation} {finding : Finding}
    (found : judge policy mode event dimension observation = some finding) :
    finding.mode = mode := by
  simp only [judge] at found
  split_ifs at found
  all_goals
    cases found
    rfl

section

variable (faultless : engine.Faultless)
include faultless

section

variable (alike : Alike now full reduced)
include alike

theorem evaluate_active
    (policy : Policy) (event : Event) (dimension value : Bytes) :
    Coupled (fun full reduced => AlikeWith now full reduced ∧
        ∀ finding, full.2 = some finding → finding.mode = .active)
      (engine.evaluate policy .active event dimension value now full)
      (engine.withoutShadow.evaluate policy .active event dimension value now reduced) := by
  refine (observe_active faultless alike _ _).bind ?_
  rintro ⟨full, observation⟩ ⟨reduced, _⟩ ⟨alike, rfl⟩
  exact .ok ⟨⟨alike, rfl⟩, fun _ found => judge_mode found⟩

omit [Strings] in
theorem reportFinding_active
    {finding : Option Finding} (active : ∀ found, finding = some found → found.mode = .active) :
    Coupled (Alike now) (engine.reportFinding .recordFinding now finding full)
      (engine.withoutShadow.reportFinding .recordFinding now finding reduced) := by
  cases finding with
  | none => exact .ok alike
  | some found =>
    exact report_active faultless alike _
      ((Finding.isActive_reportKey_iff found).mpr (active found rfl)) le_rfl _

omit [Strings] in
theorem reportFinding_shadow
    {finding : Option Finding} (shadow : ∀ found, finding = some found → found.mode = .shadow) :
    Coupled (Alike now) (engine.reportFinding .recordShadowFinding now finding full)
      (.ok reduced) := by
  cases finding with
  | none => exact .ok alike
  | some found =>
    have mode := shadow found rfl
    refine report_shadow faultless alike _ ?_ _ (by simp [Entry.isActive, mode])
    rw [Finding.isActive_reportKey_iff, mode]
    exact nofun

theorem evaluateShadow_shadow
    (event : Event) (dimension value : Bytes) (activeAction : Action) :
    Coupled (Alike now) (engine.evaluateShadow event dimension value now activeAction full)
      (.ok reduced) := by
  unfold evaluateShadow
  cases engine.shadow with
  | none => exact .ok alike
  | some shadow =>
    dsimp only [evaluate]
    rw [bind_assoc]
    refine (observe_shadow faultless alike _ _).bind_left ?_
    rintro ⟨full, observation⟩ reduced alike
    refine (reportFinding_shadow faultless alike fun _ found => judge_mode found).bind_left ?_
    intro full reduced alike
    split_ifs
    · exact .ok alike
    · exact report_shadow faultless alike _ (Diff.not_isActive_reportKey _) _ rfl

end

theorem evaluateDimension_both (event : Event)
    {full reduced : Session τ υ × Marks} (alike : AlikeWith now full reduced)
    (entry : Bytes × Bytes) :
    Coupled (AlikeWith now) (engine.evaluateDimension event now full entry)
      (engine.withoutShadow.evaluateDimension event now reduced entry) := by
  rcases full with ⟨full, marks⟩
  rcases reduced with ⟨reduced, _⟩
  rcases alike with ⟨alike, rfl⟩
  refine (evaluate_active faultless alike engine.active event entry.1 entry.2).bind ?_
  rintro ⟨full, finding⟩ ⟨reduced, _⟩ ⟨⟨alike, rfl⟩, active⟩
  refine (reportFinding_active faultless alike active).bind fun full reduced alike => ?_
  have shadow := evaluateShadow_shadow faultless alike event entry.1 entry.2 (actionOf finding)
  exact shadow.bind fun full reduced alike => .ok ⟨alike, rfl⟩

omit [Strings] in
theorem recordQuarantine_both (alike : Alike now full reduced) (event : Event) (marks : Marks) :
    Coupled (Alike now) (engine.recordQuarantine event marks full)
      (engine.withoutShadow.recordQuarantine event marks reduced) := by
  unfold recordQuarantine withoutShadow
  dsimp only
  cases given : engine.recorder with
  | none => exact .ok alike
  | some recorder =>
    dsimp only
    split_ifs
    · exact .ok alike
    · exact record_active faultless given alike _ _

theorem evaluateDimensions_both (event : Event)
    (alike : Alike now full reduced) (marks : Marks) (entries : List (Bytes × Bytes)) :
    Coupled (AlikeWith now)
      (entries.foldlM (engine.evaluateDimension event now) (full, marks))
      (entries.foldlM (engine.withoutShadow.evaluateDimension event now) (reduced, marks)) :=
  Coupled.foldlM
    (fun entry _ _ _ alike => evaluateDimension_both faultless event alike entry) ⟨alike, rfl⟩

theorem evaluateEvent_both (event : Event) (alike : Alike now full reduced) :
    Coupled (AlikeWith now) (engine.evaluateEvent event now full)
      (engine.withoutShadow.evaluateEvent event now reduced) := by
  refine (evaluateBudgets_active faultless alike engine.active event).bind ?_
  intro full reduced alike
  refine (evaluateShadowBudgets_shadow faultless alike event).bind ?_
  intro full reduced alike
  split_ifs with untagged
  · exact .ok ⟨alike, rfl⟩
  · refine (evaluateDimensions_both faultless event alike _ _).bind ?_
    rintro ⟨full, marks⟩ ⟨reduced, _⟩ ⟨alike, rfl⟩
    exact (recordQuarantine_both faultless alike event marks).bind
      fun full reduced alike => .ok ⟨alike, rfl⟩

end

/-- A call of `EvaluateAt`, with the clock that it reads when it is given no time. -/
structure Call where
  event : Event
  now : Int
  clock : Int
deriving DecidableEq

def Call.evaluatedAt (call : Call) : Int := if call.now = 0 then call.clock else call.now

def step (engine : Engine τ υ) (reached : Session τ υ × List Event) (call : Call) :
    Except EngineError (Session τ υ × List Event) := do
  let (session, event) ← engine.evaluateAt call.event call.now call.clock reached.1
  return (session, reached.2 ++ [event])

def run (engine : Engine τ υ) (session : Session τ υ) (calls : List Call) :
    Except EngineError (Session τ υ × List Event) :=
  calls.foldlM engine.step (session, [])

theorem run_both (faultless : engine.Faultless) {calls : List Call}
    (ordered : (calls.map Call.evaluatedAt).Pairwise (· ≤ ·)) {now : Int}
    (later : ∀ call ∈ calls, now ≤ call.evaluatedAt)
    {full reduced : Session τ υ × List Event} (alike : AlikeWith now full reduced) :
    ∃ after, Coupled (AlikeWith after) (calls.foldlM engine.step full)
      (calls.foldlM engine.withoutShadow.step reduced) := by
  induction calls generalizing now full reduced with
  | nil => exact ⟨now, .ok alike⟩
  | cons call rest induction =>
    rcases full with ⟨full, events⟩
    rcases reduced with ⟨reduced, _⟩
    rcases alike with ⟨alike, rfl⟩
    rw [map_cons, pairwise_cons] at ordered
    rcases evaluateEvent_both faultless call.event
      (alike.later (later call mem_cons_self)) with
      ⟨⟨full', event⟩, ⟨reduced', _⟩, isFull, isReduced, alike', rfl⟩
    rw [foldlM_cons, foldlM_cons]
    have stepFull : engine.step (full, events) call = .ok (full', events ++ [event]) := by
      unfold step evaluateAt
      exact congrArg (· >>= _) isFull
    have stepReduced :
        engine.withoutShadow.step (reduced, events) call = .ok (reduced', events ++ [event]) := by
      unfold step evaluateAt
      exact congrArg (· >>= _) isReduced
    rw [stepFull, stepReduced]
    exact induction ordered.2
      (fun other member => ordered.1 _ (mem_map_of_mem member)) ⟨alike', rfl⟩

/-- With the shadow policy or without it, the events are the same, and so is everything that
the active policy observes and records. -/
theorem shadow_noninterference (engine : Engine τ υ) (faultless : engine.Faultless)
    (calls : List Call) (ordered : (calls.map Call.evaluatedAt).Pairwise (· ≤ ·))
    (active : τ) (shadow : υ) :
    ∃ full reduced events,
      engine.run (.initial active shadow) calls = .ok (full, events) ∧
      engine.withoutShadow.run (.initial active shadow) calls = .ok (reduced, events) ∧
      full.log.filter Entry.isActive = reduced.log.filter Entry.isActive := by
  have earliest : ∃ now, ∀ call ∈ calls, now ≤ call.evaluatedAt := by
    cases calls with
    | nil => exact ⟨0, by simp⟩
    | cons call rest =>
      rw [map_cons, pairwise_cons] at ordered
      refine ⟨call.evaluatedAt, forall_mem_cons.mpr ⟨le_rfl, ?_⟩⟩
      exact fun other member => ordered.1 _ (mem_map_of_mem member)
  rcases earliest with ⟨now, later⟩
  rcases run_both faultless ordered later
    (show AlikeWith now (Session.initial active shadow, ([] : List Event)) _ from
      ⟨.refl _, rfl⟩) with ⟨_, ⟨full, events⟩, ⟨reduced, _⟩, isFull, isReduced, alike, rfl⟩
  exact ⟨full, reduced, events, isFull, isReduced, alike.log⟩

end Engine

namespace Sample

@[reducible] def strings : Strings where
  toLower := lowercase
  equalFold left right := lowercase left == lowercase right
  pathMatch pattern name := some (pattern == name)

def counting : Tracker Nat := fun count call =>
  .ok (count + 1,
    ⟨.ofNat (count + 1), .ofNat (count + 1), call.now, call.now, 0, .ofNat (count + 1), call.value⟩)

def policy (action : Action) : Policy := ⟨ascii "p", ascii "1", 2, action, [], [], []⟩

def engine : Engine Nat Nat where
  active := policy .quarantine
  activeTracker := counting
  shadow := some (policy .dropTag)
  shadowTracker := counting
  recorder := some fun _ _ => .ok ()
  maxReportEntries := 100

def event : Event :=
  { Event.zero with
    id := ascii "e1", source := ascii "api", type := ascii "request"
    tags := SortedMap.empty.insert (ascii "host") (ascii "h1") }

def calls : List Engine.Call :=
  [⟨event, Duration.second, 0⟩, ⟨event, 3 * Duration.second, 0⟩]

theorem engine_faultless : engine.Faultless where
  active _ _ := ⟨_, rfl⟩
  shadow _ _ := ⟨_, rfl⟩
  recorder recorder given _ _ := by
    cases given
    rfl

end Sample

theorem shadow_noninterference_sample : letI := Sample.strings
    (Sample.calls.map Engine.Call.evaluatedAt).Pairwise (· ≤ ·) ∧
      ∃ full reduced events,
        Sample.engine.run (.initial 0 0) Sample.calls = .ok (full, events) ∧
        Sample.engine.withoutShadow.run (.initial 0 0) Sample.calls = .ok (reduced, events) ∧
        full.log.filter Entry.isActive = reduced.log.filter Entry.isActive := by
  let _ := Sample.strings
  have ordered : (Sample.calls.map Engine.Call.evaluatedAt).Pairwise (· ≤ ·) := by decide
  exact ⟨ordered, Engine.shadow_noninterference Sample.engine Sample.engine_faultless Sample.calls
    ordered 0 0⟩

end TelemetryForge.Policy
