import TelemetryForge.Policy.Shadow

/-! # The identity of a series

A series is a source, a type and the tags that are not control tags. Budgets count series by a
line of text, and the cost simulation by the hash of such a line. -/

namespace TelemetryForge.Policy

open List SortedMap

def bar : UInt8 := 124

def equals : UInt8 := 61

def seriesLine (source type : Bytes) (tags : List (Bytes × Bytes)) : Bytes :=
  source ++ ascii "|" ++ type ++ tags.flatMap fun tag =>
    ascii "|" ++ tag.1 ++ ascii "=" ++ tag.2

theorem seriesLine_eq_intercalate (source type : Bytes) (tags : List (Bytes × Bytes)) :
    seriesLine source type tags =
      [bar].intercalate (source :: type :: tags.map fun tag => tag.1 ++ equals :: tag.2) := by
  have rest (first : Bytes) (tags : List (Bytes × Bytes)) :
      first ++ (tags.flatMap fun tag => ascii "|" ++ tag.1 ++ ascii "=" ++ tag.2) =
        [bar].intercalate (first :: tags.map fun tag => tag.1 ++ equals :: tag.2) := by
    induction tags generalizing first with
    | nil => simp
    | cons tag tags induction =>
      have tail := induction (tag.1 ++ equals :: tag.2)
      rw [map_cons, intercalate_cons_cons, ← tail, flatMap_cons]
      simp [ascii, bar, equals]
  rw [intercalate_cons_cons, ← rest, seriesLine]
  simp [ascii, bar]

structure PlainParts (source type : Bytes) (tags : List (Bytes × Bytes)) : Prop where
  source : bar ∉ source
  type : bar ∉ type
  tags : ∀ tag ∈ tags, bar ∉ tag.1 ∧ equals ∉ tag.1 ∧ bar ∉ tag.2

theorem tag_injective {left right : Bytes × Bytes} (plainLeft : equals ∉ left.1)
    (plainRight : equals ∉ right.1)
    (same : left.1 ++ equals :: left.2 = right.1 ++ equals :: right.2) : left = right := by
  have split := congrArg (splitOn equals) same
  rw [splitOn_append_cons_self_of_not_mem plainLeft,
    splitOn_append_cons_self_of_not_mem plainRight] at split
  have key := (cons.inj split).1
  rw [key] at same
  exact Prod.ext key (cons.inj (append_cancel_left same)).2

theorem tags_injective {left right : List (Bytes × Bytes)}
    (plainLeft : ∀ tag ∈ left, equals ∉ tag.1) (plainRight : ∀ tag ∈ right, equals ∉ tag.1)
    (same : (left.map fun tag => tag.1 ++ equals :: tag.2) =
      right.map fun tag => tag.1 ++ equals :: tag.2) : left = right := by
  induction left generalizing right with
  | nil => simpa using same.symm
  | cons tag rest induction =>
    cases right with
    | nil => simp at same
    | cons other others =>
      rw [map_cons, map_cons, cons.injEq] at same
      rw [forall_mem_cons] at plainLeft plainRight
      rw [tag_injective plainLeft.1 plainRight.1 same.1, induction plainLeft.2 plainRight.2 same.2]

theorem seriesLine_injective {source source' type type' : Bytes} {tags tags' : List (Bytes × Bytes)}
    (plain : PlainParts source type tags) (plain' : PlainParts source' type' tags')
    (same : seriesLine source type tags = seriesLine source' type' tags') :
    source = source' ∧ type = type' ∧ tags = tags' := by
  have parts {source type : Bytes} {tags : List (Bytes × Bytes)}
      (plain : PlainParts source type tags) :
      (seriesLine source type tags).splitOn bar =
        source :: type :: tags.map fun tag => tag.1 ++ equals :: tag.2 := by
    rw [seriesLine_eq_intercalate]
    refine splitOn_intercalate bar ?_ (cons_ne_nil _ _)
    have different : bar ≠ equals := by decide
    simp only [forall_mem_cons, forall_mem_map]
    refine ⟨plain.source, plain.type, fun tag member => ?_⟩
    simp [(plain.tags tag member).1, (plain.tags tag member).2.2, different]
  have split := congrArg (splitOn bar) same
  rw [parts plain, parts plain', cons.injEq, cons.injEq] at split
  exact ⟨split.1, split.2.1, tags_injective (fun tag member => (plain.tags tag member).2.1)
    (fun tag member => (plain'.tags tag member).2.1) split.2.2⟩

theorem count_bar_seriesLine (source type : Bytes) (tags : List (Bytes × Bytes)) :
    source.count bar + type.count bar + tags.length + 1 ≤ (seriesLine source type tags).count bar := by
  have rest : tags.length ≤
      (tags.flatMap fun tag => ascii "|" ++ tag.1 ++ ascii "=" ++ tag.2).count bar := by
    induction tags with
    | nil => exact Nat.zero_le _
    | cons tag tags induction =>
      have one : (ascii "|").count bar = 1 := by decide
      simp only [flatMap_cons, count_append, length_cons, one]
      omega
  have one : (ascii "|").count bar = 1 := by decide
  simp only [seriesLine, count_append, one]
  omega

open Engine (seriesTags seriesIdentity)

section Identity

variable [Strings]

theorem seriesIdentity_eq (event : Event) :
    seriesIdentity event = seriesLine event.source event.type (seriesTags event) := rfl

structure SameSeries (left right : Event) : Prop where
  source : left.source = right.source
  type : left.type = right.type
  tags : ∀ tag, tag ∈ seriesTags left ↔ tag ∈ seriesTags right

theorem seriesTags_eq_of_mem_iff {left right : Event}
    (same : ∀ tag, tag ∈ seriesTags left ↔ tag ∈ seriesTags right) :
    seriesTags left = seriesTags right := by
  let keep (key _value : Bytes) : Bool :=
    !(ascii "telemetryforge.").isPrefixOf (Strings.toLower key)
  have maps : left.tags.filter keep = right.tags.filter keep := by
    apply ext
    intro key
    apply Option.ext
    intro value
    rw [find?_eq_some_iff, find?_eq_some_iff]
    exact same (key, value)
  exact congrArg entries maps

def Plain (event : Event) : Prop := PlainParts event.source event.type (seriesTags event)

structure Bare (event : Event) : Prop where
  source : bar ∉ event.source
  type : bar ∉ event.type
  tags : seriesTags event = []

theorem Bare.plain {event : Event} (bare : Bare event) : Plain event where
  source := bare.source
  type := bare.type
  tags := by simp [bare.tags]

theorem seriesIdentity_eq_iff_of_plain {left right : Event} (plainLeft : Plain left)
    (plainRight : Plain right) :
    seriesIdentity left = seriesIdentity right ↔ SameSeries left right := by
  rw [seriesIdentity_eq, seriesIdentity_eq]
  constructor
  · intro same
    rcases seriesLine_injective plainLeft plainRight same with ⟨source, type, tags⟩
    exact ⟨source, type, fun tag => by rw [tags]⟩
  · intro same
    rw [same.source, same.type, seriesTags_eq_of_mem_iff same.tags]

theorem Bare.of_seriesIdentity_eq {event other : Event} (bare : Bare event)
    (same : seriesIdentity other = seriesIdentity event) : Bare other := by
  have bound := count_bar_seriesLine other.source other.type (seriesTags other)
  have single : (seriesIdentity event).count bar = 1 := by
    have one : (ascii "|").count bar = 1 := by decide
    simp [seriesIdentity_eq, seriesLine, bare.tags, count_eq_zero.mpr bare.source,
      count_eq_zero.mpr bare.type, one]
  rw [← seriesIdentity_eq, same, single] at bound
  exact ⟨count_eq_zero.mp (by omega), count_eq_zero.mp (by omega),
    eq_nil_of_length_eq_zero (by omega)⟩

theorem exists_confused {event : Event} (notBare : ¬Bare event) :
    ∃ other, seriesIdentity other = seriesIdentity event ∧ ¬SameSeries other event := by
  by_cases inSource : bar ∈ event.source
  · rcases append_of_mem inSource with ⟨start, rest, source⟩
    refine ⟨{ event with source := start, type := rest ++ ascii "|" ++ event.type }, ?_, ?_⟩
    · simp [seriesIdentity, seriesTags, source, ascii, bar]
    · intro same
      have lengths := congrArg length (same.source.trans source)
      simp at lengths
  by_cases inType : bar ∈ event.type
  · rcases append_of_mem inType with ⟨start, rest, type⟩
    refine ⟨{ event with source := event.source ++ ascii "|" ++ start, type := rest }, ?_, ?_⟩
    · simp [seriesIdentity, seriesTags, type, ascii, bar]
    · intro same
      have lengths := congrArg length same.source
      simp [ascii] at lengths
  -- All that is left are tags, which a longer type may hold instead.
  have tagged : seriesTags event ≠ [] := fun none => notBare ⟨inSource, inType, none⟩
  refine ⟨{ event with
    type := event.type ++
      (seriesTags event).flatMap fun tag => ascii "|" ++ tag.1 ++ ascii "=" ++ tag.2
    tags := .empty }, ?_, ?_⟩
  · simp [seriesIdentity, seriesTags, empty]
  · intro same
    rcases exists_mem_of_ne_nil _ tagged with ⟨tag, member⟩
    have absent := (same.tags tag).mpr member
    simp [seriesTags, empty] at absent

/-- Only the identity of an event without tags and without separators is its own; among events
without stray separators identities are those of the series. -/
theorem seriesIdentity_injective_iff : (∀ event : Event,
        (∀ other, seriesIdentity other = seriesIdentity event → SameSeries other event) ↔
          Bare event) ∧
      ∀ left right : Event, Plain left → Plain right →
        (seriesIdentity left = seriesIdentity right ↔ SameSeries left right) := by
  refine ⟨fun event => ⟨fun injective => ?_, fun bare other same => ?_⟩,
    fun left right plainLeft plainRight => seriesIdentity_eq_iff_of_plain plainLeft plainRight⟩
  · by_contra notBare
    rcases exists_confused notBare with ⟨other, same, different⟩
    exact different (injective other same)
  · exact (seriesIdentity_eq_iff_of_plain (bare.of_seriesIdentity_eq same).plain bare.plain).mp same

end Identity

namespace Sample

theorem lowercase_append (left right : Bytes) :
    lowercase (left ++ right) = lowercase left ++ lowercase right := by
  simp [lowercase]

theorem strings_lawful : @LawfulStrings strings :=
  letI := strings
  { toLower_append := fun start rest _ lower => by
      change lowercase (start ++ rest) = start ++ lowercase rest
      rw [lowercase_append, lower]
    equalFold_refl := fun text => by
      change (lowercase text == lowercase text) = true
      simp
    equalFold_nil := fun text present => by
      change (lowercase [] == lowercase text) = false
      cases text with
      | nil => exact absurd rfl present
      | cons byte rest => rfl }

def taggedEvent : Event :=
  { event with tags := SortedMap.empty.insert (ascii "host") (ascii "h1") }

def untaggedEvent : Event :=
  { event with type := ascii "request|host=h1", tags := .empty }

end Sample

/-- The event `request` with a tag `host`, and one of the type `request|host=h1`. -/
theorem seriesIdentity_confused : letI := Sample.strings
    seriesIdentity Sample.taggedEvent = seriesIdentity Sample.untaggedEvent ∧
      Sample.taggedEvent.type ≠ Sample.untaggedEvent.type ∧
      ¬SameSeries Sample.taggedEvent Sample.untaggedEvent := by
  let _ := Sample.strings
  have different : Sample.taggedEvent.type ≠ Sample.untaggedEvent.type := by decide
  refine ⟨by decide +kernel, different, fun same => different same.type⟩

end TelemetryForge.Policy

/-! ## The size of the report table

The engine remembers what it reported lately. -/

namespace TelemetryForge.Policy.Engine

variable {τ υ : Type}

def Reserves (engine : Engine τ υ) (now : Int) : ReportTable → ReportTable → Prop :=
  Relation.ReflTransGen fun before after =>
    ∃ key interval,
      after = (reserveReportInterval engine.maxReportEntries before key now interval).2

theorem Reserves.bounded {engine : Engine τ υ} {now : Int} {before after : ReportTable}
    (reserves : engine.Reserves now before after)
    (bounded : Suppression.Bounded engine.maxReportEntries Duration.minute now before) :
    Suppression.Bounded engine.maxReportEntries Duration.minute now after := by
  induction reserves with
  | refl => exact bounded
  | tail _ step induction =>
    rcases step with ⟨key, interval, rfl⟩
    exact induction.reserve (by decide) key _

structure Reports (engine : Engine τ υ) (now : Int) (before after : Session τ υ) : Prop where
  table : engine.Reserves now before.lastReport after.lastReport
  tracker : after.active = before.active

variable {engine : Engine τ υ} {now : Int} {session session' : Session τ υ}

theorem Reports.refl (session : Session τ υ) : engine.Reports now session session :=
  ⟨Relation.ReflTransGen.refl, rfl⟩

theorem Reports.trans {first second third : Session τ υ} (left : engine.Reports now first second)
    (right : engine.Reports now second third) : engine.Reports now first third :=
  ⟨Relation.ReflTransGen.trans left.table right.table, right.tracker.trans left.tracker⟩

theorem observe_lastReport {wrap : Bytes → EngineError} {mode : Mode} {call : Observe}
    {observation : Cardinality.Observation}
    (observed : engine.observe wrap mode call session = .ok (session', observation)) :
    session'.lastReport = session.lastReport := by
  cases mode with
  | active | shadow =>
    rcases bind_eq_ok.mp observed with ⟨result, _, returned⟩
    cases returned
    rfl

theorem observe_shadow_reports {wrap : Bytes → EngineError} {call : Observe}
    {observation : Cardinality.Observation}
    (observed : engine.observe wrap .shadow call session = .ok (session', observation)) :
    engine.Reports now session session' := by
  rcases bind_eq_ok.mp observed with ⟨result, _, returned⟩
  cases returned
  exact ⟨Relation.ReflTransGen.refl, rfl⟩

theorem record_reports {recorder : Recorder} {wrap : Bytes → EngineError} {entry : Entry}
    (recorded : record recorder wrap entry session = .ok session') :
    engine.Reports now session session' := by
  rcases bind_eq_ok.mp recorded with ⟨_, _, returned⟩
  cases returned
  exact ⟨Relation.ReflTransGen.refl, rfl⟩

theorem report_reports {wrap : Bytes → EngineError} {key : ReportKey} {interval : Int}
    {entry : Entry} (reported : engine.report wrap key now interval entry session = .ok session') :
    engine.Reports now session session' := by
  unfold report at reported
  cases given : engine.recorder with
  | none =>
    rw [given] at reported
    cases reported
    exact .refl session
  | some recorder =>
    rw [given] at reported
    have reserved : engine.Reports now session { session with
        lastReport := (reserveReportInterval engine.maxReportEntries session.lastReport key now
          interval).2 } := ⟨.single ⟨key, interval, rfl⟩, rfl⟩
    dsimp only at reported
    split_ifs at reported
    · exact reserved.trans (record_reports reported)
    · cases reported
      exact reserved

theorem reportFinding_reports {wrap : Bytes → EngineError} {finding : Option Finding}
    (reported : engine.reportFinding wrap now finding session = .ok session') :
    engine.Reports now session session' := by
  cases finding with
  | none =>
    cases reported
    exact .refl session
  | some finding => exact report_reports reported

theorem recordQuarantine_reports {event : Event} {marks : Marks}
    (recorded : engine.recordQuarantine event marks session = .ok session') :
    engine.Reports now session session' := by
  unfold recordQuarantine at recorded
  cases given : engine.recorder with
  | none =>
    rw [given] at recorded
    cases recorded
    exact .refl session
  | some recorder =>
    rw [given] at recorded
    dsimp only at recorded
    split_ifs at recorded
    · cases recorded
      exact .refl session
    · exact record_reports recorded

variable [Strings]

theorem evaluateShadowBudgets_reports {event : Event}
    (evaluated : engine.evaluateShadowBudgets event now session = .ok session') :
    engine.Reports now session session' := by
  unfold evaluateShadowBudgets at evaluated
  cases given : engine.shadow with
  | none =>
    rw [given] at evaluated
    cases evaluated
    exact .refl session
  | some shadow =>
    rw [given] at evaluated
    refine foldlM_invariant (fun reached : Session τ υ => engine.Reports now session reached) ?_
      (.refl session) evaluated
    intro budget _ first next reached stepped
    rcases bind_eq_ok.mp stepped with ⟨⟨observed, observation⟩, isObserved, reported⟩
    exact (reached.trans (observe_shadow_reports isObserved)).trans (report_reports reported)

theorem evaluateShadow_reports {event : Event} {dimension value : Bytes} {action : Action}
    (evaluated : engine.evaluateShadow event dimension value now action session = .ok session') :
    engine.Reports now session session' := by
  unfold evaluateShadow at evaluated
  cases given : engine.shadow with
  | none =>
    rw [given] at evaluated
    cases evaluated
    exact .refl session
  | some shadow =>
    rw [given] at evaluated
    rcases bind_eq_ok.mp evaluated with ⟨⟨first, finding⟩, isFirst, afterFirst⟩
    rcases bind_eq_ok.mp afterFirst with ⟨second, isSecond, afterSecond⟩
    rcases bind_eq_ok.mp isFirst with ⟨⟨observed, observation⟩, isObserved, returned⟩
    cases returned
    refine ((observe_shadow_reports isObserved).trans (reportFinding_reports isSecond)).trans ?_
    split_ifs at afterSecond
    · cases afterSecond
      exact .refl _
    · exact report_reports afterSecond

theorem evaluateBudget_observes {policy : Policy} {mode : Mode} {event : Event} {budget : Budget}
    (evaluated : engine.evaluateBudget policy mode event now session budget = .ok session') :
    ∃ answer, engine.observe (.observeBudget budget.name) mode (budgetCall event budget now)
      session = .ok answer ∧ engine.Reports now answer.1 session' := by
  rcases bind_eq_ok.mp evaluated with ⟨answer, isObserved, reported⟩
  exact ⟨answer, isObserved, report_reports reported⟩

theorem evaluateDimension_observes {event : Event} {reached reached' : Session τ υ × Marks}
    {entry : Bytes × Bytes}
    (evaluated : engine.evaluateDimension event now reached entry = .ok reached') :
    ∃ wrap answer, engine.observe wrap .active (dimensionCall event entry.1 entry.2 now)
      reached.1 = .ok answer ∧ engine.Reports now answer.1 reached'.1 := by
  rcases bind_eq_ok.mp evaluated with ⟨⟨first, finding⟩, isFirst, afterFirst⟩
  rcases bind_eq_ok.mp afterFirst with ⟨second, isSecond, afterSecond⟩
  rcases bind_eq_ok.mp afterSecond with ⟨third, isThird, returned⟩
  cases returned
  rcases bind_eq_ok.mp isFirst with ⟨answer, isObserved, returned⟩
  cases returned
  exact ⟨_, answer, isObserved,
    (reportFinding_reports isSecond).trans (evaluateShadow_reports isThird)⟩

theorem evaluateEvent_observes {event out : Event}
    (evaluated : engine.evaluateEvent event now session = .ok (session', out)) :
    ∃ first second third,
      engine.evaluateBudgets engine.active .active event now session = .ok first ∧
      engine.Reports now first second ∧
      event.tags.entries.foldlM (engine.evaluateDimension event now)
        (second, (⟨event.tags, [], []⟩ : Marks)) = .ok third ∧
      engine.Reports now third.1 session' := by
  rcases bind_eq_ok.mp evaluated with ⟨first, isFirst, afterFirst⟩
  rcases bind_eq_ok.mp afterFirst with ⟨second, isSecond, afterSecond⟩
  have shadow := evaluateShadowBudgets_reports isSecond
  split_ifs at afterSecond with bare
  · cases afterSecond
    exact ⟨first, session', _, isFirst, shadow, by rw [bare]; rfl, .refl _⟩
  · rcases bind_eq_ok.mp afterSecond with ⟨third, looped, afterThird⟩
    rcases bind_eq_ok.mp afterThird with ⟨fourth, recorded, returned⟩
    cases returned
    exact ⟨first, second, third, isFirst, shadow, looped, recordQuarantine_reports recorded⟩

theorem evaluateEvent_reserves {event out : Event}
    (evaluated : engine.evaluateEvent event now session = .ok (session', out)) :
    engine.Reserves now session.lastReport session'.lastReport := by
  rcases evaluateEvent_observes evaluated with
    ⟨first, second, third, isFirst, shadow, looped, recorded⟩
  have budgets : engine.Reserves now session.lastReport first.lastReport := by
    refine foldlM_invariant
      (fun reached : Session τ υ => engine.Reserves now session.lastReport reached.lastReport) ?_
      Relation.ReflTransGen.refl isFirst
    intro budget _ before after reached stepped
    rcases evaluateBudget_observes stepped with ⟨answer, isObserved, reported⟩
    rw [← observe_lastReport isObserved] at reached
    exact reached.trans reported.table
  have start : engine.Reserves now second.lastReport
      (second, (⟨event.tags, [], []⟩ : Marks)).1.lastReport := .refl
  have dimensions : engine.Reserves now second.lastReport third.1.lastReport := by
    refine foldlM_invariant (fun reached : Session τ υ × Marks =>
      engine.Reserves now second.lastReport reached.1.lastReport) ?_ start looped
    intro entry _ before after reached stepped
    rcases evaluateDimension_observes stepped with ⟨wrap, answer, isObserved, reported⟩
    rw [← observe_lastReport isObserved] at reached
    exact reached.trans reported.table
  exact ((budgets.trans shadow.table).trans dimensions).trans recorded.table

inductive Evaluates (engine : Engine τ υ) (session : Session τ υ) (call : Call) :
    Session τ υ → Prop
  | returned {session' : Session τ υ} {out : Event}
      (evaluated : engine.evaluateAt call.event call.now call.clock session =
        .ok (session', out)) : Evaluates engine session call session'
  | failed {session' : Session τ υ} {failure : EngineError}
      (evaluated : engine.evaluateAt call.event call.now call.clock session = .error failure)
      (reserves : engine.Reserves call.evaluatedAt session.lastReport session'.lastReport) :
      Evaluates engine session call session'

theorem Evaluates.reserves {call : Call} (evaluates : engine.Evaluates session call session') :
    engine.Reserves call.evaluatedAt session.lastReport session'.lastReport := by
  cases evaluates with
  | returned evaluated => exact evaluateEvent_reserves evaluated
  | failed _ reserves => exact reserves

inductive Runs (engine : Engine τ υ) : Session τ υ → List (Call × Session τ υ) → Prop
  | nil (session : Session τ υ) : Runs engine session []
  | cons {session next : Session τ υ} {call : Call} {rest : List (Call × Session τ υ)}
      (evaluates : engine.Evaluates session call next) (runs : Runs engine next rest) :
      Runs engine session ((call, next) :: rest)

theorem Runs.bounded_iff {trace : List (Call × Session τ υ)} (runs : engine.Runs session trace)
    (within : session.lastReport.entries.length ≤ engine.maxReportEntries + 1) :
    (∀ entry ∈ trace, entry.2.lastReport.entries.length ≤ engine.maxReportEntries + 1) ↔
      ∀ entry ∈ trace, Suppression.recent Duration.minute entry.1.evaluatedAt entry.2.lastReport ≤
        engine.maxReportEntries + 1 := by
  induction runs with
  | nil => simp
  | @cons session next call rest evaluates runs induction =>
    have here := (evaluates.reserves.bounded (.inl within)).length_le_iff
    rw [List.forall_mem_cons, List.forall_mem_cons, here]
    exact and_congr_right fun few => induction (here.mpr few)

end TelemetryForge.Policy.Engine

namespace TelemetryForge.Policy

namespace Sample

def crossing : Tracker Unit := fun _ call => .ok ((), ⟨2, 2, call.now, call.now, 0, 2, []⟩)

def flooded : Engine Unit Unit where
  active := policy .allow
  activeTracker := crossing
  shadow := none
  shadowTracker := crossing
  recorder := some fun _ _ => .ok ()
  maxReportEntries := 100

def floodKey (dimension : Bytes) : ReportKey :=
  ⟨[], ascii "active", ascii "api", ascii "request", dimension, ascii "allow"⟩

def floodEvent (tags : SortedMap Bytes Bytes) : Event := { event with tags := tags }

def floodTags : SortedMap Bytes Bytes where
  entries := (List.range 102).map fun index =>
    ([UInt8.ofNat (97 + index / 26), UInt8.ofNat (97 + index % 26)], ascii "v")
  sorted := by decide +kernel

theorem floodKey_injective : Function.Injective floodKey := by
  intro left right same
  exact (ReportKey.mk.inj same).2.2.2.2.1

section Flood

variable [Strings] (tags : SortedMap Bytes Bytes)

def floodFinding (dimension : Bytes) : Finding where
  tenantID := []
  policyName := ascii "p"
  policyVersion := ascii "1"
  mode := .active
  source := ascii "api"
  eventType := ascii "request"
  dimension := dimension
  observedUnique := 2
  projectedUnique := 2
  action := .allow
  reason := Engine.crossedReason 2 2 2
  valueFingerprint := []
  firstSeen := 1
  lastSeen := 1

theorem flooded_evaluate (session : Session Unit Unit) (dimension value : Bytes) :
    flooded.evaluate flooded.active .active (floodEvent tags) dimension value 1 session =
      .ok (session.note (.observed .active (Engine.dimensionCall (floodEvent tags) dimension value 1)),
        some (floodFinding dimension)) := rfl

omit [Strings] in
theorem flooded_report (session : Session Unit Unit) (dimension : Bytes) :
    ∃ session', flooded.reportFinding .recordFinding 1 (some (floodFinding dimension)) session =
        .ok session' ∧
      session'.lastReport = (Suppression.reserve 100 Duration.minute session.lastReport
        (floodKey dimension) 1 Duration.minute).2 := by
  by_cases due : (Suppression.reserve 100 Duration.minute session.lastReport
    (floodKey dimension) 1 Duration.minute).1 = true
  · exact ⟨_, if_pos due, rfl⟩
  · exact ⟨_, if_neg due, rfl⟩

theorem flooded_step (session : Session Unit Unit) (marks : Engine.Marks) (entry : Bytes × Bytes) :
    ∃ session' marks', flooded.evaluateDimension (floodEvent tags) 1 (session, marks) entry =
        .ok (session', marks') ∧
      session'.lastReport = (Suppression.reserve 100 Duration.minute session.lastReport
        (floodKey entry.1) 1 Duration.minute).2 := by
  rcases flooded_report (session.note (.observed .active
    (Engine.dimensionCall (floodEvent tags) entry.1 entry.2 1))) entry.1 with ⟨session', reported, table⟩
  refine ⟨session', marks.take entry.1 (some (floodFinding entry.1)), ?_, table⟩
  simp only [Engine.evaluateDimension, flooded_evaluate]
  exact bind_eq_ok.mpr ⟨_, rfl, bind_eq_ok.mpr ⟨session', reported,
    bind_eq_ok.mpr ⟨session', rfl, rfl⟩⟩⟩

theorem flooded_loop (entries : List (Bytes × Bytes)) (session : Session Unit Unit)
    (marks : Engine.Marks) (all : ∀ entry ∈ session.lastReport.entries, entry.2 = 1) :
    ∃ session' marks', entries.foldlM (flooded.evaluateDimension (floodEvent tags) 1) (session, marks) =
        .ok (session', marks') ∧
      (∀ key, session.lastReport.find? key = some 1 → session'.lastReport.find? key = some 1) ∧
      ∀ entry ∈ entries, session'.lastReport.find? (floodKey entry.1) = some 1 := by
  induction entries generalizing session marks with
  | nil => exact ⟨session, marks, rfl, fun _ found => found, by simp⟩
  | cons entry rest induction =>
    rcases flooded_step tags session marks entry with ⟨next, nextMarks, stepped, table⟩
    have here : next.lastReport.find? (floodKey entry.1) = some 1 := by
      rw [table]
      exact Suppression.find?_reserve_self _ all
    rcases induction next nextMarks (by
      rw [table]
      exact Suppression.reserve_all_now _ all) with ⟨session', marks', looped, kept, others⟩
    refine ⟨session', marks', ?_, fun key found => kept key ?_, ?_⟩
    · rw [List.foldlM_cons, stepped]
      exact looped
    · rw [table]
      exact Suppression.find?_reserve (by decide) found
    · exact List.forall_mem_cons.mpr ⟨kept _ here, others⟩

theorem flooded_evaluateAt (tagged : tags.entries ≠ []) :
    ∃ session' out, flooded.evaluateAt (floodEvent tags) 1 0 (.initial () ()) =
        .ok (session', out) ∧
      tags.entries.length ≤ session'.lastReport.entries.length := by
  rcases flooded_loop tags tags.entries (.initial () ()) ⟨tags, [], []⟩ (by
    intro entry member
    cases member) with ⟨session', marks, looped, _, found⟩
  have recorded : ∃ session'', flooded.recordQuarantine (floodEvent tags) marks session' =
      .ok session'' ∧ session''.lastReport = session'.lastReport := by
    by_cases none : marks.quarantineDimensions = []
    · exact ⟨_, if_pos none, rfl⟩
    · exact ⟨_, if_neg none, rfl⟩
  rcases recorded with ⟨session'', recorded, table⟩
  refine ⟨session'', marks.processed (floodEvent tags), ?_, ?_⟩
  · refine bind_eq_ok.mpr ⟨_, rfl, bind_eq_ok.mpr ⟨_, rfl, (if_neg tagged).trans ?_⟩⟩
    exact bind_eq_ok.mpr ⟨_, looped, bind_eq_ok.mpr ⟨_, recorded, rfl⟩⟩
  · have nodup : (tags.entries.map fun entry => floodKey entry.1).Nodup := by
      have keys := tags.nodup_keys.map floodKey_injective
      rwa [List.map_map] at keys
    have subset : (tags.entries.map fun entry => floodKey entry.1) ⊆
        session''.lastReport.entries.map Prod.fst := by
      intro key member
      rcases List.mem_map.mp member with ⟨entry, isEntry, rfl⟩
      rw [table]
      exact List.mem_map.mpr ⟨_, (SortedMap.find?_eq_some_iff _ _ _).mp (found entry isEntry), rfl⟩
    have bound := (List.subperm_of_subset nodup subset).length_le
    simpa using bound

end Flood

end Sample

end TelemetryForge.Policy
