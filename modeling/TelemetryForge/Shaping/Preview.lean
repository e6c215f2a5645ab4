import TelemetryForge.Shaping.Retry

/-! # Byte accounting

`PreviewEvents` and the minute statistics of the worker add up the sizes of shaped events. -/

namespace TelemetryForge.Shaping

open List

theorem sum_eq_sum_filter_iff {α : Type} (weight : α → Nat) (keep : α → Bool) (list : List α) :
    (list.map weight).sum = ((list.filter keep).map weight).sum ↔
      ∀ entry ∈ list, keep entry = false → weight entry = 0 := by
  have atMost (list : List α) : ((list.filter keep).map weight).sum ≤ (list.map weight).sum :=
    (filter_sublist.map weight).sum_le_sum fun _ _ => Nat.zero_le _
  induction list with
  | nil => simp
  | cons entry rest induction =>
    have restAtMost := atMost rest
    rw [forall_mem_cons]
    refine Iff.trans ?_ (and_congr_right' induction)
    cases kept : keep entry with
    | true =>
      rw [filter_cons_of_pos kept]
      simp
    | false =>
      rw [filter_cons_of_neg (by simp [kept]), map_cons, sum_cons]
      constructor
      · intro same
        exact ⟨fun _ => by omega, by omega⟩
      · rintro ⟨zero, same⟩
        have weightless := zero rfl
        omega

theorem render_structTokens_ne_nil {φ : Type} [Json.FieldNames φ]
    (fields : List (φ × List Json.Token)) : Json.render (Json.structTokens fields) ≠ [] := by
  obtain ⟨rest, opened⟩ := head?_eq_some_iff.mp (Json.objectTokens_head
    (fields.map fun entry => (Json.FieldNames.name entry.1, entry.2)))
  rw [Json.structTokens, opened, Json.render, flatMap_cons]
  exact cons_ne_nil _ _

theorem canonicalBytes_eq_zero_iff [Json.FloatText] (event : Event) :
    canonicalBytes event = 0 ↔ event.marshal = none := by
  rw [canonicalBytes, length_eq_zero_iff, Event.marshal, Event.tokens]
  cases event.fields with
  | none => simp
  | some fields => simpa using render_structTokens_ne_nil fields

/-- An event of a preview, with the time of its evaluation (its own timestamp, or the clock
where that is zero) and the order of the map iteration. -/
structure Visit where
  event : Event
  now : Int
  order : List (Bytes × Bytes)

structure Preview (R : Type) where
  configName : Bytes
  configVersion : Bytes
  queuePressure : R
  observed : Nat := 0
  kept : Nat := 0
  sampledOut : Nat := 0
  protectedObserved : Nat := 0
  protectedKept : Nat := 0
  transformed : Nat := 0
  payloadDropped : Nat := 0
  originalBytes : Nat := 0
  shapedBytes : Nat := 0
  eventRetentionPercent : Float := 0
  byteRetentionPercent : Float := 0
  protectedRetentionPercent : Float := 0
  sourceTypeCoveragePercent : Float := 0

structure PreviewLoop (R : Type) where
  preview : Preview R
  observedKinds : SortedMap Bytes Unit
  keptKinds : SortedMap Bytes Unit

def percent (numerator denominator : Nat) : Float :=
  if denominator = 0 then 100 else numerator.toFloat * 100 / denominator.toFloat

section Counting

variable {R : Type}

def Decision.transformed (decision : Decision R) : Bool :=
  !decision.droppedTags.isEmpty || !decision.renamedTags.entries.isEmpty || decision.payloadDropped

def PreviewLoop.count (loop : PreviewLoop R) (event : Event) (decision : Decision R) :
    PreviewLoop R :=
  let preview := loop.preview
  let kind := event.source ++ 0x00 :: event.type
  { preview :=
      { preview with
        observed := preview.observed + 1
        originalBytes := preview.originalBytes + decision.originalBytes
        shapedBytes := preview.shapedBytes + decision.shapedBytes
        protectedObserved := preview.protectedObserved + decision.guarded.toNat
        kept := preview.kept + decision.keep.toNat
        protectedKept := preview.protectedKept + (decision.keep && decision.guarded).toNat
        sampledOut := preview.sampledOut + (!decision.keep).toNat
        transformed := preview.transformed + decision.transformed.toNat
        payloadDropped := preview.payloadDropped + decision.payloadDropped.toNat }
    observedKinds := loop.observedKinds.insert kind ()
    keptKinds := if decision.keep then loop.keptKinds.insert kind () else loop.keptKinds }

def PreviewLoop.finish (loop : PreviewLoop R) : Preview R :=
  let preview := loop.preview
  { preview with
    eventRetentionPercent := percent preview.kept preview.observed
    byteRetentionPercent :=
      if 0 < preview.originalBytes then
        preview.shapedBytes.toFloat * 100 / preview.originalBytes.toFloat
      else preview.byteRetentionPercent
    protectedRetentionPercent := percent preview.protectedKept preview.protectedObserved
    sourceTypeCoveragePercent :=
      percent loop.keptKinds.entries.length loop.observedKinds.entries.length }

variable [Rates R] [Strings] [Json.FloatText]

def previewed (config : Config R) (pressure : R) (visit : Visit) : Event × Decision R :=
  evaluateConfig config visit.order visit.event pressure visit.now 1

def previewEvents (config : Config R) (visits : List Visit) (pressure : R) :
    Except ConfigError (Preview R) := do
  config.validate
  let start : PreviewLoop R :=
    ⟨{ configName := config.name, configVersion := config.version
       queuePressure := clamp pressure 0 1 }, .empty, .empty⟩
  return (visits.foldl (fun loop visit =>
    loop.count visit.event (previewed config pressure visit).2) start).finish

def forwardedBytes (results : List (Event × Decision R)) : Nat :=
  ((results.filter fun result => result.2.keep).map fun result => canonicalBytes result.1).sum

def Weightless (results : List (Event × Decision R)) : Prop :=
  ∀ result ∈ results, result.2.keep = false → result.1.marshal = none

omit [Rates R] [Strings] in
theorem sum_canonicalBytes_iff (results : List (Event × Decision R)) :
    (results.map fun result => canonicalBytes result.1).sum = forwardedBytes results ↔
      Weightless results := by
  rw [forwardedBytes, sum_eq_sum_filter_iff]
  simp only [Weightless, canonicalBytes_eq_zero_iff]

theorem shapedBytes_evaluateConfig (config : Config R) (order : List (Bytes × Bytes))
    (event : Event) (pressure : R) (now : Int) (multiplier : R) :
    let result := evaluateConfig config order event pressure now multiplier
    result.2.shapedBytes = canonicalBytes result.1 := rfl

theorem shapedBytes_foldl (config : Config R) (pressure : R) (visits : List Visit)
    (loop : PreviewLoop R) : (visits.foldl (fun loop visit =>
        loop.count visit.event (previewed config pressure visit).2) loop).preview.shapedBytes =
      loop.preview.shapedBytes +
        ((visits.map (previewed config pressure)).map fun result => canonicalBytes result.1).sum := by
  induction visits generalizing loop with
  | nil => rfl
  | cons visit rest induction =>
    rw [foldl_cons, induction, map_cons, map_cons, sum_cons, ← Nat.add_assoc]
    rfl

theorem shapedBytes_previewEvents {config : Config R} {visits : List Visit} {pressure : R}
    {preview : Preview R} (returned : previewEvents config visits pressure = .ok preview) :
    preview.shapedBytes =
      ((visits.map (previewed config pressure)).map fun result => canonicalBytes result.1).sum := by
  rcases bind_eq_ok.mp returned with ⟨_, _, same⟩
  cases same
  exact (shapedBytes_foldl config pressure visits _).trans (Nat.zero_add _)

end Counting

structure StatKey where
  tenantID : Bytes
  bucket : Int
  configName : Bytes
  configVersion : Bytes
  ruleName : Bytes
  source : Bytes
  eventType : Bytes
deriving DecidableEq

structure StatRow where
  observed : Nat
  kept : Nat
  sampledOut : Nat
  guarded : Nat
  transformed : Nat
  payloadDropped : Nat
  originalBytes : Nat
  shapedBytes : Nat

def StatRow.add (row excluded : StatRow) : StatRow where
  observed := row.observed + 1
  kept := row.kept + excluded.kept
  sampledOut := row.sampledOut + excluded.sampledOut
  guarded := row.guarded + excluded.guarded
  transformed := row.transformed + excluded.transformed
  payloadDropped := row.payloadDropped + excluded.payloadDropped
  originalBytes := row.originalBytes + excluded.originalBytes
  shapedBytes := row.shapedBytes + excluded.shapedBytes

abbrev StatTable := StatKey → Option StatRow

def StatTable.shapedBytes (stats : StatTable) (key : StatKey) : Nat :=
  (stats key).elim 0 StatRow.shapedBytes

structure Database (R : Type) where
  decisions : Table R
  stats : StatTable

structure Job (R : Type) where
  tenantID : Bytes
  attempt : Attempt R
  event : Event

section Statistics

variable {R : Type}

def Decision.statKey (decision : Decision R) : StatKey where
  tenantID := decision.tenantID
  bucket := Instant.truncate decision.observedAt Duration.minute
  configName := decision.configName
  configVersion := decision.configVersion
  ruleName :=
    if decision.rules = [] then ascii "default" else (ascii ",").intercalate decision.rules
  source := decision.source
  eventType := decision.eventType

def Decision.statRow (decision : Decision R) : StatRow where
  observed := 1
  kept := decision.keep.toNat
  sampledOut := (!decision.keep).toNat
  guarded := decision.guarded.toNat
  transformed := decision.transformed.toNat
  payloadDropped := decision.payloadDropped.toNat
  originalBytes := decision.originalBytes
  shapedBytes := decision.shapedBytes

def recordShapingMinuteStat (stats : StatTable) (decision : Decision R) : StatTable :=
  Function.update stats decision.statKey <| some <| match stats decision.statKey with
    | none => decision.statRow
    | some row => row.add decision.statRow

theorem shapedBytes_recordShapingMinuteStat (stats : StatTable) (decision : Decision R)
    (key : StatKey) : (recordShapingMinuteStat stats decision).shapedBytes key =
      stats.shapedBytes key + if decision.statKey = key then decision.shapedBytes else 0 := by
  unfold StatTable.shapedBytes recordShapingMinuteStat
  by_cases same : decision.statKey = key
  · subst same
    rw [Function.update_self, if_pos rfl]
    cases stats decision.statKey with
    | none => exact (Nat.zero_add _).symm
    | some row => rfl
  · rw [Function.update_of_ne (Ne.symm same), if_neg same]
    rfl

variable [Rates R] [Strings] [Json.FloatText]

def Job.decision (config : Config R) (job : Job R) (database : Database R) : Decision R × Bool :=
  let resolution :=
    resolve job.tenantID database.decisions (evaluation config job.attempt job.event).2
  (resolution.1, resolution.2.1)

def Job.process (config : Config R) (job : Job R) (database : Database R) : Outcome × Database R :=
  let (decision, reused) := job.decision config database
  let (outcome, decisions) :=
    Shaping.process config job.tenantID job.attempt job.event database.decisions
  (outcome,
    { decisions
      stats := if reused then database.stats else recordShapingMinuteStat database.stats decision })

def work (config : Config R) (database : Database R) (jobs : List (Job R)) : Database R :=
  jobs.foldl (fun database job => (job.process config database).2) database

def recorded (config : Config R) : Database R → List (Job R) → List (Event × Decision R)
  | _, [] => []
  | database, job :: jobs =>
    let rest := recorded config (job.process config database).2 jobs
    if (job.decision config database).2 then rest
    else ((evaluation config job.attempt job.event).1, (job.decision config database).1) :: rest

def entriesOf (results : List (Event × Decision R)) (key : StatKey) : List (Event × Decision R) :=
  results.filter fun result => result.2.statKey = key

theorem Job.decision_shapedBytes (config : Config R) (job : Job R) (database : Database R)
    (fresh : (job.decision config database).2 = false) :
    (job.decision config database).1.shapedBytes =
      canonicalBytes (evaluation config job.attempt job.event).1 := by
  set proposed := (evaluation config job.attempt job.event).2 with isProposed
  cases found : database.decisions (proposed.resolved job.tenantID).key with
  | some existing => simp [decision, ← isProposed, resolve_some found] at fresh
  | none =>
    simp only [decision, ← isProposed, resolve_none found]
    exact shapedBytes_evaluateConfig config _ job.event _ _ _

theorem shapedBytes_process (config : Config R) (job : Job R) (database : Database R)
    (key : StatKey) : (job.process config database).2.stats.shapedBytes key =
      database.stats.shapedBytes key +
        if (job.decision config database).2 = false ∧ (job.decision config database).1.statKey = key
        then canonicalBytes (evaluation config job.attempt job.event).1 else 0 := by
  cases reused : (job.decision config database).2 with
  | true => simp [Job.process, reused]
  | false =>
    have size := job.decision_shapedBytes config database reused
    simp [Job.process, reused, shapedBytes_recordShapingMinuteStat, size]

theorem shapedBytes_work (config : Config R) (jobs : List (Job R)) (database : Database R)
    (key : StatKey) : (work config database jobs).stats.shapedBytes key =
      database.stats.shapedBytes key +
        ((entriesOf (recorded config database jobs) key).map
          fun result => canonicalBytes result.1).sum := by
  induction jobs generalizing database with
  | nil => rfl
  | cons job rest induction =>
    have run : work config database (job :: rest) =
      work config (job.process config database).2 rest := rfl
    rw [run, induction, shapedBytes_process, Nat.add_assoc]
    congr 1
    cases reused : (job.decision config database).2 with
    | true => simp [recorded, reused]
    | false =>
      by_cases same : (job.decision config database).1.statKey = key
      · simp [recorded, reused, entriesOf, same]
      · simp [recorded, reused, entriesOf, same]

omit [Rates R] [Strings] in
theorem weightless_iff_entriesOf (results : List (Event × Decision R)) :
    Weightless results ↔ ∀ key, Weightless (entriesOf results key) := by
  constructor
  · intro weightless key result member
    exact weightless result (mem_of_mem_filter member)
  · intro weightless result member
    exact weightless result.2.statKey result (mem_filter.mpr ⟨member, by simp⟩)

/-- The reported bytes are those forwarded exactly if nothing that can be encoded is sampled
out: in the preview, and in the rows of the statistics. -/
theorem shapedBytes_forwarded_iff (config : Config R) (pressure : R) (visits : List Visit)
    (database : Database R) (jobs : List (Job R)) :
    (match previewEvents config visits pressure with
      | .error error => config.validate = .error error
      | .ok preview =>
        preview.shapedBytes = forwardedBytes (visits.map (previewed config pressure)) ↔
          Weightless (visits.map (previewed config pressure))) ∧
    ((∀ key, (work config database jobs).stats.shapedBytes key =
        database.stats.shapedBytes key +
          forwardedBytes (entriesOf (recorded config database jobs) key)) ↔
      Weightless (recorded config database jobs)) := by
  constructor
  · cases returned : previewEvents config visits pressure with
    | error error =>
      cases validated : config.validate with
      | error other =>
        simp only [previewEvents, validated] at returned
        cases returned
        rfl
      | ok _ =>
        simp only [previewEvents, validated] at returned
        cases returned
    | ok preview =>
      dsimp only
      rw [shapedBytes_previewEvents returned, sum_canonicalBytes_iff]
  · rw [weightless_iff_entriesOf]
    refine forall_congr' fun key => ?_
    rw [shapedBytes_work, Nat.add_left_cancel_iff, sum_canonicalBytes_iff]

end Statistics

namespace Sample

def dropping : Config ℚ := { config with defaultSampleRate := 0, rules := [] }

def visit : Visit := ⟨routine, 1, []⟩

def job : Job ℚ := ⟨ascii "acme", calm, routine⟩

def emptyDatabase : Database ℚ := ⟨emptyTable, fun _ => none⟩

end Sample

/-- An event that is sampled out is reported with all its bytes. -/
theorem sampled_out_counted : letI := Sample.strings
    letI := Sample.floatText
    (∃ preview, previewEvents Sample.dropping [Sample.visit] 0 = .ok preview ∧
      preview.kept = 0 ∧ preview.originalBytes = 136 ∧ preview.shapedBytes = 136 ∧
      forwardedBytes ([Sample.visit].map (previewed Sample.dropping 0)) = 0) ∧
    ∃ key, (work Sample.dropping Sample.emptyDatabase [Sample.job]).stats.shapedBytes key = 136 ∧
      forwardedBytes
        (entriesOf (recorded Sample.dropping Sample.emptyDatabase [Sample.job]) key) = 0 := by
  let _ := Sample.strings
  let _ := Sample.floatText
  have valid : Sample.dropping.validate = .ok () := by decide +kernel
  refine ⟨⟨_, by rw [previewEvents, valid]; rfl, ?_⟩,
    (Sample.job.decision Sample.dropping Sample.emptyDatabase).1.statKey, ?_⟩
  · decide +kernel
  · decide +kernel

end TelemetryForge.Shaping
