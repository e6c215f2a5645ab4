import TelemetryForge.Policy.ReportTable

/-! # What an evaluation changes

`EvaluateAt` on events whose tags are behind a reference. -/

namespace TelemetryForge.Policy.Engine

open List SortedMap

open Cardinality (Observation)

variable {τ υ : Type} [Strings]

structure Work where
  heap : Memory Tags
  quarantineDimensions : List Bytes
  quarantineReasons : List Bytes

omit [Strings] in
def Work.take (work : Work) (clone : Reference) (dimension : Bytes) : Option Finding → Work
  | none => work
  | some finding =>
    match finding.action with
    | .dropTag => { work with heap := work.heap.modify clone (·.erase dimension) }
    | .quarantine =>
      ⟨work.heap.modify clone (·.erase dimension), work.quarantineDimensions ++ [dimension],
        work.quarantineReasons ++ [finding.reason]⟩
    | .allow | .other _ => work

def evaluateDimensionIn (engine : Engine τ υ) (event : EventReference) (clone : Reference)
    (now : Int) (reached : Session τ υ × Work) (dimension : Bytes) :
    Except EngineError (Session τ υ × Work) := do
  let value := (event.view reached.2.heap).tags.getD dimension []
  let (session, finding) ← engine.evaluate engine.active .active (event.view reached.2.heap)
    dimension value now reached.1
  let session ← engine.reportFinding .recordFinding now finding session
  let work := reached.2.take clone dimension finding
  let session ← engine.evaluateShadow (event.view work.heap) dimension value now
    (actionOf finding) session
  return (session, work)

omit [Strings] in
def Work.mark (work : Work) (clone : Reference) : Memory Tags :=
  if work.quarantineDimensions = [] then work.heap
  else
    work.heap.modify clone fun tags =>
      (tags.insert quarantinedTag (ascii "true")).insert quarantineDimensionsTag
        (joinTexts (ascii ",") work.quarantineDimensions)

def evaluateEventIn (engine : Engine τ υ) (event : EventReference) (now : Int) (heap : Memory Tags)
    (session : Session τ υ) : Except EngineError (Session τ υ × Memory Tags × EventReference) := do
  let session ← engine.evaluateBudgets engine.active .active (event.view heap) now session
  let session ← engine.evaluateShadowBudgets (event.view heap) now session
  if (heap.read event.tags).entries = [] then return (session, heap, event)
  let dimensions := (heap.read event.tags).entries.map Prod.fst
  let copy := heap.alloc (heap.read event.tags)
  let (session, work) ←
    dimensions.foldlM (engine.evaluateDimensionIn event copy.2 now) (session, ⟨copy.1, [], []⟩)
  let heap := work.mark copy.2
  let session ← engine.recordQuarantine (event.view heap)
    ⟨heap.read copy.2, work.quarantineDimensions, work.quarantineReasons⟩ session
  return (session, heap, { event with tags := copy.2 })

def evaluateAtIn (engine : Engine τ υ) (event : EventReference) (now clock : Int)
    (heap : Memory Tags) (session : Session τ υ) :
    Except EngineError (Session τ υ × Memory Tags × EventReference) :=
  engine.evaluateEventIn event (if now = 0 then clock else now) heap session

section

omit [Strings]

def Marks.stored (before : Memory Tags) (marks : Marks) : Work :=
  ⟨(before.alloc marks.tags).1, marks.quarantineDimensions, marks.quarantineReasons⟩

theorem take_stored (before : Memory Tags) (copied : Tags) (marks : Marks) (dimension : Bytes)
    (finding : Option Finding) :
    (marks.stored before).take (before.alloc copied).2 dimension finding =
      (marks.take dimension finding).stored before := by
  cases finding with
  | none => rfl
  | some finding =>
    cases action : finding.action with
    | dropTag | quarantine =>
      simp only [Work.take, Marks.take, action, Marks.stored, Memory.modify_alloc]
    | allow | other text => simp only [Work.take, Marks.take, action]

theorem view_stored {before : Memory Tags} {event : EventReference}
    (held : before.Holds event.tags) (marks : Marks) :
    event.view (marks.stored before).heap = event.view before :=
  EventReference.view_eq_of_untouched (before.untouched_alloc marks.tags) held

end

theorem evaluateDimensionIn_eq (engine : Engine τ υ) {before : Memory Tags}
    {event : EventReference} (held : before.Holds event.tags) (now : Int) (copied : Tags)
    (reached : Session τ υ × Marks) {entry : Bytes × Bytes}
    (member : entry ∈ (event.view before).tags.entries) :
    engine.evaluateDimensionIn event (before.alloc copied).2 now
        (reached.1, reached.2.stored before) entry.1 =
      (engine.evaluateDimension (event.view before) now reached entry).map
        fun after => (after.1, after.2.stored before) := by
  have value : (event.view before).tags.getD entry.1 [] = entry.2 := by
    rw [SortedMap.getD, (SortedMap.find?_eq_some_iff _ _ _).mpr member]
    rfl
  simp only [evaluateDimensionIn, evaluateDimension, view_stored held, value]
  cases engine.evaluate engine.active .active (event.view before) entry.1 entry.2 now reached.1 with
  | error failure => rfl
  | ok result =>
    rcases result with ⟨session, finding⟩
    simp only [bind, Except.bind, take_stored, view_stored held]
    cases engine.reportFinding .recordFinding now finding session with
    | error failure => rfl
    | ok session =>
      dsimp only
      cases engine.evaluateShadow (event.view before) entry.1 entry.2 now (actionOf finding)
        session with
      | error failure => rfl
      | ok session => rfl

section

omit [Strings]

theorem mark_stored (before : Memory Tags) (marks : Marks) (copied : Tags) (event : Event) :
    (marks.stored before).mark (before.alloc copied).2 =
      (before.alloc (marks.processed event).tags).1 := by
  unfold Work.mark Marks.processed
  by_cases none : marks.quarantineDimensions = []
  · simp only [Marks.stored, none, if_true]
  · simp only [Marks.stored, none, if_false, Memory.modify_alloc]

theorem recordQuarantine_congr (engine : Engine τ υ) (event : Event) {marks other : Marks}
    (dimensions : marks.quarantineDimensions = other.quarantineDimensions)
    (reasons : marks.quarantineReasons = other.quarantineReasons) (session : Session τ υ) :
    engine.recordQuarantine event marks session = engine.recordQuarantine event other session := by
  simp only [recordQuarantine, dimensions, reasons]

theorem processed_eq (marks : Marks) (event : Event) :
    marks.processed event = { event with tags := (marks.processed event).tags } := by
  unfold Marks.processed
  split_ifs <;> rfl

end

theorem evaluateDimensionsIn_eq (engine : Engine τ υ) {before : Memory Tags}
    {event : EventReference} (held : before.Holds event.tags) (now : Int) (session : Session τ υ) :
    ((before.read event.tags).entries.map Prod.fst).foldlM
        (engine.evaluateDimensionIn event (before.alloc (before.read event.tags)).2 now)
        (session, ⟨(before.alloc (before.read event.tags)).1, [], []⟩) =
      ((before.read event.tags).entries.foldlM
        (engine.evaluateDimension (event.view before) now)
        (session, ⟨before.read event.tags, [], []⟩)).map
          fun after => (after.1, after.2.stored before) :=
  foldlM_translated (fun after : Session τ υ × Marks => (after.1, after.2.stored before)) Prod.fst
    _ (fun _ member reached => evaluateDimensionIn_eq engine held now _ reached member)
    (session, ⟨before.read event.tags, [], []⟩)

theorem evaluateEventIn_ok (engine : Engine τ υ) {before after : Memory Tags}
    {event out : EventReference} (held : before.Holds event.tags) {now : Int}
    {session session' : Session τ υ}
    (evaluated : engine.evaluateEventIn event now before session = .ok (session', after, out)) :
    engine.evaluateEvent (event.view before) now session = .ok (session', out.view after) ∧
      before.Untouched after := by
  rcases bind_eq_ok.mp evaluated with ⟨first, active, evaluated⟩
  rcases bind_eq_ok.mp evaluated with ⟨second, shadow, evaluated⟩
  by_cases bare : (before.read event.tags).entries = []
  · rw [if_pos bare] at evaluated
    cases evaluated
    refine ⟨?_, .refl _⟩
    refine bind_eq_ok.mpr ⟨first, active, bind_eq_ok.mpr ⟨session', shadow, ?_⟩⟩
    exact if_pos bare
  · rw [if_neg bare] at evaluated
    rcases bind_eq_ok.mp evaluated with ⟨⟨_, _⟩, looped, evaluated⟩
    rcases bind_eq_ok.mp evaluated with ⟨fourth, quarantined, returned⟩
    clear evaluated
    rw [evaluateDimensionsIn_eq engine held] at looped
    rcases map_eq_ok.mp looped with ⟨⟨third, marks⟩, plain, same⟩
    cases same
    simp only [mark_stored before marks _ (event.view before)] at quarantined returned
    cases returned
    have untouched := before.untouched_alloc (marks.processed (event.view before)).tags
    rw [EventReference.view_eq_of_untouched untouched held] at quarantined
    refine ⟨?_, untouched⟩
    refine bind_eq_ok.mpr ⟨first, active, bind_eq_ok.mpr ⟨second, shadow, ?_⟩⟩
    refine (if_neg bare).trans (bind_eq_ok.mpr ⟨(third, marks), plain, ?_⟩)
    refine bind_eq_ok.mpr ⟨session', ?_, ?_⟩
    · exact (recordQuarantine_congr engine _ rfl rfl third).trans quarantined
    · have view : EventReference.view
          { event with tags := (before.alloc (before.read event.tags)).2 }
          (before.alloc (marks.processed (event.view before)).tags).1 =
            marks.processed (event.view before) := by
        rw [processed_eq, EventReference.view, Memory.read_alloc]
        rfl
      rw [view]
      rfl

def dimensionFinding (engine : Engine τ υ) (event : Event) (now : Int) (session : Session τ υ)
    (entry : Bytes × Bytes) : Except EngineError (Session τ υ × Option Finding) := do
  let (session, finding) ← engine.evaluate engine.active .active event entry.1 entry.2 now session
  let session ← engine.reportFinding .recordFinding now finding session
  let session ← engine.evaluateShadow event entry.1 entry.2 now (actionOf finding) session
  return (session, finding)

abbrev Findings := List (Bytes × Option Finding)

def collectFinding (engine : Engine τ υ) (event : Event) (now : Int)
    (reached : Session τ υ × Findings) (entry : Bytes × Bytes) :
    Except EngineError (Session τ υ × Findings) := do
  let (session, finding) ← engine.dimensionFinding event now reached.1 entry
  return (session, reached.2 ++ [(entry.1, finding)])

def activeFindings (engine : Engine τ υ) (event : Event) (now : Int) (session : Session τ υ) :
    Except EngineError Findings := do
  let session ← engine.evaluateBudgets engine.active .active event now session
  let session ← engine.evaluateShadowBudgets event now session
  let (_, findings) ← event.tags.entries.foldlM (engine.collectFinding event now) (session, [])
  return findings

omit [Strings] in
def removesTag (action : Action) : Bool := decide (action = .dropTag) || decide (action = .quarantine)

def Findings.removes (findings : Findings) (key : Bytes) : Bool :=
  findings.any fun (dimension, finding) => decide (dimension = key) && removesTag (actionOf finding)

def Findings.quarantined (findings : Findings) : List Bytes :=
  (findings.filter fun (_, finding) => decide (actionOf finding = .quarantine)).map Prod.fst

def Marks.takeAll (marks : Marks) (findings : Findings) : Marks :=
  findings.foldl (fun marks found => marks.take found.1 found.2) marks

theorem evaluateDimension_eq (engine : Engine τ υ) (event : Event) (now : Int) (first : Marks)
    (reached : Session τ υ × Findings) (entry : Bytes × Bytes) :
    engine.evaluateDimension event now (reached.1, first.takeAll reached.2) entry =
      (engine.collectFinding event now reached entry).map
        fun after => (after.1, first.takeAll after.2) := by
  simp only [evaluateDimension, collectFinding, dimensionFinding]
  cases engine.evaluate engine.active .active event entry.1 entry.2 now reached.1 with
  | error failure => rfl
  | ok result =>
    rcases result with ⟨session, finding⟩
    simp only [bind, Except.bind]
    cases engine.reportFinding .recordFinding now finding session with
    | error failure => rfl
    | ok session =>
      dsimp only
      cases engine.evaluateShadow event entry.1 entry.2 now (actionOf finding) session with
      | error failure => rfl
      | ok session =>
        simp only [pure, Except.pure, Except.map, Marks.takeAll, foldl_append,
          foldl_cons, foldl_nil]

section

omit [Strings]

theorem find?_take (marks : Marks) (dimension : Bytes) (finding : Option Finding) (key : Bytes) :
    (marks.take dimension finding).tags.find? key =
      if dimension = key ∧ removesTag (actionOf finding) = true then none
      else marks.tags.find? key := by
  cases finding with
  | none => simp [Marks.take, actionOf, removesTag]
  | some finding =>
    have action : actionOf (some finding) = finding.action := rfl
    rw [action]
    cases decided : finding.action with
    | dropTag | quarantine =>
      simp only [Marks.take, decided, find?_erase, removesTag, decide_true,
        reduceCtorEq, decide_false, Bool.or_false, Bool.or_true, and_true, eq_comm]
    | allow | other text => simp [Marks.take, decided, removesTag]

theorem quarantineDimensions_take (marks : Marks) (dimension : Bytes) (finding : Option Finding) :
    (marks.take dimension finding).quarantineDimensions =
      marks.quarantineDimensions ++ Findings.quarantined [(dimension, finding)] := by
  cases finding with
  | none => simp [Marks.take, actionOf, Findings.quarantined]
  | some finding =>
    have action : actionOf (some finding) = finding.action := rfl
    cases decided : finding.action <;>
      simp [Marks.take, Findings.quarantined, action, decided]

theorem find?_takeAll (marks : Marks) (findings : Findings) (key : Bytes) :
    (marks.takeAll findings).tags.find? key =
      if findings.removes key then none else marks.tags.find? key := by
  induction findings generalizing marks with
  | nil => rfl
  | cons found rest induction =>
    have tail := induction (marks.take found.1 found.2)
    have removes : Findings.removes (found :: rest) key =
        ((decide (found.1 = key) && removesTag (actionOf found.2)) ||
          Findings.removes rest key) := rfl
    change (Marks.takeAll (marks.take found.1 found.2) rest).tags.find? key = _
    rw [tail, find?_take, removes]
    by_cases here : found.1 = key <;> cases removesTag (actionOf found.2) <;>
      cases Findings.removes rest key <;> simp [here]

theorem quarantineDimensions_takeAll (marks : Marks) (findings : Findings) :
    (marks.takeAll findings).quarantineDimensions =
      marks.quarantineDimensions ++ findings.quarantined := by
  induction findings generalizing marks with
  | nil => simp [Marks.takeAll, Findings.quarantined]
  | cons found rest induction =>
    have tail := induction (marks.take found.1 found.2)
    have split : Findings.quarantined (found :: rest) =
        Findings.quarantined [found] ++ Findings.quarantined rest := by
      simp only [Findings.quarantined, ← map_append, ← filter_append, singleton_append]
    simp only [Marks.takeAll, foldl_cons] at tail ⊢
    rw [tail, quarantineDimensions_take, split, append_assoc]

end

def Findings.applied (findings : Findings) (event : Event) : Event :=
  let kept := event.tags.filter fun key _ => !findings.removes key
  if findings.quarantined = [] then { event with tags := kept }
  else
    { event with
      tags := (kept.insert quarantinedTag (ascii "true")).insert quarantineDimensionsTag
        (joinTexts (ascii ",") findings.quarantined) }

omit [Strings] in
theorem processed_takeAll (findings : Findings) (event : Event) :
    (Marks.takeAll ⟨event.tags, [], []⟩ findings).processed event = findings.applied event := by
  have tags : (Marks.takeAll ⟨event.tags, [], []⟩ findings).tags =
      event.tags.filter fun key _ => !findings.removes key := by
    apply SortedMap.ext
    intro key
    rw [find?_takeAll, SortedMap.find?_filter]
    cases findings.removes key <;> cases event.tags.find? key <;> rfl
  have dimensions := quarantineDimensions_takeAll ⟨event.tags, [], []⟩ findings
  rw [List.nil_append] at dimensions
  simp only [Marks.processed, Findings.applied, tags, dimensions]

theorem evaluateEvent_applied (engine : Engine τ υ) {event out : Event} {now : Int}
    {session session' : Session τ υ}
    (evaluated : engine.evaluateEvent event now session = .ok (session', out)) :
    ∃ findings, engine.activeFindings event now session = .ok findings ∧
      out = findings.applied event := by
  rcases bind_eq_ok.mp evaluated with ⟨first, active, afterActive⟩
  rcases bind_eq_ok.mp afterActive with ⟨second, shadow, afterShadow⟩
  have collected (found : Session τ υ × Findings)
      (looped : event.tags.entries.foldlM (engine.collectFinding event now) (second, []) =
        .ok found) : engine.activeFindings event now session = .ok found.2 :=
    bind_eq_ok.mpr ⟨first, active, bind_eq_ok.mpr ⟨second, shadow,
      bind_eq_ok.mpr ⟨found, looped, rfl⟩⟩⟩
  have loop := foldlM_translated
    (fun after : Session τ υ × Findings => (after.1, Marks.takeAll ⟨event.tags, [], []⟩ after.2))
    id event.tags.entries
    (fun entry _ reached => evaluateDimension_eq engine event now ⟨event.tags, [], []⟩ reached entry)
    (second, [])
  by_cases bare : event.tags.entries = []
  · rw [if_pos bare] at afterShadow
    cases afterShadow
    refine ⟨[], collected (session', []) (by rw [bare]; rfl), ?_⟩
    rw [← processed_takeAll]
    rfl
  · rw [if_neg bare] at afterShadow
    rcases bind_eq_ok.mp afterShadow with ⟨reached, looped, afterLoop⟩
    rcases bind_eq_ok.mp afterLoop with ⟨fourth, _, returned⟩
    rw [map_id] at loop
    rcases map_eq_ok.mp (loop.symm.trans looped) with ⟨found, foundLoop, same⟩
    cases returned
    refine ⟨found.2, collected found foundLoop, ?_⟩
    rw [← processed_takeAll, ← same]

/-- An evaluation without an error leaves everything of the caller as it was, and returns the
event without exactly the tags that the active policy drops or quarantines, marked if it
quarantines any. -/
theorem evaluateAt_frame (engine : Engine τ υ) (event : EventReference) (now clock : Int)
    (heap : Memory Tags) (session : Session τ υ) (held : heap.Holds event.tags)
    (session' : Session τ υ) (heap' : Memory Tags) (out : EventReference)
    (evaluated : engine.evaluateAtIn event now clock heap session = .ok (session', heap', out)) :
    event.view heap' = event.view heap ∧
      (∀ other : EventReference, heap.Holds other.tags → other.view heap' = other.view heap) ∧
      ∃ findings,
        engine.activeFindings (event.view heap) (if now = 0 then clock else now) session =
          .ok findings ∧
        out.view heap' = findings.applied (event.view heap) := by
  rcases engine.evaluateEventIn_ok held evaluated with ⟨plain, untouched⟩
  exact ⟨EventReference.view_eq_of_untouched untouched held,
    fun other => EventReference.view_eq_of_untouched untouched, engine.evaluateEvent_applied plain⟩

omit [Strings] in
theorem find?_applied_of_quarantined {findings : Findings} (some : findings.quarantined ≠ [])
    (event : Event) : (findings.applied event).tags.find? quarantinedTag = .some (ascii "true") := by
  have different : quarantinedTag ≠ quarantineDimensionsTag := by decide +kernel
  simp only [Findings.applied, if_neg some, find?_insert, if_neg different, if_true]

omit [Strings] in
theorem find?_applied_of_allowed {findings : Findings} (none : findings.quarantined = [])
    (event : Event) (key : Bytes) : (findings.applied event).tags.find? key =
      if findings.removes key then .none else event.tags.find? key := by
  simp only [Findings.applied, if_pos none, SortedMap.find?_filter]
  cases findings.removes key <;> cases event.tags.find? key <;> rfl

/-- An evaluated event passes for quarantined exactly when a dimension was quarantined, unless
the client marked it and the active policy leaves that tag alone. -/
theorem isQuarantined_authentic_iff [LawfulStrings] (engine : Engine τ υ) (event : Event)
    (now clock : Int) (session session' : Session τ υ) (out : Event)
    (evaluated : engine.evaluateAt event now clock session = .ok (session', out)) :
    ∃ findings,
      engine.activeFindings event (if now = 0 then clock else now) session = .ok findings ∧
      ((isQuarantined out = true ↔ findings.quarantined ≠ []) ↔
        findings.quarantined ≠ [] ∨ isQuarantined event = false ∨
          findings.removes quarantinedTag = true) := by
  rcases engine.evaluateEvent_applied evaluated with ⟨findings, found, rfl⟩
  refine ⟨findings, found, ?_⟩
  by_cases none : findings.quarantined = []
  · have unmarked : Strings.equalFold [] (ascii "true") = false :=
      LawfulStrings.equalFold_nil _ (by decide)
    simp only [isQuarantined, SortedMap.getD, find?_applied_of_allowed none, none, ne_eq,
      not_true_eq_false, iff_false, false_or, Bool.not_eq_true]
    cases findings.removes quarantinedTag with
    | true => simp [unmarked]
    | false => simp
  · have marked : isQuarantined (findings.applied event) = true := by
      simp only [isQuarantined, SortedMap.getD, find?_applied_of_quarantined none]
      exact LawfulStrings.equalFold_refl _
    simp [marked, none]

end TelemetryForge.Policy.Engine

namespace TelemetryForge.Policy

namespace Sample

def heap : Memory Tags := ⟨[event.tags]⟩

def reference : EventReference := ⟨event, some 0⟩

def markedEvent : Event :=
  { event with tags := SortedMap.empty.insert Engine.quarantinedTag (ascii "True") }

end Sample

/-- The second value of a tag is quarantined. -/
theorem evaluateAt_frame_sample : letI := Sample.strings
    ∃ session' heap' out,
      Sample.engine.evaluateAtIn Sample.reference 1 0 Sample.heap (.initial 1 0) =
          .ok (session', heap', out) ∧
        Sample.reference.view heap' = Sample.reference.view Sample.heap := by
  let _ := Sample.strings
  have succeeds : (Sample.engine.evaluateAtIn Sample.reference 1 0 Sample.heap
      (.initial 1 0)).map (fun _ => ()) = .ok () := by decide +kernel
  rcases map_eq_ok.mp succeeds with ⟨⟨session', heap', out⟩, evaluated, _⟩
  have held : Sample.heap.Holds Sample.reference.tags := by
    intro address isAddress
    cases isAddress
    decide
  exact ⟨session', heap', out, evaluated,
    (Sample.engine.evaluateAt_frame _ 1 0 _ _ held _ _ _ evaluated).1⟩

theorem isQuarantined_authentic_sample : letI := Sample.strings
    ∃ session' out findings,
      Sample.engine.evaluateAt Sample.event 1 0 (.initial 1 0) = .ok (session', out) ∧
        ((isQuarantined out = true ↔ Engine.Findings.quarantined findings ≠ []) ↔
          Engine.Findings.quarantined findings ≠ [] ∨ isQuarantined Sample.event = false ∨
            Engine.Findings.removes findings Engine.quarantinedTag = true) := by
  let _ := Sample.strings
  have := Sample.strings_lawful
  have succeeds : (Sample.engine.evaluateAt Sample.event 1 0
      (.initial 1 0)).map (fun _ => ()) = .ok () := by decide +kernel
  rcases map_eq_ok.mp succeeds with ⟨⟨session', out⟩, evaluated, _⟩
  rcases Sample.engine.isQuarantined_authentic_iff Sample.event 1 0 _ _ _ evaluated with
    ⟨findings, _, authentic⟩
  exact ⟨session', out, findings, evaluated, authentic⟩

/-- The active policy finds nothing in the event, and it passes for quarantined. -/
theorem client_marks_quarantined : letI := Sample.strings
    ∃ session' out findings,
      Sample.engine.evaluateAt Sample.markedEvent 1 0 (.initial 0 0) = .ok (session', out) ∧
        Sample.engine.activeFindings Sample.markedEvent 1 (.initial 0 0) = .ok findings ∧
        Engine.Findings.quarantined findings = [] ∧ isQuarantined out = true := by
  let _ := Sample.strings
  have passes : (Sample.engine.evaluateAt Sample.markedEvent 1 0 (.initial 0 0)).map
      (fun result => isQuarantined result.2) = .ok true := by decide +kernel
  have nothing : (Sample.engine.activeFindings Sample.markedEvent 1 (.initial 0 0)).map
      Engine.Findings.quarantined = .ok [] := by decide +kernel
  rcases map_eq_ok.mp passes with ⟨⟨session', out⟩, evaluated, marked⟩
  rcases map_eq_ok.mp nothing with ⟨findings, found, none⟩
  exact ⟨session', out, findings, evaluated, found, none, marked⟩

end TelemetryForge.Policy
