import TelemetryForge.Domain.Event
import TelemetryForge.Foundation.Result

/-! # Change markers

`changeintel.MarkerFromEvent` infers a change from the type and the tags of an event, and
`Marker.Validate` accepts closed sets of kinds and states. Kinds always agree. -/

namespace TelemetryForge.Change

structure Marker where
  tenantID : Bytes
  changeID : Bytes
  eventID : Bytes
  source : Bytes
  kind : Bytes
  status : Bytes
  environment : Bytes
  version : Bytes
  previousVersion : Bytes
  gitSHA : Bytes
  buildID : Bytes
  actor : Bytes
  rollbackOf : Bytes
  summary : Bytes
  changedAt : Civil
deriving DecidableEq

def kinds : List Bytes :=
  [ascii "deployment", ascii "rollback", ascii "release", ascii "feature_flag",
    ascii "configuration", ascii "infrastructure"]

def statuses : List Bytes :=
  [ascii "started", ascii "completed", ascii "failed", ascii "rolled_back", ascii "changed"]

def first (tags : SortedMap Bytes Bytes) : List String → Bytes
  | [] => []
  | key :: rest =>
    let value := trimSpace (tags.getD (ascii key) [])
    if value ≠ [] then value else first tags rest

def isChangeEvent (event : Event) : Bool :=
  let kind := toLower (trimSpace event.type)
  contains kind (ascii "deploy") || contains kind (ascii "rollback") ||
    contains kind (ascii "release") || contains kind (ascii "change") ||
    decide (first event.tags ["telemetryforge.change_id", "change_id", "deployment_id",
      "rollback_of", "git_sha", "build_id", "release", "version"] ≠ [])

def inferKind (event : Event) : Bytes :=
  let value := toLower (first event.tags ["telemetryforge.change_kind", "change_kind"])
  let eventType := toLower event.type
  if value ∈ kinds then value
  else if contains eventType (ascii "rollback") then ascii "rollback"
  else if contains eventType (ascii "deploy") then ascii "deployment"
  else if contains eventType (ascii "release") then ascii "release"
  else if contains eventType (ascii "feature") ∧ contains eventType (ascii "flag") then
    ascii "feature_flag"
  else if contains eventType (ascii "config") then ascii "configuration"
  else ascii "infrastructure"

inductive PayloadField
  | summary
deriving DecidableEq

instance : Json.FieldNames PayloadField where
  all := [.summary]
  name _ := ascii "summary"
  selects := by
    rintro ⟨⟩
    decide +kernel
  literal := by
    rintro ⟨⟩
    decide +kernel

def payloadSummary (payload : Bytes) : Bytes :=
  let set (current : Bytes) (_ : PayloadField) (value : List Json.Lexeme) : Option Bytes :=
    Json.decodeString current (value.map Json.Lexeme.token)
  match (Json.wholeValue payload).bind (Json.decodeStruct Json.Lexeme.token set false []) with
  | none => []
  | some summary => trimSpace summary

def statusTag (event : Event) : Bytes :=
  first event.tags ["telemetryforge.change_status", "change_status", "status"]

def changeID (event : Event) : Bytes :=
  let tag := first event.tags ["telemetryforge.change_id", "change_id", "deployment_id"]
  if tag = [] then ascii "CHG-" ++ event.id else tag

def summary (event : Event) : Bytes :=
  let tag := first event.tags ["telemetryforge.change_summary", "change_summary"]
  if tag = [] ∧ event.payload ≠ [] then payloadSummary event.payload else tag

def markerFromEvent (event : Event) : Option Marker :=
  if isChangeEvent event = false then none
  else
    some
      { tenantID := event.tenantID
        changeID := changeID event
        eventID := event.id
        source := event.source
        kind := inferKind event
        status := if statusTag event = [] then ascii "completed" else statusTag event
        environment := first event.tags
          ["telemetryforge.environment", "environment", "deployment.environment"]
        version := first event.tags ["telemetryforge.version", "version", "release"]
        previousVersion := first event.tags ["telemetryforge.previous_version", "previous_version"]
        gitSHA := first event.tags
          ["telemetryforge.git_sha", "git_sha", "git.commit.sha", "vcs.revision"]
        buildID := first event.tags ["telemetryforge.build_id", "build_id"]
        actor := first event.tags ["telemetryforge.change_actor", "actor"]
        rollbackOf := first event.tags ["telemetryforge.rollback_of", "rollback_of"]
        summary := summary event
        changedAt := event.timestamp.utc }

inductive MarkerError
  | changeIDRequired
  | eventIDRequired
  | sourceRequired
  | changedAtRequired
  | unsupportedKind (kind : Bytes)
  | statusRequired
  | unsupportedStatus (status : Bytes)
  | tenantMismatch (tenant trusted : Bytes)
deriving DecidableEq

def Marker.validate (marker : Marker) : Except MarkerError Unit := do
  refuse (trimSpace marker.changeID = []) .changeIDRequired
  refuse (trimSpace marker.eventID = []) .eventIDRequired
  refuse (trimSpace marker.source = []) .sourceRequired
  refuse (marker.changedAt = Time.zeroCivil) .changedAtRequired
  refuse (marker.kind ∉ kinds) (.unsupportedKind marker.kind)
  refuse (trimSpace marker.status = []) .statusRequired
  refuse (marker.status ∉ statuses) (.unsupportedStatus marker.status)

def resolveTenant (principal : Option Bytes) (marker : Marker) : Except MarkerError Marker :=
  let trusted := trimSpace (principal.getD [])
  if trusted = [] then
    if trimSpace marker.tenantID = [] then .ok { marker with tenantID := ascii "default" }
    else .ok marker
  else if marker.tenantID ≠ [] ∧ marker.tenantID ≠ trusted then
    .error (.tenantMismatch marker.tenantID trusted)
  else .ok { marker with tenantID := trusted }

def recordChangeMarker (principal : Option Bytes) (marker : Marker) :
    Except MarkerError Marker := do
  let marker ← resolveTenant principal marker
  marker.validate
  return marker

/-- `ChangeRecorder.Process` on a database without faults: what is stored, if anything. -/
def process (principal : Option Bytes) (event : Event) : Except MarkerError (Option Marker) :=
  match markerFromEvent event with
  | none => .ok none
  | some marker => (recordChangeMarker principal marker).map some

theorem trimSpace_first (tags : SortedMap Bytes Bytes) (keys : List String) :
    trimSpace (first tags keys) = first tags keys := by
  induction keys with
  | nil => rfl
  | cons key rest induction =>
    simp only [first]
    split_ifs
    · exact trimSpace_trimSpace _
    · exact induction

theorem inferKind_mem (event : Event) : inferKind event ∈ kinds := by
  unfold inferKind
  dsimp only
  split_ifs with known
  · exact known
  all_goals decide

def StatusKnown (event : Event) : Prop := statusTag event = [] ∨ statusTag event ∈ statuses

theorem trimSpace_ne_nil_of_mem_statuses {status : Bytes} (known : status ∈ statuses) :
    trimSpace status ≠ [] := by
  revert status
  decide +kernel

theorem trimSpace_changeID_ne_nil (event : Event) : trimSpace (changeID event) ≠ [] := by
  unfold changeID
  dsimp only
  split_ifs with untagged
  · exact trimSpace_ne_nil (List.mem_append_left _ (by decide)) (by decide : isVisible 0x43 = true)
  · rw [trimSpace_first]
    exact untagged

theorem validate_inferred_iff {event : Event} {marker : Marker} (identified : trimSpace event.id ≠ [])
    (sourced : trimSpace event.source ≠ []) (dated : event.timestamp.isZero = false)
    (inferred : markerFromEvent event = some marker) :
    marker.validate = .ok () ↔ StatusKnown event := by
  unfold markerFromEvent at inferred
  by_cases plain : isChangeEvent event = false
  · simp [plain] at inferred
  rw [if_neg plain] at inferred
  cases inferred
  have datedCivil : event.timestamp.utc ≠ Time.zeroCivil := by
    simpa [Time.isZero] using dated
  simp only [Marker.validate, andThen_eq_ok, refuse_eq_ok, trimSpace_changeID_ne_nil, identified,
    sourced, datedCivil, inferKind_mem, not_true_eq_false, not_false_eq_true, true_and, not_not]
  unfold StatusKnown
  split_ifs with untagged
  · simp only [untagged, true_or, iff_true]
    decide
  · simp only [untagged, false_or]
    exact ⟨And.right, fun known => ⟨trimSpace_ne_nil_of_mem_statuses known, known⟩⟩

theorem validate_resolveTenant {principal : Option Bytes} {marker resolved : Marker}
    (isResolved : resolveTenant principal marker = .ok resolved) :
    resolved.validate = marker.validate := by
  unfold resolveTenant at isResolved
  dsimp only at isResolved
  split_ifs at isResolved
  all_goals
    cases isResolved
    rfl

theorem resolveTenant_worker (marker : Marker) :
    ∃ resolved, resolveTenant none marker = .ok resolved := by
  have untrusted : trimSpace ((none : Option Bytes).getD []) = [] := by decide
  unfold resolveTenant
  rw [if_pos untrusted]
  split_ifs
  · exact ⟨_, rfl⟩
  · exact ⟨_, rfl⟩

/-- An event that is identified, sourced and dated is never rejected exactly when it is no
change event or its state is blank or known. The worker stage fails in the same cases. -/
theorem change_accepted_iff (event : Event) (identified : trimSpace event.id ≠ [])
    (sourced : trimSpace event.source ≠ []) (dated : event.timestamp.isZero = false) :
    ((∀ marker, markerFromEvent event = some marker → ∀ principal resolved,
        resolveTenant principal marker = .ok resolved → resolved.validate = .ok ()) ↔
      isChangeEvent event = false ∨ StatusKnown event) ∧
    ((∃ stored, process none event = .ok stored) ↔
      isChangeEvent event = false ∨ StatusKnown event) := by
  cases inferred : markerFromEvent event with
  | none =>
    have plain : isChangeEvent event = false := by
      unfold markerFromEvent at inferred
      split_ifs at inferred with plain
      exact plain
    simp [plain, process, inferred]
  | some marker =>
    have change : isChangeEvent event ≠ false := by
      intro plain
      simp [markerFromEvent, plain] at inferred
    have valid : isChangeEvent event = false ∨ StatusKnown event ↔ marker.validate = .ok () :=
      (or_iff_right change).trans (validate_inferred_iff identified sourced dated inferred).symm
    rcases resolveTenant_worker marker with ⟨resolved, isResolved⟩
    have same := validate_resolveTenant isResolved
    rw [valid]
    constructor
    · simp only [Option.some.injEq, forall_eq']
      constructor
      · intro all
        exact same ▸ all none resolved isResolved
      · intro holds principal other isOther
        exact (validate_resolveTenant isOther).trans holds
    · simp only [process, inferred, recordChangeMarker, isResolved, map_eq_ok]
      rw [← same]
      change (∃ stored result, (resolved.validate >>= fun _ => .ok resolved) = .ok result ∧
        some result = stored) ↔ _
      simp

namespace Sample

def request : Event :=
  { Event.zero with
    id := ascii "e1", source := ascii "api", type := ascii "http.request"
    timestamp := ⟨⟨2026, 1, 1, 0, 0, 0, 0⟩, 0, by decide⟩
    tags := (SortedMap.empty.insert (ascii "status") (ascii "200")).insert (ascii "version")
      (ascii "1.4.0") }

def deployment : Event :=
  { request with
    type := ascii "deployment"
    tags := SortedMap.empty.insert (ascii "status") (ascii "completed") }

end Sample

/-- Ordinary telemetry of a versioned service is taken for a change and then rejected. -/
theorem versioned_request_rejected :
    trimSpace Sample.request.id ≠ [] ∧ trimSpace Sample.request.source ≠ [] ∧
      trimSpace Sample.request.type ≠ [] ∧ Sample.request.timestamp.isZero = false ∧
      process none Sample.request = .error (.unsupportedStatus (ascii "200")) := by
  decide +kernel

theorem change_accepted_sample :
    Sample.deployment.timestamp.isZero = false ∧
      ∃ stored, process none Sample.deployment = .ok stored :=
  ⟨by decide +kernel,
    (change_accepted_iff Sample.deployment (by decide +kernel) (by decide +kernel)
      (by decide +kernel)).2.mpr (.inr (.inr (by decide +kernel)))⟩

end TelemetryForge.Change
