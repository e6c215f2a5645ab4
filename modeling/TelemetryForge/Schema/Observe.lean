import TelemetryForge.Router.Dispatch
import TelemetryForge.Schema.Registry

/-! # Counting known fields

An update counts a known field exactly when the field comes before the slice of the entry
moves, that is, when not more new fields come before it than the slice has room for. -/

namespace TelemetryForge.Schema

open List

def InTime (registered : List Bytes) (spare : Nat) (described : List Field) : Prop :=
  ∀ before field after, described = before ++ field :: after → field.path ∈ registered →
    (newFields registered before).length ≤ spare

structure CountsFields (before : RegistryEntry) (description : Description) (observedAt : Int)
    (after : RegistryEntry) : Prop where
  distinct : (after.fields.map FieldState.path).Nodup
  known : ∀ state ∈ before.fields, ∀ field ∈ description.fields, field.path = state.path →
    ∃ state' ∈ after.fields, state'.path = state.path ∧
      state'.seenCount = state.seenCount + 1 ∧ state'.lastSeen = observedAt ∧
      state'.conflictCount =
        if state.field.type = field.type then state.conflictCount else state.conflictCount + 1
  others : ∀ state ∈ before.fields,
    (∀ field ∈ description.fields, field.path ≠ state.path) →
    ∃ state' ∈ after.fields, state'.path = state.path ∧
      state'.seenCount = state.seenCount ∧ state'.lastSeen = state.lastSeen ∧
      state'.conflictCount = state.conflictCount
  added : ∀ field ∈ description.fields,
    (∀ state ∈ before.fields, state.path ≠ field.path) →
    ∃! state' ∈ after.fields, state'.path = field.path

section Credited

variable (registered : List Bytes)

theorem creditedFields_none (left : Nat) (described : List Field) :
    creditedFields registered left none described = [] := by
  induction described generalizing left with
  | nil => rfl
  | cons field rest induction => cases left <;> simp [creditedFields, Update.roomAfter, induction]

theorem creditedFields_sublist (left : Nat) (room : Option Nat) (described : List Field) :
    (creditedFields registered left room described).Sublist (knownFields registered described) := by
  induction described generalizing left room with
  | nil => exact .slnil
  | cons field rest induction =>
    rw [creditedFields.eq_def, knownFields]
    dsimp only
    by_cases known : field.path ∈ registered
    · rw [if_pos known, filter_cons_of_pos (by simpa using known)]
      split_ifs
      · exact (induction left room).cons_cons field
      · exact (induction left room).cons field
    · rw [if_neg known, filter_cons_of_neg (by simpa using known)]
      cases left with
      | zero => exact induction 0 room
      | succ left => exact induction left _

theorem inTime_cons_known {field : Field} (known : field.path ∈ registered) (spare : Nat)
    (rest : List Field) :
    InTime registered spare (field :: rest) ↔ InTime registered spare rest := by
  have skipped (before : List Field) :
      newFields registered (field :: before) = newFields registered before :=
    filter_cons_of_neg (by simpa using known)
  constructor
  · intro inTime before other after split
    rw [← skipped]
    exact inTime (field :: before) other after (by rw [split]; rfl)
  · intro inTime before other after split isKnown
    cases before with
    | nil => exact Nat.zero_le _
    | cons first before =>
      injection split with sameFirst rest'
      subst sameFirst
      rw [skipped]
      exact inTime before other after rest' isKnown

theorem newFields_cons {field : Field} (new : field.path ∉ registered) (rest : List Field) :
    newFields registered (field :: rest) = field :: newFields registered rest :=
  filter_cons_of_pos (by simpa using new)

theorem inTime_cons_new {field : Field} (new : field.path ∉ registered) (spare : Nat)
    (rest : List Field) :
    InTime registered (spare + 1) (field :: rest) ↔ InTime registered spare rest := by
  constructor
  · intro inTime before other after split isKnown
    have bound := inTime (field :: before) other after (by rw [split]; rfl) isKnown
    rw [newFields_cons registered new, length_cons] at bound
    omega
  · intro inTime before other after split isKnown
    cases before with
    | nil => exact Nat.zero_le _
    | cons first before =>
      injection split with sameFirst rest'
      subst sameFirst
      have bound := inTime before other after rest' isKnown
      rw [newFields_cons registered new, length_cons]
      omega

theorem inTime_zero_cons_new {field : Field} (new : field.path ∉ registered) (rest : List Field) :
    InTime registered 0 (field :: rest) ↔ knownFields registered rest = [] := by
  rw [knownFields, filter_eq_nil_iff]
  constructor
  · intro inTime other member isKnown
    rcases append_of_mem member with ⟨before, after, split⟩
    have bound := inTime (field :: before) other after (by rw [split]; rfl)
      (of_decide_eq_true isKnown)
    rw [newFields_cons registered new, length_cons] at bound
    omega
  · intro none before other after split isKnown
    cases before with
    | nil => exact Nat.zero_le _
    | cons first before =>
      injection split with _ rest'
      refine absurd (decide_eq_true isKnown) (none other ?_)
      rw [rest']
      simp

theorem creditedFields_eq_iff {left : Nat} (spare : Nat) {described : List Field}
    (below : (newFields registered described).length ≤ left) :
    creditedFields registered left (some spare) described = knownFields registered described ↔
      InTime registered spare described := by
  induction described generalizing left spare with
  | nil => simp [creditedFields, knownFields, InTime]
  | cons field rest induction =>
    rw [creditedFields.eq_def]
    dsimp only
    by_cases known : field.path ∈ registered
    · have first : knownFields registered (field :: rest) =
          field :: knownFields registered rest :=
        filter_cons_of_pos (by simpa using known)
      have others : newFields registered (field :: rest) = newFields registered rest :=
        filter_cons_of_neg (by simpa using known)
      rw [others] at below
      rw [if_pos known, first, inTime_cons_known registered known, ← induction spare below]
      simp
    · have skipped : knownFields registered (field :: rest) = knownFields registered rest :=
        filter_cons_of_neg (by simpa using known)
      rw [newFields_cons registered known, length_cons] at below
      rw [if_neg known, skipped]
      rcases Nat.exists_eq_add_of_le' (Nat.one_le_of_lt below) with ⟨fewer, rfl⟩
      dsimp only
      cases spare with
      | zero =>
        rw [inTime_zero_cons_new registered known, Update.roomAfter, creditedFields_none]
        exact eq_comm
      | succ spare =>
        rw [inTime_cons_new registered known, ← induction spare (Nat.le_of_succ_le_succ below)]
        rfl

end Credited

def FieldState.credited (observedAt : Int) (credited : List Field) (state : FieldState) :
    FieldState :=
  match credited.find? fun field => field.path = state.path with
  | some field => state.observe observedAt field
  | none => state

theorem FieldState.credited_path (observedAt : Int) (credited : List Field) (state : FieldState) :
    (state.credited observedAt credited).path = state.path := by
  unfold FieldState.credited
  split <;> rfl

def FieldState.withRequired (observations : Int) (state : FieldState) : FieldState :=
  { state with required := isRequired state observations }

section Updated

variable {entry : RegistryEntry} {description : Description}

def RegistryEntry.credited (entry : RegistryEntry) (layout : Layout) (described : List Field) :
    List Field :=
  creditedFields (entry.fields.map FieldState.path) (maxRegistryFields - entry.fields.length)
    (some layout.spare) described

def RegistryEntry.added (entry : RegistryEntry) (described : List Field) : List Field :=
  (newFields (entry.fields.map FieldState.path) described).take
    (maxRegistryFields - entry.fields.length)

def updatedFields (entry : RegistryEntry) (description : Description) (observedAt : Int)
    (layout : Layout) : List FieldState :=
  entry.fields.map (FieldState.credited observedAt (entry.credited layout description.fields)) ++
    (entry.added description.fields).map (.fresh observedAt)

theorem updateRegistryEntry_fields_perm (distinct : (entry.fields.map FieldState.path).Nodup)
    (described : (description.fields.map Field.path).Nodup) (observedAt : Int) (layout : Layout) :
    (updateRegistryEntry entry description observedAt layout).1.fields.Perm
      ((updatedFields entry description observedAt layout).map
        (FieldState.withRequired (entry.observationCount + 1))) := by
  have tracks : (Update.initial entry layout).Tracks (entry.fields ++ []) (some layout.spare) := by
    rw [append_nil]
    exact ⟨Slices.Heap.holds_single _ _, rfl⟩
  have capacity : maxRegistryFields - entry.fields.length =
      maxRegistryFields - (entry.fields ++ []).length := by rw [append_nil]
  have loop := foldl_step_fields observedAt layout distinct description.fields rfl tracks capacity
  have creditedDistinct : ((entry.credited layout description.fields).map Field.path).Nodup :=
    (((creditedFields_sublist _ _ _ _).trans filter_sublist).map Field.path).nodup described
  rw [RegistryEntry.credited] at creditedDistinct
  rw [append_nil, foldl_observeKnown observedAt creditedDistinct] at loop
  have collected : (observeFields entry description observedAt layout).fields =
      updatedFields entry description observedAt layout := loop
  rw [updateRegistryEntry]
  dsimp only
  rw [collected]
  exact perm_insertionSort _ _

theorem updatedFields_paths (observedAt : Int) (layout : Layout) :
    (updatedFields entry description observedAt layout).map FieldState.path =
      entry.fields.map FieldState.path ++ (entry.added description.fields).map Field.path := by
  rw [updatedFields, map_append, map_map, map_map]
  congr 1
  exact map_congr_left fun state _ => state.credited_path observedAt _

theorem updatedFields_distinct (distinct : (entry.fields.map FieldState.path).Nodup)
    (described : (description.fields.map Field.path).Nodup) (observedAt : Int) (layout : Layout) :
    ((updatedFields entry description observedAt layout).map FieldState.path).Nodup := by
  have sublist : (entry.added description.fields).Sublist description.fields :=
    (take_sublist _ _).trans filter_sublist
  rw [updatedFields_paths]
  refine nodup_append.mpr ⟨distinct, (sublist.map Field.path).nodup described, ?_⟩
  rintro path registered _ new rfl
  rcases mem_map.mp new with ⟨field, isAdded, rfl⟩
  have unknown := (mem_filter.mp ((take_sublist _ _).subset isAdded)).2
  exact absurd registered (of_decide_eq_true unknown)

end Updated

theorem FieldState.credited_of_mem {credited : List Field}
    (distinct : (credited.map Field.path).Nodup) {field : Field} (member : field ∈ credited)
    {state : FieldState} (samePath : field.path = state.path) (observedAt : Int) :
    state.credited observedAt credited = state.observe observedAt field := by
  have found : (credited.find? fun other => decide (other.path = state.path)) = some field := by
    cases isFound : credited.find? fun other => decide (other.path = state.path) with
    | none =>
      have different := find?_eq_none.mp isFound field member
      exact absurd (decide_eq_true samePath) different
    | some other =>
      have otherPath := find?_some isFound
      have same := (of_decide_eq_true otherPath).trans samePath.symm
      rw [inj_on_of_nodup_map distinct (mem_of_find?_eq_some isFound) member same]
  rw [FieldState.credited, found]

theorem FieldState.credited_of_notMem {credited : List Field} {state : FieldState}
    (absent : ∀ field ∈ credited, field.path ≠ state.path) (observedAt : Int) :
    state.credited observedAt credited = state := by
  have notFound : (credited.find? fun other => decide (other.path = state.path)) = none :=
    find?_eq_none.mpr fun field member => by simpa using absent field member
  rw [FieldState.credited, notFound]

section Counting

variable {entry : RegistryEntry} {description : Description}

theorem countsFields_of_credited {observedAt : Int} {layout : Layout} {after : RegistryEntry}
    (described : (description.fields.map Field.path).Nodup)
    (distinctAfter : (after.fields.map FieldState.path).Nodup)
    (perm : after.fields.Perm ((updatedFields entry description observedAt layout).map
      (FieldState.withRequired (entry.observationCount + 1))))
    (added : entry.added description.fields =
      newFields (entry.fields.map FieldState.path) description.fields)
    (credited : entry.credited layout description.fields =
      knownFields (entry.fields.map FieldState.path) description.fields) :
    CountsFields entry description observedAt after := by
  have knownDistinct : ((knownFields (entry.fields.map FieldState.path)
      description.fields).map Field.path).Nodup :=
    (filter_sublist.map Field.path).nodup described
  have present {state : FieldState} (member : state ∈ entry.fields) :
      (state.credited observedAt (knownFields (entry.fields.map FieldState.path)
        description.fields)).withRequired (entry.observationCount + 1) ∈ after.fields := by
    rw [perm.mem_iff, updatedFields, credited]
    exact mem_map_of_mem (mem_append_left _ (mem_map_of_mem member))
  constructor
  · exact distinctAfter
  · intro state member field isDescribed samePath
    have known : field ∈ knownFields (entry.fields.map FieldState.path) description.fields :=
      mem_filter.mpr ⟨isDescribed, decide_eq_true (samePath ▸ mem_map_of_mem member)⟩
    refine ⟨_, present member, ?_⟩
    rw [FieldState.credited_of_mem knownDistinct known samePath]
    exact ⟨rfl, rfl, rfl, rfl⟩
  · intro state member absent
    have uncredited : ∀ field ∈ knownFields (entry.fields.map FieldState.path)
        description.fields, field.path ≠ state.path :=
      fun field known => absent field (mem_filter.mp known).1
    refine ⟨_, present member, ?_⟩
    rw [FieldState.credited_of_notMem uncredited]
    exact ⟨rfl, rfl, rfl, rfl⟩
  · intro field isDescribed unknown
    have new : field ∈ newFields (entry.fields.map FieldState.path) description.fields := by
      refine mem_filter.mpr ⟨isDescribed, decide_eq_true fun registered => ?_⟩
      rcases mem_map.mp registered with ⟨state, member, samePath⟩
      exact unknown state member samePath
    have isAfter : (FieldState.fresh observedAt field).withRequired
        (entry.observationCount + 1) ∈ after.fields := by
      rw [perm.mem_iff, updatedFields, added]
      exact mem_map_of_mem (mem_append_right _ (mem_map_of_mem new))
    refine ⟨_, ⟨isAfter, rfl⟩, ?_⟩
    rintro other ⟨isOther, otherPath⟩
    exact inj_on_of_nodup_map distinctAfter isOther isAfter otherPath

theorem credited_of_countsFields {observedAt : Int} {layout : Layout} {after : RegistryEntry}
    (described : (description.fields.map Field.path).Nodup)
    (perm : after.fields.Perm ((updatedFields entry description observedAt layout).map
      (FieldState.withRequired (entry.observationCount + 1))))
    (counts : CountsFields entry description observedAt after) :
    entry.credited layout description.fields =
      knownFields (entry.fields.map FieldState.path) description.fields := by
  have sublist : (entry.credited layout description.fields).Sublist
      (knownFields (entry.fields.map FieldState.path) description.fields) :=
    creditedFields_sublist _ _ _ _
  refine sublist.eq_of_length_le (subperm_of_subset ?_ ?_).length_le
  · exact (List.Nodup.of_map Field.path described).filter _
  · intro field known
    by_contra missed
    rcases mem_filter.mp known with ⟨isDescribed, isKnown⟩
    rcases mem_map.mp (of_decide_eq_true isKnown) with ⟨state, member, samePath⟩
    have uncredited : state.credited observedAt (entry.credited layout description.fields) =
        state := by
      refine FieldState.credited_of_notMem (fun other isCredited otherPath => ?_) observedAt
      have sameField := inj_on_of_nodup_map described
        (mem_filter.mp (sublist.subset isCredited)).1 isDescribed (otherPath.trans samePath)
      exact missed (sameField ▸ isCredited)
    have unchanged : state.withRequired (entry.observationCount + 1) ∈ after.fields := by
      have listed := mem_map_of_mem
        (f := FieldState.credited observedAt (entry.credited layout description.fields)) member
      rw [uncredited] at listed
      rw [perm.mem_iff]
      exact mem_map_of_mem (mem_append_left _ listed)
    rcases counts.known state member field isDescribed samePath.symm with
      ⟨state', isAfter, statePath, seen, _⟩
    rw [inj_on_of_nodup_map counts.distinct isAfter unchanged statePath] at seen
    have seenCount : (state.withRequired (entry.observationCount + 1)).seenCount =
      state.seenCount := rfl
    omega

/-- The update of an entry counts the fields of a description exactly when no known field has
more new ones before it than the slice of the entry has room for. -/
theorem countsFields_iff_inTime (distinct : (entry.fields.map FieldState.path).Nodup)
    (described : (description.fields.map Field.path).Nodup) (below : entry.fields.length +
      (newFields (entry.fields.map FieldState.path) description.fields).length ≤
        maxRegistryFields) (observedAt : Int) (layout : Layout) :
    CountsFields entry description observedAt
        (updateRegistryEntry entry description observedAt layout).1 ↔
      InTime (entry.fields.map FieldState.path) layout.spare description.fields := by
  have perm := updateRegistryEntry_fields_perm distinct described observedAt layout
  have distinctAfter : ((updateRegistryEntry entry description observedAt layout).1.fields.map
      FieldState.path).Nodup := by
    rw [(perm.map FieldState.path).nodup_iff, map_map]
    exact updatedFields_distinct distinct described observedAt layout
  have fits : (newFields (entry.fields.map FieldState.path) description.fields).length ≤
      maxRegistryFields - entry.fields.length := by omega
  have added : entry.added description.fields =
      newFields (entry.fields.map FieldState.path) description.fields := take_of_length_le fits
  rw [← creditedFields_eq_iff _ _ fits]
  exact ⟨credited_of_countsFields described perm,
    countsFields_of_credited described distinctAfter perm added⟩

end Counting

namespace Sample

def field (path : Bytes) : Field := plainField path .string

def entry : RegistryEntry :=
  ⟨[], [], [], [], [], [], .healthy, 0, 0, 1, 1, 0, [.fresh 0 (field (ascii "tags.b"))], []⟩

def description : Description :=
  ⟨[], [], [], [], [], [], [field (ascii "tags.a"), field (ascii "tags.b")], [], false⟩

def layout (spare : Nat) : Layout := ⟨spare, fun length => 2 * length⟩

end Sample

/-- With room for the new field, the known one is counted. -/
theorem countsFields_sample :
    CountsFields Sample.entry Sample.description 1
      (updateRegistryEntry Sample.entry Sample.description 1 (Sample.layout 1)).1 := by
  have fits : (newFields (Sample.entry.fields.map FieldState.path)
      Sample.description.fields).length ≤ 1 := by decide
  refine (countsFields_iff_inTime (by decide) (by decide) (by decide) 1 (Sample.layout 1)).mpr ?_
  exact (creditedFields_eq_iff _ 1 fits).mp (by decide)

/-- Without room the slice moves, and the observation of the known field is lost. -/
theorem moved_slice_loses_observation :
    (updateRegistryEntry Sample.entry Sample.description 1 (Sample.layout 0)).1.fields.map
        (fun state => (state.path, state.seenCount, state.lastSeen)) =
      [(ascii "tags.a", 1, 1), (ascii "tags.b", 1, 0)] ∧
    ¬CountsFields Sample.entry Sample.description 1
      (updateRegistryEntry Sample.entry Sample.description 1 (Sample.layout 0)).1 := by
  refine ⟨by decide +kernel, fun counts => ?_⟩
  have counted := counts.known (.fresh 0 (Sample.field (ascii "tags.b"))) (by decide)
    (Sample.field (ascii "tags.b")) (by decide) rfl
  revert counted
  decide +kernel

/-! ## Schema observations

`ObserveSchema` on the tables `schema_observations`, `schema_registry` and
`schema_drift_findings`. -/

structure Change where
  kind : Bytes
  severity : Severity
  path : Bytes
  previousType : Option ValueType
  currentType : Option ValueType
  message : Bytes
deriving DecidableEq

def Severity.rank : Severity → Nat
  | .breaking => 3
  | .warning => 2
  | .info => 1

def Change.before (left right : Change) : Prop :=
  if left.severity = right.severity then left.path ≤ right.path
  else right.severity.rank < left.severity.rank

instance (left right : Change) : Decidable (left.before right) :=
  inferInstanceAs (Decidable (ite _ _ _))

def stateMap (states : List FieldState) : SortedMap Bytes FieldState :=
  states.foldl (fun map state => map.insert state.path state) .empty

def changeOf (later : SortedMap Bytes FieldState) (path : Bytes) (previous : FieldState) :
    Option Change :=
  match later.find? path with
  | none =>
    some ⟨ascii "field_removed", if previous.required then .breaking else .warning, path,
      some previous.field.type, none, ascii "field " ++ path ++ ascii " was removed"⟩
  | some current =>
    if previous.field.type = current.field.type then none
    else
      some ⟨ascii "type_changed", .breaking, path, some previous.field.type,
        some current.field.type,
        ascii "field " ++ path ++ ascii " changed type from " ++ previous.field.type.text ++
          ascii " to " ++ current.field.type.text⟩

def diff (earlier later : RegistryEntry) : List Change :=
  let earlierFields := stateMap earlier.fields
  let laterFields := stateMap later.fields
  let changed := earlierFields.entries.filterMap fun (path, previous) =>
    changeOf laterFields path previous
  let added := (laterFields.entries.filter fun (path, _) =>
    (earlierFields.find? path).isNone).map fun (path, current) =>
      (⟨ascii "field_added", .info, path, none, some current.field.type,
        ascii "field " ++ path ++ ascii " was added"⟩ : Change)
  (changed ++ added).insertionSort Change.before

def versionDrifts (previous entry : RegistryEntry) (observedAt : Int) : List Drift :=
  (diff previous entry).map fun change =>
    ⟨entry.tenantID, entry.source, entry.eventType, entry.declaredVersion, change.severity,
      ascii "version_" ++ change.kind, change.path, change.previousType, change.currentType,
      ascii "schema version " ++ previous.declaredVersion ++ ascii " -> " ++
        entry.declaredVersion ++ ascii ": " ++ change.message,
      observedAt, observedAt, 1⟩

structure Identity where
  tenantID : Bytes
  source : Bytes
  eventType : Bytes
  declaredVersion : Bytes
deriving DecidableEq

def RegistryEntry.identity (entry : RegistryEntry) : Identity :=
  ⟨entry.tenantID, entry.source, entry.eventType, entry.declaredVersion⟩

def typeText : Option ValueType → Bytes
  | none => []
  | some type => type.text

def driftSignature (drift : Drift) : Bytes :=
  let raw := joinWith (ascii "|")
    [drift.kind, drift.path, typeText drift.previousType, typeText drift.currentType, drift.message]
  hexEncode ((Sha256.sum256 raw).take 12)

structure Tables where
  observations : Bytes × Bytes → Option Int
  registry : List RegistryEntry
  drifts : Identity × Bytes → Option Drift

namespace Tables

def empty : Tables := ⟨fun _ => none, [], fun _ => none⟩

def find (tables : Tables) (identity : Identity) : Option RegistryEntry :=
  tables.registry.find? fun entry => entry.identity = identity

def later (best : Option RegistryEntry) (entry : RegistryEntry) : Option RegistryEntry :=
  match best with
  | none => some entry
  | some held => if held.lastSeen < entry.lastSeen then some entry else some held

def previous (tables : Tables) (identity : Identity) : Option RegistryEntry :=
  (tables.registry.filter fun entry =>
    entry.tenantID = identity.tenantID ∧ entry.source = identity.source ∧
      entry.eventType = identity.eventType ∧
      entry.declaredVersion ≠ identity.declaredVersion).foldl later none

def insertEntry (tables : Tables) (entry : RegistryEntry) : Tables :=
  { tables with registry := tables.registry ++ [entry] }

def updateEntry (tables : Tables) (entry : RegistryEntry) : Tables :=
  { tables with
    registry := tables.registry.map fun held =>
      if held.identity = entry.identity then { entry with firstSeen := held.firstSeen } else held }

def upsertDrift (tables : Tables) (drift : Drift) : Tables :=
  let key : Identity × Bytes :=
    (⟨drift.tenantID, drift.source, drift.eventType, drift.declaredVersion⟩, driftSignature drift)
  let row : Drift :=
    match tables.drifts key with
    | none => { drift with occurrences := 1 }
    | some held =>
      { held with
        lastSeen := drift.lastSeen
        occurrences := held.occurrences + 1
        severity := drift.severity
        message := drift.message }
  { tables with drifts := Function.update tables.drifts key (some row) }

end Tables

structure Call where
  contextTenant : Bytes
  event : Event
  description : Description
  now : Int
  layout : Layout

namespace Call

def tenant (call : Call) : Bytes := Router.Outbox.tenantForEvent call.contextTenant call.event

def key (call : Call) : Bytes × Bytes := (call.tenant, call.event.id)

def identity (call : Call) : Identity :=
  ⟨call.tenant, call.description.source, call.description.eventType,
    call.description.declaredVersion⟩

def Identified (call : Call) : Prop :=
  call.description.source ≠ [] ∧ call.description.eventType ≠ [] ∧
    call.description.declaredVersion ≠ []

instance (call : Call) : Decidable call.Identified := inferInstanceAs (Decidable (_ ∧ _))

end Call

inductive ObserveError
  | eventIDRequired
  | identityRequired
  | noRows
deriving DecidableEq

def Tables.newVersion (tables : Tables) (call : Call) : RegistryEntry × List Drift :=
  let entry := newRegistryEntry call.tenant call.description call.now
  let drifts :=
    (match tables.previous call.identity with
      | none => []
      | some previous => versionDrifts previous entry call.now) ++
    descriptionDrifts call.tenant call.description call.now
  ({ entry with
      health := healthFor entry.health drifts
      fingerprint := fingerprint (entry.fields.map FieldState.field) },
    drifts)

def Tables.record (tables : Tables) (call : Call) : (RegistryEntry × List Drift) × Tables :=
  let tables := { tables with
    observations := Function.update tables.observations call.key (some call.now) }
  match tables.find call.identity with
  | none =>
    let result := tables.newVersion call
    (result, result.2.foldl Tables.upsertDrift (tables.insertEntry result.1))
  | some entry =>
    let result := updateRegistryEntry entry call.description call.now call.layout
    (result, result.2.foldl Tables.upsertDrift (tables.updateEntry result.1))

def Tables.observeSchema (tables : Tables) (call : Call) :
    Except ObserveError (RegistryEntry × List Drift) × Tables :=
  if trimSpace call.event.id = [] then (.error .eventIDRequired, tables)
  else if ¬call.Identified then (.error .identityRequired, tables)
  else
    match tables.observations call.key with
    | some _ =>
      match tables.find call.identity with
      | none => (.error .noRows, tables)
      | some entry => (.ok (entry, []), tables)
    | none =>
      let (result, tables) := tables.record call
      (.ok result, tables)

def Tables.observeAll (tables : Tables) (calls : List Call) : Tables :=
  calls.foldl (fun tables call => (tables.observeSchema call).2) tables

def firstCalls (seen : List (Bytes × Bytes)) : List Call → List Call
  | [] => []
  | call :: rest =>
    if call.key ∈ seen then firstCalls seen rest
    else call :: firstCalls (call.key :: seen) rest

namespace Tables

variable {tables : Tables}

theorem observations_foldl_upsertDrift (drifts : List Drift) (tables : Tables) :
    (drifts.foldl upsertDrift tables).observations = tables.observations := by
  induction drifts generalizing tables with
  | nil => rfl
  | cons drift rest induction =>
    rw [List.foldl_cons, induction]
    rfl

theorem observations_record (call : Call) : (tables.record call).2.observations =
      Function.update tables.observations call.key (some call.now) := by
  rw [record]
  dsimp only
  split
  · rw [observations_foldl_upsertDrift]
    rfl
  · rw [observations_foldl_upsertDrift]
    rfl

theorem observeSchema_recorded {call : Call} (named : trimSpace call.event.id ≠ [])
    (identified : call.Identified) (recorded : (tables.observations call.key).isSome = true) :
    ((tables.observeSchema call).1.isOk = true ↔ (tables.find call.identity).isSome = true) ∧
      (tables.observeSchema call).2 = tables := by
  rcases Option.isSome_iff_exists.mp recorded with ⟨observedAt, isRecorded⟩
  rw [observeSchema, if_neg named, if_neg (not_not.mpr identified), isRecorded]
  dsimp only
  cases tables.find call.identity <;> simp [Except.isOk, Except.toBool]

theorem observeSchema_unnamed {call : Call} (unnamed : trimSpace call.event.id = []) :
    (tables.observeSchema call).2 = tables := by
  rw [observeSchema, if_pos unnamed]

theorem recorded_observeSchema {call : Call} (identified : call.Identified) (key : Bytes × Bytes) :
    ((tables.observeSchema call).2.observations key).isSome = true ↔
      (tables.observations key).isSome = true ∨ key = call.key ∧ trimSpace call.event.id ≠ [] := by
  by_cases named : trimSpace call.event.id = []
  · rw [observeSchema_unnamed named]
    simp [named]
  · by_cases recorded : (tables.observations call.key).isSome = true
    · rw [(observeSchema_recorded named identified recorded).2]
      constructor
      · exact .inl
      · rintro (held | ⟨rfl, _⟩)
        · exact held
        · exact recorded
    · rw [Option.not_isSome_iff_eq_none] at recorded
      rw [observeSchema, if_neg named, if_neg (not_not.mpr identified), recorded]
      dsimp only
      rw [observations_record]
      by_cases same : key = call.key
      · simp [same, named]
      · simp [same]

theorem named_observeAll {calls : List Call} (identified : ∀ call ∈ calls, call.Identified)
    (named : ∀ key, (tables.observations key).isSome = true → trimSpace key.2 ≠ [])
    (key : Bytes × Bytes) (recorded : ((tables.observeAll calls).observations key).isSome = true) :
    trimSpace key.2 ≠ [] := by
  induction calls generalizing tables with
  | nil => exact named key recorded
  | cons call rest induction =>
    rw [List.forall_mem_cons] at identified
    refine induction identified.2 (fun other isRecorded => ?_) recorded
    rcases (recorded_observeSchema identified.1 other).mp isRecorded with held | ⟨rfl, isNamed⟩
    · exact named other held
    · exact isNamed

theorem observeAll_firstCalls {calls : List Call} (identified : ∀ call ∈ calls, call.Identified)
    (seen : List (Bytes × Bytes))
    (settled : ∀ key ∈ seen, (tables.observations key).isSome = true ∨ trimSpace key.2 = []) :
    tables.observeAll calls = tables.observeAll (firstCalls seen calls) := by
  induction calls generalizing tables seen with
  | nil => rfl
  | cons call rest induction =>
    rw [List.forall_mem_cons] at identified
    change (tables.observeSchema call).2.observeAll rest = _
    by_cases repeated : call.key ∈ seen
    · rw [firstCalls, if_pos repeated]
      have unchanged : (tables.observeSchema call).2 = tables := by
        by_cases unnamed : trimSpace call.event.id = []
        · exact observeSchema_unnamed unnamed
        · rcases settled call.key repeated with recorded | blank
          · exact (observeSchema_recorded unnamed identified.1 recorded).2
          · exact absurd blank unnamed
      rw [unchanged]
      exact induction identified.2 seen settled
    · rw [firstCalls, if_neg repeated]
      change _ = (tables.observeSchema call).2.observeAll (firstCalls (call.key :: seen) rest)
      refine induction identified.2 (call.key :: seen) (fun key member => ?_)
      rw [recorded_observeSchema identified.1]
      rcases List.mem_cons.mp member with rfl | earlier
      · by_cases unnamed : trimSpace call.event.id = []
        · exact .inr unnamed
        · exact .inl (.inr ⟨rfl, unnamed⟩)
      · exact (settled key earlier).imp .inl id

end Tables

/-- After any calls, a call for a recorded event leaves every table as it is, so the tables are
those of the first call for each event. It succeeds exactly where its source, type and version
have an entry, which need not be those of the recorded event. -/
theorem observeSchema_repeated (calls : List Call) (identified : ∀ call ∈ calls, call.Identified) :
    (∀ call : Call, call.Identified →
      ((Tables.empty.observeAll calls).observations call.key).isSome = true →
      (((Tables.empty.observeAll calls).observeSchema call).1.isOk = true ↔
        ((Tables.empty.observeAll calls).find call.identity).isSome = true) ∧
      ((Tables.empty.observeAll calls).observeSchema call).2 = Tables.empty.observeAll calls) ∧
    Tables.empty.observeAll calls = Tables.empty.observeAll (firstCalls [] calls) := by
  refine ⟨fun call isIdentified recorded => ?_, ?_⟩
  · have named := Tables.named_observeAll identified
      (fun key held => by simp [Tables.empty] at held) call.key recorded
    exact Tables.observeSchema_recorded named isIdentified recorded
  · exact Tables.observeAll_firstCalls identified [] (fun key member => by simp at member)

namespace Sample

/-- The event with ID `1`, in a version of its schema, with a description of no field. -/
def versionCall (version : Bytes) : Call where
  contextTenant := ascii "tenant"
  event := { Event.zero with
    id := ascii "1", source := ascii "source", type := ascii "type", schemaVersion := version }
  description :=
    ⟨ascii "tenant", ascii "source", ascii "type", version, [], [], [], [], false⟩
  now := 0
  layout := layout 0

end Sample

/-- The same version a second time finds its entry. -/
theorem observeSchema_repeated_version :
    ((Tables.empty.observeAll [Sample.versionCall (ascii "1")]).observeSchema
      (Sample.versionCall (ascii "1"))).1.isOk = true :=
  ((observeSchema_repeated [Sample.versionCall (ascii "1")] (by decide +kernel)).1
    (Sample.versionCall (ascii "1")) (by decide +kernel) (by decide +kernel)).1.mpr
      (by decide +kernel)

/-- The same event under another version fails: it was observed, but not in this version. -/
theorem observeSchema_other_version_fails :
    (Sample.versionCall (ascii "2")).Identified ∧
    ((Tables.empty.observeAll [Sample.versionCall (ascii "1")]).observations
      (Sample.versionCall (ascii "2")).key).isSome = true ∧
    ((Tables.empty.observeAll [Sample.versionCall (ascii "1")]).observeSchema
      (Sample.versionCall (ascii "2"))).1 = .error .noRows := by
  decide +kernel

end TelemetryForge.Schema
