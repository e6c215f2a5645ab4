import TelemetryForge.Schema.Describe

/-! # Registry entries

`newRegistryEntry` and `updateRegistryEntry`. -/

namespace TelemetryForge.Schema

open List

open Slices (Heap Slice Pointer)

structure FieldState where
  field : Field
  firstSeen : Int
  lastSeen : Int
  seenCount : Int
  conflictCount : Int
  required : Bool
deriving DecidableEq

abbrev FieldState.path (state : FieldState) : Bytes := state.field.path

inductive Health
  | healthy
  | warning
  | breaking
deriving DecidableEq

structure RegistryEntry where
  tenantID : Bytes
  source : Bytes
  eventType : Bytes
  declaredVersion : Bytes
  schemaURL : Bytes
  fingerprint : Bytes
  health : Health
  firstSeen : Int
  lastSeen : Int
  observationCount : Int
  fieldCount : Int
  requiredFieldCount : Int
  fields : List FieldState
  semantic : List SemanticFinding
deriving DecidableEq

structure Drift where
  tenantID : Bytes
  source : Bytes
  eventType : Bytes
  declaredVersion : Bytes
  severity : Severity
  kind : Bytes
  path : Bytes
  previousType : Option ValueType
  currentType : Option ValueType
  message : Bytes
  firstSeen : Int
  lastSeen : Int
  occurrences : Int
deriving DecidableEq

def FieldState.fresh (observedAt : Int) (field : Field) : FieldState :=
  ⟨field, observedAt, observedAt, 1, 0, false⟩

def newRegistryEntry (tenantID : Bytes) (description : Description) (observedAt : Int) :
    RegistryEntry where
  tenantID := tenantID
  source := description.source
  eventType := description.eventType
  declaredVersion := description.declaredVersion
  schemaURL := description.schemaURL
  fingerprint := description.fingerprint
  health := if description.semantic ≠ [] ∨ description.truncated = true then .warning else .healthy
  firstSeen := observedAt
  lastSeen := observedAt
  observationCount := 1
  fieldCount := description.fields.length
  requiredFieldCount := 0
  fields := description.fields.map (.fresh observedAt)
  semantic := description.semantic

def RegistryEntry.drift (entry : RegistryEntry) (observedAt : Int) (severity : Severity)
    (kind : String) (path : Bytes) (previousType currentType : Option ValueType)
    (message : Bytes) : Drift :=
  ⟨entry.tenantID, entry.source, entry.eventType, entry.declaredVersion, severity, ascii kind, path,
    previousType, currentType, message, observedAt, observedAt, 1⟩

def hasDriftKind (drifts : List Drift) (kind : Bytes) : Bool :=
  drifts.any fun drift => drift.kind = kind

def Description.drift (description : Description) (tenantID : Bytes) (observedAt : Int)
    (severity : Severity) (kind path message : Bytes) : Drift :=
  ⟨tenantID, description.source, description.eventType, description.declaredVersion, severity, kind,
    path, none, none, message, observedAt, observedAt, 1⟩

def semanticDrift (tenantID : Bytes) (description : Description) (observedAt : Int)
    (finding : SemanticFinding) : Drift :=
  let message :=
    if finding.replacement ≠ [] then finding.message ++ ascii "; prefer " ++ finding.replacement
    else finding.message
  description.drift tenantID observedAt finding.severity finding.kind finding.path message

def truncatedDrift (tenantID : Bytes) (description : Description) (observedAt : Int) : Drift :=
  description.drift tenantID observedAt .warning (ascii "schema_truncated") []
    (ascii "event shape exceeded Schema Intelligence depth/field bounds; registry view was truncated")

def healthFor (health : Health) : List Drift → Health
  | [] => health
  | drift :: rest =>
    match drift.severity with
    | .breaking => .breaking
    | .warning => healthFor (if health = .healthy then .warning else health) rest
    | .info => healthFor health rest

def mergeSemanticFindings (existing current : List SemanticFinding) : List SemanticFinding :=
  let key (finding : SemanticFinding) := finding.path ++ ascii "|" ++ finding.kind
  let merged := current.foldl (fun result finding =>
      if key finding ∈ result.map key then result else result ++ [finding]) existing
  merged.insertionSort fun left right => left.path ≤ right.path

structure Layout where
  spare : Nat
  grow : Nat → Nat

def stateIndex (fields : List FieldState) (path : Bytes) : Option Nat :=
  (fields.zipIdx.reverse.find? fun (state, _) => state.path = path).map Prod.snd

structure Update where
  heap : Heap FieldState
  slice : Slice
  drifts : List Drift

namespace Update

def initial (entry : RegistryEntry) (layout : Layout) : Update :=
  ⟨.single entry.fields layout.spare, ⟨0, entry.fields.length⟩, []⟩

def fields (update : Update) : List FieldState := update.heap.elements update.slice

def limitDrift (entry : RegistryEntry) (observedAt : Int) : Drift :=
  entry.drift observedAt .warning "registry_field_limit" [] none none
    (ascii "schema registry reached the 2048-field safety limit; additional new paths are not accumulated")

def addedDrift (entry : RegistryEntry) (observedAt : Int) (field : Field) : Drift :=
  entry.drift observedAt .info "field_added" field.path none (some field.type)
    (ascii "new field " ++ field.path ++
      ascii " observed without a declared schema version change")

def typeDrift (entry : RegistryEntry) (observedAt : Int) (field : Field) (state : FieldState) :
    Drift :=
  entry.drift observedAt .breaking "type_changed" field.path (some state.field.type)
    (some field.type)
    (ascii "field " ++ field.path ++ ascii " changed type from " ++ state.field.type.text ++
      ascii " to " ++ field.type.text ++ ascii " without a declared schema version change")

end Update

def FieldState.observe (state : FieldState) (observedAt : Int) (field : Field) : FieldState :=
  { state with
    seenCount := state.seenCount + 1
    lastSeen := observedAt
    conflictCount :=
      if state.field.type = field.type then state.conflictCount else state.conflictCount + 1 }

def Update.step (entry : RegistryEntry) (observedAt : Int) (layout : Layout) (update : Update)
    (field : Field) : Update :=
  match stateIndex entry.fields field.path with
  | none =>
    if maxRegistryFields ≤ update.slice.length then
      if hasDriftKind update.drifts (ascii "registry_field_limit") then update
      else { update with drifts := update.drifts ++ [limitDrift entry observedAt] }
    else
      let (heap, slice) := update.heap.append layout.grow update.slice (.fresh observedAt field)
      ⟨heap, slice, update.drifts ++ [addedDrift entry observedAt field]⟩
  | some index =>
    match update.heap.read ⟨0, index⟩ with
    | none => update
    | some state =>
      { update with
        heap := update.heap.modify ⟨0, index⟩ fun state => state.observe observedAt field
        drifts := update.drifts ++
          if state.field.type = field.type then [] else [typeDrift entry observedAt field state] }

def observeFields (entry : RegistryEntry) (description : Description) (observedAt : Int)
    (layout : Layout) : Update :=
  description.fields.foldl (Update.step entry observedAt layout) (.initial entry layout)

def requiredSampleFloor : Int := 20

def requiredPercent : Int := 95

def isRequired (state : FieldState) (observations : Int) : Bool :=
  requiredSampleFloor ≤ observations && observations * requiredPercent ≤ state.seenCount * 100

def missingDrifts (entry : RegistryEntry) (description : Description) (observedAt : Int)
    (fields : List FieldState) : List Drift :=
  (fields.filter fun state =>
    !(description.fields.any fun field => field.path = state.path) &&
      isRequired state entry.observationCount).map fun state =>
    entry.drift observedAt .breaking "required_field_missing" state.path (some state.field.type) none
      (ascii "field " ++ state.path ++
        ascii " was present in at least 95% of established observations and is now missing")

def schemaURLDrifts (entry : RegistryEntry) (description : Description) (observedAt : Int) :
    List Drift :=
  if description.schemaURL ≠ [] ∧ entry.schemaURL ≠ [] ∧
      entry.schemaURL ≠ description.schemaURL then
    [entry.drift observedAt .warning "schema_url_changed" [] none none
      (ascii "OpenTelemetry schema_url changed from " ++ entry.schemaURL ++ ascii " to " ++
        description.schemaURL ++ ascii " without an application schema_version change")]
  else []

def descriptionDrifts (tenantID : Bytes) (description : Description) (observedAt : Int) :
    List Drift :=
  description.semantic.map (semanticDrift tenantID description observedAt) ++
    if description.truncated then [truncatedDrift tenantID description observedAt] else []

def updateRegistryEntry (entry : RegistryEntry) (description : Description) (observedAt : Int)
    (layout : Layout) : RegistryEntry × List Drift :=
  let update := observeFields entry description observedAt layout
  let drifts := update.drifts ++ missingDrifts entry description observedAt update.fields ++
    schemaURLDrifts entry description observedAt ++
    descriptionDrifts entry.tenantID description observedAt
  let observations := entry.observationCount + 1
  let fields := (update.fields.map fun state =>
    { state with required := isRequired state observations }).insertionSort
      fun left right => left.path ≤ right.path
  ({ entry with
      schemaURL := if description.schemaURL ≠ [] then description.schemaURL else entry.schemaURL
      observationCount := observations
      lastSeen := observedAt
      semantic := mergeSemanticFindings entry.semantic description.semantic
      requiredFieldCount := (fields.filter FieldState.required).length
      fields := fields
      fieldCount := fields.length
      fingerprint := fingerprint (fields.map FieldState.field)
      health := healthFor entry.health drifts },
    drifts)

theorem stateIndex_eq_some {fields : List FieldState} {path : Bytes} {index : Nat}
    (found : stateIndex fields path = some index) :
    ∃ state, fields[index]? = some state ∧ state.path = path := by
  rcases Option.map_eq_some_iff.mp found with ⟨⟨state, position⟩, isFound, rfl⟩
  have member := mem_of_find?_eq_some isFound
  have same := find?_some isFound
  rw [mem_reverse] at member
  exact ⟨state, mk_mem_zipIdx_iff_getElem?.mp member, of_decide_eq_true same⟩

theorem stateIndex_eq_none_iff (fields : List FieldState) (path : Bytes) :
    stateIndex fields path = none ↔ path ∉ fields.map FieldState.path := by
  rw [stateIndex, Option.map_eq_none_iff, find?_eq_none]
  simp only [mem_reverse, decide_eq_true_eq, Prod.forall, mem_map, not_exists, not_and]
  constructor
  · intro none state member
    rcases getElem?_of_mem member with ⟨index, found⟩
    exact none state index (mk_mem_zipIdx_iff_getElem?.mpr found)
  · intro none state index member
    exact none state (mem_of_getElem? (mk_mem_zipIdx_iff_getElem?.mp member))

namespace Update

/-- The slice holds these values. It still lies in the array of the pointers, with some room,
or has left it. -/
def Tracks (update : Update) (values : List FieldState) : Option Nat → Prop
  | some spare => update.heap.Holds update.slice values spare ∧ update.slice.array = 0
  | none => (∃ spare, update.heap.Holds update.slice values spare) ∧ update.slice.array ≠ 0

variable {update : Update} {values : List FieldState}

variable {room : Option Nat}

theorem Tracks.fields (tracks : update.Tracks values room) :
    update.fields = values := by
  cases room with
  | some spare => exact tracks.1.elements
  | none =>
    rcases tracks.1 with ⟨spare, holds⟩
    exact holds.elements

theorem Tracks.length (tracks : update.Tracks values room) :
    update.slice.length = values.length := by
  cases room with
  | some spare => exact tracks.1.1
  | none =>
    rcases tracks.1 with ⟨spare, holds⟩
    exact holds.1

def roomAfter : Option Nat → Option Nat
  | some (spare + 1) => some spare
  | some 0 | none => none

theorem Tracks.append (tracks : update.Tracks values room) (grow : Nat → Nat)
    (value : FieldState) (drifts : List Drift) :
    Tracks
      ⟨(update.heap.append grow update.slice value).1,
        (update.heap.append grow update.slice value).2, drifts⟩
      (values ++ [value]) (roomAfter room) := by
  match room, tracks with
  | some (spare + 1), ⟨holds, attached⟩ =>
    rcases holds.append_inPlace grow value with ⟨holds', sameArray⟩
    exact ⟨holds', sameArray.trans attached⟩
  | some 0, ⟨holds, attached⟩ =>
    rcases holds.append_moves grow value with ⟨holds', newArray⟩
    refine ⟨holds', ?_⟩
    have inside := holds.lt_length
    dsimp only
    omega
  | none, ⟨⟨spare, holds⟩, detached⟩ =>
    cases spare with
    | succ spare =>
      rcases holds.append_inPlace grow value with ⟨holds', sameArray⟩
      exact ⟨⟨spare, holds'⟩, sameArray.trans_ne detached⟩
    | zero =>
      rcases holds.append_moves grow value with ⟨holds', newArray⟩
      refine ⟨holds', ?_⟩
      have inside := holds.lt_length
      dsimp only
      omega

theorem Tracks.modify (tracks : update.Tracks values room) (index : Nat)
    (change : FieldState → FieldState) (drifts : List Drift) :
    Tracks ⟨update.heap.modify ⟨0, index⟩ change, update.slice, drifts⟩
      (if room.isSome then values.modify index change else values) room := by
  cases room with
  | some spare =>
    rcases tracks with ⟨holds, attached⟩
    have modified := holds.modify index change
    rw [attached] at modified
    exact ⟨modified, attached⟩
  | none =>
    rcases tracks with ⟨⟨spare, holds⟩, detached⟩
    exact ⟨⟨spare, holds.modify_other (fun same => detached same.symm) change⟩, detached⟩

end Update

def observeKnown (observedAt : Int) (values : List FieldState) (field : Field) : List FieldState :=
  values.map fun state => if state.path = field.path then state.observe observedAt field else state

def knownFields (registered : List Bytes) (described : List Field) : List Field :=
  described.filter fun field => field.path ∈ registered

def newFields (registered : List Bytes) (described : List Field) : List Field :=
  described.filter fun field => field.path ∉ registered

def creditedFields (registered : List Bytes) : (left : Nat) → Option Nat → List Field → List Field
  | _, _, [] => []
  | left, room, field :: rest =>
    if field.path ∈ registered then
      if room.isSome then field :: creditedFields registered left room rest
      else creditedFields registered left room rest
    else
      match left with
      | 0 => creditedFields registered 0 room rest
      | left + 1 => creditedFields registered left (Update.roomAfter room) rest

theorem observeKnown_paths (observedAt : Int) (values : List FieldState) (field : Field) :
    (observeKnown observedAt values field).map FieldState.path = values.map FieldState.path := by
  rw [observeKnown, map_map]
  refine map_congr_left fun state _ => ?_
  dsimp only [Function.comp_apply]
  split_ifs <;> rfl

theorem modify_eq_observeKnown {registered values : List FieldState}
    (distinct : (registered.map FieldState.path).Nodup)
    (paths : values.map FieldState.path = registered.map FieldState.path) {field : Field}
    {index : Nat} (found : stateIndex registered field.path = some index) (observedAt : Int) :
    values.modify index (fun state => state.observe observedAt field) =
      observeKnown observedAt values field := by
  rcases stateIndex_eq_some found with ⟨known, isKnown, samePath⟩
  have pathAt (position : Nat) : (values[position]?).map FieldState.path =
      (registered[position]?).map FieldState.path := by
    rw [← List.getElem?_map, paths, List.getElem?_map]
  apply List.ext_getElem?
  intro position
  rw [List.getElem?_modify, observeKnown, List.getElem?_map]
  cases held : values[position]? with
  | none => rfl
  | some state =>
    have samePosition : index = position ↔ state.path = field.path := by
      have here := pathAt position
      rw [held, Option.map_some] at here
      rcases Option.map_eq_some_iff.mp here.symm with ⟨other, isOther, otherPath⟩
      constructor
      · rintro rfl
        rw [isKnown] at isOther
        cases isOther
        rw [← otherPath, samePath]
      · intro same
        rcases List.getElem?_eq_some_iff.mp isKnown with ⟨inside, atIndex⟩
        rcases List.getElem?_eq_some_iff.mp isOther with ⟨inside', atPosition⟩
        have equal : (registered.map FieldState.path).get ⟨index, by simpa⟩ =
            (registered.map FieldState.path).get ⟨position, by simpa⟩ := by
          simp [atIndex, atPosition, samePath, otherPath, same]
        exact Fin.mk.inj (List.nodup_iff_injective_get.mp distinct equal)
    simp only [Option.map_some, Option.map_eq_map, samePosition]

theorem foldl_observeKnown (observedAt : Int) {credited : List Field}
    (distinct : (credited.map Field.path).Nodup) (values : List FieldState) :
    credited.foldl (observeKnown observedAt) values = values.map fun state =>
        match credited.find? fun field => field.path = state.path with
        | some field => state.observe observedAt field
        | none => state := by
  induction credited generalizing values with
  | nil => simp
  | cons field rest induction =>
    rw [map_cons, nodup_cons] at distinct
    rw [foldl_cons, induction distinct.2, observeKnown, map_map]
    refine map_congr_left fun state _ => ?_
    dsimp only [Function.comp_apply]
    by_cases same : field.path = state.path
    · have absent : (rest.find? fun other => decide (other.path = state.path)) = none := by
        rw [find?_eq_none]
        intro other member
        rw [decide_eq_true_eq, ← same]
        exact fun equal => distinct.1 (equal ▸ mem_map_of_mem member)
      rw [if_pos same.symm, find?_cons_of_pos (by simpa using same)]
      have samePath : (state.observe observedAt field).path = state.path := rfl
      rw [samePath, absent]
    · rw [if_neg (Ne.symm same), find?_cons_of_neg (by simpa using same)]

section Loop

variable {entry : RegistryEntry} (observedAt : Int) (layout : Layout)

theorem Update.step_new {update : Update} {values : List FieldState} {room : Option Nat}
    (tracks : update.Tracks values room) {field : Field}
    (unknown : field.path ∉ entry.fields.map FieldState.path)
    (below : values.length < maxRegistryFields) :
    (update.step entry observedAt layout field).Tracks (values ++ [.fresh observedAt field])
      (roomAfter room) := by
  rw [← stateIndex_eq_none_iff] at unknown
  have room' : ¬maxRegistryFields ≤ update.slice.length := by
    rw [tracks.length]
    exact not_le.mpr below
  simp only [step, unknown, if_neg room']
  exact tracks.append layout.grow _ _

theorem Update.step_full {update : Update} {values : List FieldState} {room : Option Nat}
    (tracks : update.Tracks values room) {field : Field}
    (unknown : field.path ∉ entry.fields.map FieldState.path)
    (full : maxRegistryFields ≤ values.length) :
    (update.step entry observedAt layout field).Tracks values room := by
  rw [← stateIndex_eq_none_iff] at unknown
  have noRoom : maxRegistryFields ≤ update.slice.length := by
    rwa [tracks.length]
  have ignored (drifts : List Drift) : Tracks { update with drifts := drifts } values room := by
    cases room with
    | some spare => exact tracks
    | none => exact tracks
  simp only [step, unknown, if_pos noRoom]
  split_ifs
  · exact tracks
  · exact ignored _

theorem Update.step_known {update : Update} {known added : List FieldState} {room : Option Nat}
    (distinct : (entry.fields.map FieldState.path).Nodup)
    (paths : known.map FieldState.path = entry.fields.map FieldState.path)
    (tracks : update.Tracks (known ++ added) room) {field : Field}
    (registered : field.path ∈ entry.fields.map FieldState.path) :
    (update.step entry observedAt layout field).Tracks
      ((if room.isSome then observeKnown observedAt known field else known) ++ added) room := by
  cases found : stateIndex entry.fields field.path with
  | none => exact absurd registered ((stateIndex_eq_none_iff _ _).mp found)
  | some index =>
    rcases stateIndex_eq_some found with ⟨state, isState, _⟩
    have inside : index < known.length := by
      have sameLength := congrArg List.length paths
      rw [List.length_map, List.length_map] at sameLength
      rw [sameLength]
      exact (List.getElem?_eq_some_iff.mp isState).1
    have changed := modify_eq_observeKnown distinct paths found observedAt
    rw [step, found]
    dsimp only
    cases isRead : update.heap.read ⟨0, index⟩ with
    | none =>
      -- Only pointers into an array that the slice has left can lead nowhere.
      cases room with
      | none => exact tracks
      | some spare =>
        rcases tracks with ⟨holds, attached⟩
        have present := holds.read index
        rw [attached, isRead, List.getElem?_append_left inside] at present
        rw [List.getElem?_eq_getElem inside] at present
        cases present
    | some held =>
      have modified := tracks.modify index (fun state => state.observe observedAt field)
        (update.drifts ++
          if held.field.type = field.type then [] else [typeDrift entry observedAt field held])
      rw [Slices.modify_append_left inside, changed] at modified
      cases room with
      | none => exact modified
      | some spare => exact modified

theorem foldl_step_fields (distinct : (entry.fields.map FieldState.path).Nodup)
    (described : List Field) {update : Update} {known added : List FieldState} {room : Option Nat}
    {left : Nat} (paths : known.map FieldState.path = entry.fields.map FieldState.path)
    (tracks : update.Tracks (known ++ added) room)
    (capacity : left = maxRegistryFields - (known ++ added).length) :
    (described.foldl (Update.step entry observedAt layout) update).fields =
      (creditedFields (entry.fields.map FieldState.path) left room described).foldl
          (observeKnown observedAt) known ++
        added ++ ((newFields (entry.fields.map FieldState.path) described).take left).map
          (.fresh observedAt) := by
  induction described generalizing update known added room left with
  | nil => simpa [creditedFields, newFields] using tracks.fields
  | cons field rest induction =>
    rw [foldl_cons, creditedFields.eq_def]
    dsimp only
    by_cases registered : field.path ∈ entry.fields.map FieldState.path
    · have others : newFields (entry.fields.map FieldState.path) (field :: rest) =
          newFields (entry.fields.map FieldState.path) rest := by
        rw [newFields, filter_cons_of_neg (by simpa using registered)]
        rfl
      rw [others, if_pos registered]
      have stepped := Update.step_known observedAt layout distinct paths tracks registered
      cases room with
      | none => exact induction paths stepped capacity
      | some spare =>
        refine induction ?_ stepped ?_
        · rw [← paths]
          exact observeKnown_paths observedAt known field
        · rw [capacity, length_append, length_append, observeKnown, length_map]
    · have others : newFields (entry.fields.map FieldState.path) (field :: rest) =
          field :: newFields (entry.fields.map FieldState.path) rest := by
        rw [newFields, filter_cons_of_pos (by simpa using registered)]
        rfl
      rw [others, if_neg registered]
      cases left with
      | zero =>
        have stepped := Update.step_full observedAt layout tracks registered (by omega)
        rw [induction paths stepped capacity]
        simp
      | succ left =>
        have stepped := Update.step_new observedAt layout tracks registered (by omega)
        rw [append_assoc] at stepped
        have fewer : left = maxRegistryFields -
            (known ++ (added ++ [FieldState.fresh observedAt field])).length := by
          rw [← append_assoc, length_append, length_singleton]
          omega
        rw [induction paths stepped fewer]
        simp

end Loop

end TelemetryForge.Schema
