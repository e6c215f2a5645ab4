import TelemetryForge.Json.Compact
import TelemetryForge.Json.Values
import TelemetryForge.Foundation.Memory

/-! # Telemetry events

The envelope `domain.Event`, its validation and its JSON form. The payload is kept
as the bytes it arrived with; only writing the event compacts it. -/

namespace TelemetryForge

open Json

structure Event where
  id : Bytes
  tenantID : Bytes
  source : Bytes
  type : Bytes
  timestamp : Time
  tags : SortedMap Bytes Bytes
  payload : Bytes
  value : Option UInt64
  unit : Bytes
  schemaVersion : Bytes
  schemaURL : Bytes
  correlationID : Bytes
deriving DecidableEq

namespace Event

def zero : Event :=
  ⟨[], [], [], [], .zero, .empty, [], none, [], [], [], []⟩

def validate (event : Event) : Except String Unit :=
  if trimSpace event.source = [] then .error "source is required"
  else if trimSpace event.type = [] then .error "type is required"
  else if event.timestamp.isZero then .error "timestamp is required"
  else if trimSpace event.schemaVersion = [] then .error "schema_version is required"
  else .ok ()

theorem validate_ok_iff (event : Event) : event.validate = .ok () ↔
    trimSpace event.source ≠ [] ∧ trimSpace event.type ≠ [] ∧
      event.timestamp.isZero = false ∧ trimSpace event.schemaVersion ≠ [] := by
  unfold validate
  split_ifs <;> simp_all

inductive Text
  | id | tenantID | source | type | unit | schemaVersion | schemaURL | correlationID
deriving DecidableEq

def text (event : Event) : Text → Bytes
  | .id => event.id
  | .tenantID => event.tenantID
  | .source => event.source
  | .type => event.type
  | .unit => event.unit
  | .schemaVersion => event.schemaVersion
  | .schemaURL => event.schemaURL
  | .correlationID => event.correlationID

def withText (event : Event) (value : Bytes) : Text → Event
  | .id => { event with id := value }
  | .tenantID => { event with tenantID := value }
  | .source => { event with source := value }
  | .type => { event with type := value }
  | .unit => { event with unit := value }
  | .schemaVersion => { event with schemaVersion := value }
  | .schemaURL => { event with schemaURL := value }
  | .correlationID => { event with correlationID := value }

inductive Field
  | text (field : Text)
  | timestamp
  | tags
  | payload
  | value
deriving DecidableEq

instance : FieldNames Field where
  all := [.text .id, .text .tenantID, .text .source, .text .type, .timestamp, .tags, .payload,
    .value, .text .unit, .text .schemaVersion, .text .schemaURL, .text .correlationID]
  name
    | .text .id => ascii "id"
    | .text .tenantID => ascii "tenant_id"
    | .text .source => ascii "source"
    | .text .type => ascii "type"
    | .timestamp => ascii "timestamp"
    | .tags => ascii "tags"
    | .payload => ascii "payload"
    | .value => ascii "value"
    | .text .unit => ascii "unit"
    | .text .schemaVersion => ascii "schema_version"
    | .text .schemaURL => ascii "schema_url"
    | .text .correlationID => ascii "correlation_id"
  selects := by
    rintro (field | _ | _ | _ | _)
    · cases field <;> decide +kernel
    all_goals decide +kernel
  literal := by
    rintro (field | _ | _ | _ | _)
    · cases field <;> decide +kernel
    all_goals decide +kernel

variable [FloatText]

def payloadTokens (payload : Bytes) : Option (List Token) :=
  if payload = [] then some [] else compact payload

def valueTokens : Option UInt64 → Option (List Token)
  | none => some []
  | some bits => floatTokens bits

def textMember (event : Event) (field : Text) : List (Field × List Token) :=
  [(.text field, stringTokens (event.text field))]

def optionalText (event : Event) (field : Text) : List (Field × List Token) :=
  optionalField (event.text field != []) (.text field) (stringTokens (event.text field))

def members (event : Event) (timestamp payload value : List Token) : List (Field × List Token) :=
  List.flatten [
    event.optionalText .id,
    event.optionalText .tenantID,
    event.textMember .source,
    event.textMember .type,
    [(.timestamp, timestamp)],
    optionalField (event.tags != .empty) .tags (mapTokens stringTokens event.tags),
    optionalField (event.payload != []) .payload payload,
    optionalField event.value.isSome .value value,
    event.optionalText .unit,
    event.textMember .schemaVersion,
    event.optionalText .schemaURL,
    event.optionalText .correlationID]

def fields (event : Event) : Option (List (Field × List Token)) := do
  let timestamp ← timeTokens event.timestamp
  let payload ← payloadTokens event.payload
  let value ← valueTokens event.value
  return event.members timestamp payload value

def tokens (event : Event) : Option (List Token) := event.fields.map structTokens

def marshal (event : Event) : Option Bytes := event.tokens.map render

def setField (event : Event) (field : Field) (value : List Lexeme) : Option Event :=
  let tokens := value.map Lexeme.token
  match field with
  | .text field =>
    (decodeString (event.text field) tokens).map fun text => event.withText text field
  | .timestamp =>
    (decodeTime event.timestamp tokens).map fun time => { event with timestamp := time }
  | .tags =>
    (decodeMap (decodeString []) event.tags tokens).map fun tags => { event with tags := tags }
  | .payload => some { event with payload := valueText value }
  | .value => (decodeFloat tokens).map fun bits => { event with value := bits }

def decode (strict : Bool) (event : Event) (value : List Lexeme) : Option Event :=
  decodeStruct Lexeme.token setField strict event value

end Event

end TelemetryForge

/-! ## Events as they are passed

`domain.Event` is copied when it is passed, but its tags stay behind a reference. -/

namespace TelemetryForge

abbrev Tags := SortedMap Bytes Bytes

instance : Inhabited Tags := ⟨.empty⟩

structure EventReference where
  fields : Event
  tags : Reference

namespace EventReference

def view (event : EventReference) (heap : Memory Tags) : Event :=
  { event.fields with tags := heap.read event.tags }

theorem view_eq_of_untouched {before after : Memory Tags} (untouched : before.Untouched after)
    {event : EventReference} (held : before.Holds event.tags) :
    event.view after = event.view before := by
  simp only [view, untouched.read_eq held]

end EventReference

end TelemetryForge

/-! ## Writing and reading events

An event that has been written and read again is `reread`: its strings are valid UTF-8, its
timestamp has an offset in whole minutes and its payload is compact. -/

namespace TelemetryForge.Event

open Json List SortedMap Option

def canonicalPayload (payload : Bytes) : Bytes :=
  ((payloadTokens payload).map render).getD payload

def rereadTags (tags : SortedMap Bytes Bytes) : SortedMap Bytes Bytes :=
  SortedMap.empty.insertAll
    (tags.entries.map fun entry => (Utf8.coerce entry.1, Utf8.coerce entry.2))

def NestsWithin (limit : Nat) (event : Event) : Prop :=
  event.payload ≠ [] → ∀ tokens ∈ payloadTokens event.payload, IsValue limit tokens

instance (limit : Nat) (event : Event) : Decidable (event.NestsWithin limit) :=
  inferInstanceAs (Decidable (_ → _))

def reread (event : Event) : Event where
  id := Utf8.coerce event.id
  tenantID := Utf8.coerce event.tenantID
  source := Utf8.coerce event.source
  type := Utf8.coerce event.type
  timestamp := event.timestamp.reread
  tags := rereadTags event.tags
  payload := canonicalPayload event.payload
  value := event.value
  unit := Utf8.coerce event.unit
  schemaVersion := Utf8.coerce event.schemaVersion
  schemaURL := Utf8.coerce event.schemaURL
  correlationID := Utf8.coerce event.correlationID

theorem text_reread (event : Event) (field : Text) :
    event.reread.text field = Utf8.coerce (event.text field) := by
  cases field <;> rfl

structure Stable (event : Event) : Prop where
  text : ∀ field, Utf8.valid (event.text field) = true
  tags : ∀ entry ∈ event.tags.entries, Utf8.valid entry.1 = true ∧ Utf8.valid entry.2 = true
  timestamp : event.timestamp.Stable

instance (event : Event) : Decidable event.Stable :=
  decidable_of_iff ((∀ field ∈ [Text.id, .tenantID, .source, .type, .unit, .schemaVersion,
      .schemaURL, .correlationID], Utf8.valid (event.text field) = true) ∧
    (∀ entry ∈ event.tags.entries, Utf8.valid entry.1 = true ∧ Utf8.valid entry.2 = true) ∧
    event.timestamp.Stable)
    ⟨fun ⟨text, tags, timestamp⟩ => ⟨fun field => text field (by cases field <;> simp), tags,
      timestamp⟩, fun stable => ⟨fun field _ => stable.text field, stable.tags,
      stable.timestamp⟩⟩

theorem rereadTags_of_valid {tags : SortedMap Bytes Bytes}
    (valid : ∀ entry ∈ tags.entries, Utf8.valid entry.1 = true ∧ Utf8.valid entry.2 = true) :
    rereadTags tags = tags := by
  have unchanged : tags.entries.map (fun entry => (Utf8.coerce entry.1, Utf8.coerce entry.2)) =
      tags.entries := by
    rw [map_congr_left fun entry member => show
      (Utf8.coerce entry.1, Utf8.coerce entry.2) = entry by
        rw [Utf8.coerce_of_valid (valid entry member).1,
          Utf8.coerce_of_valid (valid entry member).2]]
    exact map_id _
  rw [rereadTags, unchanged, insertAll_entries]

theorem rereadTags_valid (tags : SortedMap Bytes Bytes) :
    ∀ entry ∈ (rereadTags tags).entries, Utf8.valid entry.1 = true ∧ Utf8.valid entry.2 = true := by
  apply SortedMap.forall_mem_insertAll
  · simp [SortedMap.empty]
  · intro entry member
    simp only [List.mem_map] at member
    rcases member with ⟨source, _, rfl⟩
    exact ⟨Utf8.valid_coerce _, Utf8.valid_coerce _⟩

theorem valid_of_mapTokens_rereadTags {tags : SortedMap Bytes Bytes}
    (equal : mapTokens stringTokens (rereadTags tags) = mapTokens stringTokens tags) :
    ∀ entry ∈ tags.entries, Utf8.valid entry.1 = true ∧ Utf8.valid entry.2 = true := by
  have entries := mapTokens_entries (written_stringTokens maxNestingDepth) equal
  intro entry member
  have written : (quote entry.1, stringTokens entry.2) ∈
      (rereadTags tags).entries.map fun entry => (quote entry.1, stringTokens entry.2) := by
    rw [entries]
    exact mem_map_of_mem member
  rcases mem_map.mp written with ⟨source, inside, same⟩
  have valid := rereadTags_valid tags source inside
  simp only [Prod.mk.injEq, stringTokens, cons.injEq, Token.string.injEq, and_true] at same
  exact ⟨valid_of_quote_eq valid.1 same.1.symm, valid_of_quote_eq valid.2 same.2.symm⟩

theorem payloadTokens_compacted {payload : Bytes} {tokens : List Token}
    (written : payloadTokens payload = some tokens) (present : payload ≠ []) :
    Compacted tokens := by
  rw [payloadTokens, if_neg present] at written
  exact compact_compacted written

theorem render_ne_nil {tokens : List Token} (compacted : Compacted tokens) :
    render tokens ≠ [] := by
  intro empty
  have whole := compact_render compacted
  rw [empty] at whole
  exact absurd whole (by simp [compact, wholeValue, firstValue, readValue])

theorem payloadTokens_canonical {payload : Bytes} {tokens : List Token}
    (written : payloadTokens payload = some tokens) :
    payloadTokens (canonicalPayload payload) = some tokens ∧
      (canonicalPayload payload = [] ↔ payload = []) := by
  have canonical : canonicalPayload payload = render tokens := by
    simp [canonicalPayload, written]
  rw [canonical]
  by_cases empty : payload = []
  · rw [payloadTokens, if_pos empty, some.injEq] at written
    simp [← written, render, payloadTokens, empty]
  · have compacted := payloadTokens_compacted written empty
    have nonempty := render_ne_nil compacted
    rw [payloadTokens, if_neg nonempty, compact_render compacted]
    simp [empty, nonempty]

private theorem withText_text (event : Event) (field : Text) :
    event.withText (event.text field) field = event := by
  cases field <;> rfl

private theorem fieldTokens_text {event : Event} {field : Text} (present : event.text field ≠ [])
    (timestamp payload value : List Token) :
    fieldTokens (.text field) (event.members timestamp payload value) =
      some (stringTokens (event.text field)) := by
  cases field <;>
    simp [members, optionalText, textMember, present]

private theorem fieldTokens_tags {event : Event} (present : event.tags ≠ .empty)
    (timestamp payload value : List Token) :
    fieldTokens .tags (event.members timestamp payload value) =
      some (mapTokens stringTokens event.tags) := by
  simp [members, optionalText, textMember, present]

private theorem fieldTokens_timestamp (event : Event) (timestamp payload value : List Token) :
    fieldTokens .timestamp (event.members timestamp payload value) = some timestamp := by
  simp [members, optionalText, textMember]

section Written

variable [FloatText]

structure Encoded (event : Event) (timestamp payload value : List Token) : Prop where
  timestamp : timeTokens event.timestamp = some timestamp
  payload : payloadTokens event.payload = some payload
  value : valueTokens event.value = some value

theorem fields_eq_some {event : Event} {fields : List (Field × List Token)} :
    event.fields = some fields ↔ ∃ timestamp payload value,
      event.Encoded timestamp payload value ∧ fields = event.members timestamp payload value := by
  simp only [Event.fields, bind, pure, bind_eq_some_iff, some.injEq]
  constructor
  · rintro ⟨timestamp, time, payload, raw, value, number, rfl⟩
    exact ⟨timestamp, payload, value, ⟨time, raw, number⟩, rfl⟩
  · rintro ⟨timestamp, payload, value, encoded, rfl⟩
    exact ⟨timestamp, encoded.timestamp, payload, encoded.payload, value, encoded.value, rfl⟩

theorem valueTokens_written (limit : Nat) {value : Option UInt64} {tokens : List Token}
    (written : valueTokens value = some tokens) (present : value.isSome = true) :
    Written limit tokens := by
  cases value with
  | none => simp at present
  | some bits => exact floatTokens_written limit written

variable {event : Event} {timestamp payload value : List Token}

theorem members_written {limit : Nat} (encoded : event.Encoded timestamp payload value)
    (nesting : event.payload ≠ [] → IsValue (limit + 1) payload) :
    ∀ entry ∈ event.members timestamp payload value, Written (limit + 1) entry.2 := by
  have tags := written_mapTokens (fun text => written_stringTokens limit text) event.tags
  simp only [members, optionalText, textMember, flatten_cons, flatten_nil,
    forall_mem_append, forall_mem_cons, forall_mem_optionalField]
  simp only [written_stringTokens, timeTokens_written _ encoded.timestamp, tags,
    implies_true, true_and, and_true, not_mem_nil, false_implies]
  refine ⟨fun present => ?_, fun present => valueTokens_written _ encoded.value present⟩
  have nonempty : event.payload ≠ [] := by simpa using present
  exact ⟨(payloadTokens_compacted encoded.payload nonempty).formed, nesting nonempty⟩

theorem encoded_written (encoded : event.Encoded timestamp payload value) :
    ∀ entry ∈ event.members timestamp payload value, Written maxNestingDepth entry.2 :=
  members_written encoded fun present =>
    (payloadTokens_compacted encoded.payload present).value

private abbrev set (event : Event) (entry : Field × List Token) : Option Event :=
  event.setField entry.1 (bare entry.2)

private theorem set_text (event : Event) (field : Text) (text : Bytes) :
    set event (.text field, stringTokens text) =
      some (event.withText (Utf8.coerce text) field) := by
  simp [set, setField]

private theorem foldlM_optionalText (event state : Event) (field : Text)
    (fresh : state.text field = []) : (event.optionalText field).foldlM set state =
      some (state.withText (Utf8.coerce (event.text field)) field) := by
  apply foldlM_optionalField
  · intro _
    exact set_text state field _
  · intro empty
    have nil : event.text field = [] := by simpa using empty
    have unchanged := withText_text state field
    rw [fresh] at unchanged
    simpa [nil, Utf8.coerce] using unchanged

private theorem foldlM_tags (event state : Event) (fresh : state.tags = .empty) :
    (optionalField (event.tags != .empty) .tags (mapTokens stringTokens event.tags)).foldlM
        set state = some { state with tags := rereadTags event.tags } := by
  apply foldlM_optionalField
  · intro _
    have decoded := decodeMap_mapTokens
      (fun entry (_ : entry ∈ event.tags.entries) => decodeString_stringTokens [] entry.2)
      (fun text => written_stringTokens _ text) SortedMap.empty
    simp only [set, setField, bare_tokens, fresh, decoded, Option.map_some]
    rfl
  · intro empty
    have nil : event.tags = .empty := by simpa using empty
    rw [nil, ← fresh]
    cases state
    simp_all [rereadTags, SortedMap.insertAll, SortedMap.empty]

section

variable (encoded : event.Encoded timestamp payload value)
include encoded

private theorem foldlM_payload (state : Event)
    (fresh : state.payload = []) :
    (optionalField (event.payload != []) .payload payload).foldlM set state =
      some { state with payload := canonicalPayload event.payload } := by
  apply foldlM_optionalField
  · intro _
    simp [set, setField, canonicalPayload, encoded.payload]
  · intro empty
    have nil : event.payload = [] := by simpa using empty
    rw [nil, canonicalPayload, payloadTokens, if_pos rfl, ← fresh]
    cases state
    simp_all [render]

private theorem foldlM_value (state : Event)
    (fresh : state.value = none) :
    (optionalField event.value.isSome .value value).foldlM set state =
      some { state with value := event.value } := by
  apply foldlM_optionalField
  · intro present
    rcases isSome_iff_exists.mp present with ⟨bits, some_⟩
    have written := encoded.value
    rw [some_] at written
    simp [set, setField, decodeFloat_floatTokens written, some_]
  · intro absent
    have nil : event.value = none := by simpa using absent
    cases state
    simp_all

private theorem foldlM_members :
    (event.members timestamp payload value).foldlM set zero = some event.reread := by
  have time (state : Event) : set state (.timestamp, timestamp) =
      some { state with timestamp := event.timestamp.reread } := by
    simp [set, setField, decodeTime_timeTokens encoded.timestamp]
  simp only [members, textMember, flatten_cons, flatten_nil, foldlM_append,
    foldlM_cons, foldlM_nil, set_text, time, pure, bind, bind_some]
  rw [foldlM_optionalText _ _ _ rfl, bind_some, foldlM_optionalText _ _ _ rfl, bind_some,
    foldlM_tags _ _ rfl, bind_some, foldlM_payload encoded _ rfl, bind_some,
    foldlM_value encoded _ rfl, bind_some, foldlM_optionalText _ _ _ rfl, bind_some,
    foldlM_optionalText _ _ _ rfl, bind_some, foldlM_optionalText _ _ _ rfl, bind_some]
  rfl

end

theorem decode_tokens {tokens : List Token} (written : event.tokens = some tokens)
    (strict : Bool) : decode strict zero (bare tokens) = some event.reread := by
  simp only [Event.tokens, map_eq_some_iff] at written
  rcases written with ⟨fields, found, rfl⟩
  rcases fields_eq_some.mp found with ⟨timestamp, payload, value, encoded, rfl⟩
  rw [decode, decodeStruct_bare setField strict zero (encoded_written encoded)]
  exact foldlM_members encoded

theorem reread_encoded (encoded : event.Encoded timestamp payload value) :
    ∃ timestamp', event.reread.Encoded timestamp' payload value ∧
      (timestamp' = timestamp ↔ event.timestamp.Stable) := by
  have time := encoded.timestamp
  simp only [timeTokens, map_eq_some_iff] at time
  rcases time with ⟨text, marshalled, rfl⟩
  have again := Time.marshal_reread marshalled
  refine ⟨[.string (event.timestamp.civil.text ++
    zoneText (zoneMinutes event.timestamp.offset * 60))], ⟨?_, ?_, encoded.value⟩, ?_⟩
  · simp only [reread, timeTokens, again.1, map_some]
  · exact (payloadTokens_canonical encoded.payload).1
  · rw [← again.2, again.1, marshalled]
    simp

theorem members_reread_of_stable (stable : event.Stable)
    (encoded : event.Encoded timestamp payload value) :
    event.reread.members timestamp payload value = event.members timestamp payload value := by
  have texts (field : Text) : event.reread.text field = event.text field := by
    rw [text_reread, Utf8.coerce_of_valid (stable.text field)]
  have tags : event.reread.tags = event.tags := rereadTags_of_valid stable.tags
  have presence : (event.reread.payload != []) = (event.payload != []) := by
    rw [Bool.eq_iff_iff]
    change (canonicalPayload event.payload != []) = true ↔ _
    simpa using not_congr (payloadTokens_canonical encoded.payload).2
  simp only [members, optionalText, textMember, texts, tags, presence]
  rfl

theorem tokens_eq_some {tokens : List Token} : event.tokens = some tokens ↔
    ∃ timestamp payload value, event.Encoded timestamp payload value ∧
      tokens = structTokens (event.members timestamp payload value) := by
  simp only [Event.tokens, map_eq_some_iff, fields_eq_some]
  constructor
  · rintro ⟨_, ⟨timestamp, payload, value, encoded, rfl⟩, rfl⟩
    exact ⟨timestamp, payload, value, encoded, rfl⟩
  · rintro ⟨timestamp, payload, value, encoded, rfl⟩
    exact ⟨_, ⟨timestamp, payload, value, encoded, rfl⟩, rfl⟩

theorem isValue_tokens_iff (limit : Nat) {tokens : List Token}
    (found : event.tokens = some tokens) :
    IsValue (limit + 2) tokens ↔ event.NestsWithin (limit + 1) := by
  rcases tokens_eq_some.mp found with ⟨timestamp, payload, value, encoded, rfl⟩
  constructor
  · intro whole present payload' written
    obtain rfl := some.inj (encoded.payload.symm.trans written)
    have entries := isValue_of_structTokens maxNestingDepth
      (fun entry inside => (encoded_written encoded entry inside).value) whole
    refine entries (.payload, payload) ?_
    simp [members, optionalField, present]
  · intro nests
    exact (written_structTokens (members_written encoded fun present =>
      nests present payload encoded.payload)).value

theorem tokens_written {tokens : List Token} (found : event.tokens = some tokens) :
    Written (maxNestingDepth + 1) tokens := by
  rcases tokens_eq_some.mp found with ⟨timestamp, payload, value, encoded, rfl⟩
  exact written_structTokens (encoded_written encoded)

omit [FloatText] in
private theorem stable_of_members {timestamp' : List Token} (time : timestamp' = timestamp ↔ event.timestamp.Stable)
    (equal : event.reread.members timestamp' payload value =
      event.members timestamp payload value) : event.Stable where
  text field := by
    by_cases empty : event.text field = []
    · rw [empty]
      rfl
    have present : event.reread.text field ≠ [] := by
      rw [text_reread]
      simpa [Utf8.coerce_eq_nil_iff] using empty
    have written := congrArg (fieldTokens (.text field)) equal
    rw [fieldTokens_text present, fieldTokens_text empty, text_reread] at written
    simp only [stringTokens, Option.some.injEq, List.cons.injEq, Token.string.injEq,
      and_true] at written
    exact valid_of_quote_coerce written
  tags := by
    by_cases empty : event.tags = .empty
    · simp [empty, SortedMap.empty]
    by_cases lost : event.reread.tags = .empty
    · have written := congrArg (fieldTokens .tags) equal
      rw [fieldTokens_tags empty] at written
      simp [members, optionalText, textMember, lost] at written
    · have written := congrArg (fieldTokens .tags) equal
      rw [fieldTokens_tags lost, fieldTokens_tags empty, Option.some.injEq] at written
      exact valid_of_mapTokens_rereadTags written
  timestamp := by
    have written := congrArg (fieldTokens .timestamp) equal
    rw [fieldTokens_timestamp, fieldTokens_timestamp, Option.some.injEq] at written
    exact time.mp written

theorem tokens_reread_iff {tokens : List Token} (found : event.tokens = some tokens) :
    event.reread.tokens = some tokens ↔ event.Stable := by
  rcases tokens_eq_some.mp found with ⟨timestamp, payload, value, encoded, rfl⟩
  rcases reread_encoded encoded with ⟨timestamp', again, time⟩
  constructor
  · intro same
    rcases tokens_eq_some.mp same with ⟨timestamp'', payload'', value'', other, equal⟩
    obtain rfl := some.inj (other.timestamp.symm.trans again.timestamp)
    obtain rfl := some.inj (other.payload.symm.trans again.payload)
    obtain rfl := some.inj (other.value.symm.trans again.value)
    exact stable_of_members time
      (structTokens_injective (encoded_written again) (encoded_written encoded) equal.symm)
  · intro stable
    obtain rfl := time.mpr stable.timestamp
    refine tokens_eq_some.mpr ⟨_, _, _, again, ?_⟩
    rw [members_reread_of_stable stable encoded]

theorem marshal_reread_iff {text : Bytes} (marshalled : event.marshal = some text) :
    event.reread.marshal = some text ↔ event.Stable := by
  simp only [Event.marshal, map_eq_some_iff] at marshalled
  rcases marshalled with ⟨tokens, found, rfl⟩
  rw [← tokens_reread_iff found, Event.marshal]
  constructor
  · intro same
    rcases map_eq_some_iff.mp same with ⟨tokens', again, equal⟩
    rw [again, render_injective (tokens_written again) (tokens_written found) equal]
  · intro same
    rw [same, map_some]

end Written

theorem validate_reread {event : Event} (stable : event.Stable)
    (nonzero : event.timestamp.reread.isZero = false) (valid : event.validate = .ok ()) :
    event.reread.validate = .ok () := by
  rw [validate_ok_iff] at valid ⊢
  have texts (field : Text) : event.reread.text field = event.text field := by
    rw [text_reread, Utf8.coerce_of_valid (stable.text field)]
  have source : event.reread.source = event.source := texts .source
  have type : event.reread.type = event.type := texts .type
  have schemaVersion : event.reread.schemaVersion = event.schemaVersion := texts .schemaVersion
  rw [source, type, schemaVersion]
  exact ⟨valid.1, valid.2.1, nonzero, valid.2.2.2⟩

end TelemetryForge.Event
