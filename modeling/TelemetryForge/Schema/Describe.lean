import TelemetryForge.Domain.Event
import TelemetryForge.Foundation.Digest

/-! # Schema descriptions

What `schema.Describe` derives from an event: the paths of its metric, its tags and of the
values in its payload, with limits on their number and depth. Of a decoded payload only the
types of its values and the members of its objects are kept. -/

namespace TelemetryForge.Schema

open List

open Json (Token)

def maxPayloadDepth : Nat := 5

def maxEventFields : Nat := 512

def maxRegistryFields : Nat := 2048

inductive ValueType
  | string
  | number
  | boolean
  | object
  | array
  | null
deriving DecidableEq

def ValueType.text : ValueType → Bytes
  | .string => ascii "string"
  | .number => ascii "number"
  | .boolean => ascii "boolean"
  | .object => ascii "object"
  | .array => ascii "array"
  | .null => ascii "null"

inductive Severity
  | info
  | warning
  | breaking
deriving DecidableEq

structure Field where
  path : Bytes
  type : ValueType
  semanticKey : Bytes
  semanticStability : Bytes
  semanticRequirement : Bytes
  semanticReplacement : Bytes
  semanticExpectedType : Option ValueType
deriving DecidableEq

structure SemanticFinding where
  key : Bytes
  path : Bytes
  severity : Severity
  kind : Bytes
  message : Bytes
  replacement : Bytes
deriving DecidableEq

structure Description where
  tenantID : Bytes
  source : Bytes
  eventType : Bytes
  declaredVersion : Bytes
  schemaURL : Bytes
  fingerprint : Bytes
  fields : List Field
  semantic : List SemanticFinding
  truncated : Bool
deriving DecidableEq

structure SemanticDefinition where
  key : Bytes
  stability : Bytes
  requirement : Bytes
  expected : ValueType
  replacement : Bytes
  legacy : Bool

def stable (key requirement : String) (expected : ValueType) : SemanticDefinition :=
  ⟨ascii key, ascii "stable", ascii requirement, expected, [], false⟩

def legacy (key : String) (expected : ValueType) (replacement : String) : SemanticDefinition :=
  ⟨ascii key, ascii "legacy", [], expected, ascii replacement, true⟩

def semanticDefinitions : List SemanticDefinition := [
  stable "service.name" "required" .string,
  stable "service.namespace" "recommended" .string,
  stable "service.instance.id" "recommended" .string,
  stable "service.version" "recommended" .string,
  stable "deployment.environment.name" "recommended" .string,
  stable "http.request.method" "recommended" .string,
  stable "http.response.status_code" "recommended" .number,
  stable "network.protocol.version" "recommended" .string,
  stable "server.address" "recommended" .string,
  stable "server.port" "opt-in" .number,
  stable "url.scheme" "opt-in" .string,
  legacy "http.method" .string "http.request.method",
  legacy "http.status_code" .number "http.response.status_code",
  legacy "net.protocol.name" .string "network.protocol.name",
  legacy "deployment.environment" .string "deployment.environment.name"]

def plainField (path : Bytes) (type : ValueType) : Field := ⟨path, type, [], [], [], [], none⟩

def SemanticDefinition.finding (definition : SemanticDefinition) (path key : Bytes)
    (observed : ValueType) : Option SemanticFinding :=
  if definition.legacy then
    some ⟨key, path, .warning, ascii "legacy_semantic_attribute",
      ascii "legacy OpenTelemetry semantic-convention attribute is still being emitted",
      definition.replacement⟩
  else if observed ≠ definition.expected ∧ (ascii "payload.").isPrefixOf path = true then
    some ⟨key, path, .warning, ascii "semantic_type_mismatch",
      ascii "OpenTelemetry semantic attribute has an unexpected JSON value type", []⟩
  else none

def semanticField (path key : Bytes) (observed : ValueType) : Field × Option SemanticFinding :=
  match semanticDefinitions.find? fun definition => definition.key = key with
  | none => (plainField path observed, none)
  | some definition =>
    (⟨path, observed, definition.key, definition.stability, definition.requirement,
        definition.replacement, some definition.expected⟩,
      definition.finding path key observed)

def semanticCandidate (path : Bytes) : Bytes :=
  if (ascii "payload.").isPrefixOf path then path.drop 8 else path

@[simp] theorem semanticField_path (path key : Bytes) (observed : ValueType) :
    (semanticField path key observed).1.path = path := by
  unfold semanticField
  split <;> rfl

mutual
inductive Payload
  | leaf (type : ValueType)
  | object (members : Members)

inductive Members
  | nil
  | cons (key : Bytes) (value : Payload) (rest : Members)
end

deriving instance DecidableEq for Payload
deriving instance DecidableEq for Members

def Members.insert (key : Bytes) (value : Payload) : Members → Members
  | .nil => .cons key value .nil
  | .cons other held rest =>
    if key < other then .cons key value (.cons other held rest)
    else if key = other then .cons key value rest
    else .cons other held (rest.insert key value)

namespace Payload

/-- `jsonType` of a value that is no object. -/
def leafType : List Token → ValueType
  | .null :: _ => .null
  | .boolean _ :: _ => .boolean
  | .number _ :: _ => .number
  | .beginArray :: _ => .array
  | _ => .string

def ofTokens : (fuel : Nat) → List Token → Payload
  | 0, tokens => .leaf (leafType tokens)
  | fuel + 1, tokens =>
    match Json.takeObject id Json.maxNestingDepth tokens with
    | none => .leaf (leafType tokens)
    | some members =>
      .object (members.foldl
        (fun decoded member => decoded.insert (Json.unquote member.1) (ofTokens fuel member.2))
        .nil)

def isReadable [Json.FloatText] : Token → Bool
  | .number literal => (Json.FloatText.parse literal).isSome
  | _ => true

def decode [Json.FloatText] (raw : Bytes) : Option Payload :=
  (Json.wholeValue raw).bind fun lexemes =>
    let tokens := lexemes.map Json.Lexeme.token
    if tokens.all isReadable then some (ofTokens tokens.length tokens) else none

end Payload

structure Walk where
  fields : List Field
  semantic : List SemanticFinding
  truncated : Bool
deriving DecidableEq

namespace Walk

def isFull (walk : Walk) : Bool := maxEventFields ≤ walk.fields.length

def truncate (walk : Walk) : Walk := { walk with truncated := true }

def push (walk : Walk) (field : Field × Option SemanticFinding) : Walk :=
  { walk with
    fields := walk.fields ++ [field.1]
    semantic := walk.semantic ++ field.2.toList }

/-- `appendField` with a field that the conventions do not mention. -/
def appendField (walk : Walk) (field : Field) : Walk :=
  if walk.isFull then walk.truncate else walk.push (field, none)

end Walk

def metricFields (event : Event) : List Field :=
  (if event.value.isSome then [plainField (ascii "metric.value") .number] else []) ++
    if trimSpace event.unit ≠ [] then [plainField (ascii "metric.unit") .string] else []

def tagField (key : Bytes) : Field × Option SemanticFinding :=
  semanticField (ascii "tags." ++ key) key .string

def describeTags : List Bytes → Walk → Walk
  | [], walk => walk
  | key :: rest, walk =>
    if walk.isFull then walk.truncate else describeTags rest (walk.push (tagField key))

def payloadField (path : Bytes) (type : ValueType) : Field × Option SemanticFinding :=
  if semanticCandidate path ≠ [] then semanticField path (semanticCandidate path) type
  else (plainField path type, none)

def memberPath (path key : Bytes) : Bytes := path ++ ascii "." ++ key

def Walk.visit (walk : Walk) (path : Bytes) (type : ValueType) (depth : Nat)
    (inside : Walk → Walk) : Walk :=
  if walk.isFull then walk.truncate
  else if maxPayloadDepth < depth then walk.truncate
  else
    let walk := walk.push (payloadField path type)
    if walk.isFull then walk.truncate else inside walk

mutual
def walkPayload (path : Bytes) (depth : Nat) : Payload → Walk → Walk
  | .leaf type, walk => walk.visit path type depth id
  | .object members, walk => walk.visit path .object depth (walkMembers path (depth + 1) members)

def walkMembers (path : Bytes) (depth : Nat) : Members → Walk → Walk
  | .nil, walk => walk
  | .cons key value rest, walk =>
    let walk := walkPayload (memberPath path key) depth value walk
    if walk.truncated && walk.isFull then walk else walkMembers path depth rest walk
end

def describePayload [Json.FloatText] (event : Event) (walk : Walk) : Walk :=
  if event.payload ≠ [] ∧ walk.isFull = false then
    match Payload.decode event.payload with
    | some payload => walkPayload (ascii "payload") 0 payload walk
    | none => walk.appendField (plainField (ascii "payload") .string)
  else walk

def collect [Json.FloatText] (event : Event) : Walk :=
  let metric := (metricFields event).foldl Walk.appendField ⟨[], [], false⟩
  describePayload event (describeTags (event.tags.entries.map Prod.fst) metric)

def joinWith (separator : Bytes) : List Bytes → Bytes
  | [] => []
  | [part] => part
  | part :: rest => part ++ separator ++ joinWith separator rest

def fingerprint (fields : List Field) : Bytes :=
  let parts := fields.map fun field => field.path ++ ascii ":" ++ field.type.text
  hexEncode (Sha256.sum256 (joinWith [0x0A] (parts.insertionSort (· ≤ ·))))

def SemanticFinding.before (left right : SemanticFinding) : Prop :=
  if left.path = right.path then left.kind ≤ right.kind else left.path < right.path

instance (left right : SemanticFinding) : Decidable (left.before right) :=
  inferInstanceAs (Decidable (ite _ _ _))

/-- Sorting by path leaves the order of equal paths open; here they keep theirs. -/
def Walk.description (walk : Walk) (event : Event) : Description :=
  let fields := walk.fields.insertionSort fun left right => left.path ≤ right.path
  { tenantID := event.tenantID
    source := trimSpace event.source
    eventType := trimSpace event.type
    declaredVersion := trimSpace event.schemaVersion
    schemaURL := trimSpace event.schemaURL
    fingerprint := fingerprint fields
    fields := fields
    semantic := walk.semantic.insertionSort SemanticFinding.before
    truncated := walk.truncated }

def describe [Json.FloatText] (event : Event) : Description := (collect event).description event

/-! ## What a walk collects

The fields of a payload without the limit on their number, in the order of the walk. -/

mutual
def Payload.fields (path : Bytes) (depth : Nat) : Payload → List Field
  | .leaf type =>
    if maxPayloadDepth < depth then [] else [(payloadField path type).1]
  | .object members =>
    if maxPayloadDepth < depth then []
    else (payloadField path .object).1 :: members.fields path (depth + 1)

def Members.fields (path : Bytes) (depth : Nat) : Members → List Field
  | .nil => []
  | .cons key value rest =>
    value.fields (memberPath path key) depth ++ rest.fields path depth
end

mutual
def Payload.exceeds (depth : Nat) : Payload → Bool
  | .leaf _ => maxPayloadDepth < depth
  | .object members => maxPayloadDepth < depth || members.exceeds (depth + 1)

def Members.exceeds (depth : Nat) : Members → Bool
  | .nil => false
  | .cons _ value rest => value.exceeds depth || rest.exceeds depth
end

namespace Walk

structure Offers (walk : Walk) (offered : List Field) (exceeds : Bool) (after : Walk) : Prop where
  fields : after.fields = (walk.fields ++ offered).take maxEventFields
  truncated : after.truncated =
    (walk.truncated || exceeds || decide (maxEventFields ≤ walk.fields.length + offered.length))

theorem isFull_iff (walk : Walk) : walk.isFull = true ↔ maxEventFields ≤ walk.fields.length := by
  simp [isFull]

theorem push_length (walk : Walk) (field : Field × Option SemanticFinding) :
    (walk.push field).fields.length = walk.fields.length + 1 := by
  simp [push]

theorem Offers.isFull {walk after : Walk} {offered : List Field} {exceeds : Bool}
    (offers : walk.Offers offered exceeds after) :
    after.isFull = true ↔ maxEventFields ≤ walk.fields.length + offered.length := by
  rw [isFull_iff, offers.fields, length_take, length_append]
  omega

theorem Offers.full {walk : Walk} (bounded : walk.fields.length ≤ maxEventFields)
    (full : walk.isFull = true) (offered : List Field) (exceeds : Bool) :
    walk.Offers offered exceeds walk.truncate where
  fields := by
    rw [isFull_iff] at full
    rw [take_append_of_le_length full, take_of_length_le bounded]
    rfl
  truncated := by
    rw [isFull_iff] at full
    have filled : maxEventFields ≤ walk.fields.length + offered.length := by omega
    simp [truncate, filled]

theorem Offers.nil {walk : Walk} (room : walk.fields.length < maxEventFields) :
    walk.Offers [] false walk where
  fields := by rw [append_nil, take_of_length_le room.le]
  truncated := by simp [room]

theorem Offers.append {walk middle after : Walk} {first second : List Field}
    {firstExceeds secondExceeds : Bool} (begins : walk.Offers first firstExceeds middle)
    (room : middle.isFull = false) (ends : middle.Offers second secondExceeds after) :
    walk.Offers (first ++ second) (firstExceeds || secondExceeds) after := by
  have fits : walk.fields.length + first.length < maxEventFields := by
    rw [← not_le, ← begins.isFull, room]
    simp
  have kept : middle.fields = walk.fields ++ first := by
    rw [begins.fields, take_of_length_le]
    rw [length_append]
    omega
  constructor
  · rw [ends.fields, kept, append_assoc]
  · rw [ends.truncated, begins.truncated, kept, length_append, length_append, Nat.add_assoc]
    have open_ : ¬maxEventFields ≤ walk.fields.length + first.length := not_le.mpr fits
    simp only [open_, decide_false, Bool.or_false]
    cases walk.truncated <;> cases firstExceeds <;> simp

theorem Offers.append_full {walk after : Walk} {first : List Field} {exceeds : Bool}
    (offers : walk.Offers first exceeds after) (full : after.isFull = true) (second : List Field)
    (secondExceeds : Bool) : walk.Offers (first ++ second) (exceeds || secondExceeds) after := by
  have filled := offers.isFull.mp full
  constructor
  · have long : maxEventFields ≤ (walk.fields ++ first).length := by
      rwa [length_append]
    rw [offers.fields, ← append_assoc, take_append_of_le_length long]
  · have more : maxEventFields ≤ walk.fields.length + (first ++ second).length := by
      rw [length_append]
      omega
    rw [offers.truncated, decide_eq_true filled, decide_eq_true more]
    simp

theorem Offers.push {walk : Walk} (room : walk.fields.length < maxEventFields)
    (field : Field × Option SemanticFinding) (open_ : (walk.push field).isFull = false) :
    walk.Offers [field.1] false (walk.push field) where
  fields := by
    rw [take_of_length_le]
    · rfl
    · rw [length_append]
      exact room
  truncated := by
    have notFull : ¬maxEventFields ≤ walk.fields.length + 1 := by
      rw [← push_length walk field, ← isFull_iff, open_]
      simp
    simp [Walk.push, notFull]

theorem visit_offers {walk : Walk} (bounded : walk.fields.length ≤ maxEventFields) (path : Bytes)
    (type : ValueType) (depth : Nat) {inside : Walk → Walk} {offered : List Field} {exceeds : Bool}
    (goesOn : ∀ next : Walk, next.fields.length < maxEventFields →
      next.Offers offered exceeds (inside next)) :
    walk.Offers
      (if maxPayloadDepth < depth then [] else (payloadField path type).1 :: offered)
      (decide (maxPayloadDepth < depth) || exceeds) (walk.visit path type depth inside) := by
  unfold visit
  by_cases full : walk.isFull = true
  · rw [if_pos full]
    exact .full bounded full _ _
  · have room : walk.fields.length < maxEventFields := by
      rwa [isFull_iff, not_le] at full
    rw [if_neg full]
    by_cases deep : maxPayloadDepth < depth
    · rw [if_pos deep, if_pos deep]
      exact
        { fields := by
            rw [append_nil, take_of_length_le bounded]
            rfl
          truncated := by simp [truncate, deep] }
    · simp only [deep, if_false, decide_false, Bool.false_or]
      by_cases filled : (walk.push (payloadField path type)).isFull = true
      · rw [if_pos filled]
        have last : maxEventFields ≤ walk.fields.length + 1 := by
          rwa [isFull_iff, push_length] at filled
        constructor
        · rw [append_cons, take_append_of_le_length, take_of_length_le]
          · rfl
          · simpa using room
          · simpa using last
        · have enough : maxEventFields ≤ walk.fields.length + (offered.length + 1) := by omega
          simp [truncate, enough]
      · rw [if_neg filled]
        rw [Bool.not_eq_true] at filled
        have pushed := Offers.push room (payloadField path type) filled
        have below : (walk.push (payloadField path type)).fields.length < maxEventFields := by
          rwa [← not_le, ← isFull_iff, Bool.not_eq_true]
        exact pushed.append filled (goesOn _ below)

end Walk

mutual
theorem walkPayload_offers (path : Bytes) (depth : Nat) (payload : Payload) {walk : Walk}
    (bounded : walk.fields.length ≤ maxEventFields) :
    walk.Offers (payload.fields path depth) (payload.exceeds depth)
      (walkPayload path depth payload walk) := by
  cases payload with
  | leaf type =>
    have visited := Walk.visit_offers bounded path type depth fun next room =>
      Walk.Offers.nil room
    rwa [Bool.or_false] at visited
  | object members =>
    exact Walk.visit_offers bounded path .object depth fun next room =>
      walkMembers_offers path (depth + 1) members room

theorem walkMembers_offers (path : Bytes) (depth : Nat) (members : Members) {walk : Walk}
    (room : walk.fields.length < maxEventFields) :
    walk.Offers (members.fields path depth) (members.exceeds depth)
      (walkMembers path depth members walk) := by
  cases members with
  | nil => exact .nil room
  | cons key value rest =>
    have first := walkPayload_offers (memberPath path key) depth value room.le
    rw [walkMembers]
    by_cases full : (walkPayload (memberPath path key) depth value walk).isFull = true
    · have truncated :
          (walkPayload (memberPath path key) depth value walk).truncated = true := by
        simp [first.truncated, first.isFull.mp full]
      simp only [truncated, full, Bool.and_self, if_true]
      exact first.append_full full _ _
    · rw [Bool.not_eq_true] at full
      simp only [full, Bool.and_false, Bool.false_eq_true, if_false]
      refine first.append full (walkMembers_offers path depth rest ?_)
      rwa [← not_le, ← Walk.isFull_iff, Bool.not_eq_true]
end

section Described

def baseFields (event : Event) : List Field :=
  metricFields event ++ event.tags.entries.map fun entry => (tagField entry.1).1

theorem metricFields_length (event : Event) : (metricFields event).length ≤ 2 := by
  unfold metricFields
  split_ifs <;> simp

theorem foldl_appendField (event : Event) :
    (metricFields event).foldl Walk.appendField ⟨[], [], false⟩ =
      ⟨metricFields event, [], false⟩ := by
  unfold metricFields
  split_ifs <;> rfl

theorem describeTags_eq (keys : List Bytes) {walk : Walk}
    (bounded : walk.fields.length ≤ maxEventFields) : (describeTags keys walk).fields =
        (walk.fields ++ keys.map fun key => (tagField key).1).take maxEventFields ∧
      (describeTags keys walk).truncated =
        (walk.truncated || decide (maxEventFields < walk.fields.length + keys.length)) := by
  induction keys generalizing walk with
  | nil =>
    have room : ¬maxEventFields < walk.fields.length := not_lt.mpr bounded
    simp [describeTags, take_of_length_le bounded, room]
  | cons key rest induction =>
    rw [describeTags]
    by_cases full : walk.isFull = true
    · rw [if_pos full]
      rw [Walk.isFull_iff] at full
      have more : maxEventFields < walk.fields.length + (key :: rest).length := by
        rw [length_cons]
        omega
      rw [take_append_of_le_length full, take_of_length_le bounded, decide_eq_true more]
      simp [Walk.truncate]
    · rw [if_neg full]
      rw [Walk.isFull_iff, not_le] at full
      have pushed : (walk.push (tagField key)).fields.length ≤ maxEventFields := by
        rw [Walk.push_length]
        exact full
      rcases induction pushed with ⟨fields, truncated⟩
      constructor
      · rw [fields]
        simp [Walk.push]
      · rw [truncated, Walk.push_length, length_cons]
        simp [Walk.push, Nat.add_assoc, Nat.add_comm 1]

theorem describeTags_base (event : Event) (walk : Walk)
    (tags : describeTags (event.tags.entries.map Prod.fst) ⟨metricFields event, [], false⟩ = walk) :
    walk.fields = (baseFields event).take maxEventFields ∧
      walk.truncated = decide (maxEventFields < (baseFields event).length) := by
  have small : (metricFields event).length ≤ maxEventFields :=
    (metricFields_length event).trans (by decide)
  rcases describeTags_eq (event.tags.entries.map Prod.fst)
    (show (⟨metricFields event, [], false⟩ : Walk).fields.length ≤ maxEventFields from small) with
    ⟨fields, truncated⟩
  rw [tags] at fields truncated
  constructor
  · rw [fields, map_map]
    rfl
  · simp [truncated, baseFields]

variable [Json.FloatText]

def payloadFields (event : Event) : List Field :=
  if event.payload = [] then []
  else
    match Payload.decode event.payload with
    | some payload => payload.fields (ascii "payload") 0
    | none => [plainField (ascii "payload") .string]

def payloadTruncates (event : Event) (before : Nat) : Bool :=
  match Payload.decode event.payload with
  | some payload =>
    payload.exceeds 0 ||
      decide (maxEventFields ≤ before + (payload.fields (ascii "payload") 0).length)
  | none => false

theorem describePayload_eq (event : Event) {walk : Walk}
    (bounded : walk.fields.length ≤ maxEventFields) : (describePayload event walk).fields =
        (walk.fields ++ payloadFields event).take maxEventFields ∧
      (describePayload event walk).truncated =
        (walk.truncated || (decide (event.payload ≠ []) && !walk.isFull &&
          payloadTruncates event walk.fields.length)) := by
  unfold describePayload payloadFields
  by_cases absent : event.payload = []
  · simp [absent, take_of_length_le bounded]
  · by_cases full : walk.isFull = true
    · have filled := (Walk.isFull_iff walk).mp full
      simp only [absent, full, Bool.true_eq_false, and_false, if_false, Bool.not_true,
        Bool.and_false, Bool.false_and, Bool.or_false, and_true]
      rw [take_append_of_le_length filled, take_of_length_le bounded]
    · have room : walk.fields.length < maxEventFields := by
        rwa [Walk.isFull_iff, not_le] at full
      rw [Bool.not_eq_true] at full
      simp only [absent, full, ne_eq, not_false_eq_true, and_self, if_true, if_false, decide_true,
        Bool.not_false, Bool.true_and, payloadTruncates]
      cases Payload.decode event.payload with
      | some payload =>
        have walked := walkPayload_offers (ascii "payload") 0 payload bounded
        exact ⟨walked.fields, by rw [walked.truncated, Bool.or_assoc]⟩
      | none =>
        rw [Walk.appendField, full]
        refine ⟨?_, by simp [Walk.push]⟩
        rw [take_of_length_le]
        · rfl
        · rw [length_append]
          exact room

theorem collect_eq (event : Event) :
    (collect event).fields = (baseFields event ++ payloadFields event).take maxEventFields ∧
      (collect event).truncated =
        (decide (maxEventFields < (baseFields event).length) ||
          (decide (event.payload ≠ []) && decide ((baseFields event).length < maxEventFields) &&
            payloadTruncates event (baseFields event).length)) := by
  generalize tags : describeTags (event.tags.entries.map Prod.fst)
    ⟨metricFields event, [], false⟩ = walk
  rcases describeTags_base event walk tags with ⟨fields, truncated⟩
  have bounded : walk.fields.length ≤ maxEventFields := by
    rw [fields, length_take]
    exact min_le_left _ _
  have collected : collect event = describePayload event walk := by
    rw [collect, foldl_appendField, tags]
  rcases describePayload_eq event bounded with ⟨allFields, flag⟩
  rw [collected, allFields, flag, truncated]
  by_cases room : (baseFields event).length < maxEventFields
  · have kept : walk.fields = baseFields event := by
      rw [fields, take_of_length_le room.le]
    have notFull : walk.isFull = false := by
      rw [← Bool.not_eq_true, Walk.isFull_iff, kept]
      exact not_le.mpr room
    rw [kept, notFull]
    simp [room]
  · rw [not_lt] at room
    have full : walk.isFull = true := by
      rw [Walk.isFull_iff, fields, length_take]
      exact le_min le_rfl room
    rw [fields, full, take_append_of_le_length room, take_append_of_le_length]
    · simp [room]
    · rw [length_take]
      exact le_min le_rfl room

end Described

end TelemetryForge.Schema
