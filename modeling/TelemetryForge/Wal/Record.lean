import TelemetryForge.Domain.Event
import TelemetryForge.Foundation.Digest
import TelemetryForge.Foundation.Result

/-! # WAL records

The durable envelope of an event and the hash chain over envelopes. -/

namespace TelemetryForge

open Json

namespace Wal

def format : Bytes := ascii "telemetryforge-edge-wal"

def legacyVersion : Int := 1

def version : Int := 2

def lineageVersion : Int := 1

end Wal

structure Record where
  format : Bytes
  formatVersion : Int
  edgeID : Bytes
  topic : Bytes
  edgeSequence : Nat
  sourceSequence : Nat
  acceptedAt : Time
  payloadSHA256 : Bytes
  lineageVersion : Int
  previousRecordHash : Bytes
  recordHash : Bytes
  event : Event
deriving DecidableEq

def validSHA256 (value : Bytes) : Bool :=
  match hexDecode value with
  | some decoded => decoded.length == 32 && value == lowercase value
  | none => false

def sha256Hex (text : Bytes) : Bytes := hexEncode (Sha256.sum256 text)

theorem validSHA256_sha256Hex (text : Bytes) : validSHA256 (sha256Hex text) = true := by
  simp [validSHA256, sha256Hex, hexDecode_hexEncode, lowercase_hexEncode]

theorem sha256Hex_injOn {messages : Set Bytes} (free : CollisionFree messages)
    {left right : Bytes} (leftMember : left ∈ messages) (rightMember : right ∈ messages)
    (equal : sha256Hex left = sha256Hex right) : left = right :=
  free leftMember rightMember (hexEncode_injective equal)

namespace Record

def zero : Record :=
  ⟨[], 0, [], [], 0, 0, .zero, [], 0, [], [], .zero⟩

inductive Text
  | format | edgeID | topic | payloadSHA256 | previousRecordHash | recordHash
deriving DecidableEq

def text (record : Record) : Text → Bytes
  | .format => record.format
  | .edgeID => record.edgeID
  | .topic => record.topic
  | .payloadSHA256 => record.payloadSHA256
  | .previousRecordHash => record.previousRecordHash
  | .recordHash => record.recordHash

def withText (record : Record) (value : Bytes) : Text → Record
  | .format => { record with format := value }
  | .edgeID => { record with edgeID := value }
  | .topic => { record with topic := value }
  | .payloadSHA256 => { record with payloadSHA256 := value }
  | .previousRecordHash => { record with previousRecordHash := value }
  | .recordHash => { record with recordHash := value }

inductive Field
  | text (field : Text)
  | formatVersion
  | edgeSequence
  | sourceSequence
  | acceptedAt
  | lineageVersion
  | event
deriving DecidableEq

instance : FieldNames Field where
  all := [.text .format, .formatVersion, .text .edgeID, .text .topic, .edgeSequence,
    .sourceSequence, .acceptedAt, .text .payloadSHA256, .lineageVersion,
    .text .previousRecordHash, .text .recordHash, .event]
  name
    | .text .format => ascii "format"
    | .formatVersion => ascii "format_version"
    | .text .edgeID => ascii "edge_id"
    | .text .topic => ascii "topic"
    | .edgeSequence => ascii "edge_sequence"
    | .sourceSequence => ascii "source_sequence"
    | .acceptedAt => ascii "accepted_at"
    | .text .payloadSHA256 => ascii "payload_sha256"
    | .lineageVersion => ascii "lineage_version"
    | .text .previousRecordHash => ascii "previous_record_hash"
    | .text .recordHash => ascii "record_hash"
    | .event => ascii "event"
  selects := by
    rintro (field | _ | _ | _ | _ | _ | _)
    · cases field <;> decide +kernel
    all_goals decide +kernel
  literal := by
    rintro (field | _ | _ | _ | _ | _ | _)
    · cases field <;> decide +kernel
    all_goals decide +kernel

def textMember (record : Record) (field : Text) : List (Field × List Token) :=
  [(.text field, stringTokens (record.text field))]

def optionalText (record : Record) (field : Text) : List (Field × List Token) :=
  optionalField (record.text field != []) (.text field) (stringTokens (record.text field))

def members (record : Record) (acceptedAt event : List Token) : List (Field × List Token) :=
  List.flatten [
    record.textMember .format,
    [(.formatVersion, intTokens record.formatVersion)],
    record.textMember .edgeID,
    record.textMember .topic,
    [(.edgeSequence, natTokens record.edgeSequence)],
    [(.sourceSequence, natTokens record.sourceSequence)],
    [(.acceptedAt, acceptedAt)],
    record.textMember .payloadSHA256,
    optionalField (record.lineageVersion != 0) .lineageVersion (intTokens record.lineageVersion),
    record.optionalText .previousRecordHash,
    record.optionalText .recordHash,
    [(.event, event)]]

variable [FloatText]

def fields (record : Record) : Option (List (Field × List Token)) := do
  let acceptedAt ← timeTokens record.acceptedAt
  let event ← record.event.tokens
  return record.members acceptedAt event

def tokens (record : Record) : Option (List Token) := record.fields.map structTokens

def marshal (record : Record) : Option Bytes := record.tokens.map render

def setField (strict : Bool) (record : Record) (field : Field) (value : List Lexeme) :
    Option Record :=
  let tokens := value.map Lexeme.token
  match field with
  | .text field =>
    (decodeString (record.text field) tokens).map fun text => record.withText text field
  | .formatVersion =>
    (decodeInt record.formatVersion tokens).map fun number =>
      { record with formatVersion := number }
  | .edgeSequence =>
    (decodeUint64 record.edgeSequence tokens).map fun number =>
      { record with edgeSequence := number }
  | .sourceSequence =>
    (decodeUint64 record.sourceSequence tokens).map fun number =>
      { record with sourceSequence := number }
  | .acceptedAt =>
    (decodeTime record.acceptedAt tokens).map fun time => { record with acceptedAt := time }
  | .lineageVersion =>
    (decodeInt record.lineageVersion tokens).map fun number =>
      { record with lineageVersion := number }
  | .event =>
    (Event.decode strict record.event value).map fun event => { record with event := event }

def decode (strict : Bool) (value : List Lexeme) : Option Record :=
  decodeStruct Lexeme.token (setField strict) strict zero value

def eventHash (event : Event) : Except String Bytes :=
  match event.marshal with
  | some payload => .ok (sha256Hex payload)
  | none => .error "encode event for hash"

inductive MaterialField
  | format | formatVersion | edgeID | topic | edgeSequence | sourceSequence | acceptedAt
  | payloadSHA256 | lineageVersion | previousRecordHash
deriving DecidableEq

instance : FieldNames MaterialField where
  all := [.format, .formatVersion, .edgeID, .topic, .edgeSequence, .sourceSequence,
    .acceptedAt, .payloadSHA256, .lineageVersion, .previousRecordHash]
  name
    | .format => ascii "format"
    | .formatVersion => ascii "format_version"
    | .edgeID => ascii "edge_id"
    | .topic => ascii "topic"
    | .edgeSequence => ascii "edge_sequence"
    | .sourceSequence => ascii "source_sequence"
    | .acceptedAt => ascii "accepted_at"
    | .payloadSHA256 => ascii "payload_sha256"
    | .lineageVersion => ascii "lineage_version"
    | .previousRecordHash => ascii "previous_record_hash"
  selects := by
    intro field
    cases field <;> decide +kernel
  literal := by
    intro field
    cases field <;> decide +kernel

omit [FloatText] in
def hashMaterial (record : Record) : List (MaterialField × List Token) :=
  List.flatten [
    [(.format, stringTokens record.format)],
    [(.formatVersion, intTokens record.formatVersion)],
    [(.edgeID, stringTokens record.edgeID)],
    [(.topic, stringTokens record.topic)],
    [(.edgeSequence, natTokens record.edgeSequence)],
    [(.sourceSequence, natTokens record.sourceSequence)],
    [(.acceptedAt, stringTokens record.acceptedAt.utc.utcText)],
    [(.payloadSHA256, stringTokens record.payloadSHA256)],
    [(.lineageVersion, intTokens record.lineageVersion)],
    optionalField (record.previousRecordHash != []) .previousRecordHash
      (stringTokens record.previousRecordHash)]

def material (record : Record) : Bytes := render (structTokens record.hashMaterial)

def computeRecordHash (record : Record) : Bytes := sha256Hex record.material

def validate (record : Record) : Except String Unit := do
  if record.format ≠ Wal.format ∨
      (record.formatVersion ≠ Wal.legacyVersion ∧ record.formatVersion ≠ Wal.version) then
    throw "unsupported WAL record format/version"
  if trimSpace record.edgeID = [] ∨ trimSpace record.topic = [] then
    throw "edge_id and topic are required"
  if record.edgeSequence = 0 ∨ record.sourceSequence = 0 then
    throw "edge_sequence and source_sequence must be positive"
  if record.acceptedAt.isZero then
    throw "accepted_at is required"
  match record.event.validate with
  | .error message => throw ("invalid event: " ++ message)
  | .ok () => pure ()
  let hash ← eventHash record.event
  if record.payloadSHA256 ≠ hash then
    throw "event payload SHA-256 mismatch"
  if record.formatVersion = Wal.legacyVersion then
    if record.lineageVersion ≠ 0 ∨ record.previousRecordHash ≠ [] ∨ record.recordHash ≠ [] then
      throw "legacy WAL record contains unsupported lineage fields"
    return
  if record.lineageVersion ≠ Wal.lineageVersion then
    throw "unsupported WAL lineage version"
  if record.previousRecordHash ≠ [] ∧ validSHA256 record.previousRecordHash = false then
    throw "invalid previous record hash"
  if validSHA256 record.recordHash = false then
    throw "invalid record hash"
  if record.recordHash ≠ record.computeRecordHash then
    throw "WAL record lineage hash mismatch"

structure LegacyLineage (record : Record) : Prop where
  formatVersion : record.formatVersion = Wal.legacyVersion
  lineageVersion : record.lineageVersion = 0
  previousRecordHash : record.previousRecordHash = []
  recordHash : record.recordHash = []

structure CurrentLineage (record : Record) : Prop where
  formatVersion : record.formatVersion = Wal.version
  lineageVersion : record.lineageVersion = Wal.lineageVersion
  previousRecordHash : record.previousRecordHash = [] ∨ validSHA256 record.previousRecordHash = true
  recordHash : record.recordHash = record.computeRecordHash

structure Valid (record : Record) : Prop where
  format : record.format = Wal.format
  routing : trimSpace record.edgeID ≠ [] ∧ trimSpace record.topic ≠ []
  sequences : record.edgeSequence ≠ 0 ∧ record.sourceSequence ≠ 0
  acceptedAt : record.acceptedAt.isZero = false
  event : record.event.validate = .ok ()
  payload : eventHash record.event = .ok record.payloadSHA256
  lineage : record.LegacyLineage ∨ record.CurrentLineage

theorem validate_ok_iff (record : Record) : record.validate = .ok () ↔ record.Valid := by
  unfold validate
  cases event : record.event.validate with
  | error message =>
    simp only [bind, Except.bind, throw, throwThe, MonadExceptOf.throw, ite_error_eq_ok,
      reduceCtorEq, and_false, false_iff]
    intro valid
    simpa [event] using valid.event
  | ok checked =>
    cases hash : eventHash record.event with
    | error message =>
      simp only [bind, Except.bind, throw, throwThe, MonadExceptOf.throw, ite_error_eq_ok,
        reduceCtorEq, and_false, false_iff]
      intro valid
      simpa [hash] using valid.payload
    | ok digest =>
      simp only [bind, Except.bind, throw, throwThe, MonadExceptOf.throw, pure, Except.pure,
        ite_error_eq_ok, not_or, not_and_or, not_not]
      constructor
      · rintro ⟨⟨format, versions⟩, routing, sequences, accepted, rfl, lineage⟩
        refine ⟨format, routing, sequences, by simpa using accepted, event, hash, ?_⟩
        by_cases legacy : record.formatVersion = Wal.legacyVersion
        · simp only [if_pos legacy, ite_error_eq_ok, not_or, not_not] at lineage
          exact .inl ⟨legacy, lineage.1.1, lineage.1.2.1, lineage.1.2.2⟩
        · simp only [if_neg legacy, ite_error_eq_ok, not_and_or, not_not] at lineage
          rcases lineage with ⟨number, previous, _, computed, _⟩
          exact .inr ⟨versions.resolve_left legacy, number, previous.imp_right (by simp), computed⟩
      · rintro ⟨format, routing, sequences, accepted, _, payload, lineage⟩
        rw [hash, Except.ok.injEq] at payload
        rcases lineage with legacy | current
        · refine ⟨⟨format, .inl legacy.formatVersion⟩, routing, sequences,
            by simp [accepted], payload.symm, ?_⟩
          simp [legacy.formatVersion, legacy.lineageVersion, legacy.previousRecordHash,
            legacy.recordHash]
        · refine ⟨⟨format, .inr current.formatVersion⟩, routing, sequences,
            by simp [accepted], payload.symm, ?_⟩
          have digestValid : validSHA256 record.recordHash = true := by
            rw [current.recordHash]
            exact validSHA256_sha256Hex _
          have notLegacy : record.formatVersion ≠ Wal.legacyVersion := by
            rw [current.formatVersion]
            decide
          have previous : ¬(record.previousRecordHash ≠ [] ∧
              validSHA256 record.previousRecordHash = false) := by
            rcases current.previousRecordHash with empty | digest
            · simp [empty]
            · simp [digest]
          rw [if_neg notLegacy, if_neg (by simp [current.lineageVersion]), if_neg previous,
            if_neg (by simp [digestValid]), if_neg (by simpa using current.recordHash)]

def recordDigest (record : Record) : Except String Bytes := do
  record.validate
  if record.formatVersion = Wal.version then
    return record.recordHash
  match record.marshal with
  | some payload => return sha256Hex payload
  | none => throw "json: unsupported value"

end Record

namespace Wal

variable [FloatText]

def verifyRecords : List Record → Bytes → List Bytes → Except String (Bytes × List Bytes)
  | [], current, leaves => .ok (current, leaves)
  | record :: records, current, leaves => do
    record.validate
    if record.formatVersion = version ∧ record.previousRecordHash ≠ current then
      throw ("WAL lineage discontinuity at edge sequence " ++ toString record.edgeSequence)
    let digest ← record.recordDigest
    verifyRecords records digest (leaves ++ [digest])

def verifyRecordChain (records : List Record) (previousHash : Bytes) :
    Except String (Bytes × List Bytes) :=
  if previousHash ≠ [] ∧ validSHA256 previousHash = false then
    .error "invalid record-chain anchor"
  else verifyRecords records previousHash []

end Wal

end TelemetryForge

/-! ## Writing and reading WAL records -/

namespace TelemetryForge.Record

open Json List Option

def reread (record : Record) : Record where
  format := Utf8.coerce record.format
  formatVersion := record.formatVersion
  edgeID := Utf8.coerce record.edgeID
  topic := Utf8.coerce record.topic
  edgeSequence := record.edgeSequence
  sourceSequence := record.sourceSequence
  acceptedAt := record.acceptedAt.reread
  payloadSHA256 := Utf8.coerce record.payloadSHA256
  lineageVersion := record.lineageVersion
  previousRecordHash := Utf8.coerce record.previousRecordHash
  recordHash := Utf8.coerce record.recordHash
  event := record.event.reread

private theorem withText_text (record : Record) (field : Text) :
    record.withText (record.text field) field = record := by
  cases field <;> rfl

structure Versioned (record : Record) : Prop where
  formatVersion : 0 ≤ record.formatVersion ∧ record.formatVersion < 2 ^ 63
  lineageVersion : 0 ≤ record.lineageVersion ∧ record.lineageVersion < 2 ^ 63

def InRange (record : Record) : Prop :=
  record.edgeSequence < 2 ^ 64 ∧ record.sourceSequence < 2 ^ 64

instance (record : Record) : Decidable record.InRange := inferInstanceAs (Decidable (_ ∧ _))

variable [FloatText]

theorem Valid.versioned {record : Record} (valid : record.Valid) : record.Versioned := by
  rcases valid.lineage with legacy | current
  · constructor
    · rw [legacy.formatVersion]
      decide
    · rw [legacy.lineageVersion]
      decide
  · constructor
    · rw [current.formatVersion]
      decide
    · rw [current.lineageVersion]
      decide

structure Encoded (record : Record) (acceptedAt event : List Token) : Prop where
  acceptedAt : timeTokens record.acceptedAt = some acceptedAt
  event : record.event.tokens = some event

theorem tokens_eq_some {record : Record} {tokens : List Token} :
    record.tokens = some tokens ↔ ∃ acceptedAt event, record.Encoded acceptedAt event ∧
      tokens = structTokens (record.members acceptedAt event) := by
  simp only [Record.tokens, Record.fields, bind, pure, map_eq_some_iff,
    bind_eq_some_iff, some.injEq]
  constructor
  · rintro ⟨_, ⟨acceptedAt, time, event, encoded, rfl⟩, rfl⟩
    exact ⟨acceptedAt, event, ⟨time, encoded⟩, rfl⟩
  · rintro ⟨acceptedAt, event, encoded, rfl⟩
    exact ⟨_, ⟨acceptedAt, encoded.acceptedAt, event, encoded.event, rfl⟩, rfl⟩

variable {record : Record} {acceptedAt event : List Token}

theorem members_written {limit : Nat} (versioned : record.Versioned)
    (encoded : record.Encoded acceptedAt event) (nested : Written limit event) :
    ∀ entry ∈ record.members acceptedAt event, Written limit entry.2 := by
  simp only [members, optionalText, textMember, flatten_cons, flatten_nil,
    forall_mem_append, forall_mem_cons, forall_mem_optionalField]
  simp only [written_stringTokens, written_natTokens, written_intTokens _ versioned.formatVersion.1,
    written_intTokens _ versioned.lineageVersion.1, timeTokens_written _ encoded.acceptedAt, nested,
    implies_true, and_true, not_mem_nil, false_implies]

private abbrev set (strict : Bool) (record : Record) (entry : Field × List Token) : Option Record :=
  record.setField strict entry.1 (bare entry.2)

private theorem set_text (strict : Bool) (record : Record) (field : Text) (text : Bytes) :
    set strict record (.text field, stringTokens text) =
      some (record.withText (Utf8.coerce text) field) := by
  simp [set, setField]

private theorem foldlM_optionalText (strict : Bool) (record state : Record) (field : Text)
    (fresh : state.text field = []) : (record.optionalText field).foldlM (set strict) state =
      some (state.withText (Utf8.coerce (record.text field)) field) := by
  apply foldlM_optionalField
  · intro _
    exact set_text strict state field _
  · intro empty
    have nil : record.text field = [] := by simpa using empty
    have unchanged := withText_text state field
    rw [fresh] at unchanged
    simpa [nil, Utf8.coerce] using unchanged

private theorem foldlM_lineageVersion (versioned : record.Versioned) (strict : Bool)
    (state : Record) (fresh : state.lineageVersion = 0) :
    (optionalField (record.lineageVersion != 0) .lineageVersion
        (intTokens record.lineageVersion)).foldlM (set strict) state =
      some { state with lineageVersion := record.lineageVersion } := by
  apply foldlM_optionalField
  · intro _
    simp [set, setField,
      decodeInt_intTokens _ versioned.lineageVersion.1 versioned.lineageVersion.2]
  · intro zero
    have nil : record.lineageVersion = 0 := by simpa using zero
    cases state
    simp_all

private theorem foldlM_members (versioned : record.Versioned)
    (encoded : record.Encoded acceptedAt event) (strict : Bool) :
    (record.members acceptedAt event).foldlM (set strict) zero =
      if record.InRange then some record.reread else none := by
  have time (state : Record) : set strict state (.acceptedAt, acceptedAt) =
      some { state with acceptedAt := record.acceptedAt.reread } := by
    simp [set, setField, decodeTime_timeTokens encoded.acceptedAt]
  have version (state : Record) :
      set strict state (.formatVersion, intTokens record.formatVersion) =
        some { state with formatVersion := record.formatVersion } := by
    simp [set, setField, decodeInt_intTokens _ versioned.formatVersion.1 versioned.formatVersion.2]
  have edge (state : Record) : set strict state (.edgeSequence, natTokens record.edgeSequence) =
      if record.edgeSequence < 2 ^ 64 then
        some { state with edgeSequence := record.edgeSequence } else none := by
    simp only [set, setField, bare_tokens, decodeUint64_natTokens]
    split <;> rfl
  have source (state : Record) :
      set strict state (.sourceSequence, natTokens record.sourceSequence) =
        if record.sourceSequence < 2 ^ 64 then
          some { state with sourceSequence := record.sourceSequence } else none := by
    simp only [set, setField, bare_tokens, decodeUint64_natTokens]
    split <;> rfl
  have payload (state : Record) (fresh : state.event = .zero) :
      set strict state (.event, event) = some { state with event := record.event.reread } := by
    simp only [set, setField, fresh, Event.decode_tokens encoded.event, map_some]
  simp only [members, textMember, flatten_cons, flatten_nil, foldlM_append, foldlM_cons, foldlM_nil,
    set_text, version, edge, source, pure, bind, bind_some, InRange]
  by_cases edgeFits : record.edgeSequence < 2 ^ 64
  · by_cases sourceFits : record.sourceSequence < 2 ^ 64
    · simp only [edgeFits, sourceFits, if_true, bind_some, time, and_self]
      rw [foldlM_lineageVersion versioned _ _ rfl, bind_some, foldlM_optionalText _ _ _ _ rfl,
        bind_some, foldlM_optionalText _ _ _ _ rfl, bind_some, payload _ rfl]
      rfl
    · simp only [edgeFits, sourceFits, if_true, if_false, bind_some, bind_none, and_false]
  · simp only [edgeFits, if_false, bind_none, false_and]

theorem decode_members (versioned : record.Versioned)
    (encoded : record.Encoded acceptedAt event) (nested : Written maxNestingDepth event)
    (strict : Bool) :
    decode strict (bare (structTokens (record.members acceptedAt event))) =
      if record.InRange then some record.reread else none := by
  rw [decode, decodeStruct_bare (setField strict) strict zero
    (members_written versioned encoded nested)]
  exact foldlM_members versioned encoded strict

end TelemetryForge.Record
