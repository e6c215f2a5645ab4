import TelemetryForge.Wal.Record

/-! # Records that can be read back

`readFrame` is what a segment scan does with the bytes of one frame. -/

namespace TelemetryForge

open Json List

theorem hexDecode_ascii {text decoded : Bytes} (hex : hexDecode text = some decoded) :
    ∀ byte ∈ text, byte < 0x80 := by
  induction text using hexDecode.induct generalizing decoded with
  | case1 => simp
  | case2 => simp [hexDecode] at hex
  | case3 high low rest induction =>
    simp only [hexDecode, bind, Option.bind_eq_some_iff] at hex
    rcases hex with ⟨highValue, highHex, lowValue, lowHex, others, restHex, _⟩
    have digit : ∀ byte : UInt8, (hexValue byte).isSome = true → byte < 0x80 := by
      decide +kernel
    simp only [forall_mem_cons]
    exact ⟨digit high (by simp [highHex]), digit low (by simp [lowHex]), induction restHex⟩

theorem valid_of_validSHA256 {text : Bytes} (digest : validSHA256 text = true) :
    Utf8.valid text = true := by
  unfold validSHA256 at digest
  split at digest
  · rename_i decoded hex
    exact Utf8.valid_of_ascii (hexDecode_ascii hex)
  · simp at digest

theorem valid_sha256Hex (text : Bytes) : Utf8.valid (sha256Hex text) = true :=
  valid_of_validSHA256 (validSHA256_sha256Hex text)

namespace Record

variable [FloatText]

def payloadNesting : Nat := 9998

def decodeFrame (payload : Bytes) : Option Record :=
  (firstValue payload).bind fun read => decode true read.1

def readFrame (payload : Bytes) : Except String Record :=
  match decodeFrame payload with
  | none => .error "json: cannot decode WAL record"
  | some record => record.validate.map fun _ => record

structure Appended (record : Record) (payload : Bytes) : Prop where
  valid : record.Valid
  lineage : record.CurrentLineage
  utc : record.acceptedAt.offset = 0
  marshal : record.marshal = some payload

structure Readable (record : Record) : Prop where
  inRange : record.InRange
  nesting : record.event.NestsWithin payloadNesting
  edgeID : Utf8.valid record.edgeID = true
  topic : Utf8.valid record.topic = true
  event : record.event.Stable
  timestamp : record.event.timestamp.reread.isZero = false

instance (record : Record) : Decidable record.Readable :=
  decidable_of_iff (record.InRange ∧ record.event.NestsWithin payloadNesting ∧
    Utf8.valid record.edgeID = true ∧ Utf8.valid record.topic = true ∧ record.event.Stable ∧
    record.event.timestamp.reread.isZero = false)
    ⟨fun ⟨inRange, nesting, edgeID, topic, event, timestamp⟩ =>
      ⟨inRange, nesting, edgeID, topic, event, timestamp⟩,
      fun readable => ⟨readable.inRange, readable.nesting, readable.edgeID, readable.topic,
        readable.event, readable.timestamp⟩⟩

variable {record : Record} {payload : Bytes}

theorem decodeFrame_marshal (versioned : record.Versioned)
    (marshalled : record.marshal = some payload) {result : Record} :
    decodeFrame payload = some result ↔
      record.event.NestsWithin payloadNesting ∧ record.InRange ∧ record.reread = result := by
  simp only [Record.marshal, Option.map_eq_some_iff] at marshalled
  rcases marshalled with ⟨tokens, found, rfl⟩
  rcases tokens_eq_some.mp found with ⟨acceptedAt, event, encoded, rfl⟩
  have eventWritten := Event.tokens_written encoded.event
  have written := members_written versioned encoded eventWritten
  have eventNesting : IsValue 9999 event ↔ record.event.NestsWithin payloadNesting :=
    Event.isValue_tokens_iff 9997 encoded.event
  have nesting : IsValue maxNestingDepth (structTokens (record.members acceptedAt event)) ↔
      record.event.NestsWithin payloadNesting := by
    rw [← eventNesting]
    constructor
    · intro whole
      refine isValue_of_structTokens _
        (fun entry inside => (written entry inside).value) whole (.event, event) ?_
      simp [members]
    · intro inner
      exact (written_structTokens (members_written versioned encoded
        ⟨eventWritten.formed, inner⟩)).value
  have read := firstValue_render (written_structTokens written) [] (by simp [NumberEnds])
  rw [append_nil] at read
  by_cases nests : record.event.NestsWithin payloadNesting
  · have inner : IsValue maxNestingDepth event := (eventNesting.mpr nests).mono (by decide)
    rw [decodeFrame, read, if_pos (nesting.mpr nests), Option.bind_some,
      decode_members versioned encoded ⟨eventWritten.formed, inner⟩]
    simp [nests]
  · rw [decodeFrame, read, if_neg (fun whole => nests (nesting.mp whole))]
    simp [nests]

theorem decodeFrame_cut (versioned : record.Versioned)
    (marshalled : record.marshal = some payload) {cut : Nat} (short : cut < payload.length) :
    decodeFrame (payload.take cut) = none := by
  simp only [Record.marshal, Option.map_eq_some_iff] at marshalled
  rcases marshalled with ⟨tokens, found, rfl⟩
  rcases tokens_eq_some.mp found with ⟨acceptedAt, event, encoded, rfl⟩
  have written := written_structTokens
    (members_written versioned encoded (Event.tokens_written encoded.event))
  rw [decodeFrame, firstValue_cut written (objectTokens_head _) short, Option.bind_none]

namespace Appended

section

variable (appended : record.Appended payload)
include appended

theorem text_valid
    (edgeID : Utf8.valid record.edgeID = true) (topic : Utf8.valid record.topic = true)
    (field : Text) : Utf8.valid (record.text field) = true := by
  cases field with
  | format =>
    rw [text, appended.valid.format]
    decide +kernel
  | edgeID => exact edgeID
  | topic => exact topic
  | payloadSHA256 =>
    have hash := appended.valid.payload
    unfold eventHash at hash
    split at hash
    · rw [text, ← Except.ok.inj hash]
      exact valid_sha256Hex _
    · simp at hash
  | previousRecordHash =>
    rcases appended.lineage.previousRecordHash with empty | digest
    · rw [text, empty]
      rfl
    · exact valid_of_validSHA256 digest
  | recordHash =>
    rw [text, appended.lineage.recordHash]
    exact valid_sha256Hex _

theorem acceptedAt_reread : record.acceptedAt.reread = record.acceptedAt := by
  have utc := appended.utc
  rcases accepted : record.acceptedAt with ⟨civil, offset, valid⟩
  rw [accepted] at utc
  change offset = 0 at utc
  subst utc
  rfl

theorem reread_eq
    (edgeID : Utf8.valid record.edgeID = true) (topic : Utf8.valid record.topic = true) :
    record.reread = { record with event := record.event.reread } := by
  have texts (field : Text) : Utf8.coerce (record.text field) = record.text field :=
    Utf8.coerce_of_valid (appended.text_valid edgeID topic field)
  simp only [reread, appended.acceptedAt_reread,
    show Utf8.coerce record.format = record.format from texts .format,
    show Utf8.coerce record.edgeID = record.edgeID from texts .edgeID,
    show Utf8.coerce record.topic = record.topic from texts .topic,
    show Utf8.coerce record.payloadSHA256 = record.payloadSHA256 from texts .payloadSHA256,
    show Utf8.coerce record.previousRecordHash = record.previousRecordHash from
      texts .previousRecordHash,
    show Utf8.coerce record.recordHash = record.recordHash from texts .recordHash]

theorem marshal_event :
    ∃ text, record.event.marshal = some text ∧ record.payloadSHA256 = sha256Hex text := by
  have hash := appended.valid.payload
  unfold eventHash at hash
  split at hash
  · rename_i text marshalled
    exact ⟨text, marshalled, (Except.ok.inj hash).symm⟩
  · simp at hash

theorem reread (readable : record.Readable) : record.reread.Appended payload := by
  rcases appended.marshal_event with ⟨text, marshalled, hash⟩
  have again := (Event.marshal_reread_iff marshalled).mpr readable.event
  have material : Record.material { record with event := record.event.reread } =
      record.material := rfl
  rw [appended.reread_eq readable.edgeID readable.topic]
  have lineage : CurrentLineage { record with event := record.event.reread } :=
    ⟨appended.lineage.formatVersion, appended.lineage.lineageVersion,
      appended.lineage.previousRecordHash, by
        rw [computeRecordHash, material]
        exact appended.lineage.recordHash⟩
  refine ⟨⟨appended.valid.format, appended.valid.routing, appended.valid.sequences,
    appended.valid.acceptedAt,
    Event.validate_reread readable.event readable.timestamp appended.valid.event, ?_,
    .inr lineage⟩, lineage, appended.utc, ?_⟩
  · simp only [eventHash, again]
    rw [hash]
  · have tokens := appended.marshal
    simp only [Record.marshal, Option.map_eq_some_iff] at tokens ⊢
    rcases tokens with ⟨tokens, found, rfl⟩
    rcases tokens_eq_some.mp found with ⟨acceptedAt, event, encoded, rfl⟩
    refine ⟨_, tokens_eq_some.mpr ⟨acceptedAt, event, ⟨encoded.acceptedAt, ?_⟩, rfl⟩, rfl⟩
    exact (Event.tokens_reread_iff encoded.event).mpr readable.event

theorem readFrame_of_readable
    (readable : record.Readable) : readFrame payload = .ok record.reread := by
  have decoded := (decodeFrame_marshal appended.valid.versioned appended.marshal).mpr ⟨readable.nesting, readable.inRange, rfl⟩
  have valid := (validate_ok_iff _).mpr (appended.reread readable).valid
  simp [readFrame, decoded, valid, Except.map]

end

end Appended

def digested (record : Record) : Set Bytes :=
  { text | record.event.marshal = some text ∨ record.event.reread.marshal = some text ∨
    text = record.material ∨ text = record.reread.material }

def digestedTexts (record : Record) : List Bytes :=
  record.event.marshal.toList ++ record.event.reread.marshal.toList ++
    [record.material, record.reread.material]

theorem collisionFree_of_nodup
    (distinct : (record.digestedTexts.dedup.map Sha256.sum256).Nodup) :
    CollisionFree record.digested := by
  intro left leftMember right rightMember equal
  have listed : ∀ text ∈ record.digested, text ∈ record.digestedTexts.dedup := by
    intro text member
    change _ ∨ _ ∨ _ ∨ _ at member
    simpa [digestedTexts, or_assoc] using member
  exact inj_on_of_nodup_map distinct (listed left leftMember) (listed right rightMember) equal

section

omit [FloatText]

theorem hashMaterial_written (limit : Nat) (versioned : record.Versioned) :
    ∀ entry ∈ record.hashMaterial, Written limit entry.2 := by
  simp only [hashMaterial, flatten_cons, flatten_nil, forall_mem_append,
    forall_mem_cons, forall_mem_optionalField]
  simp only [written_stringTokens, written_natTokens,
    written_intTokens _ versioned.formatVersion.1, written_intTokens _ versioned.lineageVersion.1,
    implies_true, and_true, not_mem_nil, false_implies]

theorem hashMaterial_of_material {left right : Record} (leftVersioned : left.Versioned)
    (rightVersioned : right.Versioned) (equal : left.material = right.material) :
    left.hashMaterial = right.hashMaterial := by
  have leftWritten := hashMaterial_written maxNestingDepth leftVersioned
  have rightWritten := hashMaterial_written maxNestingDepth rightVersioned
  exact structTokens_injective leftWritten rightWritten
    (render_injective (written_structTokens leftWritten) (written_structTokens rightWritten) equal)

private theorem stringTokens_coerce {text : Bytes}
    (equal : stringTokens (Utf8.coerce text) = stringTokens text) : Utf8.valid text = true := by
  apply valid_of_quote_coerce
  simpa [stringTokens] using equal

private theorem routing_of_material (versioned : record.Versioned)
    (equal : record.reread.material = record.material) :
    Utf8.valid record.edgeID = true ∧ Utf8.valid record.topic = true := by
  have same := hashMaterial_of_material
    (show record.reread.Versioned from ⟨versioned.formatVersion, versioned.lineageVersion⟩)
    versioned equal
  have edgeID := congrArg (fieldTokens MaterialField.edgeID) same
  have topic := congrArg (fieldTokens MaterialField.topic) same
  simp only [hashMaterial, flatten_cons, cons_append, nil_append,
    fieldTokens_cons, reduceCtorEq, if_false, if_true, Option.some.injEq] at edgeID topic
  exact ⟨stringTokens_coerce edgeID, stringTokens_coerce topic⟩

end

theorem Appended.readable_of_readFrame (appended : record.Appended payload)
    (free : CollisionFree record.digested) {result : Record}
    (read : readFrame payload = .ok result) : record.Readable := by
  unfold readFrame at read
  split at read
  · simp at read
  rename_i decoded found
  rcases (decodeFrame_marshal appended.valid.versioned appended.marshal).mp found with ⟨nesting, inRange, rfl⟩
  have checked : record.reread.validate = .ok () := by
    cases outcome : record.reread.validate with
    | error message => simp [outcome, Except.map] at read
    | ok done => rfl
  have valid := (validate_ok_iff _).mp checked
  rcases appended.marshal_event with ⟨text, marshalled, hash⟩
  have stable : record.event.Stable := by
    rw [← Event.marshal_reread_iff marshalled]
    have again := valid.payload
    unfold eventHash at again
    split at again
    · rename_i text' marshalled'
      change record.event.reread.marshal = some text' at marshalled'
      have digest : sha256Hex text' = sha256Hex text := by
        rw [Except.ok.inj again, ← hash]
        change Utf8.coerce record.payloadSHA256 = _
        rw [hash, Utf8.coerce_of_valid (valid_sha256Hex text)]
      rw [marshalled', sha256Hex_injOn free (.inr (.inl marshalled')) (.inl marshalled) digest]
    · simp at again
  have lineage : record.reread.CurrentLineage := by
    rcases valid.lineage with legacy | current
    · have version := appended.lineage.formatVersion
      have other := legacy.formatVersion
      change record.formatVersion = _ at other
      rw [version] at other
      exact absurd other (by decide)
    · exact current
  have routing : Utf8.valid record.edgeID = true ∧ Utf8.valid record.topic = true := by
    refine routing_of_material appended.valid.versioned ?_
    refine sha256Hex_injOn free (.inr (.inr (.inr rfl))) (.inr (.inr (.inl rfl))) ?_
    have digest := lineage.recordHash
    change Utf8.coerce record.recordHash = sha256Hex record.reread.material at digest
    rw [← digest, appended.lineage.recordHash, computeRecordHash,
      Utf8.coerce_of_valid (valid_sha256Hex _)]
  have event := (Event.validate_ok_iff _).mp valid.event
  exact ⟨inRange, nesting, routing.1, routing.2, stable, event.2.2.1⟩

end Record

end TelemetryForge
