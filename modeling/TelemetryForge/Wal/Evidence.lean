import TelemetryForge.Wal.Log

/-! # What a digest proves

Two records that were read from files and have the same digest agree in everything but
the time zone in which `accepted_at` is written, unless SHA-256 collides on the texts
hashed for them. -/

namespace TelemetryForge

open Json List Option

namespace Json

theorem stringTokens_injective {left right : Bytes} (leftValid : Utf8.valid left = true)
    (rightValid : Utf8.valid right = true) (equal : stringTokens left = stringTokens right) :
    left = right := by
  simp only [stringTokens, cons.injEq, Token.string.injEq, and_true] at equal
  rw [← unquote_quote_of_valid leftValid, equal, unquote_quote_of_valid rightValid]

theorem natTokens_injective : Function.Injective natTokens := by
  intro left right equal
  simp only [natTokens, cons.injEq, Token.number.injEq, and_true] at equal
  exact decimal_injective equal

theorem optionalText_injective {left right : Bytes} (leftValid : Utf8.valid left = true)
    (rightValid : Utf8.valid right = true)
    (equal : (if left ≠ [] then some (stringTokens left) else none) =
      if right ≠ [] then some (stringTokens right) else none) : left = right := by
  split_ifs at equal with leftPresent rightPresent rightPresent
  · exact stringTokens_injective leftValid rightValid (some.inj equal)
  · rw [not_not.mp leftPresent, not_not.mp rightPresent]

end Json

namespace Record

variable [FloatText]

/-- Two records agree up to the time zone of `accepted_at`; of the event the JSON is
compared. -/
structure Agrees (left right : Record) : Prop where
  text : ∀ field, left.text field = right.text field
  formatVersion : left.formatVersion = right.formatVersion
  lineageVersion : left.lineageVersion = right.lineageVersion
  edgeSequence : left.edgeSequence = right.edgeSequence
  sourceSequence : left.sourceSequence = right.sourceSequence
  acceptedAt : left.acceptedAt.utc = right.acceptedAt.utc
  event : left.event.marshal = right.event.marshal

omit [FloatText] in
structure Decoded (record : Record) : Prop where
  text : ∀ field, Utf8.valid (record.text field) = true
  acceptedAt : record.acceptedAt.reread = record.acceptedAt

omit [FloatText] in
private theorem Decoded.withText {record : Record} (decoded : record.Decoded) {value : Bytes}
    (valid : Utf8.valid value = true) (field : Text) : (record.withText value field).Decoded where
  text other := by
    by_cases same : other = field
    · subst same
      cases other <;> exact valid
    · have unchanged : (record.withText value field).text other = record.text other := by
        cases field <;> cases other <;> first | rfl | exact absurd rfl same
      rw [unchanged]
      exact decoded.text other
  acceptedAt := by
    have unchanged : (record.withText value field).acceptedAt = record.acceptedAt := by
      cases field <;> rfl
    rw [unchanged]
    exact decoded.acceptedAt

private theorem setField_decoded {strict : Bool} {record next : Record} {field : Field}
    {value : List Lexeme} (decoded : record.Decoded) (formed : ∀ lexeme ∈ value, lexeme.WellFormed)
    (set : setField strict record field value = some next) : next.Decoded := by
  have tokens : ∀ token ∈ value.map Lexeme.token, token.WellFormed := by
    rw [List.forall_mem_map]
    exact fun lexeme member => (formed lexeme member).2
  cases field with
  | text field =>
    rcases Option.map_eq_some_iff.mp set with ⟨text, found, rfl⟩
    exact decoded.withText (decodeString_valid found tokens (decoded.text field)) field
  | formatVersion =>
    rcases Option.map_eq_some_iff.mp set with ⟨_, _, rfl⟩
    exact ⟨decoded.text, decoded.acceptedAt⟩
  | edgeSequence =>
    rcases Option.map_eq_some_iff.mp set with ⟨_, _, rfl⟩
    exact ⟨decoded.text, decoded.acceptedAt⟩
  | sourceSequence =>
    rcases Option.map_eq_some_iff.mp set with ⟨_, _, rfl⟩
    exact ⟨decoded.text, decoded.acceptedAt⟩
  | acceptedAt =>
    rcases Option.map_eq_some_iff.mp set with ⟨time, found, rfl⟩
    refine ⟨decoded.text, ?_⟩
    unfold decodeTime at found
    split at found
    · exact Time.reread_unmarshal found
    · cases found
      exact decoded.acceptedAt
    · cases found
  | lineageVersion =>
    rcases Option.map_eq_some_iff.mp set with ⟨_, _, rfl⟩
    exact ⟨decoded.text, decoded.acceptedAt⟩
  | event =>
    rcases Option.map_eq_some_iff.mp set with ⟨_, _, rfl⟩
    exact ⟨decoded.text, decoded.acceptedAt⟩

theorem decoded_of_readFrame {payload : Bytes} {record : Record}
    (read : readFrame payload = .ok record) : record.Decoded ∧ record.Valid := by
  unfold readFrame at read
  split at read
  · cases read
  rename_i decoded found
  rcases checked : decoded.validate with reason | done
  · rw [checked] at read
    cases read
  · rw [checked] at read
    cases read
    refine ⟨?_, (validate_ok_iff _).mp checked⟩
    rcases bind_eq_some_iff.mp found with ⟨⟨lexemes, rest⟩, value, decode⟩
    have formed := (readValue_sound value).2.2.1
    refine decodeStruct_invariant Decoded decode ⟨?_, rfl⟩ ?_
    · intro field
      cases field <;> rfl
    · intro state field entries next inside decoded set
      exact setField_decoded decoded (fun lexeme member => formed lexeme (inside lexeme member)) set

def leafText (record : Record) : Bytes :=
  if record.formatVersion = Wal.version then record.material else record.encoded

def hashed (record : Record) : Set Bytes :=
  { text | text = record.leafText ∨ record.event.marshal = some text }

theorem digest_eq {record : Record} (valid : record.Valid) :
    record.digest = sha256Hex record.leafText := by
  rw [digest, leafText]
  split_ifs with current
  · rcases valid.lineage with legacy | lineage
    · rw [legacy.formatVersion] at current
      exact absurd current (by decide)
    · exact lineage.recordHash
  · rfl

variable {right left : Record}

private theorem event_of_payload (leftValid : left.Valid)
    (rightValid : right.Valid) {texts : Set Bytes} (free : CollisionFree texts)
    (leftHashed : left.hashed ⊆ texts) (rightHashed : right.hashed ⊆ texts)
    (same : left.payloadSHA256 = right.payloadSHA256) :
    left.event.marshal = right.event.marshal := by
  have leftPayload := leftValid.payload
  have rightPayload := rightValid.payload
  unfold eventHash at leftPayload rightPayload
  split at leftPayload
  · rename_i leftText leftMarshal
    split at rightPayload
    · rename_i rightText rightMarshal
      rw [leftMarshal, rightMarshal, some.injEq]
      apply sha256Hex_injOn free (leftHashed (.inr leftMarshal)) (rightHashed (.inr rightMarshal))
      rw [Except.ok.inj leftPayload, Except.ok.inj rightPayload, same]
    · cases rightPayload
  · cases leftPayload

private theorem agrees_of_material (leftDecoded : left.Decoded)
    (rightDecoded : right.Decoded) (leftValid : left.Valid) (rightValid : right.Valid)
    (leftCurrent : left.CurrentLineage) (rightCurrent : right.CurrentLineage)
    {texts : Set Bytes} (free : CollisionFree texts) (leftHashed : left.hashed ⊆ texts)
    (rightHashed : right.hashed ⊆ texts) (equal : left.material = right.material) :
    left.Agrees right := by
  have same := hashMaterial_of_material leftValid.versioned rightValid.versioned equal
  have tokens (field : MaterialField) := congrArg (fieldTokens field) same
  have edgeID := tokens .edgeID
  have topic := tokens .topic
  have edgeSequence := tokens .edgeSequence
  have sourceSequence := tokens .sourceSequence
  have acceptedAt := tokens .acceptedAt
  have payload := tokens .payloadSHA256
  have previous := tokens .previousRecordHash
  simp only [hashMaterial, flatten_cons, flatten_nil, append_nil, cons_append,
    nil_append, fieldTokens_cons, fieldTokens_optionalField_last, reduceCtorEq, if_false,
    if_true, bne_iff_ne, some.injEq, and_true]
    at edgeID topic edgeSequence sourceSequence acceptedAt payload previous
  have payloads := stringTokens_injective (leftDecoded.text .payloadSHA256)
    (rightDecoded.text .payloadSHA256) payload
  have times : left.acceptedAt.utc = right.acceptedAt.utc := by
    apply Civil.utcText_injective left.acceptedAt.utc_printable right.acceptedAt.utc_printable
    exact stringTokens_injective (Utf8.valid_of_ascii (Civil.utcText_ascii _))
      (Utf8.valid_of_ascii (Civil.utcText_ascii _)) acceptedAt
  refine ⟨?_, by rw [leftCurrent.formatVersion, rightCurrent.formatVersion],
    by rw [leftCurrent.lineageVersion, rightCurrent.lineageVersion],
    natTokens_injective edgeSequence, natTokens_injective sourceSequence, times,
    event_of_payload leftValid rightValid free leftHashed rightHashed payloads⟩
  intro field
  cases field with
  | format => exact leftValid.format.trans rightValid.format.symm
  | edgeID => exact stringTokens_injective (leftDecoded.text .edgeID) (rightDecoded.text .edgeID) edgeID
  | topic => exact stringTokens_injective (leftDecoded.text .topic) (rightDecoded.text .topic) topic
  | payloadSHA256 => exact payloads
  | previousRecordHash =>
    exact optionalText_injective (leftDecoded.text .previousRecordHash)
      (rightDecoded.text .previousRecordHash) previous
  | recordHash =>
    change left.recordHash = right.recordHash
    rw [leftCurrent.recordHash, rightCurrent.recordHash, computeRecordHash, computeRecordHash,
      equal]

def Encodes (record : Record) : Prop := record.marshal = some record.encoded

private theorem members_of_encodes {record : Record} (encodes : record.Encodes) :
    ∃ acceptedAt event, record.Encoded acceptedAt event ∧
      record.encoded = render (structTokens (record.members acceptedAt event)) := by
  rcases map_eq_some_iff.mp encodes with ⟨tokens, found, text⟩
  rcases tokens_eq_some.mp found with ⟨acceptedAt, event, encoded, rfl⟩
  exact ⟨acceptedAt, event, encoded, text.symm⟩

private theorem agrees_of_encoded (leftDecoded : left.Decoded)
    (rightDecoded : right.Decoded) (leftValid : left.Valid) (rightValid : right.Valid)
    (leftLegacy : left.LegacyLineage) (rightLegacy : right.LegacyLineage)
    (leftEncodes : left.Encodes) (rightEncodes : right.Encodes)
    (equal : left.encoded = right.encoded) : left.Agrees right := by
  rcases members_of_encodes leftEncodes with ⟨leftTime, leftEvent, leftEncoded, leftText⟩
  rcases members_of_encodes rightEncodes with ⟨rightTime, rightEvent, rightEncoded, rightText⟩
  have leftWritten := members_written leftValid.versioned leftEncoded
    (Event.tokens_written leftEncoded.event)
  have rightWritten := members_written rightValid.versioned rightEncoded
    (Event.tokens_written rightEncoded.event)
  have same := structTokens_injective leftWritten rightWritten
    (render_injective (written_structTokens leftWritten) (written_structTokens rightWritten)
      (by rw [← leftText, ← rightText, equal]))
  simp only [members, optionalText, textMember, text, leftLegacy.lineageVersion,
    leftLegacy.previousRecordHash, leftLegacy.recordHash, rightLegacy.lineageVersion,
    rightLegacy.previousRecordHash, rightLegacy.recordHash, optionalField, bne_self_eq_false,
    Bool.false_eq_true, if_false, flatten_cons, flatten_nil, append_nil,
    nil_append, cons_append, cons.injEq, Prod.mk.injEq, true_and, and_true] at same
  rcases same with ⟨_, _, edgeID, topic, edgeSequence, sourceSequence, acceptedAt, payload, event⟩
  refine ⟨?_, by rw [leftLegacy.formatVersion, rightLegacy.formatVersion],
    by rw [leftLegacy.lineageVersion, rightLegacy.lineageVersion],
    natTokens_injective edgeSequence, natTokens_injective sourceSequence, ?_, ?_⟩
  · intro field
    cases field with
    | format => exact leftValid.format.trans rightValid.format.symm
    | edgeID =>
      exact stringTokens_injective (leftDecoded.text .edgeID) (rightDecoded.text .edgeID) edgeID
    | topic =>
      exact stringTokens_injective (leftDecoded.text .topic) (rightDecoded.text .topic) topic
    | payloadSHA256 =>
      exact stringTokens_injective (leftDecoded.text .payloadSHA256)
        (rightDecoded.text .payloadSHA256) payload
    | previousRecordHash =>
      exact leftLegacy.previousRecordHash.trans rightLegacy.previousRecordHash.symm
    | recordHash => exact leftLegacy.recordHash.trans rightLegacy.recordHash.symm
  · have leftRead := decodeTime_timeTokens leftEncoded.acceptedAt .zero
    rw [acceptedAt, decodeTime_timeTokens rightEncoded.acceptedAt, rightDecoded.acceptedAt,
      leftDecoded.acceptedAt, some.injEq] at leftRead
    rw [leftRead]
  · rw [Event.marshal, Event.marshal, leftEncoded.event, rightEncoded.event, event]

private theorem material_ne_encoded (leftValid : left.Valid)
    (rightValid : right.Valid) (leftCurrent : left.CurrentLineage)
    (rightLegacy : right.LegacyLineage) (rightEncodes : right.Encodes) :
    left.material ≠ right.encoded := by
  intro equal
  rcases members_of_encodes rightEncodes with ⟨time, event, encoded, text⟩
  have leftWritten := hashMaterial_written (maxNestingDepth + 1) leftValid.versioned
  have rightWritten := members_written rightValid.versioned encoded
    (Event.tokens_written encoded.event)
  have same := render_injective (written_structTokens leftWritten)
    (written_structTokens rightWritten) (by rw [← text, ← equal]; rfl)
  have members := takeObject_structTokens leftWritten
  rw [same, takeObject_structTokens rightWritten, some.injEq] at members
  have version := congrArg (fun entries => (entries.map Prod.snd)[1]?) members
  simp only [Record.members, hashMaterial, textMember, flatten_cons, cons_append,
    nil_append, map_cons, getElem?_cons_succ, getElem?_cons_zero,
    some.injEq, leftCurrent.formatVersion, rightLegacy.formatVersion] at version
  exact absurd version (by decide)

structure Checked (record : Record) : Prop where
  decoded : record.Decoded
  valid : record.Valid
  encodes : record.formatVersion ≠ Wal.version → record.Encodes

private theorem leafText_current {record : Record} (current : record.CurrentLineage) :
    record.leafText = record.material := if_pos current.formatVersion

omit [FloatText] in
private theorem LegacyLineage.other {record : Record} (legacy : record.LegacyLineage) :
    record.formatVersion ≠ Wal.version := by
  rw [legacy.formatVersion]
  decide

private theorem leafText_legacy {record : Record} (legacy : record.LegacyLineage) :
    record.leafText = record.encoded := if_neg legacy.other

theorem agrees_of_digest (leftChecked : left.Checked)
    (rightChecked : right.Checked) {texts : Set Bytes} (free : CollisionFree texts)
    (leftHashed : left.hashed ⊆ texts) (rightHashed : right.hashed ⊆ texts)
    (equal : left.digest = right.digest) : left.Agrees right := by
  rw [digest_eq leftChecked.valid, digest_eq rightChecked.valid] at equal
  have same := sha256Hex_injOn free (leftHashed (.inl rfl)) (rightHashed (.inl rfl)) equal
  rcases leftChecked.valid.lineage with leftLegacy | leftCurrent
  · have leftEncodes := leftChecked.encodes leftLegacy.other
    rw [leafText_legacy leftLegacy] at same
    rcases rightChecked.valid.lineage with rightLegacy | rightCurrent
    · rw [leafText_legacy rightLegacy] at same
      exact agrees_of_encoded leftChecked.decoded rightChecked.decoded leftChecked.valid
        rightChecked.valid leftLegacy rightLegacy leftEncodes
        (rightChecked.encodes rightLegacy.other) same
    · rw [leafText_current rightCurrent] at same
      exact absurd same.symm (material_ne_encoded rightChecked.valid leftChecked.valid
        rightCurrent leftLegacy leftEncodes)
  · rw [leafText_current leftCurrent] at same
    rcases rightChecked.valid.lineage with rightLegacy | rightCurrent
    · rw [leafText_legacy rightLegacy] at same
      exact absurd same (material_ne_encoded leftChecked.valid rightChecked.valid leftCurrent
        rightLegacy (rightChecked.encodes rightLegacy.other))
    · rw [leafText_current rightCurrent] at same
      exact agrees_of_material leftChecked.decoded rightChecked.decoded leftChecked.valid
        rightChecked.valid leftCurrent rightCurrent free leftHashed rightHashed same

theorem digest_of_recordDigest {record : Record} {leaf : Bytes}
    (computed : record.recordDigest = .ok leaf) :
    leaf = record.digest ∧ (record.formatVersion ≠ Wal.version → record.Encodes) := by
  unfold recordDigest at computed
  rcases checked : record.validate with reason | done
  · rw [checked] at computed
    cases computed
  · rw [checked] at computed
    change (if record.formatVersion = Wal.version then _ else _) = _ at computed
    rw [digest]
    split_ifs at computed ⊢ with current
    · cases computed
      exact ⟨rfl, fun other => absurd current other⟩
    · rcases written : record.marshal with _ | payload
      · rw [written] at computed
        cases computed
      · rw [written] at computed
        cases computed
        have encodes : record.Encodes := by rw [Encodes, encoded, written, getD_some]
        refine ⟨by rw [encoded, written, getD_some], fun _ => encodes⟩

end Record

namespace Wal

variable [FloatText]

structure Verified (anchor : Bytes) (records : List Record) (finalHash : Bytes) : Prop where
  checked : ∀ record ∈ records, record.Checked
  chain : verifyRecordChain records anchor = .ok (finalHash, records.map Record.digest)

private theorem verifyRecords_leaves {records : List Record} {anchor finalHash : Bytes}
    {before leaves : List Bytes} (accepted : verifyRecords records anchor before =
      .ok (finalHash, leaves)) :
    leaves = before ++ records.map Record.digest ∧
      ∀ record ∈ records, record.formatVersion ≠ version → record.Encodes := by
  induction records generalizing anchor before with
  | nil =>
    cases accepted
    simp
  | cons record records induction =>
    unfold verifyRecords at accepted
    rcases bind_eq_ok.mp accepted with ⟨_, _, checked⟩
    split_ifs at checked
    · cases checked
    rcases bind_eq_ok.mp checked with ⟨leaf, digest, rest⟩
    rcases Record.digest_of_recordDigest digest with ⟨rfl, encodes⟩
    rcases induction rest with ⟨rfl, others⟩
    refine ⟨by simp, ?_⟩
    rw [forall_mem_cons]
    exact ⟨encodes, others⟩

theorem verified_of_chain {records : List Record} {anchor finalHash : Bytes}
    {leaves : List Bytes} (read : ∀ record ∈ records, ∃ payload,
      Record.readFrame payload = .ok record)
    (accepted : verifyRecordChain records anchor = .ok (finalHash, leaves)) :
    Verified anchor records finalHash ∧ leaves = records.map Record.digest := by
  have chain := accepted
  unfold verifyRecordChain at accepted
  split_ifs at accepted
  rcases verifyRecords_leaves accepted with ⟨rfl, encodes⟩
  refine ⟨⟨?_, chain⟩, nil_append _⟩
  intro record member
  rcases read record member with ⟨payload, read⟩
  rcases Record.decoded_of_readFrame read with ⟨decoded, valid⟩
  exact ⟨decoded, valid, encodes record member⟩

def nodes (records : List Record) : List Bytes :=
  records.map fun record => Sha256.sum256 record.leafText

def evidence (records : List Record) : Set Bytes :=
  { text | (∃ record ∈ records, text ∈ record.hashed) ∨
    ∃ pair ∈ Merkle.combinedPairs Lineage.hashPair (nodes records), text = pair.1 ++ pair.2 }

private theorem mapM_decodeLeaf_digest {records : List Record}
    (valid : ∀ record ∈ records, record.Valid) :
    (records.map Record.digest).mapM Lineage.decodeLeaf = .ok (nodes records) := by
  induction records with
  | nil => rfl
  | cons record records induction =>
    rw [forall_mem_cons] at valid
    have leaf : Lineage.decodeLeaf record.digest = .ok (Sha256.sum256 record.leafText) := by
      rw [Record.digest_eq valid.1, Lineage.decodeLeaf_eq_ok]
      exact ⟨hexDecode_hexEncode _, Sha256.sum256_length _⟩
    simp only [map_cons, mapM_cons, leaf, induction valid.2]
    rfl

private theorem root_nodes {records : List Record} (valid : ∀ record ∈ records, record.Valid)
    {root : Bytes} (computed : Lineage.merkleRoot (records.map Record.digest) = .ok root) :
    ∃ node, Merkle.root Lineage.hashPair (nodes records) = some node ∧ root = hexEncode node := by
  rw [Lineage.merkleRoot, mapM_decodeLeaf_digest valid] at computed
  dsimp only [bind, Except.bind] at computed
  rcases found : Merkle.root Lineage.hashPair (nodes records) with _ | node
  · rw [found] at computed
    cases computed
  · rw [found] at computed
    cases computed
    exact ⟨node, rfl, rfl⟩

private theorem combined_length {records : List Record} {pair : Bytes × Bytes}
    (member : pair ∈ Merkle.combinedPairs Lineage.hashPair (nodes records)) :
    pair.1.length = 32 ∧ pair.2.length = 32 := by
  refine @Merkle.combined_invariant _ Lineage.hashPair _ _ (fun node => node.length = 32)
    (fun left right _ _ => Sha256.sum256_length (left ++ right)) ?_ pair member
  simp [nodes]

theorem agrees_of_root {left right : List Record} (leftChecked : ∀ record ∈ left, record.Checked)
    (rightChecked : ∀ record ∈ right, record.Checked) {texts : Set Bytes}
    (free : CollisionFree texts) (leftEvidence : evidence left ⊆ texts)
    (rightEvidence : evidence right ⊆ texts) (length : left.length = right.length) {root : Bytes}
    (leftRoot : Lineage.merkleRoot (left.map Record.digest) = .ok root)
    (rightRoot : Lineage.merkleRoot (right.map Record.digest) = .ok root) :
    List.Forall₂ Record.Agrees left right := by
  rcases root_nodes (fun record member => (leftChecked record member).valid) leftRoot with
    ⟨leftNode, leftFound, rfl⟩
  rcases root_nodes (fun record member => (rightChecked record member).valid) rightRoot with
    ⟨rightNode, rightFound, same⟩
  have nonempty : nodes left ≠ [] := by
    rintro empty
    rw [empty] at leftFound
    cases leftFound
  have inside : ∀ pair ∈ Merkle.combinedPairs Lineage.hashPair (nodes left) ∪
      Merkle.combinedPairs Lineage.hashPair (nodes right),
      pair.1 ++ pair.2 ∈ texts ∧ pair.1.length = 32 := by
    rintro pair (member | member)
    · exact ⟨leftEvidence (.inr ⟨pair, member, rfl⟩), (combined_length member).1⟩
    · exact ⟨rightEvidence (.inr ⟨pair, member, rfl⟩), (combined_length member).1⟩
  have levels : nodes left = nodes right := by
    apply Merkle.root_injective Lineage.hashPair (by simpa [nodes] using length) ?_ ?_ nonempty
    · intro first firstMember second secondMember equal
      have joined := free (inside first firstMember).1 (inside second secondMember).1 equal
      have parts := append_inj joined
        ((inside first firstMember).2.trans (inside second secondMember).2.symm)
      exact Prod.ext parts.1 parts.2
    · rw [leftFound, rightFound, hexEncode_injective same]
  rw [forall₂_iff_get]
  refine ⟨length, fun index leftBound rightBound => ?_⟩
  have leftMember := get_mem left ⟨index, leftBound⟩
  have rightMember := get_mem right ⟨index, rightBound⟩
  apply Record.agrees_of_digest (leftChecked _ leftMember) (rightChecked _ rightMember) free
    (fun text hashed => leftEvidence (.inl ⟨_, leftMember, hashed⟩))
    (fun text hashed => rightEvidence (.inl ⟨_, rightMember, hashed⟩))
  rw [Record.digest_eq (leftChecked _ leftMember).valid,
    Record.digest_eq (rightChecked _ rightMember).valid, sha256Hex, sha256Hex]
  have entry := congrArg (fun level => level[index]?) levels
  simp only [nodes, getElem?_map, getElem?_eq_getElem leftBound,
    getElem?_eq_getElem rightBound, map_some, some.injEq] at entry
  exact congrArg hexEncode entry

end Wal

end TelemetryForge
