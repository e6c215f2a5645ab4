import TelemetryForge.Wal.Store

/-! # Segments of the abstract log

What a segment file stands for: records that continue one another in sequence numbers and
hashes. -/

namespace TelemetryForge

open Json List

def Record.encoded [FloatText] (record : Record) : Bytes := record.marshal.getD []

def Record.digest [FloatText] (record : Record) : Bytes :=
  if record.formatVersion = Wal.version then record.recordHash else sha256Hex record.encoded

namespace Wal

variable [FloatText]

structure Entry (edgeID : Bytes) (record : Record) : Prop where
  accepts : FrameLog.Accepts maxFrameBytes Record.readFrame record.encoded record
  encodes : record.marshal = some record.encoded
  edge : record.edgeID = edgeID
  text : Utf8.valid edgeID = true
  inRange : record.InRange
  next : record.edgeSequence + 1 < 2 ^ 64
  source : Utf8.valid (sourceKey record.event) = true

theorem encoded_eq {record : Record} {payload : Bytes} (marshal : record.marshal = some payload) :
    record.encoded = payload := by
  rw [Record.encoded, marshal, Option.getD_some]

omit [FloatText] in
theorem sourceKey_reread {event : Event} (stable : event.Stable) :
    sourceKey event.reread = sourceKey event := by
  have tenant : Utf8.coerce event.tenantID = event.tenantID :=
    Utf8.coerce_of_valid (stable.text .tenantID)
  have source : Utf8.coerce event.source = event.source :=
    Utf8.coerce_of_valid (stable.text .source)
  simp only [sourceKey, Event.reread, tenant, source]

omit [FloatText] in
theorem valid_sourceKey {event : Event} (stable : event.Stable) :
    Utf8.valid (sourceKey event) = true := by
  have source : Utf8.valid (0x00 :: event.source) = true :=
    Utf8.valid_append (by decide : Utf8.valid [0x00] = true) (stable.text .source)
  exact Utf8.valid_append (stable.text .tenantID) source

theorem entry_reread {record : Record} {payload : Bytes} (appended : record.Appended payload)
    (readable : record.Readable) (fits : payload.length ≤ maxFrameBytes)
    (next : record.edgeSequence + 1 < 2 ^ 64) :
    Entry record.edgeID record.reread := by
  have again := appended.reread readable
  have read := appended.readFrame_of_readable readable
  have encoded := encoded_eq again.marshal
  have nonempty : payload ≠ [] := by
    rintro rfl
    exact absurd read (by simp [Record.readFrame, Record.decodeFrame, firstValue, readValue])
  have unchanged := appended.reread_eq readable.edgeID readable.topic
  refine ⟨by rw [encoded]; exact ⟨nonempty, fits, read⟩, by rw [encoded]; exact again.marshal, ?_,
    readable.edgeID, ?_, ?_, ?_⟩
  · rw [unchanged]
  · rw [unchanged]
    exact readable.inRange
  · rw [unchanged]
    exact next
  · rw [unchanged]
    change Utf8.valid (sourceKey record.event.reread) = true
    rw [sourceKey_reread readable.event]
    exact valid_sourceKey readable.event

def Chained (before : Nat) (anchor : Bytes) : List Record → Prop
  | [] => True
  | record :: rest =>
    record.edgeSequence = before + 1 ∧
      (record.formatVersion = version → record.previousRecordHash = anchor) ∧
      Chained (before + 1) record.digest rest

def finalHash (anchor : Bytes) (records : List Record) : Bytes :=
  records.foldl (fun _ record => record.digest) anchor

theorem chained_append {before : Nat} {anchor : Bytes} {left right : List Record} :
    Chained before anchor (left ++ right) ↔
      Chained before anchor left ∧
        Chained (before + left.length) (finalHash anchor left) right := by
  induction left generalizing before anchor with
  | nil => simp [Chained, finalHash]
  | cons record rest induction =>
    simp only [cons_append, Chained, induction, length_cons, finalHash,
      foldl_cons, and_assoc, Nat.add_assoc, Nat.add_comm 1]

@[simp] theorem finalHash_append (anchor : Bytes) (left right : List Record) :
    finalHash anchor (left ++ right) = finalHash (finalHash anchor left) right := by
  simp [finalHash]

theorem chained_sequences {before : Nat} {anchor : Bytes} {records : List Record}
    (chained : Chained before anchor records) :
    records.map Record.edgeSequence = List.range' (before + 1) records.length := by
  induction records generalizing before anchor with
  | nil => rfl
  | cons record rest induction =>
    simp [chained.1, induction chained.2.2, range'_succ]

theorem chained_getLast {before : Nat} {anchor : Bytes} {records : List Record}
    (chained : Chained before anchor records) {last : Record}
    (found : records.getLast? = some last) :
    last.edgeSequence = before + records.length ∧ finalHash anchor records = last.digest := by
  rcases eq_nil_or_concat records with rfl | ⟨initial, final, rfl⟩
  · simp at found
  rw [concat_eq_append] at chained found ⊢
  rw [getLast?_concat, Option.some.injEq] at found
  subst found
  have tail := (chained_append.mp chained).2
  simp only [length_append, length_singleton, finalHash_append]
  exact ⟨by rw [tail.1]; omega, rfl⟩

variable {edgeID : Bytes}

theorem Entry.validate {record : Record} (entry : Entry edgeID record) :
    record.validate = .ok () := by
  have read := entry.accepts.read
  unfold Record.readFrame at read
  split at read
  · simp at read
  rename_i decoded found
  cases checked : decoded.validate with
  | error message => simp [checked, Except.map] at read
  | ok done =>
    simp only [checked, Except.map, Except.ok.injEq] at read
    rw [← read]
    exact checked

theorem Entry.valid {record : Record} (entry : Entry edgeID record) : record.Valid :=
  (Record.validate_ok_iff record).mp entry.validate

theorem Entry.recordDigest {record : Record} (entry : Entry edgeID record) :
    record.recordDigest = .ok record.digest := by
  simp only [Record.recordDigest, entry.validate, bind, Except.bind, Record.digest, pure,
    Except.pure, entry.encodes]
  split_ifs <;> rfl

theorem Entry.validSHA256 {record : Record} (entry : Entry edgeID record) :
    validSHA256 record.digest = true := by
  rw [Record.digest]
  split_ifs with current
  · rcases entry.valid.lineage with legacy | lineage
    · rw [legacy.formatVersion] at current
      exact absurd current (by decide)
    · rw [lineage.recordHash]
      exact validSHA256_sha256Hex _
  · exact validSHA256_sha256Hex _

theorem verifyRecords_chained {before : Nat} {anchor : Bytes} {records : List Record}
    (entries : ∀ record ∈ records, Entry edgeID record)
    (chained : Chained before anchor records) (leaves : List Bytes) :
    verifyRecords records anchor leaves =
      .ok (finalHash anchor records, leaves ++ records.map Record.digest) := by
  induction records generalizing before anchor leaves with
  | nil => simp [verifyRecords, finalHash]
  | cons record rest induction =>
    rw [forall_mem_cons] at entries
    have continues : ¬(record.formatVersion = version ∧ record.previousRecordHash ≠ anchor) :=
      fun ⟨current, differs⟩ => differs (chained.2.1 current)
    simp only [verifyRecords, bind, Except.bind, entries.1.validate, entries.1.recordDigest,
      if_neg continues, induction entries.2 chained.2.2]
    simp [finalHash]

def Anchored (anchor : Bytes) : Prop := anchor = [] ∨ validSHA256 anchor = true

theorem anchored_finalHash {anchor : Bytes} {records : List Record}
    (entries : ∀ record ∈ records, Entry edgeID record) (anchored : Anchored anchor) :
    Anchored (finalHash anchor records) := by
  induction records generalizing anchor with
  | nil => exact anchored
  | cons record rest induction =>
    rw [forall_mem_cons] at entries
    exact induction entries.2 (.inr entries.1.validSHA256)

theorem verifyRecordChain_chained {before : Nat} {anchor : Bytes} {records : List Record}
    (entries : ∀ record ∈ records, Entry edgeID record)
    (chained : Chained before anchor records) (anchored : Anchored anchor) :
    verifyRecordChain records anchor =
      .ok (finalHash anchor records, records.map Record.digest) := by
  have passes : ¬(anchor ≠ [] ∧ validSHA256 anchor = false) := by
    rcases anchored with empty | digest
    · simp [empty]
    · simp [digest]
  rw [verifyRecordChain, if_neg passes, verifyRecords_chained entries chained, nil_append]

structure Segment (edgeID : Bytes) where
  before : Nat
  anchor : Bytes
  records : List Record
  entries : ∀ record ∈ records, Entry edgeID record
  chained : Chained before anchor records
  anchored : Anchored anchor
  bound : before + 1 < 2 ^ 64

namespace Segment

variable (segment : Segment edgeID)

def name : Bytes := segmentName (segment.before + 1)

def sealName : Bytes := Wal.sealName (segment.before + 1)

def last : Nat := segment.before + segment.records.length

def hash : Bytes := finalHash segment.anchor segment.records

def bytes : Bytes := segmentHeader ++ FrameLog.frames (segment.records.map Record.encoded)

def fresh (before : Nat) (anchor : Bytes) (anchored : Anchored anchor)
    (bound : before + 1 < 2 ^ 64) : Segment edgeID where
  before := before
  anchor := anchor
  records := []
  entries := by simp
  chained := trivial
  anchored := anchored
  bound := bound

def push (record : Record) (entry : Entry edgeID record)
    (next : record.edgeSequence = segment.last + 1)
    (previous : record.previousRecordHash = segment.hash) : Segment edgeID where
  before := segment.before
  anchor := segment.anchor
  records := segment.records ++ [record]
  entries := by
    rw [List.forall_mem_append]
    exact ⟨segment.entries, by simpa using entry⟩
  chained := chained_append.mpr ⟨segment.chained, next, fun _ => previous, trivial⟩
  anchored := segment.anchored
  bound := segment.bound

theorem sequence_le : ∀ record ∈ segment.records, record.edgeSequence ≤ segment.last := by
  intro record member
  have sequence : record.edgeSequence ∈ segment.records.map Record.edgeSequence :=
    mem_map_of_mem member
  rw [chained_sequences segment.chained, mem_range'_1] at sequence
  simp only [last]
  omega

theorem last_lt : segment.last + 1 < 2 ^ 64 := by
  rcases found : segment.records.getLast? with _ | last
  · rw [getLast?_eq_none_iff] at found
    simpa [Segment.last, found] using segment.bound
  · have next := (segment.entries last (mem_of_getLast? found)).next
    rwa [(chained_getLast segment.chained found).1] at next

theorem anchored_hash : Anchored segment.hash :=
  anchored_finalHash segment.entries segment.anchored

theorem verifyRecordChain : verifyRecordChain segment.records segment.anchor =
    .ok (segment.hash, segment.records.map Record.digest) :=
  verifyRecordChain_chained segment.entries segment.chained segment.anchored

private theorem accepts {records : List Record}
    (entries : ∀ record ∈ records, Entry edgeID record) :
    List.Forall₂ (FrameLog.Accepts maxFrameBytes Record.readFrame)
      (records.map Record.encoded) records := by
  induction records with
  | nil => exact .nil
  | cons record rest induction =>
    rw [forall_mem_cons] at entries
    exact .cons entries.1.accepts (induction entries.2)

theorem scanContent_append (name rest : Bytes) :
    scanContent name (segment.bytes ++ rest) =
      ((FrameLog.scan maxFrameBytes Record.readFrame segment.bytes.length rest).map fun tail =>
        { tail with records := segment.records ++ tail.records }).mapError (frameFailure name) := by
  have small : maxFrameBytes < 2 ^ 32 := by decide
  have header : segmentHeader.length = segmentHeaderBytes := rfl
  rw [bytes, append_assoc, scanContent_header,
    FrameLog.scan_frames small (accepts segment.entries), length_append, header]

theorem scanContent (name : Bytes) {tail : Bytes} (torn : FrameLog.Torn maxFrameBytes tail) :
    ∃ ending, scanContent name (segment.bytes ++ tail) =
      .ok ⟨segment.records, segment.bytes.length, ending⟩ ∧ (ending = .complete ↔ tail = []) := by
  have small : maxFrameBytes < 2 ^ 32 := by decide
  rcases @FrameLog.scan_torn _ _ _ Record.readFrame _ small torn segment.bytes.length with
    ⟨ending, rest, complete⟩
  refine ⟨ending, ?_, complete⟩
  rw [scanContent_append, rest]
  simp [Except.map, Except.mapError]

end Segment

end Wal

end TelemetryForge

/-! ## Sealed segments

The seal of a closed segment: what `sealSegment` signs for it, and that loading the
seal file gives it back and accepts it. -/

namespace TelemetryForge.Wal

open Json Option

variable [FloatText] {edgeID : Bytes}

namespace Segment

def root (segment : Segment edgeID) : Bytes :=
  match Lineage.merkleRoot (segment.records.map Record.digest) with
  | .ok root => root
  | .error _ => []

def firstHash (segment : Segment edgeID) : Bytes :=
  (segment.records.head?.map Record.digest).getD []

variable {segment : Segment edgeID}

theorem merkleRoot_eq (nonempty : segment.records ≠ []) :
    Lineage.merkleRoot (segment.records.map Record.digest) = .ok segment.root ∧
      validSHA256 segment.root = true := by
  have digests : ∀ leaf ∈ segment.records.map Record.digest, validSHA256 leaf = true := by
    simp only [List.forall_mem_map]
    exact fun record member => (segment.entries record member).validSHA256
  rcases Lineage.merkleRoot_of_validSHA256 (by simpa using nonempty) digests with
    ⟨root, found, valid⟩
  rw [Segment.root, found]
  exact ⟨rfl, valid⟩

end Segment

structure SealedSegment (edgeID : Bytes) extends Segment edgeID where
  nonempty : records ≠ []
  previousRoot : Bytes
  rooted : Anchored previousRoot
  sealedAt : Now

namespace SealedSegment

variable (segment : SealedSegment edgeID)

def unsigned : Seal :=
  { Seal.zero with
    edgeID := edgeID
    segment := segment.name
    firstSequence := segment.before + 1
    lastSequence := segment.last
    recordCount := segment.records.length
    firstRecordHash := segment.firstHash
    lastRecordHash := segment.hash
    merkleRoot := segment.root
    previousSegmentRoot := segment.previousRoot
    sealedAt := segment.sealedAt.time }

variable [Ed25519] (secret : Bytes)

def stamp : Seal :=
  let filled : Seal := { segment.unsigned with
    format := Lineage.sealFormat
    formatVersion := Lineage.sealVersion
    algorithm := Lineage.algorithm
    keyID := Lineage.keyID (Ed25519.publicKey secret)
    publicKey := Base64.encode (Ed25519.publicKey secret) }
  { filled with
    signature := Base64.encode (Ed25519.sign secret (filled.canonicalSealPayload.getD [])) }

def sealBytes : Bytes := (segment.stamp secret).marshal.getD []

theorem signSeal : Seal.signSeal secret segment.unsigned = some (segment.stamp secret) := by
  have utc : segment.sealedAt.time.utc = segment.sealedAt.time.civil := by
    rw [Time.utc, if_pos segment.sealedAt.utc]
  have tokens : Seal.utcTokens segment.sealedAt.time.utc =
      some [.string segment.sealedAt.time.utc.utcText] := by
    rw [Seal.utcTokens, if_pos (by rw [utc]; exact segment.sealedAt.year)]
  simp only [Seal.signSeal, stamp, unsigned, Seal.canonicalSealPayload, tokens, map_some,
    getD_some, Seal.zero]

theorem marshal : (segment.stamp secret).marshal = some (segment.sealBytes secret) := by
  have encoded : (segment.stamp secret).sealedAt.marshal ≠ none := by
    change segment.sealedAt.time.marshal ≠ none
    rw [Time.marshal, if_pos segment.sealedAt.encodable]
    simp
  have present : (segment.stamp secret).marshal ≠ none := by
    simpa [Seal.marshal, timeTokens] using encoded
  rcases ne_none_iff_exists'.mp present with ⟨content, found⟩
  rw [sealBytes, found, getD_some]

section

omit [Ed25519]

private theorem head_entry : ∃ first ∈ segment.records.head?, Entry edgeID first ∧
    first.edgeSequence = segment.before + 1 ∧ segment.firstHash = first.digest := by
  have nonempty := segment.nonempty
  rcases records : segment.records with _ | ⟨first, rest⟩
  · exact absurd records nonempty
  have chained := segment.chained
  rw [records] at chained
  refine ⟨first, rfl, segment.entries first (by simp [records]), chained.1, ?_⟩
  simp [Segment.firstHash, records]

theorem validSHA256_hash : validSHA256 segment.hash = true := by
  rcases found : segment.records.getLast? with _ | last
  · exact absurd (List.getLast?_eq_none_iff.mp found) segment.nonempty
  · rw [Segment.hash, (chained_getLast segment.chained found).2]
    exact (segment.entries last (List.mem_of_getLast? found)).validSHA256

theorem validSHA256_firstHash : validSHA256 segment.firstHash = true := by
  rcases segment.head_entry with ⟨first, _, entry, _, equal⟩
  rw [equal]
  exact entry.validSHA256

theorem validSHA256_root : validSHA256 segment.root = true :=
  (Segment.merkleRoot_eq segment.nonempty).2

include segment in
theorem valid_edgeID : Utf8.valid edgeID = true := by
  rcases segment.head_entry with ⟨first, _, entry, _⟩
  exact entry.text

end

theorem portable : (segment.stamp secret).Portable where
  text field := by
    cases field with
    | format => exact (by decide +kernel : Utf8.valid Lineage.sealFormat = true)
    | edgeID => exact segment.valid_edgeID
    | segment => exact Utf8.valid_of_ascii (segmentName_ascii _)
    | firstRecordHash => exact valid_of_validSHA256 segment.validSHA256_firstHash
    | lastRecordHash => exact valid_of_validSHA256 segment.validSHA256_hash
    | merkleRoot => exact valid_of_validSHA256 segment.validSHA256_root
    | previousSegmentRoot =>
      rcases segment.rooted with empty | digest
      · change Utf8.valid segment.previousRoot = true
        rw [empty]
        rfl
      · exact valid_of_validSHA256 digest
    | algorithm => exact (by decide +kernel : Utf8.valid Lineage.algorithm = true)
    | keyID => exact Seal.valid_keyID _
    | publicKey => exact Utf8.valid_of_ascii (Base64.encode_ascii _)
    | signature => exact Utf8.valid_of_ascii (Base64.encode_ascii _)
  count field := by
    have bound := segment.last_lt
    have counted : segment.last = segment.before + segment.records.length := rfl
    have positive := List.length_pos_iff.mpr segment.nonempty
    cases field with
    | firstSequence =>
      change segment.before + 1 < 2 ^ 64
      omega
    | lastSequence => exact Nat.lt_of_succ_lt bound
    | recordCount =>
      change segment.records.length < 2 ^ 64
      omega
  formatVersion := rfl
  utc := segment.sealedAt.utc

theorem readSeal : Seal.readSeal (segment.sealBytes secret) = some (segment.stamp secret) :=
  Seal.readSeal_marshal (segment.portable secret) (segment.marshal secret)

theorem verifySeal {trusted : Option Bytes}
    (trusts : trusted = none ∨ trusted = some (Ed25519.publicKey secret)) :
    (segment.stamp secret).verifySeal trusted = .ok () := by
  rcases segment.head_entry with ⟨first, _, entry, _⟩
  have positive := List.length_pos_iff.mpr segment.nonempty
  have edge : trimSpace edgeID ≠ [] := by
    rw [← entry.edge]
    exact entry.valid.routing.1
  have formed : (segment.stamp secret).Formed :=
    { format := rfl
      formatVersion := rfl
      algorithm := rfl
      identity := ⟨edge, segmentName_visible _⟩
      range := ⟨Nat.succ_ne_zero _, by
        change segment.before + 1 ≤ segment.before + segment.records.length
        omega, by
        change segment.records.length ≠ 0
        omega⟩
      firstRecordHash := segment.validSHA256_firstHash
      lastRecordHash := segment.validSHA256_hash
      merkleRoot := segment.validSHA256_root
      previousSegmentRoot := segment.rooted
      sealedAt := segment.sealedAt.nonzero }
  exact Seal.verifySeal_ok_iff.mpr ⟨formed, Ed25519.publicKey secret,
    Seal.signSeal_eq_some (segment.signSeal secret), trusts⟩

theorem verifySealAgainstRecords : Wal.verifySealAgainstRecords (segment.stamp secret)
    segment.records (segment.records.map Record.digest) = .ok () := by
  rcases segment.head_entry with ⟨first, head, _, sequence, firstHash⟩
  rcases found : segment.records.getLast? with _ | last
  · exact absurd (List.getLast?_eq_none_iff.mp found) segment.nonempty
  have final := chained_getLast segment.chained found
  have lastLeaf : (segment.records.map Record.digest).getLast? = some last.digest := by
    rw [List.getLast?_map, found, map_some]
  have firstLeaf : (segment.records.map Record.digest).head? = some first.digest := by
    rw [List.head?_map, mem_def.mp head, map_some]
  have range : ¬((segment.stamp secret).firstSequence ≠ first.edgeSequence ∨
      (segment.stamp secret).lastSequence ≠ last.edgeSequence ∨
      (segment.stamp secret).recordCount ≠ segment.records.length) := by
    simp only [not_or, not_not]
    exact ⟨sequence.symm, final.1.symm, rfl⟩
  have hashes : ¬((segment.stamp secret).firstRecordHash ≠ first.digest ∨
      (segment.stamp secret).lastRecordHash ≠ last.digest ∨
      (segment.stamp secret).merkleRoot ≠ segment.root) := by
    simp only [not_or, not_not]
    exact ⟨firstHash, final.2, rfl⟩
  simp only [Wal.verifySealAgainstRecords, mem_def.mp head, found, firstLeaf, lastLeaf,
    (Segment.merkleRoot_eq segment.nonempty).1, if_neg range, if_neg hashes]

end SealedSegment

/-! ## The abstract log

What the WAL is for: the sealed segments that are still there, those that compaction has
removed, the segment being written and the committed sequence. -/

open List

structure Position where
  sequence : Nat
  hash : Bytes
  root : Bytes

def Position.origin (base : Nat) : Position := ⟨base, [], []⟩

namespace SealedSegment

def start (segment : SealedSegment edgeID) : Position :=
  ⟨segment.before, segment.anchor, segment.previousRoot⟩

def finish (segment : SealedSegment edgeID) : Position :=
  ⟨segment.last, segment.hash, segment.root⟩

theorem before_lt_last (segment : SealedSegment edgeID) : segment.before < segment.last := by
  have positive := length_pos_iff.mpr segment.nonempty
  simp only [Segment.last]
  omega

end SealedSegment

def Linked (start : Position) : List (SealedSegment edgeID) → Position → Prop
  | [], finish => start = finish
  | segment :: rest, finish => segment.start = start ∧ Linked segment.finish rest finish

theorem linked_append {start finish : Position} {left right : List (SealedSegment edgeID)} :
    Linked start (left ++ right) finish ↔
      ∃ middle, Linked start left middle ∧ Linked middle right finish := by
  induction left generalizing start with
  | nil => simp [Linked]
  | cons segment rest induction =>
    simp only [cons_append, Linked, induction]
    constructor
    · rintro ⟨starts, middle, first, second⟩
      exact ⟨middle, ⟨starts, first⟩, second⟩
    · rintro ⟨middle, ⟨starts, first⟩, second⟩
      exact ⟨starts, middle, first, second⟩

variable {segments : List (SealedSegment edgeID)}

theorem linked_bounds {start finish : Position}
    (linked : Linked start segments finish) : start.sequence ≤ finish.sequence ∧
      ∀ segment ∈ segments, start.sequence ≤ segment.before ∧ segment.last ≤ finish.sequence := by
  induction segments generalizing start with
  | nil =>
    subst linked
    simp
  | cons segment rest induction =>
    rcases linked with ⟨rfl, linked⟩
    rcases induction linked with ⟨later, others⟩
    have grows := segment.before_lt_last
    change segment.last ≤ finish.sequence at later
    have head : segment.start.sequence = segment.before := rfl
    rw [head, forall_mem_cons]
    refine ⟨by omega, ⟨le_refl _, later⟩, ?_⟩
    intro other member
    have bounds := others other member
    change segment.last ≤ other.before ∧ _ at bounds
    omega

theorem linked_finish (property : Position → Prop) {start finish : Position}
    (linked : Linked start segments finish)
    (initial : property start) (step : ∀ segment : SealedSegment edgeID, property segment.finish) :
    property finish := by
  induction segments generalizing start with
  | nil =>
    subst linked
    exact initial
  | cons segment rest induction => exact induction linked.2 (step segment)

def above (committed : Nat) (records : List Record) : List Record :=
  records.filter fun record => committed < record.edgeSequence

section

omit [FloatText]

@[simp] theorem above_append (committed : Nat) (left right : List Record) :
    above committed (left ++ right) = above committed left ++ above committed right :=
  filter_append ..

theorem above_cons_of_lt {committed : Nat} {record : Record}
    (later : committed < record.edgeSequence) (rest : List Record) :
    above committed (record :: rest) = record :: above committed rest :=
  filter_cons_of_pos (by simpa using later)

theorem above_cons_of_le {committed : Nat} {record : Record}
    (old : record.edgeSequence ≤ committed) (rest : List Record) :
    above committed (record :: rest) = above committed rest :=
  filter_cons_of_neg (by simpa using old)

end

/-- What a user of the log can tell about it: the records since sequence `base`, what is
committed, and the last source sequence of each source. -/
structure History where
  base : Nat
  records : List Record
  committed : Nat
  sources : SortedMap Bytes Nat

namespace History

variable (history : History)

def last : Nat := history.base + history.records.length

def uncommitted : List Record := above history.committed history.records

def append (record : Record) : History :=
  { history with
    records := history.records ++ [record]
    sources := history.sources.insert (sourceKey record.event) record.sourceSequence }

def commit (sequence : Nat) : History := { history with committed := sequence }

end History

/-- A log starts after sequence `base`, which is not 0 if the segments of an earlier
format have already been compacted. -/
structure Log (edgeID : Bytes) where
  base : Nat
  bound : base + 1 < 2 ^ 64
  dropped : List (SealedSegment edgeID)
  retained : List (SealedSegment edgeID)
  finish : Position
  linked : Linked (.origin base) (dropped ++ retained) finish
  active : Option (Segment edgeID)
  continues : ∀ segment ∈ active, segment.before = finish.sequence ∧ segment.anchor = finish.hash
  committed : Nat
  settled : ∀ segment ∈ dropped, segment.last ≤ committed
  known : committed ≤ (active.map Segment.last).getD finish.sequence
  sources : SortedMap Bytes Nat
  grounded : base = 0 ∨ dropped ++ retained ≠ [] ∨ ∃ segment ∈ active, segment.records ≠ []

namespace Log

variable (log : Log edgeID)

def sealed : List (SealedSegment edgeID) := log.dropped ++ log.retained

def last : Nat := (log.active.map Segment.last).getD log.finish.sequence

def hash : Bytes := (log.active.map Segment.hash).getD log.finish.hash

def activeRecords : List Record := (log.active.map Segment.records).getD []

def records : List Record :=
  log.sealed.flatMap (fun segment => segment.records) ++ log.activeRecords

def history : History := ⟨log.base, log.records, log.committed, log.sources⟩

theorem finish_facts : log.finish.sequence + 1 < 2 ^ 64 ∧ Anchored log.finish.hash ∧
    Anchored log.finish.root := by
  refine linked_finish (fun position => position.sequence + 1 < 2 ^ 64 ∧
    Anchored position.hash ∧ Anchored position.root) log.linked
    ⟨log.bound, .inl rfl, .inl rfl⟩ ?_
  intro segment
  exact ⟨segment.last_lt, segment.anchored_hash, .inr segment.validSHA256_root⟩

theorem last_eq {segment : Segment edgeID} (active : log.active = some segment) :
    log.last = segment.last := by
  simp [last, active]

theorem last_of_none (active : log.active = none) : log.last = log.finish.sequence := by
  simp [last, active]

private theorem linked_records {start finish : Position} (linked : Linked start segments finish) :
    Chained start.sequence start.hash (segments.flatMap fun segment => segment.records) ∧
      finish.sequence = start.sequence + (segments.flatMap fun segment => segment.records).length ∧
      finalHash start.hash (segments.flatMap fun segment => segment.records) = finish.hash := by
  induction segments generalizing start with
  | nil =>
    subst linked
    simp [Chained, finalHash]
  | cons segment rest induction =>
    rcases linked with ⟨rfl, linked⟩
    rcases induction linked with ⟨chained, length, hash⟩
    simp only [flatMap_cons, length_append, finalHash_append]
    refine ⟨chained_append.mpr ⟨segment.chained, chained⟩, ?_, hash⟩
    rw [length]
    change segment.before + segment.records.length + _ = segment.before + _
    omega

theorem entries : ∀ record ∈ log.records, Entry edgeID record := by
  rw [records, forall_mem_append]
  constructor
  · intro record member
    rcases mem_flatMap.mp member with ⟨segment, _, member⟩
    exact segment.entries record member
  · rw [activeRecords]
    rcases log.active with _ | segment
    · simp
    · exact segment.entries

theorem chained_records : Chained log.base [] log.records ∧ log.history.last = log.last ∧
    finalHash [] log.records = log.hash := by
  rcases linked_records log.linked with ⟨chained, length, hash⟩
  change Chained log.base [] _ at chained
  change _ = log.base + _ at length
  change finalHash [] _ = _ at hash
  simp only [History.last, history, records, sealed, activeRecords, last, Log.hash]
  rcases found : log.active with _ | segment
  · simp only [Option.map_none, Option.getD_none, append_nil]
    exact ⟨chained, length.symm, hash⟩
  · have continues := log.continues segment found
    simp only [Option.map_some, Option.getD_some, length_append, finalHash_append]
    rw [hash, ← continues.2]
    refine ⟨chained_append.mpr ⟨chained, ?_⟩, ?_, rfl⟩
    · rw [hash, ← length, ← continues.1, ← continues.2]
      exact segment.chained
    · rw [Segment.last, continues.1]
      omega

theorem history_known : log.history.committed ≤ log.history.last := by
  rw [log.chained_records.2.1]
  exact log.known

theorem continues_of_history {log other : Log edgeID} (same : other.history = log.history) :
    other.last = log.last ∧ other.hash = log.hash := by
  have records : other.records = log.records := congrArg History.records same
  rw [← other.chained_records.2.1, ← other.chained_records.2.2, same, records]
  exact log.chained_records.2

theorem last_lt : log.last + 1 < 2 ^ 64 := by
  rcases active : log.active with _ | segment
  · rw [log.last_of_none active]
    exact log.finish_facts.1
  · rw [log.last_eq active]
    exact segment.last_lt

/-! ### Changing a log -/

def initial : Log edgeID where
  base := 0
  bound := by decide
  dropped := []
  retained := []
  finish := .origin 0
  linked := rfl
  active := none
  continues := by simp
  committed := 0
  settled := by simp
  known := Nat.zero_le _
  sources := .empty
  grounded := .inl rfl

def start (inactive : log.active = none) : Log edgeID :=
  { log with
    active := some (.fresh log.finish.sequence log.finish.hash log.finish_facts.2.1
      log.finish_facts.1)
    continues := by
      intro segment member
      cases member
      exact ⟨rfl, rfl⟩
    known := by
      have known := log.known
      rw [inactive] at known
      exact known
    grounded := by
      have grounded := log.grounded
      rw [inactive] at grounded
      rcases grounded with zero | sealed | ⟨segment, member, _⟩
      · exact .inl zero
      · exact .inr (.inl sealed)
      · cases member }

def close (segment : Segment edgeID) (active : log.active = some segment)
    (nonempty : segment.records ≠ []) (now : Now) : Log edgeID where
  base := log.base
  bound := log.bound
  dropped := log.dropped
  retained := log.retained ++ [{ segment with
    nonempty := nonempty
    previousRoot := log.finish.root
    rooted := log.finish_facts.2.2
    sealedAt := now }]
  finish := ⟨segment.last, segment.hash, segment.root⟩
  linked := by
    rw [← List.append_assoc]
    refine linked_append.mpr ⟨log.finish, log.linked, ?_, rfl⟩
    have continues := log.continues segment active
    rw [SealedSegment.start, continues.1, continues.2]
  active := none
  continues := by simp
  committed := log.committed
  settled := log.settled
  known := by
    have known := log.known
    rw [active] at known
    exact known
  sources := log.sources
  grounded := .inr (.inl (by simp))

theorem close_active {segment : Segment edgeID} (active : log.active = some segment)
    (nonempty : segment.records ≠ []) (now : Now) :
    (log.close segment active nonempty now).active = none := rfl

section Push

variable {segment : Segment edgeID} (active : log.active = some segment) {record : Record}
  (entry : Entry edgeID record) (next : record.edgeSequence = segment.last + 1)
  (previous : record.previousRecordHash = segment.hash)

include active in
theorem continues_push : ∀ pushed ∈ some (segment.push record entry next previous),
    pushed.before = log.finish.sequence ∧ pushed.anchor = log.finish.hash := by
  intro pushed member
  cases member
  exact log.continues segment active

include active in
theorem known_push : log.committed ≤
    ((some (segment.push record entry next previous)).map Segment.last).getD
      log.finish.sequence := by
  have known := log.known
  rw [active] at known
  simp only [Option.map_some, Option.getD_some, Segment.last, Segment.push,
    length_append] at known ⊢
  omega

theorem grounded_push : log.base = 0 ∨ log.dropped ++ log.retained ≠ [] ∨
    ∃ pushed ∈ some (segment.push record entry next previous), pushed.records ≠ [] :=
  .inr (.inr ⟨_, rfl, by simp [Segment.push]⟩)

end Push

def push (segment : Segment edgeID) (active : log.active = some segment) (record : Record)
    (entry : Entry edgeID record) (next : record.edgeSequence = segment.last + 1)
    (previous : record.previousRecordHash = segment.hash) : Log edgeID :=
  { log with
    active := some (segment.push record entry next previous)
    continues := log.continues_push active entry next previous
    known := log.known_push active entry next previous
    sources := log.sources.insert (sourceKey record.event) record.sourceSequence
    grounded := log.grounded_push entry next previous }

def commit (sequence : Nat) (later : log.committed ≤ sequence) (known : sequence ≤ log.last) :
    Log edgeID :=
  { log with
    committed := sequence
    settled := fun segment member => (log.settled segment member).trans later
    known := known }

def drop (segment : SealedSegment edgeID) (rest : List (SealedSegment edgeID))
    (retained : log.retained = segment :: rest) (done : segment.last ≤ log.committed) :
    Log edgeID :=
  { log with
    dropped := log.dropped ++ [segment]
    retained := rest
    linked := by
      rw [List.append_assoc, List.singleton_append, ← retained]
      exact log.linked
    settled := by
      rw [List.forall_mem_append]
      exact ⟨log.settled, by simpa using done⟩
    grounded := by
      rw [List.append_assoc, List.singleton_append, ← retained]
      exact log.grounded }

@[simp] theorem history_start (inactive : log.active = none) :
    (log.start inactive).history = log.history := by
  simp [history, records, sealed, activeRecords, start, inactive, Segment.fresh]

@[simp] theorem history_close {segment : Segment edgeID} (active : log.active = some segment)
    (nonempty : segment.records ≠ []) (now : Now) :
    (log.close segment active nonempty now).history = log.history := by
  simp [history, records, sealed, activeRecords, close, active]

@[simp] theorem history_push {segment : Segment edgeID} (active : log.active = some segment)
    {record : Record} (entry : Entry edgeID record) (next : record.edgeSequence = segment.last + 1)
    (previous : record.previousRecordHash = segment.hash) :
    (log.push segment active record entry next previous).history = log.history.append record := by
  simp [history, History.append, records, sealed, activeRecords, push, active, Segment.push]

@[simp] theorem history_commit {sequence : Nat} (later : log.committed ≤ sequence)
    (known : sequence ≤ log.last) :
    (log.commit sequence later known).history = log.history.commit sequence := rfl

@[simp] theorem history_drop {segment : SealedSegment edgeID}
    {rest : List (SealedSegment edgeID)} (retained : log.retained = segment :: rest)
    (done : segment.last ≤ log.committed) :
    (log.drop segment rest retained done).history = log.history := by
  simp [history, records, sealed, activeRecords, drop, retained]

/-! ### What compaction leaves -/

def Tidy : Prop :=
  log.committed = log.last →
    log.retained = [] ∨ ∃ segment, log.retained = [segment] ∧ log.activeRecords = []

theorem tidy_of_uncommitted {log : Log edgeID} (uncommitted : log.committed ≠ log.last) :
    log.Tidy := fun all => absurd all uncommitted

theorem tidy_of_appended {history : History} {record : Record}
    (appended : log.history = history.append record) (known : history.committed ≤ history.last) :
    log.Tidy := by
  apply tidy_of_uncommitted
  have committed : log.committed = history.committed := congrArg History.committed appended
  have last : log.last = history.last + 1 := by
    rw [← log.chained_records.2.1, appended]
    simp [History.append, History.last, Nat.add_assoc]
  omega

theorem tidy_start {log : Log edgeID} (tidy : log.Tidy) (inactive : log.active = none) :
    (log.start inactive).Tidy := by
  intro all
  have last : (log.start inactive).last = log.last := by
    rw [log.last_of_none inactive]
    rfl
  rw [last] at all
  refine (tidy all).imp id ?_
  rintro ⟨segment, retained, _⟩
  exact ⟨segment, retained, rfl⟩

theorem tidy_close {log : Log edgeID} (tidy : log.Tidy) {segment : Segment edgeID}
    (active : log.active = some segment) (nonempty : segment.records ≠ []) (now : Now) :
    (log.close segment active nonempty now).Tidy := by
  intro all
  have last : (log.close segment active nonempty now).last = log.last := by
    rw [log.last_eq active]
    rfl
  rw [last] at all
  rcases tidy all with none | ⟨_, _, empty⟩
  · have single : (log.close segment active nonempty now).retained = [_] :=
      congrArg (· ++ [_]) none
    exact .inr ⟨_, single, rfl⟩
  · rw [activeRecords, active] at empty
    exact absurd empty nonempty

theorem last_le {log : Log edgeID} {segment : SealedSegment edgeID}
    (member : segment ∈ log.retained) : segment.last ≤ log.last := by
  have inside := (linked_bounds log.linked).2 segment (mem_append_right _ member)
  rcases active : log.active with _ | current
  · rw [log.last_of_none active]
    exact inside.2
  · have starts := (log.continues current active).1
    have grows : current.before ≤ current.last := Nat.le_add_right _ _
    rw [log.last_eq active]
    omega

theorem tidy_of_later {log : Log edgeID}
    (later : ∀ segment ∈ log.retained, log.committed < segment.last) : log.Tidy := by
  intro all
  left
  rw [eq_nil_iff_forall_not_mem]
  intro segment member
  have beyond := later segment member
  have inside := last_le member
  omega

end Log

end TelemetryForge.Wal
