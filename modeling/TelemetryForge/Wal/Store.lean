import TelemetryForge.Foundation.FrameLog
import TelemetryForge.Foundation.Program
import TelemetryForge.Lineage.Seal
import TelemetryForge.Wal.Checkpoint

/-! # The edge write-ahead log

A store appends records to the last segment of its directory, starts a new segment
when one is full and seals the old one, and removes segments whose records have all
been committed. Opening a directory scans and checks everything that is there.

Sequence numbers are natural numbers: the counter does not wrap. -/

namespace TelemetryForge.Wal

inductive Failure
  | closed
  | diskPressure
  | message (text : String)
  | commitGap (committed requested : Nat)
  | unknownSequence (sequence : Nat)
  | notExist (name : Bytes)
  | alreadyExists (name : Bytes)
  | unexpectedEnd (name : Bytes)
  | invalidHeader (name : Bytes)
  | truncatedHeader (name : Bytes)
  | frameLength (length : Nat)
  | checksumMismatch (name : Bytes) (offset : Nat)
  | invalidRecord (reason : String)
  | invalidName (name : Bytes)
  | foreignSegment (name edgeID expected : Bytes)
  | sequenceGap (previous current : Nat)
  | lineage (name : Bytes) (reason : String)
  | signerMismatch (name found configured : Bytes)
  | rootDiscontinuity (name : Bytes)
  | checkpointAhead (committed recovered : Nat)
  | unreadableSeal (name : Bytes)
  | invalidSeal (name : Bytes) (reason : String)
  | foreignSeal (name edgeID expected : Bytes)
  | sealChainBroken (name : Bytes)
  | sealSequenceGap (name : Bytes)
  | unexpectedPreviousRoot (name : Bytes)
  | sealRange (name : Bytes)
  | sealHash (name : Bytes)
deriving DecidableEq, Repr

structure Config where
  edgeID : Bytes
  segmentSizeBytes : Int
  maxBytes : Int

structure Clock where
  accepted : Now
  sealing : Bytes → Now

structure SegmentMeta where
  path : Bytes
  first : Nat
  last : Nat
  size : Int
  recordCount : Nat
  startPreviousHash : Bytes
  sealPath : Bytes
  sealed : Bool
deriving DecidableEq

structure Store where
  edgeID : Bytes
  segmentBytes : Int
  maxBytes : Int
  segments : List SegmentMeta
  current : Option Bytes
  currentSize : Int
  totalBytes : Int
  nextSequence : Nat
  sourceSequence : SortedMap Bytes Nat
  committed : Nat
  failed : Option Failure
  pressure : Bool
  closed : Bool
  signer : Bytes
  lastLineageHash : Bytes
  lastSegmentRoot : Bytes
  sealedSegments : Nat

def segmentHeader : Bytes := ascii "TFWAL001"

def segmentHeaderBytes : Nat := 8

def maxFrameBytes : Nat := 1073741824

abbrev Call := Program Store Directory Failure

open Json Program

variable [FloatText]

structure Scanned where
  records : List Record
  size : Nat
  truncated : Bool

def frameFailure (name : Bytes) : FrameLog.Fault String → Failure
  | .length length => .frameLength length
  | .checksum offset => .checksumMismatch name offset
  | .rejected reason => .invalidRecord reason

def scanContent (name content : Bytes) : Except Failure (FrameLog.Scan Record) :=
  if content.length < segmentHeaderBytes then .error (.unexpectedEnd name)
  else if content.take segmentHeaderBytes ≠ segmentHeader then .error (.invalidHeader name)
  else
    (FrameLog.scan maxFrameBytes Record.readFrame segmentHeaderBytes
      (content.drop segmentHeaderBytes)).mapError (frameFailure name)

theorem scanContent_header (name rest : Bytes) :
    scanContent name (segmentHeader ++ rest) =
      (FrameLog.scan maxFrameBytes Record.readFrame segmentHeaderBytes rest).mapError
        (frameFailure name) := by
  have header : segmentHeader.length = segmentHeaderBytes := rfl
  have long : ¬(segmentHeader ++ rest).length < segmentHeaderBytes := by
    rw [List.length_append]
    omega
  rw [scanContent, if_neg long, List.take_left' header, if_neg (by simp), List.drop_left' header]

def scanSegment (name : Bytes) (recoverTail : Bool) : Call Scanned := do
  let disk ← getDisk
  match disk.segments.find? name with
  | none => fail (.notExist name)
  | some file =>
    match scanContent name file.content with
    | .error failure => fail failure
    | .ok scan =>
      if scan.ending = .complete then
        pure ⟨scan.records, file.content.length, false⟩
      else if recoverTail then do
        write fun disk => disk.changeFile name (File.truncate scan.size)
        pure ⟨scan.records, scan.size, true⟩
      else if scan.ending = .tornHeader then fail (.truncatedHeader name)
      else fail (.unexpectedEnd name)

def createSegment (firstSequence : Nat) : Call Unit := do
  let disk ← getDisk
  let name := segmentName firstSequence
  if (disk.segments.find? name).isSome then fail (.alreadyExists name)
  else do
    write fun disk => disk.createFile name
    write fun disk => disk.changeFile name (File.append segmentHeader)
    write fun disk => disk.changeFile name File.sync
    modify fun store => { store with
      current := some name
      currentSize := segmentHeaderBytes
      totalBytes := store.totalBytes + segmentHeaderBytes
      segments := store.segments ++ [{
        path := name, first := 0, last := 0, size := segmentHeaderBytes, recordCount := 0,
        startPreviousHash := store.lastLineageHash, sealPath := sealPathForSegment name,
        sealed := false }] }

def verifySealAgainstRecords (stamp : Seal) (records : List Record) (leaves : List Bytes) :
    Except Failure Unit :=
  match records.head?, records.getLast?, leaves.head?, leaves.getLast? with
  | some first, some last, some firstLeaf, some lastLeaf =>
    match Lineage.merkleRoot leaves with
    | .error reason => .error (.message reason)
    | .ok root =>
      if stamp.firstSequence ≠ first.edgeSequence ∨ stamp.lastSequence ≠ last.edgeSequence ∨
          stamp.recordCount ≠ records.length then .error (.sealRange stamp.segment)
      else if stamp.firstRecordHash ≠ firstLeaf ∨ stamp.lastRecordHash ≠ lastLeaf ∨
          stamp.merkleRoot ≠ root then .error (.sealHash stamp.segment)
      else .ok ()
  | _, _, _, _ => .error (.message "sealed WAL segment contains no records")

variable [Ed25519]

def unsignedSeal (store : Store) (name : Bytes) (records : List Record) (first last : Record)
    (firstHash lastHash root : Bytes) (now : Now) : Seal :=
  { Seal.zero with
    edgeID := store.edgeID
    segment := name
    firstSequence := first.edgeSequence
    lastSequence := last.edgeSequence
    recordCount := records.length
    firstRecordHash := firstHash
    lastRecordHash := lastHash
    merkleRoot := root
    previousSegmentRoot := store.lastSegmentRoot
    sealedAt := now.time }

/-- `WriteSeal`, which does not overwrite. -/
def writeSeal (name : Bytes) (stamp : Seal) : Call Unit := do
  let disk ← getDisk
  match stamp.marshal with
  | none => fail (.message "json: unsupported value")
  | some content =>
    if (disk.seals.find? name).isSome then fail (.alreadyExists name)
    else write fun disk => disk.putSeal name content

def sealSegment (index : Nat) (segment : SegmentMeta) (clock : Clock) : Call Unit := do
  if segment.recordCount = 0 ∨ segment.sealed then pure ()
  else do
    let scanned ← scanSegment segment.path false
    match verifyRecordChain scanned.records segment.startPreviousHash with
    | .error reason => fail (.message reason)
    | .ok (finalHash, leaves) =>
      match scanned.records.head?, scanned.records.getLast?, leaves.head? with
      | some first, some last, some firstHash =>
        match Lineage.merkleRoot leaves with
        | .error reason => fail (.message reason)
        | .ok root => do
          let store ← getState
          match Seal.signSeal store.signer (unsignedSeal store segment.path
            scanned.records first last firstHash finalHash root
            (clock.sealing segment.path)) with
          | none => fail (.message "json: unsupported value")
          | some stamp => do
            writeSeal segment.sealPath stamp
            modify fun store => { store with
              segments := store.segments.set index { segment with sealed := true }
              lastSegmentRoot := root
              sealedSegments := store.sealedSegments + 1 }
      | _, _, _ => pure ()

def sealLast (clock : Clock) : Call Unit := do
  let store ← getState
  match store.segments.getLast? with
  | none => pure ()
  | some segment => sealSegment (store.segments.length - 1) segment clock

def rotate (next : Nat) (clock : Clock) : Call Unit := do
  let store ← getState
  match store.current with
  | none => createSegment next
  | some name => do
    write fun disk => disk.changeFile name File.sync
    modify fun store => { store with current := none }
    sealLast clock
    createSegment next

def sourceKey (event : Event) : Bytes := event.tenantID ++ 0x00 :: event.source

def Store.fail (failure : Failure) (store : Store) : Store :=
  if store.failed = none then { store with failed := some failure } else store

section

omit [Ed25519]

def Store.nextRecord (store : Store) (topic : Bytes) (event : Event) (hash : Bytes) (now : Now) :
    Record :=
  let record : Record := {
    format := format
    formatVersion := version
    edgeID := store.edgeID
    topic := topic
    edgeSequence := store.nextSequence
    sourceSequence := store.sourceSequence.getD (sourceKey event) 0 + 1
    acceptedAt := now.time
    payloadSHA256 := hash
    lineageVersion := lineageVersion
    previousRecordHash := store.lastLineageHash
    recordHash := []
    event := event }
  { record with recordHash := record.computeRecordHash }

/-- The JSON of a record, unless no segment could hold it. -/
def Store.encodeRecord (store : Store) (record : Record) : Except Failure (Record × Bytes) :=
  match record.marshal with
  | none => .error (.message "encode WAL record")
  | some payload =>
    if (FrameLog.headerBytes + payload.length + segmentHeaderBytes : Nat) > store.segmentBytes then
      .error (.message "WAL record is larger than configured segment size")
    else .ok (record, payload)

def Store.prepare (store : Store) (topic : Bytes) (event : Event) (now : Now) :
    Except Failure (Record × Bytes) :=
  if store.closed then .error .closed
  else
    match store.failed with
    | some failure => .error failure
    | none =>
      if trimSpace topic = [] then .error (.message "topic is required")
      else
        match event.validate with
        | .error reason => .error (.message reason)
        | .ok () =>
          match Record.eventHash event with
          | .error reason => .error (.message reason)
          | .ok hash => store.encodeRecord (store.nextRecord topic event hash now)

end

section

omit [FloatText] [Ed25519]

def writeFrame (payload : Bytes) : Call Unit := do
  let store ← getState
  match store.current with
  | none => fail (.message "write WAL frame header")
  | some name => do
    write fun disk => disk.changeFile name (File.append
      (bigEndian32 payload.length ++ bigEndian32 (Crc32.checksumIEEE payload)))
    write fun disk => disk.changeFile name (File.append payload)
    write fun disk => disk.changeFile name File.sync

def Store.noteAppended (store : Store) (record : Record) (frameBytes : Nat) : Store :=
  let size := store.currentSize + frameBytes
  { store with
    currentSize := size
    totalBytes := store.totalBytes + frameBytes
    segments := store.segments.modify (store.segments.length - 1) fun segment => { segment with
      size := size
      first := if segment.recordCount = 0 then record.edgeSequence else segment.first
      last := record.edgeSequence
      recordCount := segment.recordCount + 1 }
    nextSequence := store.nextSequence + 1
    sourceSequence := store.sourceSequence.insert (sourceKey record.event) record.sourceSequence
    lastLineageHash := record.recordHash }

def writeRecord (record : Record) (payload : Bytes) : Call Record := do
  (writeFrame payload).noting Store.fail
  modify fun store => store.noteAppended record (FrameLog.headerBytes + payload.length)
  return record

def underPressure : Call Record := do
  modify fun store => { store with pressure := true }
  fail .diskPressure

end

def append (topic : Bytes) (event : Event) (clock : Clock) : Call Record := do
  let store ← getState
  match store.prepare topic event clock.accepted with
  | .error failure => fail failure
  | .ok (record, payload) =>
    let frameBytes := FrameLog.headerBytes + payload.length
    if store.totalBytes + frameBytes > store.maxBytes then underPressure
    else if store.currentSize + frameBytes > store.segmentBytes ∧
        store.currentSize > segmentHeaderBytes then
      if store.totalBytes + segmentHeaderBytes + frameBytes > store.maxBytes then underPressure
      else do
        (rotate record.edgeSequence clock).noting Store.fail
        writeRecord record payload
    else writeRecord record payload

omit [FloatText] [Ed25519] in
/-- Add the records above `committed` to `result`; the flag tells that the limit is
reached. -/
def takePending (committed : Nat) (limit : Int) : List Record → List Record → List Record × Bool
  | [], result => (result, false)
  | record :: rest, result =>
    if record.edgeSequence ≤ committed then takePending committed limit rest result
    else if 0 < limit ∧ limit ≤ ((result ++ [record]).length : Int) then
      (result ++ [record], true)
    else takePending committed limit rest (result ++ [record])

omit [Ed25519] in
def pendingFrom (committed : Nat) (limit : Int) :
    List SegmentMeta → List Record → Call (List Record)
  | [], result => pure result
  | segment :: rest, result => do
    let scanned ← scanSegment segment.path false
    let (result, full) := takePending committed limit scanned.records result
    if full then pure result else pendingFrom committed limit rest result

omit [Ed25519] in
def pending (limit : Int) : Call (List Record) := do
  let store ← getState
  if store.closed then fail .closed
  else
    match store.failed with
    | some failure => fail failure
    | none => pendingFrom store.committed limit store.segments []

section

omit [FloatText] [Ed25519]

def writeCheckpoint (sequence : Nat) : Call Unit := do
  let store ← getState
  write fun disk => disk.putCheckpoint
    (Checkpoint.marshal ⟨format, checkpointVersion, sequence, store.sourceSequence⟩)

def compactFrom (currentPath : Bytes) : List SegmentMeta → Call (List SegmentMeta)
  | [] => pure []
  | segment :: rest => do
    let store ← getState
    if segment.path ≠ currentPath ∧ segment.recordCount > 0 ∧ segment.last ≤ store.committed then do
      write fun disk => disk.removeFile segment.path
      modify fun store => { store with totalBytes := store.totalBytes - segment.size }
      compactFrom currentPath rest
    else do
      let kept ← compactFrom currentPath rest
      return segment :: kept

def compact : Call Unit := do
  let store ← getState
  match store.segments.getLast? with
  | none => pure ()
  | some last =>
    if store.segments.length ≤ 1 then pure ()
    else do
      let kept ← compactFrom last.path store.segments
      modify fun store => { store with
        segments := kept
        pressure := if store.totalBytes < store.maxBytes then false else store.pressure }

def commit (sequence : Nat) : Call Unit := do
  let store ← getState
  if store.closed then fail .closed
  else
    match store.failed with
    | some failure => fail failure
    | none =>
      if sequence ≤ store.committed then pure ()
      else if sequence ≠ store.committed + 1 then fail (.commitGap store.committed sequence)
      else if sequence ≥ store.nextSequence then fail (.unknownSequence sequence)
      else do
        (writeCheckpoint sequence).noting Store.fail
        modify fun store => { store with committed := sequence }
        compact.noting Store.fail

def ready (store : Store) : Except Failure Unit :=
  if store.closed then .error .closed
  else
    match store.failed with
    | some failure => .error failure
    | none =>
      if store.pressure ∨ store.totalBytes ≥ store.maxBytes then .error .diskPressure else .ok ()

end

structure Stats where
  segments : Nat
  bytes : Int
  maxBytes : Int
  pendingRecords : Nat
  committedSequence : Nat
  lastSequence : Nat
  lineageKeyID : Bytes
  sealedSegments : Nat
  lastRecordHash : Bytes
  lastSegmentRoot : Bytes

omit [FloatText] in
def stats (store : Store) : Stats :=
  let last := store.nextSequence - 1
  { segments := store.segments.length
    bytes := store.totalBytes
    maxBytes := store.maxBytes
    pendingRecords := if last > store.committed then last - store.committed else 0
    committedSequence := store.committed
    lastSequence := last
    lineageKeyID := Lineage.keyID (Ed25519.publicKey store.signer)
    sealedSegments := store.sealedSegments
    lastRecordHash := store.lastLineageHash
    lastSegmentRoot := store.lastSegmentRoot }

def close (clock : Clock) : Call Unit := do
  let store ← getState
  if store.closed then pure ()
  else do
    modify fun store => { store with closed := true }
    match store.current with
    | none => pure ()
    | some name => do
      write fun disk => disk.changeFile name File.sync
      modify fun store => { store with current := none }
      sealLast clock

/-! ## Opening a WAL directory

Opening loads the signing key and the checkpoint, checks the chain of seals, scans
every segment against the chain of records and its seal, cuts a torn tail off the last
segment and continues there, or in a new segment if the last one is sealed. -/

omit [FloatText] in
def loadOrCreateSigner (generated : Bytes) : Call Unit := do
  let disk ← getDisk
  match disk.privateKey, disk.publicKey with
  | none, some _ => fail (.message "public key already exists")
  | none, none => do
    write fun disk => { disk with privateKey := some generated }
    write fun disk => { disk with publicKey := some (Ed25519.publicKey generated) }
    modify fun store => { store with signer := generated }
  | some secret, some key =>
    if key ≠ Ed25519.publicKey secret then
      fail (.message "existing lineage public key does not match private key")
    else modify fun store => { store with signer := secret }
  | some secret, none => do
    write fun disk => { disk with publicKey := some (Ed25519.publicKey secret) }
    modify fun store => { store with signer := secret }

omit [FloatText] [Ed25519] in
def loadCheckpoint : Call Unit := do
  let disk ← getDisk
  match disk.checkpoint with
  | none => pure ()
  | some payload =>
    match Checkpoint.unmarshal payload with
    | none => fail (.message "decode WAL checkpoint")
    | some checkpoint =>
      if checkpoint.format ≠ format ∨ checkpoint.formatVersion ≠ checkpointVersion then
        fail (.message "unsupported WAL checkpoint format/version")
      else modify fun store => { store with
        committed := checkpoint.committedSequence
        sourceSequence := store.sourceSequence.insertAll checkpoint.sourceSequences.entries }

omit [FloatText] [Ed25519] in
def checkLink (name : Bytes) (previous : Option Seal) (stamp : Seal) : Except Failure Unit :=
  match previous with
  | some before =>
    if stamp.previousSegmentRoot ≠ before.merkleRoot then .error (.sealChainBroken name)
    else if stamp.firstSequence ≠ before.lastSequence + 1 then .error (.sealSequenceGap name)
    else .ok ()
  | none =>
    if stamp.previousSegmentRoot ≠ [] then .error (.unexpectedPreviousRoot name) else .ok ()

omit [FloatText] in
def loadSeal (store : Store) (name content : Bytes) : Except Failure Seal :=
  match Seal.readSeal content with
  | none => .error (.unreadableSeal name)
  | some stamp =>
    match stamp.verifySeal none with
    | .error reason => .error (.invalidSeal name reason)
    | .ok () =>
      if stamp.edgeID ≠ store.edgeID then
        .error (.foreignSeal name stamp.edgeID store.edgeID)
      else if stamp.keyID ≠ Lineage.keyID (Ed25519.publicKey store.signer) then
        .error (.signerMismatch name stamp.keyID (Lineage.keyID (Ed25519.publicKey store.signer)))
      else .ok stamp

omit [FloatText] in
def loadSealChain (store : Store) : List (Bytes × Bytes) → Option Seal → Except Failure (List Seal)
  | [], _ => .ok []
  | (name, content) :: rest, previous => do
    let stamp ← loadSeal store name content
    checkLink name previous stamp
    let others ← loadSealChain store rest (some stamp)
    return stamp :: others

omit [FloatText] [Ed25519] in
def segmentSequence (name : Bytes) : Except Failure Nat :=
  match parseUint64 (stem name) with
  | some sequence => if sequence = 0 then .error (.invalidName name) else .ok sequence
  | none => .error (.invalidName name)

structure Anchor where
  sequence : Nat
  hash : Bytes
  root : Bytes
  count : Nat

section

omit [FloatText] [Ed25519]

def Anchor.none : Anchor := ⟨0, [], [], 0⟩

def Anchor.pass (first : Nat) (anchor : Anchor) (stamp : Seal) : Anchor :=
  if stamp.lastSequence < first then
    ⟨stamp.lastSequence, stamp.lastRecordHash, stamp.merkleRoot, anchor.count + 1⟩
  else anchor

def anchor (seals : List Seal) (names : List Bytes) : Except Failure Anchor :=
  match names with
  | first :: _ => (segmentSequence first).map fun sequence =>
    seals.foldl (Anchor.pass sequence) Anchor.none
  | [] =>
    match seals.getLast? with
    | some latest =>
      .ok ⟨latest.lastSequence, latest.lastRecordHash, latest.merkleRoot, seals.length⟩
    | none => .ok Anchor.none

def checkRecords (edgeID name : Bytes) : List Record → Nat → Except Failure Nat
  | [], previous => .ok previous
  | record :: rest, previous =>
    if record.edgeID ≠ edgeID then .error (.foreignSegment name record.edgeID edgeID)
    else if previous ≠ 0 ∧ record.edgeSequence ≠ previous + 1 then
      .error (.sequenceGap previous record.edgeSequence)
    else checkRecords edgeID name rest record.edgeSequence

def SegmentMeta.note (segment : SegmentMeta) (record : Record) : SegmentMeta :=
  { segment with
    first := if segment.first = 0 then record.edgeSequence else segment.first
    last := record.edgeSequence }

def noteSource (sources : SortedMap Bytes Nat) (record : Record) : SortedMap Bytes Nat :=
  if record.sourceSequence > sources.getD (sourceKey record.event) 0 then
    sources.insert (sourceKey record.event) record.sourceSequence
  else sources

end

omit [FloatText] in
def checkSeal (store : Store) (name : Bytes) (records : List Record) (leaves : List Bytes)
    (stamp : Seal) : Except Failure Unit :=
  if stamp.keyID ≠ Lineage.keyID (Ed25519.publicKey store.signer) then
    .error (.signerMismatch name stamp.keyID (Lineage.keyID (Ed25519.publicKey store.signer)))
  else if stamp.previousSegmentRoot ≠ store.lastSegmentRoot then
    .error (.rootDiscontinuity name)
  else verifySealAgainstRecords stamp records leaves

omit [FloatText] [Ed25519] in
def sealFor (seals : List Seal) (name : Bytes) : Option Seal :=
  seals.reverse.find? fun stamp => stamp.segment = name

omit [FloatText] [Ed25519] in
def Store.noteSegment (store : Store) (name : Bytes) (scanned : Scanned) (finalHash : Bytes)
    (stamp : Option Seal) : Store :=
  let segment : SegmentMeta := {
    path := name, first := 0, last := 0, size := scanned.size,
    recordCount := scanned.records.length, startPreviousHash := store.lastLineageHash,
    sealPath := sealPathForSegment name, sealed := stamp.isSome }
  { store with
    sourceSequence := scanned.records.foldl noteSource store.sourceSequence
    lastLineageHash := if scanned.records = [] then store.lastLineageHash else finalHash
    lastSegmentRoot := (stamp.map Seal.merkleRoot).getD store.lastSegmentRoot
    sealedSegments := store.sealedSegments + (if stamp.isSome then 1 else 0)
    segments := store.segments ++ [scanned.records.foldl SegmentMeta.note segment]
    totalBytes := store.totalBytes + scanned.size }

def recoverSegment (seals : List Seal) (name : Bytes) (last : Bool) (previous : Nat) :
    Call Nat := do
  let scanned ← scanSegment name last
  let store ← getState
  match checkRecords store.edgeID name scanned.records previous with
  | .error failure => fail failure
  | .ok previous =>
    match verifyRecordChain scanned.records store.lastLineageHash with
    | .error reason => fail (.lineage name reason)
    | .ok (finalHash, leaves) =>
      match sealFor seals name with
      | none => do
        modify fun store => store.noteSegment name scanned finalHash none
        return previous
      | some stamp =>
        match checkSeal store name scanned.records leaves stamp with
        | .error failure => fail failure
        | .ok () => do
          modify fun store => store.noteSegment name scanned finalHash (some stamp)
          return previous

def recoverSegments (seals : List Seal) : List Bytes → Nat → Call Nat
  | [], previous => pure previous
  | name :: rest, previous => do
    let previous ← recoverSegment seals name rest.isEmpty previous
    recoverSegments seals rest previous

def sealPredecessor (clock : Clock) (index : Nat) : Call Unit := do
  let store ← getState
  match store.segments[index]? with
  | none => pure ()
  | some segment => sealSegment index segment clock

def resume (clock : Clock) : Call Unit := do
  let store ← getState
  match store.segments.getLast? with
  | none => createSegment store.nextSequence
  | some last => do
    forEach (sealPredecessor clock) (List.range (store.segments.length - 1))
    let scanned ← scanSegment last.path false
    let legacyLast := scanned.records.any fun record => record.formatVersion = legacyVersion
    if last.sealed ∨ (legacyLast ∧ last.recordCount > 0) then do
      sealSegment (store.segments.length - 1) last clock
      createSegment store.nextSequence
    else modify fun store => { store with
      current := some last.path
      currentSize := last.size }

omit [FloatText] [Ed25519] in
def settle (names : List Bytes) (previous : Nat) : Call Unit := do
  modify fun store => { store with
    nextSequence := if previous > 0 then previous + 1 else store.nextSequence }
  modify fun store => { store with
    nextSequence :=
      if store.committed ≥ store.nextSequence then store.committed + 1 else store.nextSequence }
  let store ← getState
  if store.committed > previous ∧ previous ≠ 0 ∧ names ≠ [] then
    fail (.checkpointAhead store.committed previous)
  else pure ()

def recover (clock : Clock) : Call Unit := do
  let disk ← getDisk
  let store ← getState
  let seals ← lift (loadSealChain store disk.seals.entries none)
  let names := disk.segments.entries.map Prod.fst
  let start ← lift (anchor seals names)
  modify fun store => { store with
    lastLineageHash := start.hash
    lastSegmentRoot := start.root
    sealedSegments := start.count }
  let previous ← recoverSegments seals names start.sequence
  settle names previous
  resume clock

section

omit [FloatText] [Ed25519]

def defaultSegmentBytes : Int := 67108864

def defaultMaxBytes : Int := 4294967296

def Config.segmentBytes (config : Config) : Int :=
  if config.segmentSizeBytes ≤ segmentHeaderBytes + FrameLog.headerBytes then defaultSegmentBytes
  else config.segmentSizeBytes

def Config.maximum (config : Config) : Int :=
  if config.maxBytes ≤ 0 then defaultMaxBytes else config.maxBytes

def Config.initial (config : Config) : Store where
  edgeID := trimSpace config.edgeID
  segmentBytes := config.segmentBytes
  maxBytes := config.maximum
  segments := []
  current := none
  currentSize := 0
  totalBytes := 0
  nextSequence := 1
  sourceSequence := .empty
  committed := 0
  failed := none
  pressure := false
  closed := false
  signer := []
  lastLineageHash := []
  lastSegmentRoot := []
  sealedSegments := 0

def Config.check (config : Config) : Except Failure Unit :=
  if trimSpace config.edgeID = [] then .error (.message "edge ID is required")
  else if config.maximum < config.segmentBytes then
    .error (.message "WAL max bytes must be at least one segment")
  else .ok ()

end

def load (config : Config) (generated : Bytes) (clock : Clock) : Call Unit := do
  lift config.check
  loadOrCreateSigner generated
  loadCheckpoint
  recover clock

def openStore (config : Config) (generated : Bytes) (clock : Clock) (disk : Directory) :
    Outcome Store Directory Failure Unit :=
  load config generated clock config.initial disk

end TelemetryForge.Wal
