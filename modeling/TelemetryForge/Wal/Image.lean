import TelemetryForge.Wal.Log

/-! # Directories that hold a log

`Image` says that a directory holds a log, up to a torn tail of the segment being written. -/

namespace TelemetryForge.Wal

open Json List SortedMap

variable [FloatText] [Ed25519] {edgeID : Bytes}

section Sources

omit [FloatText] [Ed25519]

theorem getD_noteSource (sources : SortedMap Bytes Nat) (record : Record) (key : Bytes) :
    (noteSource sources record).getD key 0 =
      if key = sourceKey record.event then max record.sourceSequence (sources.getD key 0)
      else sources.getD key 0 := by
  rw [noteSource]
  split_ifs with newer same same
  · subst same
    simp only [SortedMap.getD, SortedMap.find?_insert, if_true, Option.getD_some]
    change _ > sources.getD _ 0 at newer
    change _ = max _ (sources.getD _ 0)
    omega
  · simp only [SortedMap.getD, SortedMap.find?_insert, if_neg same]
  · subst same
    omega
  · rfl

theorem noteSource_of_le {sources : SortedMap Bytes Nat} {record : Record}
    (known : record.sourceSequence ≤ sources.getD (sourceKey record.event) 0) :
    noteSource sources record = sources := by
  rw [noteSource, if_neg (by omega)]

theorem foldl_noteSource_le (records : List Record) (sources : SortedMap Bytes Nat) :
    (∀ key, sources.getD key 0 ≤ (records.foldl noteSource sources).getD key 0) ∧
      ∀ record ∈ records, record.sourceSequence ≤
        (records.foldl noteSource sources).getD (sourceKey record.event) 0 := by
  induction records generalizing sources with
  | nil => simp
  | cons record rest induction =>
    rcases induction (noteSource sources record) with ⟨grows, covered⟩
    simp only [foldl_cons, forall_mem_cons]
    refine ⟨fun key => le_trans ?_ (grows key), le_trans ?_ (grows _), covered⟩
    · rw [getD_noteSource]
      split_ifs <;> omega
    · rw [getD_noteSource, if_pos rfl]
      omega

theorem foldl_noteSource_of_le {records : List Record} {sources : SortedMap Bytes Nat}
    (covered : ∀ record ∈ records,
      record.sourceSequence ≤ sources.getD (sourceKey record.event) 0) :
    records.foldl noteSource sources = sources := by
  induction records with
  | nil => rfl
  | cons record rest induction =>
    rw [forall_mem_cons] at covered
    rw [foldl_cons, noteSource_of_le covered.1, induction covered.2]

theorem foldl_noteSource_above {committed : Nat} {records : List Record}
    {sources : SortedMap Bytes Nat} (settled : ∀ record ∈ records, record.edgeSequence ≤ committed →
      record.sourceSequence ≤ sources.getD (sourceKey record.event) 0) :
    records.foldl noteSource sources = (above committed records).foldl noteSource sources := by
  induction records generalizing sources with
  | nil => rfl
  | cons record rest induction =>
    rw [forall_mem_cons] at settled
    have grows (key : Bytes) : sources.getD key 0 ≤ (noteSource sources record).getD key 0 := by
      rw [getD_noteSource]
      split_ifs <;> omega
    have later := induction (fun other member old =>
      (settled.2 other member old).trans (grows _))
    rw [foldl_cons, later]
    by_cases fresh : committed < record.edgeSequence
    · rw [above_cons_of_lt fresh, foldl_cons]
    · rw [above_cons_of_le (by omega), noteSource_of_le (settled.1 (by omega))]

structure Merges (known : SortedMap Bytes Nat) (history : History) : Prop where
  settled : ∀ record ∈ history.records, record.edgeSequence ≤ history.committed →
    record.sourceSequence ≤ known.getD (sourceKey record.event) 0
  merged : history.uncommitted.foldl noteSource known = history.sources

namespace Merges

variable {known : SortedMap Bytes Nat} {history : History}

section

variable (merges : Merges known history)
include merges

theorem all :
    history.records.foldl noteSource known = history.sources := by
  rw [foldl_noteSource_above merges.settled]
  exact merges.merged

theorem counted : ∀ record ∈ history.records,
    record.sourceSequence ≤ history.sources.getD (sourceKey record.event) 0 := by
  rw [← merges.all]
  exact (foldl_noteSource_le history.records known).2

theorem append {record : Record}
    (later : history.committed < record.edgeSequence)
    (newer : history.sources.getD (sourceKey record.event) 0 < record.sourceSequence) :
    Merges known (history.append record) where
  settled := by
    change ∀ other ∈ history.records ++ [record], _
    rw [forall_mem_append]
    refine ⟨merges.settled, ?_⟩
    intro other member old
    rw [mem_singleton] at member
    subst member
    change other.edgeSequence ≤ history.committed at old
    omega
  merged := by
    have uncommitted : (history.append record).uncommitted = history.uncommitted ++ [record] := by
      rw [History.uncommitted, History.append, above_append]
      exact congrArg _ (above_cons_of_lt later [])
    rw [uncommitted, foldl_append, merges.merged, foldl_cons, foldl_nil, noteSource, if_pos newer]
    rfl

theorem commit (sequence : Nat) :
    Merges history.sources (history.commit sequence) where
  settled record member _ := merges.counted record member
  merged := foldl_noteSource_of_le fun record member =>
    merges.counted record (mem_of_mem_filter member)

end

end Merges

end Sources

def Checkpointed (content : Option Bytes) (history : History) : Prop :=
  ∃ known, PortableSources known ∧ Merges known history ∧
    ((content = none ∧ history.committed = 0 ∧ known = .empty) ∨
      history.committed < 2 ^ 64 ∧ content =
        some (Checkpoint.marshal ⟨format, checkpointVersion, history.committed, known⟩))

namespace Log

variable (log : Log edgeID)

def retainedFiles : List (Bytes × File) :=
  log.retained.map fun segment => (segment.name, ⟨segment.bytes, []⟩)

def files (tail : Bytes) : List (Bytes × File) :=
  log.retainedFiles ++ log.active.toList.map fun segment =>
    (segment.name, ⟨segment.bytes ++ tail, []⟩)

def sealFiles (secret : Bytes) : List (Bytes × Bytes) :=
  log.sealed.map fun segment => (segment.sealName, segment.sealBytes secret)

end Log

structure Image (log : Log edgeID) (tail secret : Bytes) (directory : Directory) : Prop where
  files : directory.segments.entries = log.files tail
  seals : directory.seals.entries = log.sealFiles secret
  checkpoint : Checkpointed directory.checkpoint log.history
  privateKey : directory.privateKey = some secret ∨
    (directory.privateKey = none ∧ directory.publicKey = none ∧ log.sealed = [])
  publicKey : directory.publicKey = none ∨ directory.publicKey = some (Ed25519.publicKey secret)
  torn : FrameLog.Torn maxFrameBytes tail

omit [FloatText] [Ed25519] in
theorem torn_nil : FrameLog.Torn maxFrameBytes [] := FrameLog.torn_nil (by decide)

theorem image_empty (secret : Bytes) : Image (.initial : Log edgeID) [] secret .empty where
  files := rfl
  seals := rfl
  checkpoint := ⟨.empty, by simp [PortableSources, empty],
    ⟨by simp [Log.initial, Log.history, Log.records, Log.sealed, Log.activeRecords], rfl⟩,
    .inl ⟨rfl, rfl, rfl⟩⟩
  privateKey := .inr ⟨rfl, rfl, rfl⟩
  publicKey := .inl rfl
  torn := torn_nil

omit [Ed25519] in
theorem portable_foldl_noteSource {records : List Record}
    (entries : ∀ record ∈ records, Entry edgeID record) {known : SortedMap Bytes Nat}
    (portable : PortableSources known) : PortableSources (records.foldl noteSource known) := by
  induction records generalizing known with
  | nil => exact portable
  | cons record rest induction =>
    rw [forall_mem_cons] at entries
    apply induction entries.2
    rw [noteSource]
    split_ifs
    · exact portable.insert entries.1.source entries.1.inRange.2
    · exact portable

namespace Image

variable {log : Log edgeID} {tail secret : Bytes} {disk : Directory}

section

variable (image : Image log tail secret disk)
include image

theorem find_active {segment : Segment edgeID} (active : log.active = some segment) :
    disk.segments.find? segment.name = some ⟨segment.bytes ++ tail, []⟩ := by
  rw [find?_eq_some_iff, image.files, Log.files, active]
  simp

theorem find_retained {segment : SealedSegment edgeID} (member : segment ∈ log.retained) :
    disk.segments.find? segment.name = some ⟨segment.bytes, []⟩ := by
  rw [find?_eq_some_iff, image.files, Log.files, mem_append]
  exact .inl (mem_map_of_mem member)

theorem names_lt (inactive : log.active = none) :
    ∀ entry ∈ disk.segments.entries, entry.1 < segmentName (log.finish.sequence + 1) := by
  intro entry member
  rw [image.files, Log.files, inactive, Option.toList_none, map_nil, append_nil,
    Log.retainedFiles, mem_map] at member
  rcases member with ⟨segment, member, rfl⟩
  have bounds := (linked_bounds log.linked).2 segment (mem_append_right _ member)
  have grows := segment.before_lt_last
  have small := log.finish_facts.1
  exact segmentName_lt (by omega) (by omega)

theorem sealNames_lt :
    ∀ entry ∈ disk.seals.entries, entry.1 < sealName (log.finish.sequence + 1) := by
  intro entry member
  rw [image.seals, Log.sealFiles, mem_map] at member
  rcases member with ⟨segment, member, rfl⟩
  have bounds := (linked_bounds log.linked).2 segment member
  have grows := segment.before_lt_last
  have small := log.finish_facts.1
  exact sealName_lt (by omega) (by omega)

theorem portable : PortableSources log.sources := by
  rcases image.checkpoint with ⟨known, portable, merges, _⟩
  change PortableSources log.history.sources
  rw [← merges.all]
  exact portable_foldl_noteSource log.entries portable

theorem settled : ∀ entry ∈ disk.segments.entries, entry.2.volatile = [] := by
  rw [image.files, Log.files, Log.retainedFiles, forall_mem_append, forall_mem_map, forall_mem_map]
  exact ⟨fun _ _ => rfl, fun _ _ => rfl⟩

end

end Image

def Headed (disk : Directory) : Prop :=
  ∀ entry ∈ disk.segments.entries, segmentHeaderBytes ≤ entry.2.content.length

/-- After a crash that spares the segment headers the directory holds one of the logs
in `allowed`. -/
def Survives (allowed : Log edgeID → Prop) (disk : Directory) : Prop :=
  ∀ kept, Headed (disk.crash kept) →
    ∃ log tail secret, Image log tail secret (disk.crash kept) ∧ allowed log

omit [FloatText] [Ed25519] in
private theorem crash_settled {files : List (Bytes × File)} (kept : Bytes → Nat)
    (settled : ∀ entry ∈ files, entry.2.volatile = []) :
    files.map (fun entry => (entry.1, entry.2.crash (kept entry.1))) = files := by
  conv_rhs => rw [← map_id files]
  apply map_congr_left
  rintro ⟨name, durable, volatile⟩ member
  have empty : volatile = [] := settled _ member
  simp [File.crash, empty]

omit [FloatText] [Ed25519] in
theorem crash_of_settled {disk : Directory}
    (settled : ∀ entry ∈ disk.segments.entries, entry.2.volatile = [])
    (kept : Bytes → Nat) : disk.crash kept = disk := by
  rcases disk with ⟨⟨files, sorted⟩, seals, checkpoint, privateKey, publicKey⟩
  have same := crash_settled kept settled
  simp only at same
  simp only [Directory.crash, mapValues, same]

namespace Survives

variable {allowed : Log edgeID → Prop} {log : Log edgeID} {tail secret : Bytes}
  {disk : Directory}

theorem of_image (image : Image log tail secret disk) (holds : allowed log) :
    Survives allowed disk := by
  intro kept _
  rw [crash_of_settled image.settled]
  exact ⟨log, tail, secret, image, holds⟩

theorem of_last {name durable volatile : Bytes} {initial : List (Bytes × File)}
    (settled : ∀ entry ∈ initial, entry.2.volatile = [])
    (entries : disk.segments.entries = initial ++ [(name, ⟨durable, volatile⟩)])
    (images : ∀ (cut : Bytes) (segments : SortedMap Bytes File), cut <+: volatile →
      segmentHeaderBytes ≤ (durable ++ cut).length →
      segments.entries = initial ++ [(name, ⟨durable ++ cut, []⟩)] →
      ∃ log tail secret, Image log tail secret { disk with segments } ∧ allowed log) :
    Survives allowed disk := by
  intro kept headed
  have crashed : (disk.crash kept).segments.entries =
      initial ++ [(name, ⟨durable ++ volatile.take (kept name), []⟩)] := by
    simp only [Directory.crash, mapValues, entries, map_append, map_cons,
      map_nil, crash_settled kept settled]
    rfl
  refine images (volatile.take (kept name)) _ (List.take_prefix _ _) ?_ crashed
  have last := headed (name, ⟨durable ++ volatile.take (kept name), []⟩) (by simp [crashed])
  simpa [File.content] using last

end Survives

/-! ## Stores that hold a log -/

open Program

omit [Ed25519] in
def Segment.summary (segment : Segment edgeID) (sealed : Bool) : SegmentMeta where
  path := segment.name
  first := if segment.records = [] then 0 else segment.before + 1
  last := if segment.records = [] then 0 else segment.last
  size := segment.bytes.length
  recordCount := segment.records.length
  startPreviousHash := segment.anchor
  sealPath := segment.sealName
  sealed := sealed

namespace Log

omit [Ed25519]

variable (log : Log edgeID)

def summaries : List SegmentMeta :=
  log.retained.map (fun segment => segment.summary true) ++
    log.active.toList.map fun segment => segment.summary false

def size : Nat :=
  (log.retained.map fun segment => segment.bytes.length).sum +
    (log.active.map fun segment => segment.bytes.length).getD 0

end Log

structure Held (log : Log edgeID) (secret : Bytes) (store : Store) : Prop where
  edge : store.edgeID = edgeID
  segments : store.segments = log.summaries
  totalBytes : store.totalBytes = log.size
  nextSequence : store.nextSequence = log.last + 1
  sources : store.sourceSequence = log.sources
  committed : store.committed = log.committed
  failed : store.failed = none
  signer : store.signer = secret
  hash : store.lastLineageHash = log.hash
  root : store.lastSegmentRoot = log.finish.root
  count : store.sealedSegments = log.sealed.length

structure Writing (log : Log edgeID) (store : Store) : Prop where
  opened : store.closed = false
  active : ∃ segment, log.active = some segment ∧ store.current = some segment.name ∧
    store.currentSize = segment.bytes.length

variable {log : Log edgeID} {secret : Bytes} {store : Store} {disk : Directory}
  {allowed : Log edgeID → Prop}

omit [Ed25519] in
theorem scanSegment_yields {segment : Segment edgeID} {along : Directory → Prop}
    (found : disk.segments.find? segment.name = some ⟨segment.bytes, []⟩) (recoverTail : Bool) :
    Yields (scanSegment segment.name recoverTail) store disk along
      ⟨segment.records, segment.bytes.length, false⟩ store disk := by
  rcases segment.scanContent segment.name torn_nil with ⟨ending, scanned, complete⟩
  rw [List.append_nil] at scanned
  have content : (⟨segment.bytes, []⟩ : File).content = segment.bytes := by simp [File.content]
  apply Ensures.getDisk
  simp only [found, content, scanned, complete.mpr rfl, if_true]
  exact Yields.pure _

omit [Ed25519] in
theorem scanSegment_recovers {segment : Segment edgeID} {tail : Bytes} {along : Directory → Prop}
    (found : disk.segments.find? segment.name = some ⟨segment.bytes ++ tail, []⟩)
    (torn : FrameLog.Torn maxFrameBytes tail) (nonempty : tail ≠ [])
    (passes : along (disk.changeFile segment.name (File.truncate segment.bytes.length))) :
    Yields (scanSegment segment.name true) store disk along
      ⟨segment.records, segment.bytes.length, true⟩ store
      (disk.changeFile segment.name (File.truncate segment.bytes.length)) := by
  rcases segment.scanContent segment.name torn with ⟨ending, scanned, complete⟩
  have content : (⟨segment.bytes ++ tail, []⟩ : File).content = segment.bytes ++ tail := by
    simp [File.content]
  have torn : ending ≠ .complete := fun equal => nonempty (complete.mp equal)
  apply Ensures.getDisk
  simp only [found, content, scanned, if_neg torn, if_true]
  exact Ensures.write_then passes (Yields.pure _)

omit [Ed25519] in
@[simp] theorem fresh_bytes {before : Nat} {anchor : Bytes} (anchored : Anchored anchor)
    (bound : before + 1 < 2 ^ 64) :
    (Segment.fresh before anchor anchored bound : Segment edgeID).bytes = segmentHeader := by
  simp [Segment.bytes, Segment.fresh]

theorem image_start (image : Image log [] secret disk) (inactive : log.active = none)
    {segments : SortedMap Bytes File} (files : segments.entries = disk.segments.entries ++
      [(segmentName (log.finish.sequence + 1), ⟨segmentHeader, []⟩)]) :
    Image (log.start inactive) [] secret { disk with segments } where
  files := by
    rw [files, image.files]
    simp [Log.files, Log.retainedFiles, Log.start, inactive, Segment.name, Segment.fresh,
      Segment.bytes]
  seals := image.seals
  checkpoint := by
    rw [Log.history_start]
    exact image.checkpoint
  privateKey := image.privateKey
  publicKey := image.publicKey
  torn := torn_nil

omit [Ed25519] in
theorem size_start (inactive : log.active = none) :
    (log.start inactive).size = log.size + segmentHeaderBytes := by
  simp [Log.size, Log.start, inactive, segmentHeader, segmentHeaderBytes, ascii]

omit [Ed25519] in
theorem held_start (held : Held log secret store) (inactive : log.active = none) :
    Held (log.start inactive) secret { store with
      current := some (segmentName (log.finish.sequence + 1))
      currentSize := segmentHeaderBytes
      totalBytes := store.totalBytes + segmentHeaderBytes
      segments := store.segments ++ [{
        path := segmentName (log.finish.sequence + 1), first := 0, last := 0,
        size := segmentHeaderBytes, recordCount := 0,
        startPreviousHash := store.lastLineageHash,
        sealPath := sealPathForSegment (segmentName (log.finish.sequence + 1)),
        sealed := false }] } where
  edge := held.edge
  segments := by
    have hash : store.lastLineageHash = log.finish.hash := by
      rw [held.hash, Log.hash, inactive]
      rfl
    simp [held.segments, Log.summaries, Log.start, inactive, Segment.summary, Segment.name,
      Segment.sealName, Segment.fresh, Segment.bytes, hash, segmentHeader, segmentHeaderBytes,
      ascii]
  totalBytes := by
    rw [size_start inactive, Nat.cast_add]
    exact congrArg (· + (segmentHeaderBytes : Int)) held.totalBytes
  nextSequence := by
    change store.nextSequence = _
    rw [held.nextSequence, Log.last_of_none _ inactive]
    rfl
  sources := held.sources
  committed := held.committed
  failed := held.failed
  signer := held.signer
  hash := by
    change store.lastLineageHash = _
    rw [held.hash, Log.hash, inactive]
    rfl
  root := held.root
  count := held.count

theorem createSegment_ensures (image : Image log [] secret disk)
    (held : Held log secret store) (opened : store.closed = false)
    (inactive : log.active = none) (allows : allowed (log.start inactive)) :
    Ensures (createSegment (log.last + 1)) store disk (Survives allowed)
      fun result store' disk' => result = .ok () ∧
        Held (log.start inactive) secret store' ∧ Writing (log.start inactive) store' ∧
        Image (log.start inactive) [] secret disk' ∧
        disk'.privateKey = disk.privateKey := by
  have last := log.last_of_none inactive
  have below := image.names_lt inactive
  have absent : disk.segments.find? (segmentName (log.finish.sequence + 1)) = none := by
    rw [find?_eq_none_iff]
    exact fun entry member => (below entry member).ne
  rw [last]
  apply Ensures.getDisk
  simp only [absent, Option.isSome_none, Bool.false_eq_true, if_false]
  have created : (disk.createFile (segmentName (log.finish.sequence + 1))).segments.entries =
      disk.segments.entries ++ [(segmentName (log.finish.sequence + 1), ⟨[], []⟩)] :=
    insert_last _ below
  have headed := adjust_last created (File.append segmentHeader)
  have synced := adjust_last headed File.sync
  apply Ensures.write_then
  · apply Survives.of_last image.settled created
    intro cut crashed isPrefix long
    have empty : cut = [] := List.prefix_nil.mp isPrefix
    simp [empty, segmentHeaderBytes] at long
  apply Ensures.write_then
  · apply Survives.of_last image.settled headed
    intro cut crashed isPrefix long entries
    have whole : cut = segmentHeader := by
      apply isPrefix.eq_of_length_le
      simpa [segmentHeader, segmentHeaderBytes, ascii, File.append] using long
    rw [whole] at entries
    exact ⟨_, [], secret, image_start image inactive entries, allows⟩
  have started : Image (log.start inactive) [] secret
      (((disk.createFile (segmentName (log.finish.sequence + 1))).changeFile
        (segmentName (log.finish.sequence + 1)) (File.append segmentHeader)).changeFile
        (segmentName (log.finish.sequence + 1)) File.sync) :=
    image_start image inactive synced
  apply Ensures.write_then (Survives.of_image started allows)
  apply Ensures.modify
  refine ⟨rfl, held_start held inactive, ⟨opened, _, rfl, rfl, ?_⟩, started, rfl⟩
  simp [segmentHeader, segmentHeaderBytes, ascii]

theorem sealSegment_yields {segment : Segment edgeID} {along : Directory → Prop} {clock : Clock}
    (index : Nat) (nonempty : segment.records ≠ []) (rooted : Anchored store.lastSegmentRoot)
    (edge : store.edgeID = edgeID)
    (found : disk.segments.find? segment.name = some ⟨segment.bytes, []⟩)
    (absent : disk.seals.find? segment.sealName = none) {stamped : SealedSegment edgeID}
    (same : stamped = ⟨segment, nonempty, store.lastSegmentRoot, rooted,
      clock.sealing segment.name⟩)
    (passes : along (disk.putSeal segment.sealName (stamped.sealBytes store.signer))) :
    Yields (sealSegment index (segment.summary false) clock) store disk along () { store with
        segments := store.segments.set index (segment.summary true)
        lastSegmentRoot := segment.root
        sealedSegments := store.sealedSegments + 1 }
      (disk.putSeal segment.sealName (stamped.sealBytes store.signer)) := by
  subst same
  rcases records : segment.records with _ | ⟨first, rest⟩
  · exact absurd records nonempty
  have skip : ¬((segment.summary false).recordCount = 0 ∨
      (segment.summary false).sealed = true) := by
    simp [Segment.summary, nonempty]
  have lastFound : segment.records.getLast? = some (segment.records.getLast nonempty) :=
    List.getLast?_eq_some_getLast nonempty
  have headFound : segment.records.head? = some first := by simp [records]
  have leafFound : (segment.records.map Record.digest).head? = some first.digest := by
    simp [records]
  have final := chained_getLast segment.chained lastFound
  have chained := segment.chained
  rw [records] at chained
  have unsigned : unsignedSeal store segment.name segment.records first
      (segment.records.getLast nonempty) first.digest segment.hash segment.root
      (clock.sealing segment.name) =
        SealedSegment.unsigned ⟨segment, nonempty, store.lastSegmentRoot, rooted,
          clock.sealing segment.name⟩ := by
    simp only [unsignedSeal, SealedSegment.unsigned, edge, chained.1, final.1, Segment.last,
      Segment.firstHash, headFound, Option.map_some, Option.getD_some]
  rw [sealSegment, if_neg skip]
  apply (scanSegment_yields found false).bind
  simp only [Segment.summary, segment.verifyRecordChain, headFound, lastFound, leafFound,
    (Segment.merkleRoot_eq nonempty).1]
  apply Ensures.getState
  simp only [unsigned, SealedSegment.signSeal]
  have written : Yields (writeSeal segment.sealName (SealedSegment.stamp ⟨segment, nonempty,
      store.lastSegmentRoot, rooted, clock.sealing segment.name⟩ store.signer)) store disk
      along () store (disk.putSeal segment.sealName (SealedSegment.sealBytes ⟨segment,
        nonempty, store.lastSegmentRoot, rooted, clock.sealing segment.name⟩ store.signer)) := by
    apply Ensures.getDisk
    simp only [SealedSegment.marshal, absent, Option.isSome_none, Bool.false_eq_true, if_false]
    exact Ensures.write passes ⟨rfl, rfl, rfl⟩
  exact written.bind (Ensures.modify ⟨rfl, rfl, rfl⟩)

section Closing

variable {segment : Segment edgeID} (active : log.active = some segment)
  (nonempty : segment.records ≠ []) {now : Now}

theorem image_close (image : Image log [] secret disk)
    (keyed : disk.privateKey = some secret) {stamped : SealedSegment edgeID}
    (same : stamped = ⟨segment, nonempty, log.finish.root, log.finish_facts.2.2, now⟩) :
    Image (log.close segment active nonempty now) [] secret
      (disk.putSeal segment.sealName (stamped.sealBytes secret)) where
  files := by
    change disk.segments.entries = _
    rw [image.files]
    simp [Log.files, Log.retainedFiles, Log.close, active]
  seals := by
    have position := (log.continues segment active).1
    have below : ∀ entry ∈ disk.seals.entries, entry.1 < segment.sealName := by
      rw [Segment.sealName, position]
      exact image.sealNames_lt
    change (disk.seals.insert _ _).entries = _
    rw [insert_last _ below, image.seals, same]
    simp [Log.sealFiles, Log.sealed, Log.close]
  checkpoint := by
    rw [Log.history_close]
    exact image.checkpoint
  privateKey := .inl keyed
  publicKey := image.publicKey
  torn := torn_nil

omit [Ed25519] in
theorem size_close : (log.close segment active nonempty now).size = log.size := by
  simp [Log.size, Log.close, active]

omit [Ed25519] in
theorem held_close (held : Held log secret store) :
    Held (log.close segment active nonempty now) secret { store with
      segments := store.segments.set (store.segments.length - 1) (segment.summary true)
      lastSegmentRoot := segment.root
      sealedSegments := store.sealedSegments + 1 } where
  edge := held.edge
  segments := by
    simp [held.segments, Log.summaries, Log.close, active]
  totalBytes := by
    change store.totalBytes = _
    rw [held.totalBytes, size_close]
  nextSequence := by
    change store.nextSequence = _
    rw [held.nextSequence, Log.last_eq _ active]
    rfl
  sources := held.sources
  committed := held.committed
  failed := held.failed
  signer := held.signer
  hash := by
    change store.lastLineageHash = _
    rw [held.hash, Log.hash, active]
    rfl
  root := rfl
  count := by
    simp only [held.count, Log.sealed, Log.close, List.length_append, List.length_singleton]
    omega

theorem sealLast_ensures (image : Image log [] secret disk)
    (keyed : disk.privateKey = some secret) (held : Held log secret store) {clock : Clock}
    (allows : allowed (log.close segment active nonempty (clock.sealing segment.name))) :
    Ensures (sealLast clock) store disk (Survives allowed) fun result store' disk' =>
      result = .ok () ∧
        Held (log.close segment active nonempty (clock.sealing segment.name)) secret store' ∧
        store'.closed = store.closed ∧ store'.current = store.current ∧
        disk'.privateKey = some secret ∧
        Image (log.close segment active nonempty (clock.sealing segment.name)) [] secret
          disk' := by
  have lastSummary : store.segments.getLast? = some (segment.summary false) := by
    simp [held.segments, Log.summaries, active]
  have found := image.find_active active
  rw [List.append_nil] at found
  have absent : disk.seals.find? segment.sealName = none := by
    rw [find?_eq_none_iff]
    intro entry member
    have below := image.sealNames_lt entry member
    rw [Segment.sealName, (log.continues segment active).1]
    exact below.ne
  have rooted : Anchored store.lastSegmentRoot := by
    rw [held.root]
    exact log.finish_facts.2.2
  have same : (⟨segment, nonempty, store.lastSegmentRoot, rooted,
      clock.sealing segment.name⟩ : SealedSegment edgeID) =
        ⟨segment, nonempty, log.finish.root, log.finish_facts.2.2, clock.sealing segment.name⟩ := by
    simp only [held.root]
  have closed := image_close active nonempty image keyed same
  rw [← held.signer] at closed
  apply Ensures.getState
  simp only [lastSummary]
  apply (sealSegment_yields (store.segments.length - 1) nonempty rooted held.edge found absent rfl
    (Survives.of_image closed allows)).imp
  rintro result store' disk' ⟨rfl, rfl, rfl⟩
  refine ⟨rfl, held_close active nonempty held, rfl, rfl, keyed, ?_⟩
  rw [held.signer] at closed ⊢
  exact closed

end Closing

end TelemetryForge.Wal
