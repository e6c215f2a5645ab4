import TelemetryForge.Wal.Run

/-! # Segments that no longer scan

A record that cannot be read back spoils the segment it is written to: no scan of the segment
succeeds from then on. -/

namespace TelemetryForge.Wal

open Json Program List

variable [FloatText]

def Spoiled (content : Bytes) : Prop :=
  ∀ name rest, ∃ failure, scanContent name (content ++ rest) = .error failure

theorem Spoiled.append {content : Bytes} (spoiled : Spoiled content) (more : Bytes) :
    Spoiled (content ++ more) := by
  intro name rest
  rw [append_assoc]
  exact spoiled name (more ++ rest)

variable {edgeID : Bytes}

theorem Segment.readable_of_scanContent (segment : Segment edgeID) {record : Record}
    {payload name rest : Bytes} (appended : record.Appended payload)
    (free : CollisionFree record.digested) {scan : FrameLog.Scan Record}
    (scanned : Wal.scanContent name (segment.bytes ++ FrameLog.frame payload ++ rest) = .ok scan) :
    record.Readable ∧ payload.length ≤ maxFrameBytes := by
  rw [append_assoc, scanContent_append] at scanned
  rcases inner : FrameLog.scan maxFrameBytes Record.readFrame segment.bytes.length
    (FrameLog.frame payload ++ rest) with fault | tail
  · rw [inner] at scanned
    cases scanned
  rcases FrameLog.scan_frame_ok inner with ⟨_, fits, decoded, read, _⟩
  by_cases whole : payload.length < 2 ^ 32
  · rw [Nat.mod_eq_of_lt whole] at fits read
    rw [take_length] at read
    exact ⟨appended.readable_of_readFrame free read, fits⟩
  · have short : payload.length % 2 ^ 32 < payload.length := by omega
    rw [Record.readFrame, Record.decodeFrame_cut appended.valid.versioned appended.marshal
      short] at read
    cases read

theorem Segment.spoiled (segment : Segment edgeID) {record : Record} {payload : Bytes}
    (appended : record.Appended payload) (free : CollisionFree record.digested)
    (unreadable : ¬(record.Readable ∧ payload.length ≤ maxFrameBytes)) :
    Spoiled (segment.bytes ++ FrameLog.frame payload) := by
  intro name rest
  rcases scanned : Wal.scanContent name (segment.bytes ++ FrameLog.frame payload ++ rest) with
    failure | scan
  · exact ⟨failure, rfl⟩
  · exact absurd (segment.readable_of_scanContent appended free scanned) unreadable

def SpoiledAt (name : Bytes) (disk : Directory) : Prop :=
  ∃ file, disk.segments.find? name = some file ∧ Spoiled file.content

variable {name : Bytes} {store : Store} {disk : Directory} {along : Directory → Prop}

theorem SpoiledAt.changeFile (spoiled : SpoiledAt name disk) (other : Bytes)
    {change : File → File} (grows : ∀ file, ∃ more, (change file).content = file.content ++ more) :
    SpoiledAt name (disk.changeFile other change) := by
  rcases spoiled with ⟨file, found, spoiled⟩
  by_cases same : name = other
  · subst same
    rcases grows file with ⟨more, grown⟩
    refine ⟨change file, by simp [Directory.changeFile, found], ?_⟩
    rw [grown]
    exact spoiled.append more
  · exact ⟨file, by simp [Directory.changeFile, same, found], spoiled⟩

omit [FloatText] in
theorem sync_grows (file : File) : ∃ more, (File.sync file).content = file.content ++ more :=
  ⟨[], by simp [File.sync, File.content]⟩

theorem scanContent_size {content : Bytes} {scan : FrameLog.Scan Record}
    (scanned : scanContent name content = .ok scan) : scan.size ≤ content.length := by
  rw [scanContent, ite_error_eq_ok, ite_error_eq_ok] at scanned
  rcases inner : FrameLog.scan maxFrameBytes Record.readFrame segmentHeaderBytes
    (content.drop segmentHeaderBytes) with fault | found
  · rw [inner] at scanned
    cases scanned.2.2
  · rw [inner] at scanned
    cases scanned.2.2
    have inside := FrameLog.scan_size inner
    rw [length_drop] at inside
    omega

theorem scanSegment_spoiled (spoiled : SpoiledAt name disk) (recoverTail : Bool) :
    Ensures (scanSegment name recoverTail) store disk along fun result store' disk' =>
      (∃ failure, result = .error failure) ∧ store' = store ∧ disk' = disk := by
  rcases spoiled with ⟨file, found, spoiled⟩
  rcases spoiled name [] with ⟨failure, scanned⟩
  rw [append_nil] at scanned
  apply Ensures.getDisk
  simp only [found, scanned]
  exact Ensures.fail ⟨⟨failure, rfl⟩, rfl, rfl⟩

structure Stuck (name : Bytes) (store : Store) (directory : Directory) : Prop where
  spoiled : SpoiledAt name directory
  last : ∃ segment, store.segments.getLast? = some segment ∧ segment.path = name ∧
    segment.recordCount ≠ 0 ∧ segment.sealed = false
  current : store.current = some name ∨ store.current = none ∧ store.failed ≠ none

variable [Ed25519]

theorem sealLast_stuck (spoiled : SpoiledAt name disk)
    (last : ∃ segment, store.segments.getLast? = some segment ∧ segment.path = name ∧
      segment.recordCount ≠ 0 ∧ segment.sealed = false) (clock : Clock) :
    Ensures (sealLast clock) store disk along fun result store' disk' =>
      (∃ failure, result = .error failure) ∧ store' = store ∧ disk' = disk := by
  rcases last with ⟨segment, found, rfl, nonempty, unsealed⟩
  apply Ensures.getState
  simp only [found, sealSegment, nonempty, unsealed, false_or, Bool.false_eq_true, if_false]
  apply Ensures.bind
  apply (scanSegment_spoiled spoiled false).imp
  rintro result store' disk' ⟨⟨failure, rfl⟩, rfl, rfl⟩
  exact ⟨⟨failure, rfl⟩, rfl, rfl⟩

section

omit [FloatText] [Ed25519]

theorem changeFile_changeFile (disk : Directory) (name : Bytes) (first second : File → File) :
    (disk.changeFile name first).changeFile name second =
      disk.changeFile name (second ∘ first) := by
  have same : (disk.segments.adjust name first).adjust name second =
      disk.segments.adjust name (second ∘ first) := by
    ext1 other
    simp only [SortedMap.find?_adjust]
    split <;> simp
  simp only [Directory.changeFile, same]

theorem writeRecord_current (current : store.current = some name) (record : Record)
    (payload : Bytes) : Ensures (writeRecord record payload) store disk (fun _ => True)
      fun result store' disk' => result = .ok record ∧
        store' = store.noteAppended record (FrameLog.headerBytes + payload.length) ∧
        disk' = disk.changeFile name
          (File.sync ∘ File.append (FrameLog.frame payload)) := by
  have written : File.append payload ∘ File.append
      (bigEndian32 payload.length ++ bigEndian32 (Crc32.checksumIEEE payload)) =
      File.append (FrameLog.frame payload) := by
    funext file
    simp [File.append, FrameLog.frame]
  apply Ensures.bind
  apply Ensures.noting
  apply Ensures.getState
  simp only [current]
  refine Ensures.write_then trivial (Ensures.write_then trivial (Ensures.write trivial ?_))
  refine Ensures.modify_then (Ensures.pure ⟨rfl, rfl, ?_⟩)
  rw [changeFile_changeFile, changeFile_changeFile, Function.comp_assoc, written]

theorem noteAppended_last {segment : SegmentMeta}
    (last : store.segments.getLast? = some segment) (record : Record) (frameBytes : Nat) :
    (store.noteAppended record frameBytes).segments = store.segments.dropLast ++ [{ segment with
      size := store.currentSize + frameBytes
      first := if segment.recordCount = 0 then record.edgeSequence else segment.first
      last := record.edgeSequence
      recordCount := segment.recordCount + 1 }] := by
  rcases eq_nil_or_concat' store.segments with empty | ⟨initial, final, shape⟩
  · simp [empty] at last
  · simp only [shape, getLast?_concat, Option.some.injEq] at last
    subst last
    simp only [Store.noteAppended, shape, length_append, length_singleton,
      Nat.add_sub_cancel, dropLast_concat]
    exact modify_concat initial final _

theorem written_grows (payload : Bytes) (file : File) :
    ∃ more, ((File.sync ∘ File.append payload) file).content = file.content ++ more :=
  ⟨payload, by simp [File.sync, File.append, File.content]⟩

end

structure Counted (store : Store) (record : Record) (store' : Store) : Prop where
  source : record.sourceSequence = store.sourceSequence.getD (sourceKey record.event) 0 + 1
  noted : store'.sourceSequence =
    store.sourceSequence.insert (sourceKey record.event) record.sourceSequence

def StaysStuck (name : Bytes) (store : Store) (result : Except Failure Record) (store' : Store)
    (disk : Directory) : Prop :=
  Stuck name store' disk ∧ match result with
    | .ok record => store'.current = some name ∧ Counted store record store'
    | .error _ => store'.sourceSequence = store.sourceSequence

theorem append_stuck (stuck : Stuck name store disk) (topic : Bytes) (event : Event)
    (clock : Clock) : Ensures (append topic event clock) store disk (fun _ => True)
      (StaysStuck name store) := by
  apply Ensures.getState
  rcases prepared : store.prepare topic event clock.accepted with failure | ⟨record, payload⟩
  · exact Ensures.fail ⟨stuck, rfl⟩
  have serving := (prepare_ok prepared).serving
  have current : store.current = some name := by
    rcases stuck.current with current | ⟨_, failed⟩
    · exact current
    · exact absurd serving.2 failed
  have pressed : Ensures underPressure store disk (fun _ => True) (StaysStuck name store) :=
    Ensures.modify_then (Ensures.fail ⟨⟨stuck.spoiled, stuck.last, stuck.current⟩, rfl⟩)
  simp only
  split_ifs
  · exact pressed
  · exact pressed
  · -- The segment is full, but it cannot be sealed.
    have spoiled := stuck.spoiled.changeFile name sync_grows
    have last : ∃ segment, ({ store with current := none } : Store).segments.getLast? =
        some segment ∧ segment.path = name ∧ segment.recordCount ≠ 0 ∧ segment.sealed = false :=
      stuck.last
    apply Ensures.bind
    apply Ensures.noting
    apply Ensures.getState
    simp only [current]
    apply Ensures.write_then trivial
    apply Ensures.modify_then
    apply Ensures.bind
    apply (sealLast_stuck spoiled last clock).imp
    rintro result store' disk' ⟨⟨failure, rfl⟩, rfl, rfl⟩
    have failed : Store.fail failure { store with current := none } =
        { store with current := none, failed := some failure } := by
      simp [Store.fail, serving.2]
    simp only [failed]
    exact ⟨⟨spoiled, stuck.last, .inr ⟨rfl, by simp⟩⟩, rfl⟩
  · apply (writeRecord_current current record payload).imp
    rintro result store' disk' ⟨rfl, rfl, rfl⟩
    rcases stuck.last with ⟨segment, last, path, nonempty, unsealed⟩
    refine ⟨⟨stuck.spoiled.changeFile name (written_grows _), ?_, .inl current⟩, current, ?_⟩
    · rw [noteAppended_last last]
      exact ⟨_, getLast?_concat, path, Nat.succ_ne_zero _, unsealed⟩
    · rcases (prepare_ok prepared).built with ⟨hash, _, rfl⟩
      exact ⟨rfl, rfl⟩

omit [FloatText] [Ed25519] in
theorem compactFrom_last (segments : List SegmentMeta) :
    Ensures (compactFrom name segments) store disk (fun _ => True)
      fun result store' disk' => ∃ kept, result = .ok kept ∧ kept.Sublist segments ∧
        disk'.segments.find? name = disk.segments.find? name ∧
        (∀ last, segments.getLast? = some last → last.path = name → kept.getLast? = some last) ∧
        store' = { store with totalBytes := store'.totalBytes } := by
  induction segments generalizing store disk with
  | nil => exact Ensures.pure ⟨[], rfl, .slnil, rfl, by simp, rfl⟩
  | cons segment rest induction =>
    apply Ensures.getState
    split_ifs with removed
    · apply Ensures.write_then trivial
      apply Ensures.modify_then
      apply induction.imp
      rintro result store' disk' ⟨kept, rfl, sublist, found, ends, same⟩
      refine ⟨kept, rfl, .cons _ sublist, ?_, ?_, by rw [same]⟩
      · rw [found]
        simp [Directory.removeFile, Ne.symm removed.1]
      · intro last final path
        apply ends last _ path
        rcases rest with _ | ⟨next, others⟩
        · simp only [getLast?_singleton, Option.some.injEq] at final
          exact absurd (final ▸ path) removed.1
        · simpa using final
    · apply Ensures.bind
      apply induction.imp
      rintro result store' disk' ⟨kept, rfl, sublist, found, ends, same⟩
      refine Ensures.pure ⟨_, rfl, .cons_cons _ sublist, found, ?_, same⟩
      intro last final path
      rcases rest with _ | ⟨next, others⟩
      · rw [sublist_nil.mp sublist]
        exact final
      · have inner := ends last (by simpa using final) path
        rw [getLast?_cons, inner]
        rfl

def RemainsStuck (name : Bytes) (store store' : Store) (disk : Directory) : Prop :=
  Stuck name store' disk ∧ store'.sourceSequence = store.sourceSequence ∧
    store'.closed = store.closed

section

omit [Ed25519]

theorem RemainsStuck.fail {store' : Store} (remains : RemainsStuck name store store' disk)
    (failure : Failure) : RemainsStuck name store (store'.fail failure) disk := by
  rw [Store.fail]
  split_ifs
  · refine ⟨⟨remains.1.spoiled, remains.1.last, ?_⟩, remains.2⟩
    exact remains.1.current.imp id fun ⟨current, _⟩ => ⟨current, by simp⟩
  · exact remains

theorem compact_stuck (stuck : Stuck name store disk) :
    Ensures compact store disk (fun _ => True) fun _ store' disk' =>
      RemainsStuck name store store' disk' := by
  rcases stuck.last with ⟨segment, last, rfl, nonempty, unsealed⟩
  apply Ensures.getState
  simp only [last]
  split_ifs
  · exact Ensures.pure ⟨stuck, rfl, rfl⟩
  apply Ensures.bind
  apply (compactFrom_last store.segments).imp
  rintro result store' disk' ⟨kept, rfl, _, found, ends, same⟩
  apply Ensures.modify
  rw [same]
  refine ⟨⟨?_, ⟨segment, ends segment last rfl, rfl, nonempty, unsealed⟩, stuck.current⟩, rfl, rfl⟩
  rcases stuck.spoiled with ⟨file, present, spoiled⟩
  exact ⟨file, found.trans present, spoiled⟩

theorem commit_stuck (stuck : Stuck name store disk) (sequence : Nat) :
    Ensures (commit sequence) store disk (fun _ => True) fun _ store' disk' =>
      RemainsStuck name store store' disk' := by
  have unchanged : RemainsStuck name store store disk := ⟨stuck, rfl, rfl⟩
  apply Ensures.getState
  split
  · exact Ensures.fail unchanged
  split
  · exact Ensures.fail unchanged
  split
  · exact Ensures.pure unchanged
  split
  · exact Ensures.fail unchanged
  split
  · exact Ensures.fail unchanged
  apply Ensures.bind
  apply Ensures.noting
  apply Ensures.getState
  apply Ensures.write trivial
  apply Ensures.modify_then
  apply Ensures.noting
  have advanced : Stuck name { store with committed := sequence }
      (disk.putCheckpoint (Checkpoint.marshal ⟨format, checkpointVersion, sequence,
        store.sourceSequence⟩)) := ⟨stuck.spoiled, stuck.last, stuck.current⟩
  apply (compact_stuck advanced).imp
  rintro (failure | _) store' disk' remains
  · exact remains.fail failure
  · exact remains

end

theorem close_stuck (stuck : Stuck name store disk) (clock : Clock) :
    Ensures (close clock) store disk (fun _ => True) fun _ store' disk' =>
      store'.closed = true ∧ SpoiledAt name disk' := by
  apply Ensures.getState
  split
  · rename_i closed
    exact Ensures.pure ⟨closed, stuck.spoiled⟩
  apply Ensures.modify_then
  split
  · exact Ensures.pure ⟨rfl, stuck.spoiled⟩
  rename_i current found
  apply Ensures.write_then trivial
  apply Ensures.modify_then
  have last : ∃ segment, ({ store with closed := true, current := none } : Store).segments.getLast?
      = some segment ∧ segment.path = name ∧ segment.recordCount ≠ 0 ∧ segment.sealed = false :=
    stuck.last
  apply (sealLast_stuck (stuck.spoiled.changeFile current sync_grows) last clock).imp
  rintro result store' disk' ⟨_, rfl, rfl⟩
  exact ⟨rfl, stuck.spoiled.changeFile current sync_grows⟩

omit [FloatText] in
theorem loadOrCreateSigner_segments (generated : Bytes) :
    Ensures (loadOrCreateSigner generated) store disk (fun _ => True)
      fun _ store' disk' => disk'.segments = disk.segments ∧
        store' = { store with signer := store'.signer } := by
  apply Ensures.getDisk
  split
  · exact Ensures.fail ⟨rfl, rfl⟩
  · exact Ensures.write_then trivial (Ensures.write_then trivial (Ensures.modify ⟨rfl, rfl⟩))
  · split
    · exact Ensures.fail ⟨rfl, rfl⟩
    · exact Ensures.modify ⟨rfl, rfl⟩
  · exact Ensures.write_then trivial (Ensures.modify ⟨rfl, rfl⟩)

omit [FloatText] [Ed25519] in
theorem loadCheckpoint_segments : Ensures loadCheckpoint store disk (fun _ => True)
    fun _ store' disk' => disk' = disk ∧ store' = { store with
      committed := store'.committed, sourceSequence := store'.sourceSequence } := by
  apply Ensures.getDisk
  split
  · exact Ensures.pure ⟨rfl, rfl⟩
  split
  · exact Ensures.fail ⟨rfl, rfl⟩
  split
  · exact Ensures.fail ⟨rfl, rfl⟩
  · exact Ensures.modify ⟨rfl, rfl⟩

omit [FloatText] [Ed25519] in
theorem changeFile_id (disk : Directory) (name : Bytes) :
    disk.changeFile name id = disk := by
  have same : disk.segments.adjust name id = disk.segments := by
    ext1 other
    simp
  simp only [Directory.changeFile, same]

omit [Ed25519] in
theorem scanSegment_changes (other : Bytes) (recoverTail : Bool) :
    Ensures (scanSegment other recoverTail) store disk (fun _ => True)
      fun result store' disk' => store' = store ∧
        ∃ change, disk' = disk.changeFile other change ∧
          (∀ file, (change file).content.length ≤ file.content.length) ∧
          ∀ scanned, result = .ok scanned → ∃ file, disk.segments.find? other = some file ∧
            (change file).content.length = scanned.size := by
  have unchanged (failure : Failure) : store = store ∧ ∃ change,
      disk = disk.changeFile other change ∧
        (∀ file, (change file).content.length ≤ file.content.length) ∧
        ∀ scanned, (.error failure : Except Failure Scanned) = .ok scanned →
          ∃ file, disk.segments.find? other = some file ∧
            (change file).content.length = scanned.size :=
    ⟨rfl, id, (changeFile_id disk other).symm, fun _ => le_rfl, by simp⟩
  apply Ensures.getDisk
  split
  · exact Ensures.fail (unchanged _)
  rename_i file found
  split
  · exact Ensures.fail (unchanged _)
  rename_i scan scanned
  split
  · refine Ensures.pure ⟨rfl, id, (changeFile_id disk other).symm, fun _ => le_rfl, ?_⟩
    intro _ equal
    cases equal
    exact ⟨file, found, rfl⟩
  split
  · apply Ensures.write_then trivial
    refine Ensures.pure ⟨rfl, _, rfl, fun file => by simp [File.truncate, File.content], ?_⟩
    intro _ equal
    cases equal
    refine ⟨file, found, ?_⟩
    have bound := scanContent_size scanned
    simpa [File.truncate, File.content] using bound
  split
  · exact Ensures.fail (unchanged _)
  · exact Ensures.fail (unchanged _)

omit [Ed25519] in
theorem scanSegment_reads (other : Bytes) :
    Ensures (scanSegment other false) store disk (fun _ => True)
      fun _ store' disk' => store' = store ∧ disk' = disk := by
  apply Ensures.getDisk
  split
  · exact Ensures.fail ⟨rfl, rfl⟩
  split
  · exact Ensures.fail ⟨rfl, rfl⟩
  split
  · exact Ensures.pure ⟨rfl, rfl⟩
  simp only [Bool.false_eq_true, if_false]
  split
  · exact Ensures.fail ⟨rfl, rfl⟩
  · exact Ensures.fail ⟨rfl, rfl⟩

theorem recoverSegment_spoiled (spoiled : SpoiledAt name disk) (seals : List Seal)
    (other : Bytes) (last : Bool) (previous : Nat) :
    Ensures (recoverSegment seals other last previous) store disk (fun _ => True)
      fun result _ disk' => SpoiledAt name disk' ∧
        (other = name → ∃ failure, result = .error failure) := by
  by_cases same : other = name
  · subst same
    apply Ensures.bind
    apply (scanSegment_spoiled spoiled last).imp
    rintro result store' disk' ⟨⟨failure, rfl⟩, rfl, rfl⟩
    exact ⟨spoiled, fun _ => ⟨failure, rfl⟩⟩
  · apply Ensures.bind
    apply (scanSegment_changes other last).imp
    rintro result store' disk' ⟨rfl, change, rfl, _, _⟩
    have kept : SpoiledAt name (disk.changeFile other change) := by
      rcases spoiled with ⟨file, found, spoiled⟩
      exact ⟨file, by simp [Directory.changeFile, Ne.symm same, found], spoiled⟩
    cases result with
    | error failure => exact ⟨kept, fun equal => absurd equal same⟩
    | ok scanned =>
      apply Ensures.getState
      split
      · exact Ensures.fail ⟨kept, fun equal => absurd equal same⟩
      split
      · exact Ensures.fail ⟨kept, fun equal => absurd equal same⟩
      split
      · exact Ensures.modify_then (Ensures.pure ⟨kept, fun equal => absurd equal same⟩)
      split
      · exact Ensures.fail ⟨kept, fun equal => absurd equal same⟩
      · exact Ensures.modify_then (Ensures.pure ⟨kept, fun equal => absurd equal same⟩)

theorem recoverSegments_spoiled (seals : List Seal) {names : List Bytes}
    (spoiled : SpoiledAt name disk) (visits : name ∈ names) (previous : Nat) :
    Ensures (recoverSegments seals names previous) store disk (fun _ => True)
      fun result _ disk' => SpoiledAt name disk' ∧ ∃ failure, result = .error failure := by
  induction names generalizing store disk previous with
  | nil => simp at visits
  | cons other rest induction =>
    apply Ensures.bind
    apply (recoverSegment_spoiled spoiled seals other rest.isEmpty previous).imp
    rintro (failure | reached) store' disk' ⟨kept, fails⟩
    · exact ⟨kept, failure, rfl⟩
    · rcases mem_cons.mp visits with same | visits
      · rcases fails same.symm with ⟨failure, impossible⟩
        cases impossible
      · exact induction kept visits reached

theorem recover_spoiled (spoiled : SpoiledAt name disk) (clock : Clock) :
    Ensures (recover clock) store disk (fun _ => True) fun result _ disk' =>
      SpoiledAt name disk' ∧ ∃ failure, result = .error failure := by
  have visits : name ∈ disk.segments.entries.map Prod.fst := by
    rcases spoiled with ⟨file, found, _⟩
    exact mem_map_of_mem ((disk.segments.find?_eq_some_iff name file).mp found)
  apply Ensures.getDisk
  apply Ensures.getState
  apply Ensures.bind
  apply Ensures.lift
  split
  · apply Ensures.bind
    apply Ensures.lift
    split
    · apply Ensures.modify_then
      apply Ensures.bind
      apply (recoverSegments_spoiled _ spoiled visits _).imp
      rintro result store' disk' ⟨kept, failure, rfl⟩
      exact ⟨kept, failure, rfl⟩
    · exact ⟨spoiled, _, rfl⟩
  · exact ⟨spoiled, _, rfl⟩

theorem openStore_spoiled (spoiled : SpoiledAt name disk) (config : Config)
    (generated : Bytes) (clock : Clock) :
    SpoiledAt name (openStore config generated clock disk).disk ∧
      ∃ failure, (openStore config generated clock disk).result = .error failure := by
  have ensures : Ensures (load config generated clock) config.initial disk (fun _ => True)
      fun result _ disk' => SpoiledAt name disk' ∧
        ∃ failure, result = .error failure := by
    apply Ensures.bind
    apply Ensures.lift
    split
    · apply Ensures.bind
      apply (loadOrCreateSigner_segments generated).imp
      rintro result store' disk' ⟨same, _⟩
      have kept : SpoiledAt name disk' := by
        rw [SpoiledAt, same]
        exact spoiled
      cases result with
      | error failure => exact ⟨kept, failure, rfl⟩
      | ok done =>
        apply Ensures.bind
        apply loadCheckpoint_segments.imp
        rintro (failure | done) store'' disk'' ⟨rfl, _⟩
        · exact ⟨kept, failure, rfl⟩
        · exact recover_spoiled kept clock
    · exact ⟨spoiled, _, rfl⟩
  exact ensures.post

end TelemetryForge.Wal
