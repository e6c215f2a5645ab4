import TelemetryForge.Wal.Image

/-! # Appending to a log

An append that succeeds extends the log by the record it returns, as a scan will find it; one
that fails leaves the log alone. -/

namespace TelemetryForge.Wal

open Json Program List

variable [FloatText] [Ed25519] {edgeID : Bytes}

structure Running (log : Log edgeID) (secret : Bytes) (store : Store) (directory : Directory) :
    Prop where
  held : Held log secret store
  writing : Writing log store
  image : Image log [] secret directory
  keyed : directory.privateKey = some secret

def Serves (edgeID : Bytes) (history : History) (secret : Bytes) (store : Store)
    (disk : Directory) : Prop :=
  ∃ log : Log edgeID, log.history = history ∧ Running log secret store disk

variable {log : Log edgeID} {secret : Bytes} {store : Store} {disk : Directory}
  {allowed : Log edgeID → Prop} {segment : Segment edgeID}

omit [FloatText] [Ed25519] in
theorem changeFile_sync {name content : Bytes}
    (found : disk.segments.find? name = some ⟨content, []⟩) :
    disk.changeFile name File.sync = disk := by
  rcases disk with ⟨segments, seals, checkpoint, privateKey, publicKey⟩
  have same : segments.adjust name File.sync = segments := by
    ext1 other
    rw [SortedMap.find?_adjust]
    split
    · rename_i equal
      subst equal
      have found : segments.find? other = some ⟨content, []⟩ := found
      simp [found, File.sync, File.content]
    · rfl
  simp only [Directory.changeFile, same]

def Log.rotated (log : Log edgeID) (segment : Segment edgeID) (active : log.active = some segment)
    (nonempty : segment.records ≠ []) (now : Now) : Log edgeID :=
  (log.close segment active nonempty now).start (log.close_active active nonempty now)

omit [Ed25519] in
@[simp] theorem history_rotated (active : log.active = some segment)
    (nonempty : segment.records ≠ []) (now : Now) :
    (log.rotated segment active nonempty now).history = log.history := by
  rw [Log.rotated, Log.history_start, Log.history_close]

theorem rotate_ensures (running : Running log secret store disk)
    (active : log.active = some segment) (nonempty : segment.records ≠ []) {clock : Clock}
    (allows : allowed log)
    (allowsClosed : allowed (log.close segment active nonempty (clock.sealing segment.name)))
    (allowsRotated : allowed (log.rotated segment active nonempty (clock.sealing segment.name))) :
    Ensures (rotate (log.last + 1) clock) store disk (Survives allowed)
      fun result store disk => result = .ok () ∧
        Running (log.rotated segment active nonempty (clock.sealing segment.name)) secret store
          disk := by
  rcases running with ⟨held, ⟨opened, current⟩, image, keyed⟩
  rcases current with ⟨other, found, current, _⟩
  obtain rfl : other = segment := by
    rw [active] at found
    exact (Option.some.inj found).symm
  have file := image.find_active active
  rw [append_nil] at file
  have synced := changeFile_sync file
  apply Ensures.getState
  simp only [current]
  apply Ensures.write_then
  · rw [synced]
    exact .of_image image allows
  rw [synced]
  apply Ensures.modify_then
  have heldClosed : Held log secret { store with current := none } :=
    { held with }
  apply Ensures.bind
  apply (sealLast_ensures active nonempty image keyed heldClosed allowsClosed).imp
  rintro result store' disk' ⟨rfl, held', closed, _, keyed', image'⟩
  have sameLast : log.last = (log.close other active nonempty (clock.sealing other.name)).last := by
    rw [log.last_eq active]
    rfl
  rw [sameLast]
  apply (createSegment_ensures image' held' (closed.trans opened)
    (log.close_active active nonempty _) allowsRotated).imp
  rintro result store'' disk'' ⟨rfl, heldStarted, writing, started, key⟩
  exact ⟨rfl, heldStarted, writing, started, key.trans keyed'⟩

structure Prepared (store : Store) (topic : Bytes) (event : Event) (now : Now) (record : Record)
    (payload : Bytes) : Prop where
  serving : store.closed = false ∧ store.failed = none
  nonblank : trimSpace topic ≠ []
  validated : event.validate = .ok ()
  built : ∃ hash, Record.eventHash event = .ok hash ∧ record = store.nextRecord topic event hash now
  marshal : record.marshal = some payload
  alone : (FrameLog.headerBytes + payload.length + segmentHeaderBytes : Nat) ≤ store.segmentBytes

omit [Ed25519] in
theorem prepare_ok {topic : Bytes} {event : Event} {now : Now} {record : Record}
    {payload : Bytes} (prepared : store.prepare topic event now = .ok (record, payload)) :
    Prepared store topic event now record payload := by
  unfold Store.prepare at prepared
  rw [ite_error_eq_ok] at prepared
  rcases prepared with ⟨opened, prepared⟩
  split at prepared
  · cases prepared
  rename_i sound
  rw [ite_error_eq_ok] at prepared
  rcases prepared with ⟨nonblank, prepared⟩
  split at prepared
  · cases prepared
  rename_i valid
  split at prepared
  · cases prepared
  rename_i hash hashed
  unfold Store.encodeRecord at prepared
  split at prepared
  · cases prepared
  rename_i encoded marshalled
  rw [ite_error_eq_ok] at prepared
  rcases prepared with ⟨alone, prepared⟩
  cases prepared
  exact ⟨⟨by simpa using opened, sound⟩, nonblank, valid, ⟨hash, hashed, rfl⟩, marshalled,
    not_lt.mp alone⟩

omit [Ed25519] in
theorem Prepared.appended {topic : Bytes} {event : Event} {now : Now} {record : Record}
    {payload : Bytes} (prepared : Prepared store topic event now record payload)
    (held : Held log secret store) (nonblank : trimSpace edgeID ≠ []) :
    record.Appended payload ∧ record.edgeID = edgeID ∧
      (record.topic = topic ∧ record.event = event) ∧ record.edgeSequence = log.last + 1 ∧
      record.sourceSequence = log.sources.getD (sourceKey event) 0 + 1 ∧
      record.previousRecordHash = log.hash := by
  rcases prepared.built with ⟨hash, hashed, rfl⟩
  have anchored : Anchored log.hash := by
    rcases active : log.active with _ | segment
    · simpa [Log.hash, active] using log.finish_facts.2.1
    · simpa [Log.hash, active] using segment.anchored_hash
  have lineage : (store.nextRecord topic event hash now).CurrentLineage :=
    ⟨rfl, rfl, by
      change store.lastLineageHash = [] ∨ validSHA256 store.lastLineageHash = true
      rw [held.hash]
      exact anchored, rfl⟩
  refine ⟨⟨⟨rfl, ⟨?_, prepared.nonblank⟩, ⟨?_, Nat.succ_ne_zero _⟩, now.nonzero, prepared.validated,
    hashed, .inr lineage⟩, lineage, now.utc, prepared.marshal⟩, held.edge, ⟨rfl, rfl⟩,
    held.nextSequence, by rw [← held.sources]; rfl, held.hash⟩
  · change trimSpace store.edgeID ≠ []
    rw [held.edge]
    exact nonblank
  · change store.nextSequence ≠ 0
    rw [held.nextSequence]
    exact Nat.succ_ne_zero _

section Writing

variable {record : Record} (entry : Entry edgeID record)
  (active : log.active = some segment) (next : record.edgeSequence = segment.last + 1)
  (previous : record.previousRecordHash = segment.hash)
  (newer : log.sources.getD (sourceKey record.event) 0 < record.sourceSequence)

omit [Ed25519] in
theorem push_bytes : (segment.push record entry next previous).bytes =
    segment.bytes ++ FrameLog.frame record.encoded := by
  simp [Segment.bytes, Segment.push]

omit [Ed25519] in
theorem push_bytes_length : (segment.push record entry next previous).bytes.length =
    segment.bytes.length + (FrameLog.headerBytes + record.encoded.length) := by
  rw [push_bytes, length_append, FrameLog.frame_length]

include newer in
theorem image_push (image : Image log [] secret disk) {segments : SortedMap Bytes File}
    (files : segments.entries = log.retainedFiles ++
      [(segment.name, ⟨segment.bytes ++ FrameLog.frame record.encoded, []⟩)]) :
    Image (log.push segment active record entry next previous) [] secret
      { disk with segments } where
  files := by
    rw [files, ← push_bytes entry next previous]
    simp [Log.files, Log.retainedFiles, Log.push, Segment.name, Segment.push]
  seals := image.seals
  checkpoint := by
    have later : log.committed < record.edgeSequence := by
      have known : log.committed ≤ log.last := log.known
      rw [log.last_eq active] at known
      omega
    rcases image.checkpoint with ⟨known, portable, merges, content⟩
    rw [Log.history_push]
    exact ⟨known, portable, merges.append later newer, content⟩
  privateKey := image.privateKey
  publicKey := image.publicKey
  torn := torn_nil

include active in
theorem image_torn (image : Image log [] secret disk) {segments : SortedMap Bytes File}
    {tail : Bytes} (torn : FrameLog.Torn maxFrameBytes tail)
    (files : segments.entries = log.retainedFiles ++
      [(segment.name, ⟨segment.bytes ++ tail, []⟩)]) :
    Image log tail secret { disk with segments } where
  files := by
    rw [files]
    simp [Log.files, active]
  seals := image.seals
  checkpoint := image.checkpoint
  privateKey := image.privateKey
  publicKey := image.publicKey
  torn := torn

include newer in
theorem survives_frame (image : Image log [] secret disk) (allows : allowed log)
    (allowsPushed : allowed (log.push segment active record entry next previous))
    {segments : SortedMap Bytes File} {written : Bytes}
    (inside : written <+: FrameLog.frame record.encoded)
    (files : segments.entries = log.retainedFiles ++
      [(segment.name, ⟨segment.bytes, written⟩)]) :
    Survives allowed { disk with segments } := by
  have retained : ∀ entry ∈ log.retainedFiles, entry.2.volatile = [] := by
    simp [Log.retainedFiles]
  apply Survives.of_last retained files
  intro cut crashed isPrefix _ entries
  rcases FrameLog.torn_of_prefix entry.accepts.nonempty entry.accepts.bound
    (isPrefix.trans inside) with whole | torn
  · rw [whole] at entries
    exact ⟨_, [], secret, image_push entry active next previous newer image entries,
      allowsPushed⟩
  · exact ⟨log, cut, secret, image_torn active image torn entries, allows⟩

omit [Ed25519] in
theorem summary_push : (segment.push record entry next previous).summary false =
    { segment.summary false with
      size := segment.bytes.length + (FrameLog.headerBytes + record.encoded.length : Nat)
      first := if (segment.summary false).recordCount = 0 then record.edgeSequence
        else (segment.summary false).first
      last := record.edgeSequence
      recordCount := (segment.summary false).recordCount + 1 } := by
  have bytes := push_bytes_length entry next previous
  have pushed : (segment.push record entry next previous).records = segment.records ++ [record] :=
    rfl
  simp only [Segment.summary, bytes, pushed, Segment.last, next]
  by_cases empty : segment.records = []
  · simp [empty, Segment.push, Segment.name, Segment.sealName]
  · simp [empty, Segment.push, Segment.name, Segment.sealName, Nat.add_assoc]

omit [FloatText] [Ed25519] in
theorem modify_concat {α : Type} (initial : List α) (last : α) (change : α → α) :
    (initial ++ [last]).modify initial.length change = initial ++ [change last] := by
  induction initial with
  | nil => rfl
  | cons head rest induction =>
    simp only [cons_append, length_cons, modify_succ_cons, induction]

omit [Ed25519] in
theorem held_push (held : Held log secret store) (writing : Writing log store)
    {written : Record} (sequence : written.edgeSequence = record.edgeSequence)
    (source : sourceKey written.event = sourceKey record.event)
    (sourceSequence : written.sourceSequence = record.sourceSequence)
    (hash : written.recordHash = record.digest) :
    Held (log.push segment active record entry next previous) secret
      (store.noteAppended written (FrameLog.headerBytes + record.encoded.length)) where
  edge := held.edge
  segments := by
    rcases writing.active with ⟨other, found, _, size⟩
    obtain rfl : other = segment := by
      rw [active] at found
      exact (Option.some.inj found).symm
    have last : (log.retained.map fun segment => segment.summary true).length =
        log.retained.length := length_map _
    simp only [Store.noteAppended, held.segments, Log.summaries, Log.push, active,
      Option.toList_some, map_cons, map_nil, length_append, length_map,
      length_singleton, Nat.add_sub_cancel]
    rw [← last, modify_concat]
    rw [summary_push entry next previous, size, sequence, Nat.cast_add]
  totalBytes := by
    simp only [Store.noteAppended, held.totalBytes, Log.size, Log.push, active, Option.map_some,
      Option.getD_some, push_bytes_length]
    push_cast
    ring
  nextSequence := by
    simp [Store.noteAppended, held.nextSequence, Log.last, Log.push, active, Segment.last,
      Segment.push, Nat.add_assoc]
  sources := by
    simp only [Store.noteAppended, source, sourceSequence, held.sources]
    rfl
  committed := held.committed
  failed := held.failed
  signer := held.signer
  hash := by
    simp [Store.noteAppended, hash, Log.hash, Log.push, Segment.hash, Segment.push, finalHash]
  root := held.root
  count := held.count

end Writing

omit [FloatText] [Ed25519] in
private theorem frame_split (payload : Bytes) : FrameLog.frame payload =
    (bigEndian32 payload.length ++ bigEndian32 (Crc32.checksumIEEE payload)) ++ payload := by
  rw [FrameLog.frame, append_assoc]

theorem writeFrame_ensures {record : Record} (entry : Entry edgeID record)
    (active : log.active = some segment) (next : record.edgeSequence = segment.last + 1)
    (previous : record.previousRecordHash = segment.hash)
    (newer : log.sources.getD (sourceKey record.event) 0 < record.sourceSequence)
    (running : Running log secret store disk) (allows : allowed log)
    (allowsPushed : allowed (log.push segment active record entry next previous)) :
    Ensures (writeFrame record.encoded) store disk (Survives allowed)
      fun result store' disk' => result = .ok () ∧ store' = store ∧
        Image (log.push segment active record entry next previous) [] secret disk' ∧
        disk'.privateKey = some secret := by
  rcases running with ⟨held, ⟨opened, current⟩, image, keyed⟩
  rcases current with ⟨other, found, current, _⟩
  obtain rfl : other = segment := by
    rw [active] at found
    exact (Option.some.inj found).symm
  have initial : disk.segments.entries = log.retainedFiles ++
      [(other.name, ⟨other.bytes, []⟩)] := by
    rw [image.files, Log.files, active, Option.toList_some, map_singleton, append_nil]
  have headed := SortedMap.adjust_last initial (File.append
    (bigEndian32 record.encoded.length ++ bigEndian32 (Crc32.checksumIEEE record.encoded)))
  have written := SortedMap.adjust_last headed (File.append record.encoded)
  have synced := SortedMap.adjust_last written File.sync
  simp only [File.append, File.sync, File.content, nil_append, ← frame_split]
    at headed written synced
  apply Ensures.getState
  simp only [current]
  apply Ensures.write_then
  · exact survives_frame entry active next previous newer image allows allowsPushed
      (by rw [frame_split]; exact prefix_append _ _) headed
  apply Ensures.write_then
  · exact survives_frame entry active next previous newer image allows allowsPushed
      prefix_rfl written
  apply Ensures.write
  · exact .of_image (image_push entry active next previous newer image synced) allowsPushed
  · exact ⟨rfl, rfl, image_push entry active next previous newer image synced, keyed⟩

def EndsWith (edgeID : Bytes) (record : Record) (store : Store) (disk : Directory) : Prop :=
  ∃ segment : Segment edgeID, store.current = some segment.name ∧
    disk.segments.find? segment.name = some ⟨segment.bytes, []⟩ ∧
    segment.records.getLast? = some record

theorem writeRecord_ensures {record : Record} {payload : Bytes}
    (running : Running log secret store disk) (appended : record.Appended payload)
    (readable : record.Readable) (fits : payload.length ≤ maxFrameBytes)
    (bound : record.edgeSequence + 1 < 2 ^ 64)
    (edge : record.edgeID = edgeID) (next : record.edgeSequence = log.last + 1)
    (newer : log.sources.getD (sourceKey record.event) 0 < record.sourceSequence)
    (previous : record.previousRecordHash = log.hash) (allows : allowed log)
    (allowsPushed : ∀ pushed : Log edgeID,
      pushed.history = log.history.append record.reread → allowed pushed) :
    Ensures (writeRecord record payload) store disk (Survives allowed)
      fun result store' disk' => result = .ok record ∧
        Serves edgeID (log.history.append record.reread) secret store' disk' ∧
        EndsWith edgeID record.reread store' disk' := by
  rcases running.writing.active with ⟨segment, active, current, size⟩
  have unchanged := appended.reread_eq readable.edgeID readable.topic
  have encoded : record.reread.encoded = payload :=
    encoded_eq (appended.reread readable).marshal
  have entry : Entry edgeID record.reread := by
    rw [← edge]
    exact entry_reread appended readable fits bound
  have sequence : record.reread.edgeSequence = record.edgeSequence := by rw [unchanged]
  have next' : record.reread.edgeSequence = segment.last + 1 := by
    rw [sequence, next, log.last_eq active]
  have previous' : record.reread.previousRecordHash = segment.hash := by
    rw [unchanged]
    simpa [Log.hash, active] using previous
  have source : sourceKey record.reread.event = sourceKey record.event := by
    rw [unchanged]
    exact sourceKey_reread readable.event
  have sourceSequence : record.reread.sourceSequence = record.sourceSequence := by rw [unchanged]
  have newer' : log.sources.getD (sourceKey record.reread.event) 0 <
      record.reread.sourceSequence := by
    rw [source, sourceSequence]
    exact newer
  have digest : record.recordHash = record.reread.digest := by
    rw [unchanged, Record.digest, if_pos appended.lineage.formatVersion]
  have has : (log.push segment active record.reread entry next' previous').history =
      log.history.append record.reread := log.history_push active entry next' previous'
  rw [← encoded]
  apply Ensures.bind
  apply Ensures.noting
  apply (writeFrame_ensures entry active next' previous' newer' running allows
    (allowsPushed _ has)).imp
  rintro result store' disk' ⟨rfl, rfl, image, keyed⟩
  apply Ensures.modify_then
  refine Ensures.pure ⟨rfl, ⟨_, has, ?_, ⟨running.writing.opened, _, rfl, current, ?_⟩, image,
    keyed⟩, segment.push record.reread entry next' previous', current, ?_, getLast?_concat⟩
  · exact held_push entry active next' previous' running.held running.writing sequence.symm
      source.symm sourceSequence.symm digest
  · rw [push_bytes_length entry next' previous']
    simp [Store.noteAppended, size]
  · have file := image.find_active rfl
    rwa [append_nil] at file

omit [Ed25519] in
private theorem records_ne_nil (large : segment.bytes.length > segmentHeaderBytes) :
    segment.records ≠ [] := by
  intro empty
  simp [Segment.bytes, empty, segmentHeader, segmentHeaderBytes, ascii] at large

omit [FloatText] [Ed25519] in
def Store.Full (store : Store) (frameBytes : Nat) : Prop :=
  store.maxBytes < store.totalBytes + frameBytes ∨
    (store.segmentBytes < store.currentSize + frameBytes ∧
      segmentHeaderBytes < store.currentSize) ∧
      store.maxBytes < store.totalBytes + segmentHeaderBytes + frameBytes

theorem append_cases (topic : Bytes) (event : Event) (clock : Clock)
    (running : Running log secret store disk) :
    (∃ failure, store.prepare topic event clock.accepted = .error failure ∧
      append topic event clock store disk = ⟨.error failure, store, disk, []⟩) ∨
    (∃ record payload, store.prepare topic event clock.accepted = .ok (record, payload) ∧
      store.Full (FrameLog.headerBytes + payload.length) ∧
      append topic event clock store disk =
        ⟨.error .diskPressure, { store with pressure := true }, disk, []⟩) ∨
    ∃ (other : Log edgeID) (store' : Store) (disk' : Directory) (record : Record)
      (payload : Bytes) (writes : List Directory),
      store.prepare topic event clock.accepted = .ok (record, payload) ∧
      other.history = log.history ∧ Running other secret store' disk' ∧
      (∀ written ∈ writes,
        Survives (fun other : Log edgeID => other.history = log.history) written) ∧
      append topic event clock store disk = { writeRecord record payload store' disk' with
          writes := writes ++ (writeRecord record payload store' disk').writes } := by
  rcases prepared : store.prepare topic event clock.accepted with failure | ⟨record, payload⟩
  · left
    refine ⟨failure, rfl, ?_⟩
    simp only [append, getState_bind, prepared]
    rfl
  simp only [append, getState_bind, prepared]
  right
  split_ifs with full rotates fullRotated
  · exact .inl ⟨record, payload, rfl, .inl full, rfl⟩
  · exact .inl ⟨record, payload, rfl, .inr ⟨rotates, fullRotated⟩, rfl⟩
  · right
    rcases running.writing.active with ⟨segment, active, current, size⟩
    have nonempty : segment.records ≠ [] := by
      apply records_ne_nil
      have large := rotates.2
      rw [size] at large
      exact_mod_cast large
    have sequence : record.edgeSequence = log.last + 1 := by
      rcases (prepare_ok prepared).built with ⟨hash, _, rfl⟩
      exact running.held.nextSequence
    have closed := log.history_close active nonempty (clock.sealing segment.name)
    have rotated := history_rotated active nonempty (clock.sealing segment.name)
    rcases @rotate_ensures _ _ _ _ _ _ _ (fun other => other.history = log.history) _
      running active nonempty clock rfl closed rotated with ⟨survives, ends, running'⟩
    rw [← sequence] at survives ends running'
    have noted : (rotate record.edgeSequence clock).noting Store.fail store disk =
        rotate record.edgeSequence clock store disk := noting_of_ok ends
    refine ⟨_, _, _, record, payload, _, rfl, rotated, running', survives, ?_⟩
    rw [bind_of_ok (noted ▸ ends), noted]
  · exact .inr ⟨log, store, disk, record, payload, [], rfl, rfl, running, by simp, by simp⟩

omit [Ed25519] in
structure Scannable (record : Record) : Prop where
  readable : record.Readable
  fits : record.encoded.length ≤ maxFrameBytes
  next : record.edgeSequence + 1 < 2 ^ 64

omit [Ed25519] in
instance (record : Record) : Decidable (Scannable record) :=
  decidable_of_iff (record.Readable ∧ record.encoded.length ≤ maxFrameBytes ∧
    record.edgeSequence + 1 < 2 ^ 64)
    ⟨fun ⟨readable, fits, next⟩ => ⟨readable, fits, next⟩,
      fun scannable => ⟨scannable.readable, scannable.fits, scannable.next⟩⟩

theorem writeRecord_result (running : Running log secret store disk) (record : Record)
    (payload : Bytes) : (writeRecord record payload store disk).result = .ok record := by
  rcases running.writing.active with ⟨segment, _, current, _⟩
  have ensures : Ensures (writeRecord record payload) store disk (fun _ => True)
      fun result _ _ => result = .ok record := by
    apply Ensures.bind
    apply Ensures.noting
    apply Ensures.getState
    simp only [current]
    refine Ensures.write_then trivial (Ensures.write_then trivial (Ensures.write trivial ?_))
    exact Ensures.modify_then (Ensures.pure rfl)
  exact ensures.post

omit [Ed25519] in
structure Issued (edgeID : Bytes) (history : History) (topic : Bytes) (event : Event)
    (record : Record) : Prop where
  appended : record.Appended record.encoded
  edge : record.edgeID = edgeID
  about : record.topic = topic ∧ record.event = event
  next : record.edgeSequence = history.last + 1
  source : record.sourceSequence = history.sources.getD (sourceKey event) 0 + 1

omit [Ed25519] in
def Log.WithOrWithout (log : Log edgeID) (result : Except Failure Record) (other : Log edgeID) :
    Prop :=
  other.history = log.history ∨
    ∃ record, result = .ok record ∧ other.history = log.history.append record.reread

theorem append_ensures {topic : Bytes} {event : Event} {clock : Clock}
    (running : Running log secret store disk) (nonblank : trimSpace edgeID ≠ [])
    (scannable : ∀ record, (append topic event clock store disk).result = .ok record →
      Scannable record) :
    Ensures (append topic event clock) store disk
      (Survives (log.WithOrWithout (append topic event clock store disk).result))
      fun result store' disk' =>
        match result with
        | .ok record => Issued edgeID log.history topic event record ∧
            Serves edgeID (log.history.append record.reread) secret store' disk' ∧
            EndsWith edgeID record.reread store' disk'
        | .error _ => Running log secret store' disk' := by
  rcases append_cases topic event clock running with
    ⟨failure, _, outcome⟩ | ⟨_, _, _, _, outcome⟩ |
    ⟨other, store', disk', record, payload, writes, prepared, has, running', survives, outcome⟩
  · constructor
    · simp [outcome]
    · rw [outcome]
      exact running
  · constructor
    · simp [outcome]
    · rw [outcome]
      exact ⟨{ running.held with }, ⟨running.writing.opened, running.writing.active⟩,
        running.image, running.keyed⟩
  · have result := writeRecord_result running' record payload
    have returned : (append topic event clock store disk).result = .ok record := by
      rw [outcome]
      exact result
    rcases (prepare_ok prepared).appended running.held nonblank with
      ⟨appended, edge, ⟨sameTopic, sameEvent⟩, sequence, sourceSequence, previous⟩
    have scan := scannable record returned
    have continues := Log.continues_of_history has
    rw [← continues.1] at sequence
    rw [← continues.2] at previous
    have sources : other.sources = log.sources := congrArg History.sources has
    have newer : other.sources.getD (sourceKey record.event) 0 < record.sourceSequence := by
      rw [sources, sameEvent, sourceSequence]
      exact Nat.lt_succ_self _
    have fits : payload.length ≤ maxFrameBytes := by
      rw [← encoded_eq appended.marshal]
      exact scan.fits
    have allows : log.WithOrWithout (append topic event clock store disk).result other :=
      .inl has
    have written := writeRecord_ensures running' appended scan.readable fits scan.next edge sequence
      newer previous allows (by
        intro pushed pushedHas
        rw [has] at pushedHas
        exact .inr ⟨record, returned, pushedHas⟩)
    constructor
    · intro disk member
      rw [outcome] at member
      rcases mem_append.mp member with member | member
      · intro kept headed
        rcases survives disk member kept headed with ⟨log', tail, secret', image, has'⟩
        exact ⟨log', tail, secret', image, .inl has'⟩
      · exact written.along disk member
    · rw [outcome]
      rcases written.post with ⟨ends, serves⟩
      rw [has] at serves
      simp only [ends]
      have encoded := encoded_eq appended.marshal
      refine ⟨⟨by rw [encoded]; exact appended, edge, ⟨sameTopic, sameEvent⟩, ?_, sourceSequence⟩,
        serves⟩
      rw [sequence, continues.1, log.chained_records.2.1]

end TelemetryForge.Wal
