import TelemetryForge.Wal.Commit

/-! # Opening a directory that holds a log

Opening finds the log again: it accepts every seal and every record, cuts a torn tail
off the last segment and continues behind it. A crash on the way changes nothing. -/

namespace TelemetryForge.Wal

open Json Program

variable [FloatText] [Ed25519] {edgeID : Bytes} {log : Log edgeID} {secret tail : Bytes}
  {store : Store} {directory : Directory}

omit [FloatText] in
theorem loadOrCreateSigner_yields {along : Directory → Prop} (generated : Bytes)
    (privateKey : directory.privateKey = some secret ∨
      (directory.privateKey = none ∧ directory.publicKey = none ∧ secret = generated))
    (publicKey : directory.publicKey = none ∨ directory.publicKey = some (Ed25519.publicKey secret))
    (passes : ∀ reached : Directory, reached.segments = directory.segments →
      reached.seals = directory.seals → reached.checkpoint = directory.checkpoint →
      reached.privateKey = some secret →
      (reached.publicKey = none ∨ reached.publicKey = some (Ed25519.publicKey secret)) →
      along reached) :
    Yields (loadOrCreateSigner generated) store directory along ()
      { store with signer := secret }
      { directory with
        privateKey := some secret, publicKey := some (Ed25519.publicKey secret) } := by
  apply Ensures.getDisk
  rcases privateKey with present | ⟨absent, noPublic, rfl⟩
  · rcases publicKey with missing | matching
    · simp only [present, missing]
      apply Ensures.write_then (passes _ rfl rfl rfl present (.inr rfl))
      apply Ensures.modify
      refine ⟨rfl, rfl, ?_⟩
      rw [present]
    · simp only [present, matching, ne_eq, not_true_eq_false, if_false]
      apply Ensures.modify
      refine ⟨rfl, rfl, ?_⟩
      rcases directory with ⟨segments, seals, checkpoint, privateKey, publicKey⟩
      simp only at present matching
      simp only [present, matching]
  · simp only [absent, noPublic]
    apply Ensures.write_then (passes _ rfl rfl rfl rfl (.inl noPublic))
    apply Ensures.write_then (passes _ rfl rfl rfl rfl (.inr rfl))
    exact Ensures.modify ⟨rfl, rfl, rfl⟩

omit [FloatText] [Ed25519] in
theorem loadCheckpoint_yields {along : Directory → Prop} {history : History}
    (checkpointed : Checkpointed directory.checkpoint history) (unset : store.committed = 0)
    (sources : store.sourceSequence = .empty) :
    ∃ known, Merges known history ∧ Yields loadCheckpoint store directory along ()
      { store with committed := history.committed, sourceSequence := known } directory := by
  rcases checkpointed with ⟨known, portable, merges, ⟨absent, zero, rfl⟩ | ⟨bound, present⟩⟩
  · refine ⟨.empty, merges, ?_⟩
    apply Ensures.getDisk
    simp only [absent]
    refine Ensures.pure ⟨rfl, ?_, rfl⟩
    rw [zero, ← unset, ← sources]
  · refine ⟨known, merges, ?_⟩
    apply Ensures.getDisk
    simp only [present, Checkpoint.unmarshal_marshal bound portable, ne_eq, not_true_eq_false,
      or_self, if_false]
    apply Ensures.modify
    refine ⟨rfl, ?_, rfl⟩
    rw [sources, SortedMap.insertAll_entries]

theorem loadSeal_stamp (segment : SealedSegment edgeID) (edge : store.edgeID = edgeID)
    (name : Bytes) :
    loadSeal store name (segment.sealBytes store.signer) = .ok (segment.stamp store.signer) := by
  have verified := segment.verifySeal store.signer (.inl rfl : none = none ∨ _)
  simp only [loadSeal, segment.readSeal, verified]
  rw [if_neg (by rw [edge]; exact fun differs => differs rfl), if_neg (fun differs => differs rfl)]

theorem loadSealChain_linked {start finish : Position} {segments : List (SealedSegment edgeID)}
    (linked : Linked start segments finish) (edge : store.edgeID = edgeID) {previous : Option Seal}
    (agrees : (previous = none ∧ start.root = []) ∨ ∃ before : Seal, previous = some before ∧
      before.merkleRoot = start.root ∧ before.lastSequence = start.sequence) :
    loadSealChain store
        (segments.map fun segment => (segment.sealName, segment.sealBytes store.signer)) previous =
      .ok (segments.map fun segment => segment.stamp store.signer) := by
  induction segments generalizing start previous with
  | nil => rfl
  | cons segment rest induction =>
    rcases linked with ⟨rfl, linked⟩
    have link : checkLink segment.sealName previous (segment.stamp store.signer) = .ok () := by
      rcases agrees with ⟨rfl, root⟩ | ⟨before, rfl, root, last⟩
      · exact if_neg (fun differs => differs root)
      · have sequence : before.lastSequence = segment.before := last
        have first : (segment.stamp store.signer).firstSequence = segment.before + 1 := rfl
        have previous : (segment.stamp store.signer).previousSegmentRoot =
          segment.previousRoot := rfl
        rw [checkLink, if_neg (by rw [previous, root]; exact fun differs => differs rfl),
          if_neg (by rw [first, sequence]; exact fun differs => differs rfl)]
    simp only [List.map_cons, loadSealChain, loadSeal_stamp segment edge, link, Bind.bind,
      Except.bind, induction linked (.inr ⟨segment.stamp store.signer, rfl, rfl, rfl⟩)]
    rfl

omit [Ed25519] in
theorem eq_of_before {start finish : Position} {segments : List (SealedSegment edgeID)}
    (linked : Linked start segments finish) {left right : SealedSegment edgeID}
    (leftMember : left ∈ segments) (rightMember : right ∈ segments)
    (same : left.before = right.before) : left = right := by
  induction segments generalizing start with
  | nil => cases leftMember
  | cons segment rest induction =>
    have grows := segment.before_lt_last
    have after (other : SealedSegment edgeID) (member : other ∈ rest) :
        segment.last ≤ other.before := ((linked_bounds linked.2).2 other member).1
    rcases List.mem_cons.mp leftMember with rfl | leftInside
    · rcases List.mem_cons.mp rightMember with rfl | rightMember
      · rfl
      · have later := after right rightMember
        omega
    · rcases List.mem_cons.mp rightMember with rfl | rightMember
      · have later := after left leftInside
        omega
      · exact induction linked.2 leftInside rightMember

def Log.stamps (log : Log edgeID) (secret : Bytes) : List Seal :=
  log.sealed.map fun segment => segment.stamp secret

theorem sealFor_sealed {segment : SealedSegment edgeID} (member : segment ∈ log.sealed) :
    sealFor (log.stamps secret) segment.name = some (segment.stamp secret) := by
  rcases found : sealFor (log.stamps secret) segment.name with _ | stamp
  · have absent := List.find?_eq_none.mp found (segment.stamp secret) (by
      rw [List.mem_reverse]
      exact List.mem_map_of_mem member)
    exact absurd (show (segment.stamp secret).segment = segment.name from rfl) (by simpa using absent)
  · have named : stamp.segment = segment.name := by simpa using List.find?_some found
    have present := List.mem_reverse.mp (List.mem_of_find?_eq_some found)
    rcases List.mem_map.mp present with ⟨other, otherMember, rfl⟩
    have before := segmentName_injective (show segmentName (other.before + 1) =
      segmentName (segment.before + 1) from named)
    rw [eq_of_before log.linked otherMember member (by omega)]

theorem sealFor_active {segment : Segment edgeID} (active : log.active = some segment) :
    sealFor (log.stamps secret) segment.name = none := by
  rw [sealFor, List.find?_eq_none]
  intro stamp member
  rcases List.mem_map.mp (List.mem_reverse.mp member) with ⟨other, otherMember, rfl⟩
  have bounds := (linked_bounds log.linked).2 other otherMember
  have grows := other.before_lt_last
  have continues := (log.continues segment active).1
  simp only [decide_eq_true_eq]
  intro names
  have before := segmentName_injective (show segmentName (other.before + 1) =
    segmentName (segment.before + 1) from names)
  omega

omit [FloatText] [Ed25519] in
theorem segmentSequence_segmentName {sequence : Nat} (positive : 0 < sequence)
    (bound : sequence < 2 ^ 64) : segmentSequence (segmentName sequence) = .ok sequence := by
  have width : (zeroPadded 20 sequence).length = 20 :=
    zeroPadded_length (by decide) (bound.trans (by decide))
  have nonempty : zeroPadded 20 sequence ≠ [] := by
    intro empty
    rw [empty] at width
    cases width
  have parsed : parseUint64 (zeroPadded 20 sequence) = some sequence := by
    rw [parseUint64, parseDecimal, if_pos ⟨nonempty, zeroPadded_all_digits _ _⟩,
      digitsValue_zeroPadded, Option.bind_some, if_pos bound]
  rw [segmentSequence, stem_segmentName, parsed]
  exact if_neg (by omega)

omit [Ed25519] in
def Log.names (log : Log edgeID) : List Bytes :=
  log.retained.map (fun segment => segment.name) ++
    log.active.toList.map fun segment => segment.name

theorem Image.names (image : Image log tail secret directory) :
    directory.segments.entries.map Prod.fst = log.names := by
  simp [image.files, Log.files, Log.retainedFiles, Log.names, Function.comp_def]

omit [FloatText] [Ed25519] in
theorem foldl_pass_later {first : Nat} {stamps : List Seal}
    (later : ∀ stamp ∈ stamps, first ≤ stamp.lastSequence) (start : Anchor) :
    stamps.foldl (Anchor.pass first) start = start := by
  induction stamps with
  | nil => rfl
  | cons stamp rest induction =>
    rw [List.forall_mem_cons] at later
    rw [List.foldl_cons, Anchor.pass, if_neg (by omega), induction later.2]

theorem foldl_pass_linked {start finish : Position} {segments : List (SealedSegment edgeID)}
    (linked : Linked start segments finish) {first : Nat} (before : finish.sequence < first)
    (sequence count : Nat) :
    (segments.map fun segment => segment.stamp secret).foldl (Anchor.pass first)
        ⟨sequence, start.hash, start.root, count⟩ =
      ⟨if segments = [] then sequence else finish.sequence, finish.hash, finish.root,
        count + segments.length⟩ := by
  induction segments generalizing start sequence count with
  | nil =>
    subst linked
    simp
  | cons segment rest induction =>
    have ends : segment.last ≤ finish.sequence := (linked_bounds linked.2).1
    have passed : Anchor.pass first ⟨sequence, start.hash, start.root, count⟩
        (segment.stamp secret) =
          ⟨segment.last, segment.finish.hash, segment.finish.root, count + 1⟩ := by
      rw [Anchor.pass, if_pos (by
        change segment.last < first
        omega)]
      rfl
    rw [List.map_cons, List.foldl_cons, passed, induction linked.2]
    rcases rest with _ | ⟨second, others⟩
    · have finished : segment.finish = finish := linked.2
      simp [← finished, SealedSegment.finish]
    · simp [Nat.add_assoc, Nat.add_comm 1]

omit [Ed25519] in
private theorem first_name {middle : Position} (retained : Linked middle log.retained log.finish)
    {first : Bytes} {others : List Bytes} (names : log.names = first :: others) :
    first = segmentName (middle.sequence + 1) := by
  rw [Log.names] at names
  rcases found : log.retained with _ | ⟨segment, rest⟩
  · rw [found] at names retained
    have finish : middle = log.finish := retained
    rcases active : log.active with _ | segment
    · simp [active] at names
    · simp only [active, List.map_nil, Option.toList_some, List.map_cons, List.nil_append,
        List.cons.injEq] at names
      rw [← names.1, Segment.name, (log.continues segment active).1, finish]
  · rw [found] at names retained
    simp only [List.map_cons, List.cons_append, List.cons.injEq] at names
    rw [← names.1, ← retained.1]
    rfl

theorem anchor_eq {middle : Position} (dropped : Linked (.origin log.base) log.dropped middle)
    (retained : Linked middle log.retained log.finish) :
    ∃ sequence, (sequence = middle.sequence ∨ sequence = 0 ∧ log.dropped = []) ∧
      anchor (log.stamps secret) log.names =
        .ok ⟨sequence, middle.hash, middle.root, log.dropped.length⟩ := by
  have stamps : log.stamps secret = log.dropped.map (fun segment => segment.stamp secret) ++
      log.retained.map fun segment => segment.stamp secret := by
    simp [Log.stamps, Log.sealed]
  refine ⟨if log.dropped = [] then 0 else middle.sequence, ?_, ?_⟩
  · split_ifs with none
    · exact .inr ⟨rfl, none⟩
    · exact .inl rfl
  rcases names : log.names with _ | ⟨first, others⟩
  · -- Without any segment file recovery continues after the last seal.
    have noRetained : log.retained = [] := by
      have empty := (List.append_eq_nil_iff.mp names).1
      simpa using empty
    rw [noRetained] at stamps
    rw [List.map_nil, List.append_nil] at stamps
    rw [anchor, stamps, List.getLast?_map]
    rcases List.eq_nil_or_concat log.dropped with none | ⟨initial, last, split⟩
    · have origin : Position.origin log.base = middle := by
        rw [none] at dropped
        exact dropped
      simp [none, ← origin, Anchor.none, Position.origin]
    · rw [List.concat_eq_append] at split
      rw [split] at dropped
      rcases linked_append.mp dropped with ⟨_, _, _, finished⟩
      have finished : last.finish = middle := finished
      simp only [split, List.getLast?_concat, Option.map_some, ← finished]
      simp [SealedSegment.finish, SealedSegment.stamp, SealedSegment.unsigned]
  · have bound : middle.sequence + 1 < 2 ^ 64 := by
      have ends := (linked_bounds retained).1
      have small := log.finish_facts.1
      omega
    have later : ∀ stamp ∈ log.retained.map (fun segment => segment.stamp secret),
        middle.sequence + 1 ≤ stamp.lastSequence := by
      rw [List.forall_mem_map]
      intro segment member
      have starts := ((linked_bounds retained).2 segment member).1
      have grows := segment.before_lt_last
      change middle.sequence + 1 ≤ segment.last
      omega
    have passed : (log.dropped.map fun segment => segment.stamp secret).foldl
        (Anchor.pass (middle.sequence + 1)) Anchor.none = _ :=
      foldl_pass_linked dropped (Nat.lt_succ_self _) 0 0
    rw [anchor, first_name retained names, segmentSequence_segmentName (Nat.succ_pos _) bound,
      stamps]
    simp only [Except.map, List.foldl_append]
    rw [foldl_pass_later later, passed, Nat.zero_add]

section

omit [Ed25519]

theorem checkRecords_chained {before previous : Nat} {anchor : Bytes} {records : List Record}
    (entries : ∀ record ∈ records, Entry edgeID record)
    (chained : Chained before anchor records) (follows : previous = before ∨ previous = 0)
    (name : Bytes) : checkRecords edgeID name records previous =
      .ok (if records = [] then previous else before + records.length) := by
  induction records generalizing before anchor previous with
  | nil => rfl
  | cons record rest induction =>
    rw [List.forall_mem_cons] at entries
    have next : ¬(previous ≠ 0 ∧ record.edgeSequence ≠ previous + 1) := by
      rintro ⟨positive, gap⟩
      have sequence := chained.1
      omega
    rw [checkRecords, if_neg (fun foreign => foreign entries.1.edge), if_neg next,
      induction entries.2 chained.2.2 (.inl chained.1), if_neg (List.cons_ne_nil _ _),
      List.length_cons]
    rcases rest with _ | ⟨second, others⟩
    · simp [chained.1]
    · rw [if_neg (List.cons_ne_nil _ _)]
      congr 1
      omega

theorem foldl_note {before : Nat} {anchor : Bytes} {records : List Record}
    (chained : Chained before anchor records) (segment : SegmentMeta) :
    records.foldl SegmentMeta.note segment = { segment with
      first := if segment.first = 0 ∧ records ≠ [] then before + 1 else segment.first
      last := if records = [] then segment.last else before + records.length } := by
  induction records generalizing before anchor segment with
  | nil => simp
  | cons record rest induction =>
    rw [List.foldl_cons, induction chained.2.2]
    have sequence := chained.1
    rcases rest with _ | ⟨second, others⟩
    · simp [SegmentMeta.note, sequence]
    · by_cases unset : segment.first = 0
      · simp [SegmentMeta.note, sequence, unset]
        omega
      · simp [SegmentMeta.note, unset]
        omega

theorem noteSegment_eq (segment : Segment edgeID) (anchored : store.lastLineageHash = segment.anchor)
    (truncated : Bool) (stamp : Option Seal) :
    store.noteSegment segment.name ⟨segment.records, segment.bytes.length, truncated⟩
        segment.hash stamp =
      { store with
        sourceSequence := segment.records.foldl noteSource store.sourceSequence
        lastLineageHash := segment.hash
        lastSegmentRoot := (stamp.map Seal.merkleRoot).getD store.lastSegmentRoot
        sealedSegments := store.sealedSegments + (if stamp.isSome then 1 else 0)
        segments := store.segments ++ [segment.summary stamp.isSome]
        totalBytes := store.totalBytes + segment.bytes.length } := by
  have hash : (if segment.records = [] then store.lastLineageHash else segment.hash) =
      segment.hash := by
    split_ifs with empty
    · rw [anchored, Segment.hash, empty]
      rfl
    · rfl
  have summary : segment.records.foldl SegmentMeta.note {
      path := segment.name, first := 0, last := 0, size := segment.bytes.length,
      recordCount := segment.records.length, startPreviousHash := store.lastLineageHash,
      sealPath := sealPathForSegment segment.name, sealed := stamp.isSome } =
        segment.summary stamp.isSome := by
    rw [foldl_note segment.chained]
    by_cases empty : segment.records = []
    · simp [Segment.summary, empty, anchored, Segment.name, Segment.sealName]
    · simp [Segment.summary, empty, anchored, Segment.name, Segment.sealName, Segment.last]
  simp only [Store.noteSegment, hash, summary]

end

theorem recoverSegment_yields {segment : Segment edgeID} {seals : List Seal} {last : Bool}
    {previous : Nat} {along : Directory → Prop} {directory' : Directory} {truncated : Bool}
    (edge : store.edgeID = edgeID) (anchored : store.lastLineageHash = segment.anchor)
    (follows : previous = segment.before ∨ previous = 0)
    (scans : Yields (scanSegment segment.name last) store directory along
      ⟨segment.records, segment.bytes.length, truncated⟩ store directory')
    (checks : ∀ stamp ∈ sealFor seals segment.name, checkSeal store segment.name segment.records
      (segment.records.map Record.digest) stamp = .ok ()) :
    Yields (recoverSegment seals segment.name last previous) store directory along
      (if segment.records = [] then previous else segment.last)
      (store.noteSegment segment.name ⟨segment.records, segment.bytes.length, truncated⟩
        segment.hash (sealFor seals segment.name)) directory' := by
  have checked : checkRecords store.edgeID segment.name segment.records previous = _ :=
    checkRecords_chained (by rw [edge]; exact segment.entries) segment.chained follows segment.name
  have verified := segment.verifyRecordChain
  rw [← anchored] at verified
  apply scans.bind
  apply Ensures.getState
  simp only [checked, verified]
  rcases found : sealFor seals segment.name with _ | stamp
  · exact Ensures.modify_then (Yields.pure _)
  · simp only [checks stamp found]
    exact Ensures.modify_then (Yields.pure _)

/-- The store after the sealed segments `done` have been recovered, from the source
sequences `known` in the checkpoint. -/
structure Recovering (log : Log edgeID) (secret : Bytes) (known : SortedMap Bytes Nat)
    (done : List (SealedSegment edgeID)) (position : Position) (store : Store) : Prop where
  edge : store.edgeID = edgeID
  opened : store.closed = false
  segments : store.segments = done.map fun segment => segment.summary true
  totalBytes : store.totalBytes = ((done.map fun segment => segment.bytes.length).sum : Nat)
  nextSequence : store.nextSequence = 1
  sources : store.sourceSequence =
    (done.flatMap fun segment => segment.records).foldl noteSource known
  committed : store.committed = log.committed
  failed : store.failed = none
  signer : store.signer = secret
  hash : store.lastLineageHash = position.hash
  root : store.lastSegmentRoot = position.root
  count : store.sealedSegments = log.dropped.length + done.length

section Recovering

variable {known : SortedMap Bytes Nat} {done : List (SealedSegment edgeID)} {position : Position}
  {along : Directory → Prop} {previous : Nat}

theorem recoverSegment_sealed {segment : SealedSegment edgeID} {last : Bool}
    (recovering : Recovering log secret known done segment.start store)
    (member : segment ∈ log.retained)
    (found : directory.segments.find? segment.name = some ⟨segment.bytes, []⟩)
    (follows : previous = segment.before ∨ previous = 0) :
    Ensures (recoverSegment (log.stamps secret) segment.name last previous) store directory along
      fun result store' directory' => result = .ok segment.last ∧ directory' = directory ∧
        Recovering log secret known (done ++ [segment]) segment.finish store' := by
  have stamp : sealFor (log.stamps secret) segment.name = some (segment.stamp secret) :=
    sealFor_sealed (List.mem_append_right _ member)
  have checks : ∀ stamp ∈ sealFor (log.stamps secret) segment.name,
      checkSeal store segment.name segment.records (segment.records.map Record.digest) stamp =
        .ok () := by
    rw [stamp]
    intro found same
    rw [Option.mem_some_iff] at same
    have signer : ¬(segment.stamp secret).keyID ≠
        Lineage.keyID (Ed25519.publicKey store.signer) := by
      rw [recovering.signer]
      exact fun differs => differs rfl
    have root : ¬(segment.stamp secret).previousSegmentRoot ≠ store.lastSegmentRoot := by
      rw [recovering.root]
      exact fun differs => differs rfl
    rw [← same, checkSeal, if_neg signer, if_neg root]
    exact segment.verifySealAgainstRecords secret
  apply (recoverSegment_yields recovering.edge recovering.hash follows
    (scanSegment_yields found last) checks).imp
  rintro result store' directory' ⟨rfl, rfl, rfl⟩
  refine ⟨by rw [if_neg segment.nonempty], rfl, ?_⟩
  rw [stamp, noteSegment_eq segment.toSegment recovering.hash]
  exact { recovering with
    segments := by simp [recovering.segments]
    totalBytes := by simp [recovering.totalBytes]
    sources := by simp [recovering.sources]
    hash := rfl
    root := rfl
    count := by simp [recovering.count, Nat.add_assoc] }

omit [Ed25519] in
theorem merges_present (merges : Merges known log.history) :
    (log.retained.flatMap (fun segment => segment.records) ++ log.activeRecords).foldl noteSource
      known = log.sources := by
  have settled : (log.dropped.flatMap fun segment => segment.records).foldl noteSource known =
      known := by
    apply foldl_noteSource_of_le
    intro record member
    rcases List.mem_flatMap.mp member with ⟨segment, dropped, inside⟩
    apply merges.settled
    · change record ∈ log.records
      rw [Log.records, Log.sealed, List.flatMap_append, List.append_assoc]
      exact List.mem_append_left _ member
    · exact (segment.sequence_le record inside).trans (log.settled segment dropped)
  have all := merges.all
  change log.records.foldl noteSource known = log.sources at all
  rwa [Log.records, Log.sealed, List.flatMap_append, List.append_assoc, List.foldl_append,
    settled] at all

structure Recovered (log : Log edgeID) (secret : Bytes) (store : Store) (directory : Directory) :
    Prop where
  held : Held log secret { store with nextSequence := log.last + 1 }
  opened : store.closed = false
  nextSequence : store.nextSequence = 1
  image : Image log [] secret directory

theorem image_truncated {segment : Segment edgeID} (active : log.active = some segment)
    (image : Image log tail secret directory) :
    Image log [] secret
      (directory.changeFile segment.name (File.truncate segment.bytes.length)) where
  files := by
    have entries : directory.segments.entries = log.retainedFiles ++
        [(segment.name, ⟨segment.bytes ++ tail, []⟩)] := by
      simp [image.files, Log.files, active]
    change (directory.segments.adjust _ _).entries = _
    rw [SortedMap.adjust_last entries]
    simp [Log.files, active, File.truncate, File.content]
  seals := image.seals
  checkpoint := image.checkpoint
  privateKey := image.privateKey
  publicKey := image.publicKey
  torn := torn_nil

theorem recoverSegment_active {segment : Segment edgeID} (active : log.active = some segment)
    (image : Image log tail secret directory)
    (recovering : Recovering log secret known log.retained log.finish store)
    (merges : Merges known log.history) (follows : previous = segment.before ∨ previous = 0) :
    Ensures (recoverSegment (log.stamps secret) segment.name true previous) store directory
      (Survives fun other : Log edgeID => other.history = log.history)
      fun result store' directory' =>
        result = .ok (if segment.records = [] then previous else segment.last) ∧
          Recovered log secret store' directory' ∧
          directory'.privateKey = directory.privateKey := by
  have stamp : sealFor (log.stamps secret) segment.name = none := sealFor_active active
  have anchored : store.lastLineageHash = segment.anchor := by
    rw [recovering.hash, (log.continues segment active).2]
  have scanned : ∃ truncated directory', Yields (scanSegment segment.name true) store directory
      (Survives fun other : Log edgeID => other.history = log.history)
      ⟨segment.records, segment.bytes.length, truncated⟩ store directory' ∧
      Image log [] secret directory' ∧ directory'.privateKey = directory.privateKey := by
    have file := image.find_active active
    by_cases clean : tail = []
    · subst clean
      rw [List.append_nil] at file
      exact ⟨false, directory, scanSegment_yields file true, image, rfl⟩
    · have cut := image_truncated active image
      exact ⟨true, _, scanSegment_recovers file image.torn clean (.of_image cut rfl), cut, rfl⟩
  rcases scanned with ⟨truncated, reached, scans, image', key⟩
  apply (recoverSegment_yields recovering.edge anchored follows scans (by simp [stamp])).imp
  rintro result store' directory' ⟨rfl, rfl, rfl⟩
  rw [stamp, noteSegment_eq segment anchored]
  have present := merges_present merges
  refine ⟨rfl, ⟨?_, recovering.opened, recovering.nextSequence, image'⟩, key⟩
  exact {
    edge := recovering.edge
    segments := by simp [recovering.segments, Log.summaries, active]
    totalBytes := by simp [recovering.totalBytes, Log.size, active]
    nextSequence := rfl
    sources := by
      rw [← present, List.foldl_append, ← recovering.sources, Log.activeRecords, active]
      rfl
    committed := recovering.committed
    failed := recovering.failed
    signer := recovering.signer
    hash := by
      rw [Log.hash, active]
      rfl
    root := recovering.root
    count := by simp [recovering.count, Log.sealed] }

theorem recovered_of_inactive (inactive : log.active = none)
    (image : Image log tail secret directory)
    (recovering : Recovering log secret known log.retained log.finish store)
    (merges : Merges known log.history) : Recovered log secret store directory := by
  have present := merges_present merges
  rw [Log.activeRecords, inactive, Option.map_none, Option.getD_none, List.append_nil] at present
  refine ⟨?_, recovering.opened, recovering.nextSequence, ?_⟩
  · exact {
      edge := recovering.edge
      segments := by simp [recovering.segments, Log.summaries, inactive]
      totalBytes := by simp [recovering.totalBytes, Log.size, inactive]
      nextSequence := rfl
      sources := by rw [← present, ← recovering.sources]
      committed := recovering.committed
      failed := recovering.failed
      signer := recovering.signer
      hash := by
        rw [Log.hash, inactive]
        exact recovering.hash
      root := recovering.root
      count := by simp [recovering.count, Log.sealed] }
  · exact { image with
      files := by simp [image.files, Log.files, inactive]
      torn := torn_nil }

omit [Ed25519] in
theorem last_of_untouched (dropped : log.dropped = []) (retained : log.retained = [])
    (active : ∀ segment ∈ log.active, segment.records = []) : log.last = 0 := by
  have base : log.base = 0 := by
    rcases log.grounded with zero | sealed | ⟨segment, member, nonempty⟩
    · exact zero
    · simp [dropped, retained] at sealed
    · exact absurd (active segment member) nonempty
  have linked := log.linked
  rw [dropped, retained] at linked
  have finish : Position.origin log.base = log.finish := linked
  have sequence : log.finish.sequence = 0 := by
    rw [← finish, base]
    rfl
  rcases found : log.active with _ | segment
  · rw [log.last_of_none found, sequence]
  · rw [log.last_eq found, Segment.last, active segment found, (log.continues segment found).1,
      sequence]
    rfl

theorem recoverSegments_ensures {rest : List (SealedSegment edgeID)}
    (linked : Linked position rest log.finish) (split : log.retained = done ++ rest)
    (recovering : Recovering log secret known done position store)
    (image : Image log tail secret directory) (merges : Merges known log.history)
    (follows : previous = position.sequence ∨ previous = 0 ∧ log.dropped = [] ∧ done = []) :
    Ensures (recoverSegments (log.stamps secret) (rest.map (fun segment => segment.name) ++
        log.active.toList.map fun segment => segment.name) previous) store directory
      (Survives fun other : Log edgeID => other.history = log.history)
      fun result store' directory' => result = .ok log.last ∧
        Recovered log secret store' directory' ∧
        directory'.privateKey = directory.privateKey := by
  induction rest generalizing position done previous store with
  | nil =>
    rw [List.append_nil] at split
    have finish : position = log.finish := linked
    subst finish
    rw [← split] at recovering follows
    rcases active : log.active with _ | segment
    · have last : previous = log.last := by
        rcases follows with same | ⟨rfl, dropped, retained⟩
        · rw [same, log.last_of_none active]
        · exact (last_of_untouched dropped retained (by simp [active])).symm
      rw [last]
      exact Ensures.pure ⟨rfl, recovered_of_inactive active image recovering merges, rfl⟩
    · have before := (log.continues segment active).1
      have follows' : previous = segment.before ∨ previous = 0 := by
        rcases follows with same | ⟨zero, _⟩
        · exact .inl (same.trans before.symm)
        · exact .inr zero
      apply Ensures.bind
      apply (recoverSegment_active active image recovering merges follows').imp
      rintro result store' directory' ⟨rfl, recovered, key⟩
      refine Ensures.pure ⟨?_, recovered, key⟩
      split_ifs with empty
      · rcases follows with same | ⟨rfl, dropped, retained⟩
        · rw [same, log.last_eq active, Segment.last, empty, before]
          rfl
        · rw [last_of_untouched dropped retained (by simp [active, empty])]
      · rw [log.last_eq active]
  | cons segment others induction =>
    rcases linked with ⟨rfl, linked⟩
    have member : segment ∈ log.retained := by simp [split]
    have follows' : previous = segment.before ∨ previous = 0 := by
      rcases follows with same | ⟨zero, _⟩
      · exact .inl same
      · exact .inr zero
    apply Ensures.bind
    apply (recoverSegment_sealed recovering member (image.find_retained member) follows').imp
    rintro result store' directory' ⟨rfl, rfl, recovering'⟩
    exact induction linked (by simp [split]) recovering' (.inl rfl)

end Recovering

theorem settle_yields {along : Directory → Prop} (recovered : Recovered log secret store directory)
    (names : List Bytes) :
    Yields (settle names log.last) store directory along ()
      { store with nextSequence := log.last + 1 } directory := by
  have known : log.committed ≤ log.last := log.known
  have committed : store.committed = log.committed := recovered.held.committed
  have next : (if log.last > 0 then log.last + 1 else store.nextSequence) = log.last + 1 := by
    rw [recovered.nextSequence]
    split_ifs <;> omega
  apply Ensures.modify_then
  apply Ensures.modify_then
  apply Ensures.getState
  simp only [next, committed]
  rw [if_neg (by omega), if_neg (by omega)]
  exact Yields.pure ()

omit [Ed25519] in
theorem sealed_of_index (held : Held log secret store) {index : Nat}
    (inside : index < store.segments.length - 1) :
    ∃ segment, store.segments[index]? = some segment ∧ segment.sealed = true := by
  have segments := held.segments
  have bound : index < log.retained.length := by
    have length := congrArg List.length segments
    rw [Log.summaries, List.length_append, List.length_map, List.length_map] at length
    have single : log.active.toList.length ≤ 1 := by
      cases log.active <;> simp
    omega
  refine ⟨(log.retained.get ⟨index, bound⟩).summary true, ?_, rfl⟩
  rw [segments, Log.summaries, List.getElem?_append_left (by simpa using bound),
    List.getElem?_map, List.getElem?_eq_getElem bound]
  rfl

theorem sealSegment_sealed {segment : SegmentMeta} (sealed : segment.sealed = true) (index : Nat)
    (clock : Clock) {along : Directory → Prop} :
    Yields (sealSegment index segment clock) store directory along () store directory := by
  rw [sealSegment, if_pos (.inr sealed)]
  exact Yields.pure ()

theorem sealPredecessors_yields (held : Held log secret store) (clock : Clock)
    {along : Directory → Prop} :
    Yields (forEach (sealPredecessor clock) (List.range (store.segments.length - 1))) store
      directory along () store directory := by
  have step (index : Nat) (rest : List Nat) (state : Store) (disk : Directory)
      (holds : (∀ other ∈ index :: rest, other < store.segments.length - 1) ∧
        state = store ∧ disk = directory) :
      Ensures (sealPredecessor clock index) state disk along fun result state disk =>
        result = .ok () ∧ (∀ other ∈ rest, other < store.segments.length - 1) ∧
          state = store ∧ disk = directory := by
    rcases holds with ⟨inside, rfl, rfl⟩
    rw [List.forall_mem_cons] at inside
    rcases sealed_of_index held inside.1 with ⟨segment, found, sealed⟩
    apply Ensures.getState
    simp only [found]
    apply (sealSegment_sealed sealed index clock).imp
    rintro result state disk ⟨rfl, rfl, rfl⟩
    exact ⟨rfl, inside.2, rfl, rfl⟩
  apply (Ensures.forEach (fun indices state disk =>
    (∀ other ∈ indices, other < store.segments.length - 1) ∧ state = store ∧ disk = directory)
    step ⟨by simp, rfl, rfl⟩).imp
  rintro result state disk ⟨rfl, _, rfl, rfl⟩
  exact ⟨rfl, rfl, rfl⟩

section

omit [Ed25519]

/-- The log that a store continues: the one it found, with a new segment if the last one
is sealed or holds records of the earlier format. -/
inductive Log.Resumes (log : Log edgeID) : Log edgeID → Prop
  | same : Resumes log log
  | started (inactive : log.active = none) : Resumes log (log.start inactive)
  | rotated (segment : Segment edgeID) (active : log.active = some segment)
      (nonempty : segment.records ≠ []) (now : Now) :
      Resumes log (log.rotated segment active nonempty now)

theorem Log.Resumes.history {other : Log edgeID} (resumes : log.Resumes other) :
    other.history = log.history := by
  cases resumes with
  | same => rfl
  | started inactive => exact log.history_start inactive
  | rotated segment active nonempty now => exact history_rotated active nonempty now

theorem Log.Resumes.tidy {other : Log edgeID} (resumes : log.Resumes other) (tidy : log.Tidy) :
    other.Tidy := by
  cases resumes with
  | same => exact tidy
  | started inactive => exact tidy_start tidy inactive
  | rotated segment active nonempty now =>
    exact tidy_start (tidy_close tidy active nonempty now) _

end

theorem resume_ensures (held : Held log secret store) (opened : store.closed = false)
    (image : Image log [] secret directory) (keyed : directory.privateKey = some secret)
    (clock : Clock) :
    Ensures (resume clock) store directory
      (Survives fun other : Log edgeID => other.history = log.history)
      fun result store' directory' => result = .ok () ∧
        ∃ other, log.Resumes other ∧ Running other secret store' directory' := by
  apply Ensures.getState
  rcases active : log.active with _ | segment
  · have starts : Ensures (createSegment store.nextSequence) store directory
        (Survives fun other : Log edgeID => other.history = log.history)
        fun result store' directory' => result = .ok () ∧
          ∃ other, log.Resumes other ∧ Running other secret store' directory' := by
      rw [held.nextSequence]
      apply (createSegment_ensures image held opened active (log.history_start active)).imp
      rintro result store' directory' ⟨rfl, held', writing, image', key⟩
      exact ⟨rfl, _, .started active, held', writing, image', key.trans keyed⟩
    rcases List.eq_nil_or_concat log.retained with none | ⟨initial, last, split⟩
    · have empty : store.segments = [] := by simp [held.segments, Log.summaries, active, none]
      simp only [empty, List.getLast?_nil]
      exact starts
    · rw [List.concat_eq_append] at split
      have found : store.segments.getLast? = some (last.summary true) := by
        simp [held.segments, Log.summaries, active, split]
      have member : last ∈ log.retained := by simp [split]
      simp only [found]
      apply (sealPredecessors_yields held clock).bind
      apply (scanSegment_yields (image.find_retained member) false).bind
      simp only [Segment.summary, true_or, if_true]
      exact (sealSegment_sealed rfl _ clock).bind starts
  · have found : store.segments.getLast? = some (segment.summary false) := by
      simp [held.segments, Log.summaries, active]
    have file := image.find_active active
    rw [List.append_nil] at file
    simp only [found]
    apply (sealPredecessors_yields held clock).bind
    apply (scanSegment_yields file false).bind
    split_ifs with legacy
    · have nonempty : segment.records ≠ [] := by
        rcases legacy with sealed | ⟨_, counted⟩
        · cases sealed
        · intro empty
          simp [Segment.summary, empty] at counted
      have direct : sealLast clock store directory =
          sealSegment (store.segments.length - 1) (segment.summary false) clock store directory := by
        simp only [sealLast, getState_bind, found]
      apply Ensures.bind
      apply ((sealLast_ensures active nonempty image keyed held (log.history_close active nonempty
        (clock.sealing segment.name))).of_eq direct.symm).imp
      rintro result store' directory' ⟨rfl, held', closed, _, keyed', image'⟩
      have next : store.nextSequence =
          (log.close segment active nonempty (clock.sealing segment.name)).last + 1 := by
        rw [held.nextSequence, log.last_eq active]
        rfl
      rw [next]
      apply (createSegment_ensures image' held' (closed.trans opened)
        (log.close_active active nonempty _) (history_rotated active nonempty _)).imp
      rintro result store'' directory'' ⟨rfl, held'', writing, image'', key⟩
      exact ⟨rfl, _, .rotated segment active nonempty _, held'', writing, image'', key.trans keyed'⟩
    · apply Ensures.modify
      exact ⟨rfl, log, .same, { held with }, ⟨opened, segment, active, rfl, rfl⟩, image, keyed⟩

section

variable (image : Image log tail secret directory)
include image

theorem recover_ensures {known : SortedMap Bytes Nat}
    (keyed : directory.privateKey = some secret) (merges : Merges known log.history)
    (edge : store.edgeID = edgeID) (opened : store.closed = false)
    (segments : store.segments = []) (totalBytes : store.totalBytes = 0)
    (nextSequence : store.nextSequence = 1) (sources : store.sourceSequence = known)
    (committed : store.committed = log.committed) (failed : store.failed = none)
    (signer : store.signer = secret) (clock : Clock) :
    Ensures (recover clock) store directory
      (Survives fun other : Log edgeID => other.history = log.history)
      fun result store' directory' => result = .ok () ∧
        ∃ other, log.Resumes other ∧ Running other secret store' directory' := by
  rcases linked_append.mp log.linked with ⟨middle, dropped, retained⟩
  have seals : loadSealChain store directory.seals.entries none = .ok (log.stamps secret) := by
    have chain := loadSealChain_linked log.linked edge (.inl ⟨rfl, rfl⟩)
    rw [signer] at chain
    rw [image.seals]
    exact chain
  have stamps : ∃ sequence, (sequence = middle.sequence ∨ sequence = 0 ∧ log.dropped = []) ∧
      anchor (log.stamps secret) log.names =
        .ok ⟨sequence, middle.hash, middle.root, log.dropped.length⟩ := anchor_eq dropped retained
  rcases stamps with ⟨sequence, follows, start⟩
  apply Ensures.getDisk
  apply Ensures.getState
  rw [seals, image.names]
  apply Ensures.lift_ok
  simp only [start]
  apply Ensures.lift_ok
  apply Ensures.modify_then
  have recovering : Recovering log secret known [] middle { store with
      lastLineageHash := middle.hash, lastSegmentRoot := middle.root,
      sealedSegments := log.dropped.length } :=
    { edge := edge, opened := opened, segments := segments, totalBytes := totalBytes
      nextSequence := nextSequence, sources := sources, committed := committed, failed := failed
      signer := signer, hash := rfl, root := rfl, count := rfl }
  have follows' : sequence = middle.sequence ∨
      sequence = 0 ∧ log.dropped = [] ∧ ([] : List (SealedSegment edgeID)) = [] := by
    rcases follows with same | ⟨zero, none⟩
    · exact .inl same
    · exact .inr ⟨zero, none, rfl⟩
  apply Ensures.bind
  apply (recoverSegments_ensures retained rfl recovering image merges follows').imp
  rintro result store' directory' ⟨rfl, recovered, key⟩
  apply (settle_yields recovered _).bind
  exact resume_ensures recovered.held recovered.opened recovered.image (key.trans keyed) clock

theorem Image.unsealed
    (privateKey : directory.privateKey = none) (publicKey : directory.publicKey = none)
    (unsealed : log.sealed = []) (other : Bytes) : Image log tail other directory where
  files := image.files
  seals := by
    simp [image.seals, Log.sealFiles, unsealed]
  checkpoint := image.checkpoint
  privateKey := .inr ⟨privateKey, publicKey, unsealed⟩
  publicKey := .inl publicKey
  torn := image.torn

theorem Image.rekey {other : Directory}
    (segments : other.segments = directory.segments) (seals : other.seals = directory.seals)
    (checkpoint : other.checkpoint = directory.checkpoint) (key : other.privateKey = some secret)
    (publicKey : other.publicKey = none ∨ other.publicKey = some (Ed25519.publicKey secret)) :
    Image log tail secret other where
  files := by
    rw [segments]
    exact image.files
  seals := by
    rw [seals]
    exact image.seals
  checkpoint := by
    rw [checkpoint]
    exact image.checkpoint
  privateKey := .inl key
  publicKey := publicKey
  torn := image.torn

end

theorem load_ensures {config : Config} (accepted : config.check = .ok ())
    (edge : trimSpace config.edgeID = edgeID) (image : Image log tail secret directory)
    (generated : Bytes) (clock : Clock) :
    Ensures (load config generated clock) config.initial directory
      (Survives fun other : Log edgeID => other.history = log.history)
      fun result store' directory' => result = .ok () ∧
        ∃ secret other, log.Resumes other ∧ Running other secret store' directory' := by
  -- A directory without a key has no seals, so the generated key fits it.
  have keyed : ∃ secret, Image log tail secret directory ∧
      (directory.privateKey = some secret ∨ directory.privateKey = none ∧
        directory.publicKey = none ∧ secret = generated) := by
    rcases image.privateKey with present | ⟨absent, noPublic, unsealed⟩
    · exact ⟨secret, image, .inl present⟩
    · exact ⟨generated, image.unsealed absent noPublic unsealed generated,
        .inr ⟨absent, noPublic, rfl⟩⟩
  clear image
  rcases keyed with ⟨secret, image, privateKey⟩
  have survives (other : Directory) (segments : other.segments = directory.segments)
      (seals : other.seals = directory.seals)
      (checkpoint : other.checkpoint = directory.checkpoint)
      (key : other.privateKey = some secret)
      (publicKey : other.publicKey = none ∨ other.publicKey = some (Ed25519.publicKey secret)) :
      Survives (fun other : Log edgeID => other.history = log.history) other :=
    .of_image (image.rekey segments seals checkpoint key publicKey) rfl
  rw [load, accepted]
  apply Ensures.lift_ok
  apply (loadOrCreateSigner_yields generated privateKey image.publicKey survives).bind
  have loaded : Image log tail secret { directory with
      privateKey := some secret, publicKey := some (Ed25519.publicKey secret) } :=
    image.rekey rfl rfl rfl rfl (.inr rfl)
  have checkpoint : ∃ known, Merges known log.history ∧ Yields loadCheckpoint
      { config.initial with signer := secret } { directory with
        privateKey := some secret, publicKey := some (Ed25519.publicKey secret) }
      (Survives fun other : Log edgeID => other.history = log.history) ()
      { config.initial with
        signer := secret, committed := log.history.committed, sourceSequence := known } _ :=
    loadCheckpoint_yields loaded.checkpoint rfl rfl
  rcases checkpoint with ⟨known, merges, yields⟩
  apply yields.bind
  apply (recover_ensures loaded rfl merges edge rfl rfl rfl rfl rfl rfl rfl rfl clock).imp
  rintro result store' directory' ⟨rfl, other, resumes, running⟩
  exact ⟨rfl, secret, other, resumes, running⟩

end TelemetryForge.Wal
