import TelemetryForge.Wal.Acknowledged
import TelemetryForge.Wal.Ledger

/-! # Auditing a WAL directory

The auditor reads the seals and whatever segment files are left and derives the chain of records
anew. -/

namespace TelemetryForge.Wal

open Json List

inductive TrustMode
  | embeddedKey
  | trustedKey
deriving DecidableEq, Repr

structure AuditSegment where
  segment : Bytes
  firstSequence : Nat
  lastSequence : Nat
  recordCount : Nat
  merkleRoot : Bytes
  keyID : Bytes
  signatureValid : Bool
  walPresent : Bool
  contentVerified : Bool
deriving DecidableEq, Repr

structure AuditReport where
  edgeID : Bytes
  trustMode : TrustMode
  trustedKeyID : Bytes
  sealedSegments : Nat
  contentSegments : Nat
  sealOnlySegments : Nat
  unsealedSegments : Nat
  lastSequence : Nat
  lastRecordHash : Bytes
  lastSegmentRoot : Bytes
  recordChainVerified : Bool
  segmentChainVerified : Bool
  segments : List AuditSegment
deriving DecidableEq, Repr

inductive AuditFailure
  | readSeal (name : Bytes)
  | verifySeal (name : Bytes) (reason : String)
  | sealDiscontinuity (name : Bytes)
  | unavailablePredecessor (name : Bytes)
  | multipleEdges
  | recordChain (segment : Bytes) (reason : String)
  | lastRecordHash (segment : Bytes)
  | wal (failure : Failure)
  | severalUnsealed
  | activeChain (reason : String)
deriving DecidableEq, Repr

def AuditReport.start (trusted : Option Bytes) : AuditReport where
  edgeID := []
  trustMode := if trusted = none then .embeddedKey else .trustedKey
  trustedKeyID := (trusted.map Lineage.keyID).getD []
  sealedSegments := 0
  contentSegments := 0
  sealOnlySegments := 0
  unsealedSegments := 0
  lastSequence := 0
  lastRecordHash := []
  lastSegmentRoot := []
  recordChainVerified := true
  segmentChainVerified := true
  segments := []

def isSegmentFile (name : Bytes) : Bool := !name.contains 0x2F && (ascii ".tfwal").isSuffixOf name

def Directory.locate (elsewhere : Bytes → Option Bytes) (disk : Directory) (name : Bytes) :
    Option Bytes :=
  match disk.segments.find? name with
  | some file => some file.content
  | none => if isSegmentFile name then none else elsewhere name

variable [FloatText]

def Directory.scan (elsewhere : Bytes → Option Bytes) (disk : Directory) (name : Bytes) :
    Except Failure Scanned :=
  match disk.locate elsewhere name with
  | none => .error (.notExist name)
  | some content =>
    match scanContent name content with
    | .error failure => .error failure
    | .ok scan =>
      if scan.ending = .complete then .ok ⟨scan.records, content.length, false⟩
      else if scan.ending = .tornHeader then .error (.truncatedHeader name)
      else .error (.unexpectedEnd name)

theorem scanContent_ne_notExist (name content other : Bytes) :
    scanContent name content ≠ .error (.notExist other) := by
  rw [scanContent]
  split_ifs
  · simp
  · simp
  · rcases FrameLog.scan maxFrameBytes Record.readFrame segmentHeaderBytes
      (content.drop segmentHeaderBytes) with fault | result
    · cases fault <;> simp [Except.mapError, frameFailure]
    · simp [Except.mapError]

section Seals

omit [FloatText]

def auditLink (name : Bytes) (previous : Option Seal) (stamp : Seal) : Except AuditFailure Unit :=
  match previous with
  | some before =>
    if stamp.previousSegmentRoot ≠ before.merkleRoot ∨
        stamp.firstSequence ≠ before.lastSequence + 1 then .error (.sealDiscontinuity name)
    else .ok ()
  | none =>
    if stamp.previousSegmentRoot ≠ [] then .error (.unavailablePredecessor name) else .ok ()

variable [Ed25519]

def auditSeal (trusted : Option Bytes) (name content : Bytes) (previous : Option Seal) :
    Except AuditFailure Seal :=
  match Seal.readSeal content with
  | none => .error (.readSeal name)
  | some stamp =>
    match stamp.verifySeal trusted with
    | .error reason => .error (.verifySeal name reason)
    | .ok () => (auditLink name previous stamp).map fun _ => stamp

def auditSeals (trusted : Option Bytes) : List (Bytes × Bytes) → Option Seal → AuditReport →
    Except (AuditReport × AuditFailure) (List Seal × AuditReport)
  | [], _, report => .ok ([], report)
  | (name, content) :: rest, previous, report =>
    match auditSeal trusted name content previous with
    | .error failure => .error (report, failure)
    | .ok stamp =>
      if report.edgeID ≠ [] ∧ report.edgeID ≠ stamp.edgeID then
        .error (report, .multipleEdges)
      else
        (auditSeals trusted rest (some stamp) { report with edgeID := stamp.edgeID }).map
          fun result => (stamp :: result.1, result.2)

end Seals

def auditContent (stamp : Seal) (records : List Record) (previousHash : Bytes) :
    Except AuditFailure Unit :=
  match verifyRecordChain records previousHash with
  | .error reason => .error (.recordChain stamp.segment reason)
  | .ok (finalHash, leaves) =>
    match verifySealAgainstRecords stamp records leaves with
    | .error failure => .error (.wal failure)
    | .ok () =>
      if finalHash ≠ stamp.lastRecordHash then .error (.lastRecordHash stamp.segment)
      else .ok ()

omit [FloatText] in
def AuditReport.note (report : AuditReport) (stamp : Seal) (index : Nat) (present : Bool) :
    AuditReport :=
  { report with
    contentSegments := report.contentSegments + if present then 1 else 0
    sealOnlySegments := report.sealOnlySegments + if present then 0 else 1
    sealedSegments := index + 1
    lastSequence := stamp.lastSequence
    lastRecordHash := stamp.lastRecordHash
    lastSegmentRoot := stamp.merkleRoot
    segments := report.segments ++ [{
      segment := stamp.segment
      firstSequence := stamp.firstSequence
      lastSequence := stamp.lastSequence
      recordCount := stamp.recordCount
      merkleRoot := stamp.merkleRoot
      keyID := stamp.keyID
      signatureValid := true
      walPresent := present
      contentVerified := present }] }

def auditSegment (scan : Bytes → Except Failure Scanned) (stamp : Seal) (index : Nat)
    (previousHash : Bytes) (report : AuditReport) :
    Except (AuditReport × AuditFailure) AuditReport :=
  match scan stamp.segment with
  | .ok scanned =>
    match auditContent stamp scanned.records previousHash with
    | .error failure => .error (report, failure)
    | .ok () => .ok (report.note stamp index true)
  | .error (.notExist _) => .ok (report.note stamp index false)
  | .error failure => .error (report, .wal failure)

def auditSegments (scan : Bytes → Except Failure Scanned) : List Seal → Nat → Bytes →
    AuditReport → Except (AuditReport × AuditFailure) (Bytes × AuditReport)
  | [], _, previousHash, report => .ok (previousHash, report)
  | stamp :: rest, index, previousHash, report =>
    match auditSegment scan stamp index previousHash report with
    | .error failure => .error failure
    | .ok report => auditSegments scan rest (index + 1) stamp.lastRecordHash report

def auditActive (scan : Bytes → Except Failure Scanned) (name previousHash : Bytes)
    (report : AuditReport) : Except (AuditReport × AuditFailure) AuditReport :=
  match scan name with
  | .error failure => .error (report, .wal failure)
  | .ok scanned =>
    match scanned.records.head?, scanned.records.getLast? with
    | some first, some last =>
      match verifyRecordChain scanned.records previousHash with
      | .error reason => .error (report, .activeChain reason)
      | .ok (finalHash, _) => .ok { report with
          edgeID := if report.edgeID = [] then first.edgeID else report.edgeID
          unsealedSegments := report.unsealedSegments + 1
          lastSequence := last.edgeSequence
          lastRecordHash := finalHash }
    | _, _ => .ok report

omit [FloatText] in
def Directory.unsealed (disk : Directory) (stamps : List Seal) : List Bytes :=
  (disk.segments.entries.map Prod.fst).filter fun name => name ∉ stamps.map Seal.segment

/-- `AuditDirectory`; `trusted` is the key of the trusted public key file, if one is given. -/
def auditDirectory [Ed25519] (trusted : Option Bytes) (elsewhere : Bytes → Option Bytes)
    (disk : Directory) : Except (AuditReport × AuditFailure) AuditReport :=
  match auditSeals trusted disk.seals.entries none (.start trusted) with
  | .error failure => .error failure
  | .ok (stamps, report) =>
    match auditSegments (disk.scan elsewhere) stamps 0 [] report with
    | .error failure => .error failure
    | .ok (previousHash, report) =>
      match disk.unsealed stamps with
      | [] => .ok report
      | [name] => auditActive (disk.scan elsewhere) name previousHash report
      | _ => .error (report, .severalUnsealed)

variable [Ed25519] {edgeID : Bytes} {log : Log edgeID} {secret : Bytes} {disk : Directory}

section Complete

variable {trusted : Option Bytes}
  (trusts : trusted = none ∨ trusted = some (Ed25519.publicKey secret))

include trusts in
theorem auditSeals_linked {start finish : Position} {segments : List (SealedSegment edgeID)}
    (linked : Linked start segments finish) {previous : Option Seal}
    (agrees : (previous = none ∧ start.root = []) ∨ ∃ before : Seal, previous = some before ∧
      before.merkleRoot = start.root ∧ before.lastSequence = start.sequence)
    (report : AuditReport) (edge : report.edgeID = [] ∨ report.edgeID = edgeID) :
    ∃ report', auditSeals trusted
        (segments.map fun segment => (segment.sealName, segment.sealBytes secret)) previous report =
      .ok (segments.map fun segment => segment.stamp secret, report') ∧
      ∃ edge, report' = { report with edgeID := edge } := by
  induction segments generalizing start previous report with
  | nil => exact ⟨report, rfl, report.edgeID, rfl⟩
  | cons segment rest induction =>
    rcases linked with ⟨rfl, linked⟩
    have link : auditLink segment.sealName previous (segment.stamp secret) = .ok () := by
      rcases agrees with ⟨rfl, root⟩ | ⟨before, rfl, root, last⟩
      · exact if_neg (fun differs => differs root)
      · have sequence : before.lastSequence = segment.before := last
        have first : (segment.stamp secret).firstSequence = segment.before + 1 := rfl
        have previous : (segment.stamp secret).previousSegmentRoot = segment.previousRoot := rfl
        rw [auditLink, if_neg]
        rw [first, sequence, previous, root]
        exact fun differs => differs.elim (fun other => other rfl) fun other => other rfl
    have accepted : auditSeal trusted segment.sealName (segment.sealBytes secret) previous =
        .ok (segment.stamp secret) := by
      simp only [auditSeal, segment.readSeal secret, segment.verifySeal secret trusts, link]
      rfl
    have identity : (segment.stamp secret).edgeID = edgeID := rfl
    have single : ¬(report.edgeID ≠ [] ∧ report.edgeID ≠ edgeID) := by
      rintro ⟨present, differs⟩
      exact edge.elim present differs
    rcases induction linked (.inr ⟨segment.stamp secret, rfl, rfl, rfl⟩)
      { report with edgeID := edgeID } (.inr rfl) with ⟨report', others, last, rfl⟩
    refine ⟨_, ?_, last, rfl⟩
    simp only [map_cons, auditSeals, accepted, identity, if_neg single, others]
    rfl

end Complete

omit [Ed25519] in
theorem scan_segment {segment : Segment edgeID} (elsewhere : Bytes → Option Bytes)
    (found : disk.segments.find? segment.name = some ⟨segment.bytes, []⟩) :
    disk.scan elsewhere segment.name = .ok ⟨segment.records, segment.bytes.length, false⟩ := by
  rcases segment.scanContent segment.name torn_nil with ⟨ending, scanned, complete⟩
  rw [append_nil] at scanned
  have content : disk.locate elsewhere segment.name = some segment.bytes := by
    simp [Directory.locate, found, File.content]
  simp only [Directory.scan, content, scanned, complete.mpr rfl, if_true]

omit [FloatText] [Ed25519] in
theorem isSegmentFile_segmentName (sequence : Nat) :
    isSegmentFile (segmentName sequence) = true := by
  have plain : ∀ byte : UInt8, isDigit byte = true → byte ≠ 0x2F := by decide +kernel
  have digits := all_eq_true.mp (zeroPadded_all_digits 20 sequence)
  have inside : (0x2F : UInt8) ∉ segmentName sequence := by
    rw [segmentName, mem_append]
    rintro (digit | extension)
    · exact plain _ (digits _ digit) rfl
    · revert extension
      decide +kernel
  have ends : ascii ".tfwal" <:+ segmentName sequence := suffix_append _ _
  simp [isSegmentFile, inside, isSuffixOf_iff_suffix.mpr ends]

omit [Ed25519] in
theorem scan_missing {sequence : Nat} (elsewhere : Bytes → Option Bytes)
    (missing : disk.segments.find? (segmentName sequence) = none) :
    disk.scan elsewhere (segmentName sequence) =
      .error (.notExist (segmentName sequence)) := by
  simp [Directory.scan, Directory.locate, missing, isSegmentFile_segmentName]

structure Seen (finish : Position) (report : AuditReport) : Prop where
  lastSequence : report.lastSequence = finish.sequence
  lastRecordHash : report.lastRecordHash = finish.hash

theorem auditSegments_linked {scan : Bytes → Except Failure Scanned} {start finish : Position}
    {segments : List (SealedSegment edgeID)} (linked : Linked start segments finish)
    (scans : ∀ segment ∈ segments,
      scan segment.name = .ok ⟨segment.records, segment.bytes.length, false⟩ ∨
        scan segment.name = .error (.notExist segment.name)) (index : Nat) (report : AuditReport) :
    ∃ report', auditSegments scan (segments.map fun segment => segment.stamp secret) index
        start.hash report = .ok (finish.hash, report') ∧
      (segments = [] ∧ report' = report ∨ segments ≠ [] ∧ Seen finish report') := by
  induction segments generalizing start index report with
  | nil =>
    subst linked
    exact ⟨report, rfl, .inl ⟨rfl, rfl⟩⟩
  | cons segment rest induction =>
    rcases linked with ⟨rfl, linked⟩
    rw [forall_mem_cons] at scans
    have content : auditContent (segment.stamp secret) segment.records segment.anchor = .ok () := by
      simp only [auditContent, segment.verifyRecordChain, segment.verifySealAgainstRecords]
      exact if_neg (fun differs => differs rfl)
    have noted : ∃ present, auditSegment scan (segment.stamp secret) index segment.anchor report =
        .ok (report.note (segment.stamp secret) index present) := by
      have name : (segment.stamp secret).segment = segment.name := rfl
      rcases scans.1 with found | missing
      · exact ⟨true, by simp only [auditSegment, name, found, content]⟩
      · exact ⟨false, by simp only [auditSegment, name, missing]⟩
    rcases noted with ⟨present, noted⟩
    rcases induction linked scans.2 (index + 1)
      (report.note (segment.stamp secret) index present) with ⟨report', others, ends⟩
    refine ⟨report', ?_, .inr ⟨by simp, ?_⟩⟩
    · simp only [map_cons, auditSegments]
      change (match auditSegment scan (segment.stamp secret) index segment.anchor report with
        | .error failure => _
        | .ok report => _) = _
      rw [noted]
      exact others
    · rcases ends with ⟨rfl, rfl⟩ | ⟨_, seen⟩
      · cases linked
        exact ⟨rfl, rfl⟩
      · exact seen

/-! ### The files of a log -/

omit [Ed25519] in
theorem Log.dropped_missing (log : Log edgeID) {segment : SealedSegment edgeID}
    (member : segment ∈ log.dropped) : segment.name ∉ log.names := by
  rcases linked_append.mp log.linked with ⟨middle, dropped, retained⟩
  have earlier := (linked_bounds dropped).2 segment member
  have later := linked_bounds retained
  have grows := segment.before_lt_last
  have different (other : Nat) (after : middle.sequence ≤ other) :
      segment.name ≠ segmentName (other + 1) := by
    intro same
    have sequences := segmentName_injective
      (show segmentName (segment.before + 1) = segmentName (other + 1) from same)
    omega
  rw [Log.names, mem_append, mem_map, mem_map]
  rintro (⟨other, inside, same⟩ | ⟨other, inside, same⟩)
  · exact different other.before (later.2 other inside).1 same.symm
  · have continues := (log.continues other (by simpa using inside)).1
    exact different other.before (by rw [continues]; exact later.1) same.symm

omit [Ed25519] in
theorem Log.active_unsealed (log : Log edgeID) {segment : Segment edgeID}
    (active : log.active = some segment) :
    ∀ other ∈ log.sealed, other.name ≠ segment.name := by
  intro other member same
  have bounds := (linked_bounds log.linked).2 other member
  have grows := other.before_lt_last
  have continues := (log.continues segment active).1
  have sequences := segmentName_injective
    (show segmentName (other.before + 1) = segmentName (segment.before + 1) from same)
  omega

theorem scan_sealed (image : Image log [] secret disk) (elsewhere : Bytes → Option Bytes) :
    ∀ segment ∈ log.sealed,
      disk.scan elsewhere segment.name = .ok ⟨segment.records, segment.bytes.length, false⟩ ∨
        disk.scan elsewhere segment.name = .error (.notExist segment.name) := by
  intro segment member
  rcases mem_append.mp member with dropped | retained
  · right
    apply scan_missing
    rw [SortedMap.find?_eq_none_iff]
    intro entry inside same
    apply log.dropped_missing dropped
    rw [← image.names]
    exact mem_map.mpr ⟨entry, inside, same⟩
  · left
    exact scan_segment elsewhere (image.find_retained retained)

theorem unsealed_active (image : Image log [] secret disk) :
    disk.unsealed (log.stamps secret) = log.active.toList.map Segment.name := by
  have names : (log.stamps secret).map Seal.segment = log.sealed.map fun other => other.name := by
    rw [Log.stamps, map_map]
    rfl
  rw [Directory.unsealed, image.names, names, Log.names, filter_append,
    filter_eq_nil_iff.mpr, nil_append, filter_eq_self]
  · intro name member
    rcases mem_map.mp member with ⟨segment, active, rfl⟩
    simp only [decide_eq_true_eq, mem_map, not_exists, not_and]
    exact log.active_unsealed (by simpa using active)
  · intro name member
    rcases mem_map.mp member with ⟨segment, retained, rfl⟩
    simp only [decide_eq_true_eq, not_not]
    exact mem_map_of_mem (mem_append_right _ retained)

theorem auditDirectory_image {trusted : Option Bytes}
    (trusts : trusted = none ∨ trusted = some (Ed25519.publicKey secret))
    (image : Image log [] secret disk) (elsewhere : Bytes → Option Bytes) :
    ∃ report, auditDirectory trusted elsewhere disk = .ok report ∧
      report.lastSequence = log.last ∧ report.lastRecordHash = log.hash := by
  rcases auditSeals_linked trusts log.linked (.inl ⟨rfl, rfl⟩) (.start trusted) (.inl rfl) with
    ⟨_, seals, edge, rfl⟩
  rcases @auditSegments_linked _ _ _ secret (disk.scan elsewhere) _ _ _ log.linked
    (scan_sealed image elsewhere) 0 { AuditReport.start trusted with edgeID := edge } with
    ⟨report, segments, ends⟩
  -- Nothing sealed and nothing written means that there never was a record.
  have reached : log.activeRecords = [] → report.lastSequence = log.finish.sequence ∧
      report.lastRecordHash = log.finish.hash := by
    intro none
    rcases ends with ⟨unsealed, rfl⟩ | ⟨_, seen⟩
    · have linked := log.linked
      rw [unsealed] at linked
      rcases log.grounded with zero | sealed | ⟨segment, active, nonempty⟩
      · rw [← show Position.origin log.base = log.finish from linked, zero]
        exact ⟨rfl, rfl⟩
      · exact absurd unsealed sealed
      · rw [Log.activeRecords, Option.mem_def.mp active] at none
        exact absurd none nonempty
    · exact ⟨seen.lastSequence, seen.lastRecordHash⟩
  have stamps : disk.unsealed ((log.dropped ++ log.retained).map fun segment =>
      segment.stamp secret) = log.active.toList.map Segment.name := unsealed_active image
  have entries : disk.seals.entries = (log.dropped ++ log.retained).map fun segment =>
      (segment.sealName, segment.sealBytes secret) := image.seals
  have origin : (Position.origin log.base).hash = [] := rfl
  rw [origin] at segments
  simp only [auditDirectory, entries, seals, segments, stamps]
  rcases active : log.active with _ | segment
  · have none : log.activeRecords = [] := by simp [Log.activeRecords, active]
    refine ⟨report, rfl, ?_⟩
    rw [Log.last, Log.hash, active]
    exact reached none
  have found := image.find_active active
  rw [append_nil] at found
  have continues := log.continues segment active
  have scanned := scan_segment elsewhere found
  have chain := segment.verifyRecordChain
  rw [continues.2] at chain
  rw [Log.last, Log.hash, active]
  simp only [Option.toList_some, map_cons, map_nil, auditActive, scanned, chain,
    Option.map_some, Option.getD_some]
  rcases last : segment.records.getLast? with _ | final
  · have empty := getLast?_eq_none_iff.mp last
    have none : log.activeRecords = [] := by simp [Log.activeRecords, active, empty]
    refine ⟨report, by simp [empty], ?_⟩
    simp only [Segment.last, Segment.hash, empty, length_nil, Nat.add_zero, continues.1,
      continues.2]
    exact reached none
  · rcases first : segment.records with _ | ⟨head, rest⟩
    · rw [first] at last
      cases last
    · simp only [head?_cons]
      refine ⟨_, rfl, ?_, rfl⟩
      exact (chained_getLast segment.chained last).1

end TelemetryForge.Wal

/-! ## Audits of whole runs

Whatever a run does, the auditor accepts its directory and finds the same end of the
log as the store, as long as every record can be read back. -/

namespace TelemetryForge.Wal

open Json Program

variable [FloatText] [Ed25519] {edgeID : Bytes}

section Start

variable (segment : Segment edgeID) (checkpoint : Option Bytes)

omit [Ed25519] in
def Segment.alone (unanchored : segment.anchor = []) (nonempty : segment.records ≠ [])
    (committed : Nat) (known : committed ≤ segment.last) (sources : SortedMap Bytes Nat) :
    Log edgeID where
  base := segment.before
  bound := segment.bound
  dropped := []
  retained := []
  finish := .origin segment.before
  linked := rfl
  active := some segment
  continues := by
    intro other member
    cases member
    exact ⟨rfl, unanchored⟩
  committed := committed
  settled := by simp
  known := known
  sources := sources
  grounded := .inr (.inr ⟨segment, rfl, nonempty⟩)

omit [Ed25519] in
def Segment.directory : Directory :=
  ⟨SortedMap.empty.insert segment.name ⟨segment.bytes, []⟩, .empty, checkpoint, none, none⟩

/-- The directories that a store starts from: an empty one, or one with a single segment
and neither keys nor seals, as the earlier format has it. -/
inductive Starts (edgeID : Bytes) : Directory → History → Prop
  | empty : Starts edgeID .empty ⟨0, [], 0, .empty⟩
  | legacy (segment : Segment edgeID) (unanchored : segment.anchor = [])
      (nonempty : segment.records ≠ []) (checkpoint : Option Bytes) (committed : Nat)
      (known : committed ≤ segment.last) (sources : SortedMap Bytes Nat)
      (checkpointed : Checkpointed checkpoint
        ⟨segment.before, segment.records, committed, sources⟩) :
      Starts edgeID (segment.directory checkpoint)
        ⟨segment.before, segment.records, committed, sources⟩

theorem Starts.stores {disk : Directory} {history : History}
    (starts : Starts edgeID disk history) : Stores edgeID history disk := by
  cases starts with
  | empty => exact stores_empty edgeID
  | legacy segment unanchored nonempty checkpoint committed known sources checkpointed =>
    have history : (segment.alone unanchored nonempty committed known sources).history =
        ⟨segment.before, segment.records, committed, sources⟩ := by
      simp [Log.history, Log.records, Log.sealed, Log.activeRecords, Segment.alone]
    refine ⟨segment.alone unanchored nonempty committed known sources, [], [], history,
      fun _ => .inl rfl, ?_⟩
    exact {
      files := by simp [Segment.directory, Log.files, Log.retainedFiles, Segment.alone,
        SortedMap.insert, SortedMap.empty, SortedMap.insertEntry]
      seals := rfl
      checkpoint := by
        rw [history]
        exact checkpointed
      privateKey := .inr ⟨rfl, rfl, rfl⟩
      publicKey := .inl rfl
      torn := torn_nil }

end Start

def Reports (edgeID : Bytes) (store : Store) (disk : Directory) : Prop :=
  ∃ log : Log edgeID, Image log [] store.signer disk ∧
    store.nextSequence = log.last + 1 ∧ store.lastLineageHash = log.hash

variable {log : Log edgeID} {secret : Bytes} {store : Store} {disk : Directory}
  {config : Config} {host : Host} {history : History}

theorem Running.reports (running : Running log secret store disk) :
    Reports edgeID store disk := by
  refine ⟨log, ?_, running.held.nextSequence, running.held.hash⟩
  rw [running.held.signer]
  exact running.image

theorem close_counts (clock : Clock) :
    Ensures (close clock) store disk (fun _ => True) fun _ store' _ =>
      store'.signer = store.signer ∧ store'.nextSequence = store.nextSequence ∧
        store'.lastLineageHash = store.lastLineageHash := by
  apply Ensures.getState
  split
  · exact Ensures.pure ⟨rfl, rfl, rfl⟩
  apply Ensures.modify_then
  split
  · exact Ensures.pure ⟨rfl, rfl, rfl⟩
  apply Ensures.write_then trivial
  apply Ensures.modify_then
  apply (sealLast_budget clock).imp
  intro result store' disk' seals
  rw [seals.rest]
  exact ⟨rfl, rfl, rfl⟩

theorem close_reports (running : Running log secret store disk) (clock : Clock) :
    Reports edgeID (close clock store disk).state (close clock store disk).disk := by
  rcases (close_ensures running clock).post with ⟨_, _, other, closes, image, _⟩
  rcases (@close_counts _ _ store disk clock).post with ⟨signer, next, hash⟩
  rcases Log.continues_of_history closes.history with ⟨last, sameHash⟩
  refine ⟨other, ?_, ?_, ?_⟩
  · rw [signer, running.held.signer]
    exact image
  · rw [next, running.held.nextSequence, last]
  · rw [hash, running.held.hash, sameHash]

theorem act_reports {history' : History} (accepted : config.check = .ok ())
    (edge : trimSpace config.edgeID = edgeID) (holds : Holds edgeID host history)
    (reports : ∀ store, host.store = some store → Reports edgeID store host.directory)
    (action : Action) (holds' : Holds edgeID (host.act config action) history') :
    ∀ store, (host.act config action).store = some store →
      Reports edgeID store (host.act config action).directory := by
  intro store' found'
  rcases holds with ⟨store, secret, found, log, _, _, running⟩ | ⟨closed, stored⟩
  · cases action with
    | opening generated clock =>
      rw [Host.act_busy found running.writing.opened] at found' ⊢
      exact reports store' found'
    | append topic event clock =>
      rw [Host.act_append found] at found' holds' ⊢
      rcases append_cases topic event clock running with
        ⟨failure, _, outcome⟩ | ⟨_, _, _, _, outcome⟩ |
        ⟨other, before, disk', record, payload, writes, _, _, serving, _, outcome⟩
      · rw [outcome] at found' ⊢
        cases found'
        exact running.reports
      · rw [outcome] at found' ⊢
        cases found'
        exact running.reports
      · rcases serving.writing.active with ⟨segment, _, current, _⟩
        have noted := (@writeRecord_current segment.name before disk' current record
          payload).post.2.1
        have opened : store'.closed = false := by
          rw [outcome] at found'
          cases found'
          change (writeRecord record payload before disk').state.closed = false
          rw [noted]
          exact serving.writing.opened
        rcases holds'.running found' opened with ⟨_, _, _, _, running'⟩
        exact running'.reports
    | commit sequence =>
      rw [Host.act_commit found] at found' ⊢
      cases found'
      have post := (commit_ensures running sequence).post
      rcases result : (commit sequence store host.directory).result with failure | done
      · rw [result] at post
        exact post.reports
      · rw [result] at post
        rcases post with ⟨_, _, other, _, _, running'⟩
        exact running'.reports
    | close clock =>
      rw [Host.act_close found] at found' ⊢
      cases found'
      exact close_reports running clock
  · rcases act_idle config closed action with idle | ⟨generated, clock, rfl⟩
    · rw [idle] at found' ⊢
      exact reports store' found'
    rcases stored with ⟨log, tail, secret, _, _, image⟩
    rcases (load_ensures accepted edge image generated clock).post with
      ⟨result, secret', other, _, running⟩
    have opened : (openStore config generated clock host.directory).result = .ok () := result
    rw [Host.act_opening closed] at found' ⊢
    simp only [Host.reopen, opened] at found' ⊢
    cases found'
    exact running.reports

theorem run_reports {initial : History} (accepted : config.check = .ok ())
    (starts : Starts (trimSpace config.edgeID) disk initial) (actions : List Action)
    (scannable : ∀ record ∈ (Host.run config disk actions).returned, Scannable record) :
    ∀ store, (Host.run config disk actions).store = some store →
      Reports (trimSpace config.edgeID) store (Host.run config disk actions).directory := by
  induction actions using List.reverseRecOn with
  | nil => simp [Host.run, Host.start]
  | append_singleton actions action induction =>
    have earlier : ∀ record ∈ (Host.run config disk actions).returned, Scannable record := by
      intro record member
      apply scannable
      rw [Host.run_concat]
      exact (Host.returned_prefix_act config _ action).subset member
    have holds (actions : List Action) := run_holds accepted starts.stores (fun _ _ => True)
      trivial (fun _ _ _ _ _ _ => trivial) actions
    rcases (holds actions earlier).1 with ⟨history, _, before⟩
    rcases (holds _ scannable).1 with ⟨history', _, after⟩
    rw [Host.run_concat] at after ⊢
    exact act_reports accepted rfl before (induction earlier) action after

omit [Ed25519] in
theorem scan_spoiled {name : Bytes} (spoiled : SpoiledAt name disk)
    (elsewhere : Bytes → Option Bytes) :
    ∃ failure, disk.scan elsewhere name = .error failure ∧
      ∀ other, failure ≠ .notExist other := by
  rcases spoiled with ⟨file, found, spoiled⟩
  rcases spoiled name [] with ⟨failure, scanned⟩
  rw [List.append_nil] at scanned
  refine ⟨failure, by simp only [Directory.scan, Directory.locate, found, scanned], ?_⟩
  rintro other rfl
  exact scanContent_ne_notExist _ _ other scanned

omit [Ed25519] in
theorem auditSegments_scans {scan : Bytes → Except Failure Scanned} {stamps : List Seal}
    {index : Nat} {previousHash : Bytes} {report : AuditReport} {result : Bytes × AuditReport}
    (audited : auditSegments scan stamps index previousHash report = .ok result) :
    ∀ stamp ∈ stamps, ∀ failure, scan stamp.segment = .error failure →
      ∃ name, failure = .notExist name := by
  induction stamps generalizing index previousHash report with
  | nil => simp
  | cons stamp rest induction =>
    rw [auditSegments] at audited
    split at audited
    · cases audited
    rename_i noted step
    rw [List.forall_mem_cons]
    refine ⟨?_, induction audited⟩
    intro failure failed
    rw [auditSegment, failed] at step
    split at step
    · cases ‹Except.error failure = Except.ok _›
    · rename_i name equal
      cases equal
      exact ⟨name, rfl⟩
    · cases step

theorem auditDirectory_spoiled {name : Bytes} (spoiled : SpoiledAt name disk)
    (trusted : Option Bytes) (elsewhere : Bytes → Option Bytes) :
    ∃ failure, auditDirectory trusted elsewhere disk = .error failure := by
  rcases scan_spoiled spoiled elsewhere with ⟨failure, scanned, present⟩
  rcases spoiled with ⟨file, found, _⟩
  rcases audited : auditDirectory trusted elsewhere disk with failure' | report
  · exact ⟨failure', rfl⟩
  rw [auditDirectory] at audited
  split at audited
  · cases audited
  rename_i stamps _ _
  split at audited
  · cases audited
  rename_i segments
  have unsealed : name ∈ disk.unsealed stamps := by
    rw [Directory.unsealed, List.mem_filter]
    refine ⟨List.mem_map_of_mem ((SortedMap.find?_eq_some_iff _ _ _).mp found), ?_⟩
    simp only [decide_eq_true_eq, List.mem_map, not_exists, not_and]
    rintro stamp member rfl
    rcases auditSegments_scans segments stamp member failure scanned with ⟨other, missing⟩
    exact present other missing
  split at audited
  · rename_i none
    rw [none] at unsealed
    cases unsealed
  · rename_i single
    rw [single, List.mem_singleton] at unsealed
    subst unsealed
    rw [auditActive, scanned] at audited
    cases audited
  · cases audited

end TelemetryForge.Wal
