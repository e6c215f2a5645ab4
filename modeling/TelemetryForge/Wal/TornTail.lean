import TelemetryForge.Wal.Acknowledged

/-! # Torn tails

`scanSegment` on a segment header, the frames of valid records and what is left of one more
frame. -/

namespace TelemetryForge.Wal

open Json FrameLog List

variable [FloatText]

structure Framed (record : Record) (payload : Bytes) : Prop where
  valid : record.validate = .ok ()
  inRange : record.InRange
  marshal : record.marshal = some payload

structure ReadBack (record : Record) (payload : Bytes) : Prop where
  unchanged : record.reread = record
  nesting : record.event.NestsWithin Record.payloadNesting
  bound : payload.length ≤ maxFrameBytes

section Frames

variable {record : Record} {payload : Bytes} {records : List Record} {payloads : List Bytes}

theorem Framed.versioned (framed : Framed record payload) : record.Versioned :=
  ((Record.validate_ok_iff record).mp framed.valid).versioned

theorem Framed.whole (framed : Framed record payload) : Whole Record.readFrame payload := by
  intro cut short result
  rw [Record.readFrame, Record.decodeFrame_cut framed.versioned framed.marshal short]
  simp

theorem Framed.accepts_iff (framed : Framed record payload) :
    Accepts maxFrameBytes Record.readFrame payload record ↔ ReadBack record payload := by
  have decodes (result : Record) : Record.decodeFrame payload = some result ↔ _ :=
    Record.decodeFrame_marshal framed.versioned framed.marshal
  constructor
  · rintro ⟨nonempty, bound, read⟩
    unfold Record.readFrame at read
    split at read
    · cases read
    · rename_i decoded found
      rcases map_eq_ok.mp read with ⟨_, _, rfl⟩
      rcases (decodes _).mp found with ⟨nesting, _, unchanged⟩
      exact ⟨unchanged, nesting, bound⟩
  · rintro ⟨unchanged, nesting, bound⟩
    have decoded := (decodes record).mpr ⟨nesting, framed.inRange, unchanged⟩
    refine ⟨?_, bound, ?_⟩
    · rintro rfl
      simp [Record.decodeFrame, firstValue, readValue] at decoded
    · simp only [Record.readFrame, decoded, framed.valid, Except.map]

theorem whole_of_framed (framed : List.Forall₂ Framed records payloads) :
    ∀ payload ∈ payloads, Whole Record.readFrame payload := by
  induction framed with
  | nil => simp
  | cons head tail induction => exact forall_mem_cons.mpr ⟨head.whole, induction⟩

theorem accepts_iff_readBack (framed : List.Forall₂ Framed records payloads) :
    List.Forall₂ (Accepts maxFrameBytes Record.readFrame) payloads records ↔
      List.Forall₂ ReadBack records payloads := by
  induction framed with
  | nil => simp
  | cons head tail induction =>
    rw [forall₂_cons, forall₂_cons, head.accepts_iff, induction]

theorem scanContent_framed {name tail : Bytes} {scan : Scan Record}
    (framed : List.Forall₂ Framed records payloads)
    (scanned : scanContent name (segmentHeader ++ (frames payloads ++ tail)) = .ok scan) :
    ∃ found rest, List.Forall₂ (Accepts maxFrameBytes Record.readFrame) payloads found ∧
      FrameLog.scan maxFrameBytes Record.readFrame
        (segmentHeaderBytes + (frames payloads).length) tail = .ok rest ∧
      scan = { rest with records := found ++ rest.records } := by
  rw [scanContent_header] at scanned
  rcases outcome : FrameLog.scan maxFrameBytes Record.readFrame segmentHeaderBytes
    (frames payloads ++ tail) with fault | result
  · rw [outcome] at scanned
    cases scanned
  · rw [outcome] at scanned
    obtain rfl : result = scan := Except.ok.inj scanned
    exact scan_frames_ok (by decide) (whole_of_framed framed) outcome

theorem scan_cut {tail : Bytes} (framed : Framed record payload) (nonempty : tail ≠ [])
    (inside : tail <+: frame payload) (proper : tail ≠ frame payload) {offset : Nat}
    {rest : Scan Record}
    (scanned : FrameLog.scan maxFrameBytes Record.readFrame offset tail = .ok rest) :
    Recognised maxFrameBytes payload tail ∧ rest.records = [] ∧ rest.size = offset ∧
      rest.ending ≠ .complete := by
  by_cases recognised : Recognised maxFrameBytes payload tail
  · rcases scan_recognised nonempty inside recognised offset with ⟨ending, incomplete, result⟩
    rw [scanned] at result
    obtain rfl := Except.ok.inj result
    exact ⟨recognised, rfl, rfl, incomplete⟩
  · rcases scan_unrecognised framed.whole inside proper recognised offset with ⟨fault, result⟩
    rw [scanned] at result
    cases result

end Frames

section Segments

variable {name : Bytes} {store : Store} {disk : Directory} {file : File}

theorem scanSegment_error {failure : Failure} (recoverTail : Bool)
    (found : disk.segments.find? name = some file)
    (scanned : scanContent name file.content = .error failure) :
    scanSegment name recoverTail store disk = ⟨.error failure, store, disk, []⟩ := by
  simp only [scanSegment, Program.getDisk_bind, found, scanned]
  rfl

variable (store) in
theorem scanSegment_cut {scan : Scan Record} (found : disk.segments.find? name = some file)
    (scanned : scanContent name file.content = .ok scan) (incomplete : scan.ending ≠ .complete) :
    (scanSegment name true store disk).result = .ok ⟨scan.records, scan.size, true⟩ ∧
      (scanSegment name true store disk).disk =
        disk.changeFile name (File.truncate scan.size) ∧
      ∃ failure, (scanSegment name false store disk).result = .error failure := by
  refine ⟨?_, ?_, ?_⟩
  · simp only [scanSegment, Program.getDisk_bind, found, scanned, if_neg incomplete, if_true]
    rfl
  · simp only [scanSegment, Program.getDisk_bind, found, scanned, if_neg incomplete, if_true]
    rfl
  · simp only [scanSegment, Program.getDisk_bind, found, scanned, if_neg incomplete,
      Bool.false_eq_true, if_false]
    split_ifs
    · exact ⟨_, rfl⟩
    · exact ⟨_, rfl⟩

def CutsTail (name : Bytes) (store : Store) (disk : Directory) (records : List Record)
    (payloads : List Bytes) : Prop :=
  (scanSegment name true store disk).result =
      .ok ⟨records, segmentHeaderBytes + (frames payloads).length, true⟩ ∧
    (scanSegment name true store disk).disk.segments.find? name =
      some ⟨segmentHeader ++ frames payloads, []⟩

variable {records : List Record} {payloads : List Bytes}

theorem cutsTail_iff {next : Record} {payload tail : Bytes}
    (found : disk.segments.find? name = some file)
    (framed : List.Forall₂ Framed records payloads) (cut : Framed next payload)
    (nonempty : tail ≠ []) (inside : tail <+: frame payload) (proper : tail ≠ frame payload)
    (content : file.content = segmentHeader ++ (frames payloads ++ tail)) :
    CutsTail name store disk records payloads ↔
      List.Forall₂ ReadBack records payloads ∧ Recognised maxFrameBytes payload tail := by
  constructor
  · rintro ⟨result, _⟩
    rcases scanned : scanContent name file.content with failure | scan
    · rw [scanSegment_error true found scanned] at result
      cases result
    · have split := scanned
      rw [content] at split
      rcases scanContent_framed framed split with ⟨others, rest, accepts, restScanned, rfl⟩
      rcases scan_cut cut nonempty inside proper restScanned with
        ⟨recognised, empty, _, incomplete⟩
      rw [(scanSegment_cut store found scanned incomplete).1] at result
      have same : others ++ rest.records = records :=
        congrArg Scanned.records (Except.ok.inj result)
      rw [empty, append_nil] at same
      subst same
      exact ⟨(accepts_iff_readBack framed).mp accepts, recognised⟩
  · rintro ⟨readBack, recognised⟩
    rcases scan_recognised nonempty inside recognised
      (segmentHeaderBytes + (frames payloads).length) with ⟨ending, incomplete, restScanned⟩
    have scanned : scanContent name file.content =
        .ok ⟨records, segmentHeaderBytes + (frames payloads).length, ending⟩ := by
      rw [content, scanContent_header,
        scan_frames (by decide) ((accepts_iff_readBack framed).mpr readBack), restScanned]
      simp [Except.map, Except.mapError]
    rcases scanSegment_cut store found scanned incomplete with ⟨result, disk, _⟩
    refine ⟨result, ?_⟩
    have header : segmentHeader.length = segmentHeaderBytes := rfl
    rw [disk, Directory.changeFile, SortedMap.find?_adjust, if_pos rfl, found, Option.map_some,
      File.truncate, content, ← append_assoc, take_left' (by rw [length_append, header])]

theorem fails_on_cut {next : Record} {payload tail : Bytes}
    (found : disk.segments.find? name = some file)
    (framed : List.Forall₂ Framed records payloads) (cut : Framed next payload)
    (nonempty : tail ≠ []) (inside : tail <+: frame payload) (proper : tail ≠ frame payload)
    (content : file.content = segmentHeader ++ (frames payloads ++ tail)) :
    ∃ failure, (scanSegment name false store disk).result = .error failure := by
  rcases scanned : scanContent name file.content with failure | scan
  · rw [scanSegment_error false found scanned]
    exact ⟨failure, rfl⟩
  · have split := scanned
    rw [content] at split
    rcases scanContent_framed framed split with ⟨others, rest, _, restScanned, rfl⟩
    have incomplete := (scan_cut cut nonempty inside proper restScanned).2.2.2
    exact (scanSegment_cut store found scanned incomplete).2.2

theorem fails_on_corrupted {payload checksum rest : Bytes}
    (found : disk.segments.find? name = some file)
    (framed : List.Forall₂ Framed records payloads) (size : payload.length < 2 ^ 32)
    (width : checksum.length = 4) (mismatch : readBigEndian32 checksum ≠ Crc32.checksumIEEE payload)
    (content : file.content = segmentHeader ++
      (frames payloads ++ (bigEndian32 payload.length ++ (checksum ++ payload) ++ rest)))
    (recoverTail : Bool) :
    ∃ failure, (scanSegment name recoverTail store disk).result = .error failure ∧
      (scanSegment name recoverTail store disk).disk = disk := by
  rcases scanned : scanContent name file.content with failure | scan
  · rw [scanSegment_error recoverTail found scanned]
    exact ⟨failure, rfl, rfl⟩
  · rw [content] at scanned
    rcases scanContent_framed framed scanned with ⟨others, behind, _, behindScanned, _⟩
    rcases @scan_corrupted _ _ maxFrameBytes Record.readFrame _ _ size width mismatch
      (segmentHeaderBytes + (frames payloads).length) rest with ⟨fault, corrupted⟩
    rw [behindScanned] at corrupted
    cases corrupted

end Segments

namespace Sample

omit [FloatText]

def firstRecord (event : Event) : Record :=
  let unsealed : Record :=
    { Record.zero with
      format := format
      formatVersion := version
      edgeID := ascii "edge"
      topic := ascii "t"
      edgeSequence := 1
      sourceSequence := 1
      acceptedAt := now.time
      payloadSHA256 := sha256Hex ((@Event.marshal floatText event).getD [])
      lineageVersion := lineageVersion
      event := event }
  { unsealed with recordHash := unsealed.computeRecordHash }

def firstPayload (event : Event) : Bytes := @Record.encoded floatText (firstRecord event)

def tornFile (event : Event) : File :=
  ⟨segmentHeader ++ (frames [firstPayload event] ++ (frame (firstPayload event)).take 5), []⟩

def tornDirectory (event : Event) : Directory :=
  { Directory.empty with segments := SortedMap.empty.insert (segmentName 1) (tornFile event) }

theorem found_tornDirectory (event : Event) :
    (tornDirectory event).segments.find? (segmentName 1) = some (tornFile event) := by
  simp [tornDirectory]

theorem framed_firstRecord {event : Event}
    (valid : @Record.validate floatText (firstRecord event) = .ok ())
    (encodes : (@Record.marshal floatText (firstRecord event)).isSome = true) :
    @Framed floatText (firstRecord event) (firstPayload event) := by
  refine @Framed.mk floatText _ _ valid (by simp [firstRecord, Record.InRange]) ?_
  rcases Option.isSome_iff_exists.mp encodes with ⟨payload, marshal⟩
  rw [marshal, firstPayload, @encoded_eq floatText _ _ marshal]

theorem part_of_frame (payload : Bytes) :
    (frame payload).take 5 ≠ [] ∧ (frame payload).take 5 <+: frame payload ∧
      (frame payload).take 5 ≠ frame payload ∧
      Recognised maxFrameBytes payload ((frame payload).take 5) := by
  have length := frame_length payload
  simp only [headerBytes] at length
  have taken : ((frame payload).take 5).length = 5 := by
    rw [length_take]
    omega
  refine ⟨?_, take_prefix _ _, ?_, .inl ?_⟩
  · intro empty
    rw [empty] at taken
    cases taken
  · intro whole
    rw [whole] at taken
    omega
  · rw [taken]
    decide

end Sample

end TelemetryForge.Wal
