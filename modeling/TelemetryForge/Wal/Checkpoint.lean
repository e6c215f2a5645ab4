import TelemetryForge.Wal.Record

/-! # The WAL directory

The files of a store by name, with what of each has reached the disk. Seals, the
checkpoint and the key files are written under a temporary name, synced and then
renamed, so they are replaced as a whole; temporary files are never read and are not
part of the model. -/

namespace TelemetryForge.Wal

open List

structure File where
  durable : Bytes
  volatile : Bytes
deriving DecidableEq, Repr

namespace File

def content (file : File) : Bytes := file.durable ++ file.volatile

def append (bytes : Bytes) (file : File) : File := { file with volatile := file.volatile ++ bytes }

def sync (file : File) : File := ⟨file.content, []⟩

def truncate (size : Nat) (file : File) : File := ⟨file.content.take size, []⟩

def crash (kept : Nat) (file : File) : File := ⟨file.durable ++ file.volatile.take kept, []⟩

end File

structure Directory where
  segments : SortedMap Bytes File
  seals : SortedMap Bytes Bytes
  checkpoint : Option Bytes
  privateKey : Option Bytes
  publicKey : Option Bytes

namespace Directory

def empty : Directory := ⟨.empty, .empty, none, none, none⟩

def createFile (disk : Directory) (name : Bytes) : Directory :=
  { disk with segments := disk.segments.insert name ⟨[], []⟩ }

def changeFile (disk : Directory) (name : Bytes) (change : File → File) : Directory :=
  { disk with segments := disk.segments.adjust name change }

def removeFile (disk : Directory) (name : Bytes) : Directory :=
  { disk with segments := disk.segments.erase name }

def putSeal (disk : Directory) (name content : Bytes) : Directory :=
  { disk with seals := disk.seals.insert name content }

def putCheckpoint (disk : Directory) (content : Bytes) : Directory :=
  { disk with checkpoint := some content }

/-- The directory after a crash that keeps `kept name` bytes of what was not yet
synced of each file. -/
def crash (kept : Bytes → Nat) (disk : Directory) : Directory :=
  { disk with segments := disk.segments.mapValues fun name => File.crash (kept name) }

end Directory

def segmentName (first : Nat) : Bytes := zeroPadded 20 first ++ ascii ".tfwal"

def sealName (first : Nat) : Bytes := zeroPadded 20 first ++ ascii ".tfseal"

def stem (name : Bytes) : Bytes :=
  match name.reverse.dropWhile (· != 0x2E) with
  | [] => name
  | _ :: rest => rest.reverse

def sealPathForSegment (name : Bytes) : Bytes := stem name ++ ascii ".tfseal"

private theorem stem_append {base extension : Bytes} (plain : 0x2E ∉ extension) :
    stem (base ++ 0x2E :: extension) = base := by
  have skipped : (base ++ 0x2E :: extension).reverse.dropWhile (· != 0x2E) =
      0x2E :: base.reverse := by
    rw [reverse_append, reverse_cons, append_assoc, dropWhile_append_of_pos]
    · rfl
    · intro byte member
      simp only [bne_iff_ne]
      rintro rfl
      exact plain (mem_reverse.mp member)
  rw [stem, skipped]
  exact reverse_reverse base

@[simp] theorem stem_segmentName (first : Nat) : stem (segmentName first) = zeroPadded 20 first :=
  stem_append (by decide)

@[simp] theorem sealPathForSegment_segmentName (first : Nat) :
    sealPathForSegment (segmentName first) = sealName first := by
  rw [sealPathForSegment, stem_segmentName, sealName]

theorem segmentName_injective : Function.Injective segmentName := by
  intro left right equal
  exact zeroPadded_injective 20 (append_cancel_right equal)

private theorem isDigit_ascii : ∀ byte : UInt8, isDigit byte = true →
    byte < 0x80 ∧ isVisible byte = true := by
  decide +kernel

theorem segmentName_ascii (first : Nat) : ∀ byte ∈ segmentName first, byte < 0x80 := by
  have digits := all_eq_true.mp (zeroPadded_all_digits 20 first)
  rw [segmentName, forall_mem_append]
  exact ⟨fun byte member => (isDigit_ascii byte (digits byte member)).1, by decide +kernel⟩

theorem segmentName_visible (first : Nat) : trimSpace (segmentName first) ≠ [] := by
  have unchanged : trimSpace (segmentName first) = segmentName first := by
    apply trimSpace_of_visible
    · intro byte member
      have digits := all_eq_true.mp (zeroPadded_all_digits 20 first)
      rcases padded : zeroPadded 20 first with _ | ⟨head, tail⟩
      · simp [zeroPadded, decimal_ne_nil] at padded
      · rw [segmentName, padded, cons_append, head?_cons, Option.mem_some_iff] at member
        subst member
        exact (isDigit_ascii head (digits head (by simp [padded]))).2
    · intro byte member
      have last : (ascii ".tfwal").getLast? = some 0x6C := by decide +kernel
      rw [segmentName, getLast?_append_of_ne_nil _ (by decide), last, Option.mem_some_iff] at member
      subst member
      decide
  rw [unchanged, segmentName]
  simp [ascii]

theorem segmentName_lt {left right : Nat} (less : left < right) (bound : right ≤ 2 ^ 64) :
    segmentName left < segmentName right :=
  zeroPadded_lt (by decide) less (by omega) _

theorem sealName_lt {left right : Nat} (less : left < right) (bound : right ≤ 2 ^ 64) :
    sealName left < sealName right :=
  zeroPadded_lt (by decide) less (by omega) _

/-! ## The commit checkpoint

`checkpoint.json` holds the last committed sequence and, for each source, the last
sequence number given out. -/

open Json

def checkpointVersion : Int := 1

structure Checkpoint where
  format : Bytes
  formatVersion : Int
  committedSequence : Nat
  sourceSequences : SortedMap Bytes Nat

namespace Checkpoint

def zero : Checkpoint := ⟨[], 0, 0, .empty⟩

inductive Field
  | format | formatVersion | committedSequence | sourceSequences
deriving DecidableEq

instance : FieldNames Field where
  all := [.format, .formatVersion, .committedSequence, .sourceSequences]
  name
    | .format => ascii "format"
    | .formatVersion => ascii "format_version"
    | .committedSequence => ascii "committed_edge_sequence"
    | .sourceSequences => ascii "source_sequences"
  selects := by
    intro field
    cases field <;> decide +kernel
  literal := by
    intro field
    cases field <;> decide +kernel

def members (checkpoint : Checkpoint) : List (Field × List Token) :=
  List.flatten [
    [(.format, stringTokens checkpoint.format)],
    [(.formatVersion, intTokens checkpoint.formatVersion)],
    [(.committedSequence, natTokens checkpoint.committedSequence)],
    optionalField (checkpoint.sourceSequences.entries != []) .sourceSequences
      (mapTokens natTokens checkpoint.sourceSequences)]

def marshal (checkpoint : Checkpoint) : Bytes := renderIndented (structTokens checkpoint.members)

def setField (checkpoint : Checkpoint) (field : Field) (value : List Token) : Option Checkpoint :=
  match field with
  | .format =>
    (decodeString checkpoint.format value).map fun text => { checkpoint with format := text }
  | .formatVersion =>
    (decodeInt checkpoint.formatVersion value).map fun number =>
      { checkpoint with formatVersion := number }
  | .committedSequence =>
    (decodeUint64 checkpoint.committedSequence value).map fun number =>
      { checkpoint with committedSequence := number }
  | .sourceSequences =>
    (decodeMap (decodeUint64 0) checkpoint.sourceSequences value).map fun map =>
      { checkpoint with sourceSequences := map }

def unmarshal (text : Bytes) : Option Checkpoint :=
  (firstValue text).bind fun read =>
    decodeStruct id setField true zero (read.1.map Lexeme.token)

end Checkpoint

def PortableSources (sources : SortedMap Bytes Nat) : Prop :=
  ∀ entry ∈ sources.entries, Utf8.valid entry.1 = true ∧ entry.2 < 2 ^ 64

variable {sources : SortedMap Bytes Nat}

theorem PortableSources.insert (portable : PortableSources sources)
    {key : Bytes} {value : Nat} (valid : Utf8.valid key = true) (bound : value < 2 ^ 64) :
    PortableSources (sources.insert key value) := by
  intro entry member
  rcases SortedMap.mem_insertEntry member with rfl | member
  · exact ⟨valid, bound⟩
  · exact portable entry member

namespace Checkpoint

theorem members_written (checkpoint : Checkpoint) (version : 0 ≤ checkpoint.formatVersion)
    (limit : Nat) : ∀ entry ∈ checkpoint.members, Written (limit + 1) entry.2 := by
  simp only [members, flatten_cons, flatten_nil, forall_mem_append,
    forall_mem_cons, forall_mem_optionalField]
  simp only [written_stringTokens, written_natTokens, written_intTokens _ version,
    written_mapTokens (fun value => written_natTokens limit value), implies_true, and_true,
    not_mem_nil, false_implies]

private theorem decode_sources (portable : PortableSources sources) :
    decodeMap (decodeUint64 0) .empty (mapTokens natTokens sources) = some sources := by
  have inverse : ∀ entry ∈ sources.entries,
      decodeUint64 0 (natTokens entry.2) = some (id entry.2) := by
    intro entry member
    rw [decodeUint64_natTokens, if_pos (portable entry member).2]
    rfl
  have decoded := decodeMap_mapTokens inverse (fun value => written_natTokens _ value) .empty
  have same : sources.entries.map (fun entry => (Utf8.coerce entry.1, id entry.2)) =
      sources.entries := by
    conv_rhs => rw [← map_id sources.entries]
    apply map_congr_left
    intro entry member
    simp [Utf8.coerce_of_valid (portable entry member).1]
  rw [decoded, same, SortedMap.insertAll_entries]

theorem unmarshal_marshal {committed : Nat}
    (bound : committed < 2 ^ 64) (portable : PortableSources sources) :
    unmarshal (marshal ⟨Wal.format, checkpointVersion, committed, sources⟩) =
      some ⟨Wal.format, checkpointVersion, committed, sources⟩ := by
  have written (limit : Nat) :=
    members_written ⟨Wal.format, checkpointVersion, committed, sources⟩ (show 0 ≤ checkpointVersion by decide) limit
  rw [unmarshal, marshal, firstValue_renderIndented (written_structTokens (written 9998)),
    Option.bind_some, indent_tokens, decodeStruct_tokens _ _ _ (written 9999)]
  have text (state : Checkpoint) : state.setField .format (stringTokens Wal.format) =
      some { state with format := Wal.format } := by
    simp [setField, Utf8.coerce_of_valid (show Utf8.valid Wal.format = true by decide +kernel)]
  have version (state : Checkpoint) :
      state.setField .formatVersion (intTokens checkpointVersion) =
        some { state with formatVersion := checkpointVersion } := by
    rw [setField, decodeInt_intTokens _ (by decide) (by decide)]
    rfl
  have sequence (state : Checkpoint) : state.setField .committedSequence (natTokens committed) =
      some { state with committedSequence := committed } := by
    rw [setField, decodeUint64_natTokens, if_pos bound]
    rfl
  have last (state : Checkpoint) (fresh : state.sourceSequences = .empty) :
      (optionalField (sources.entries != []) .sourceSequences
          (mapTokens natTokens sources)).foldlM
        (fun (state : Checkpoint) (entry : Field × List Token) => state.setField entry.1 entry.2)
        state = some { state with sourceSequences := sources } := by
    apply foldlM_optionalField
    · intro _
      simp only [setField, fresh, decode_sources portable, Option.map_some]
    · intro omitted
      rcases sources with ⟨entries, sorted⟩
      have empty : entries = [] := by simpa using omitted
      subst empty
      cases state
      simp_all [SortedMap.empty]
  simp only [members, flatten_cons, flatten_nil, append_nil, foldlM_append,
    foldlM_cons, foldlM_nil, text, version, sequence, pure, bind, Option.bind_some]
  rw [last _ rfl]

end Checkpoint

end TelemetryForge.Wal
