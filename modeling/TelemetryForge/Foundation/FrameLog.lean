import TelemetryForge.Foundation.Digest
import TelemetryForge.Foundation.Result

/-! # Logs of framed records

A frame is a payload behind its length and its checksum. A scan reads frames until the log ends
or a frame is cut short; what it makes of a payload is a parameter. -/

namespace TelemetryForge.FrameLog

open List

def headerBytes : Nat := 8

def frame (payload : Bytes) : Bytes :=
  bigEndian32 payload.length ++ (bigEndian32 (Crc32.checksumIEEE payload) ++ payload)

inductive Ending
  | complete | tornHeader | tornPayload
deriving DecidableEq, Repr

inductive Fault (ε : Type)
  | length (size : Nat)
  | checksum (offset : Nat)
  | rejected (reason : ε)
deriving DecidableEq, Repr

structure Scan (α : Type) where
  records : List α
  size : Nat
  ending : Ending
deriving DecidableEq, Repr

variable {α ε : Type}

def Scan.prepend (record : α) (scan : Scan α) : Scan α :=
  { scan with records := record :: scan.records }

def scanFrames (limit : Nat) (read : Bytes → Except ε α) :
    (fuel offset : Nat) → Bytes → Except (Fault ε) (Scan α)
  | 0, offset, _ => .ok ⟨[], offset, .complete⟩
  | fuel + 1, offset, bytes =>
    if bytes = [] then .ok ⟨[], offset, .complete⟩
    else if bytes.length < headerBytes then .ok ⟨[], offset, .tornHeader⟩
    else
      let length := readBigEndian32 (bytes.take 4)
      let body := bytes.drop headerBytes
      if length = 0 ∨ limit < length then .error (.length length)
      else if body.length < length then .ok ⟨[], offset, .tornPayload⟩
      else if Crc32.checksumIEEE (body.take length) ≠
          readBigEndian32 ((bytes.drop 4).take 4) then .error (.checksum offset)
      else
        match read (body.take length) with
        | .error reason => .error (.rejected reason)
        | .ok record =>
          (scanFrames limit read fuel (offset + headerBytes + length)
            (body.drop length)).map (Scan.prepend record)

def scan (limit : Nat) (read : Bytes → Except ε α) (offset : Nat) (bytes : Bytes) :
    Except (Fault ε) (Scan α) :=
  scanFrames limit read (bytes.length + 1) offset bytes

@[simp] theorem frame_length (payload : Bytes) :
    (frame payload).length = headerBytes + payload.length := by
  simp [frame, headerBytes]
  omega

theorem frame_ne_nil (payload : Bytes) : frame payload ≠ [] := by
  intro empty
  have length := frame_length payload
  rw [empty] at length
  simp [headerBytes] at length
  omega

theorem frame_take (payload rest : Bytes) :
    (frame payload ++ rest).take 4 = bigEndian32 payload.length := by
  rw [frame, append_assoc, take_append_of_le_length (by simp)]
  exact take_of_length_le (by simp)

theorem frame_drop_take (payload rest : Bytes) :
    ((frame payload ++ rest).drop 4).take 4 = bigEndian32 (Crc32.checksumIEEE payload) := by
  rw [frame, append_assoc, drop_left' (by simp), append_assoc, take_append_of_le_length (by simp)]
  exact take_of_length_le (by simp)

theorem frame_drop (payload rest : Bytes) :
    (frame payload ++ rest).drop headerBytes = payload ++ rest := by
  rw [frame, ← append_assoc, append_assoc, drop_left' (by simp [headerBytes])]

variable (limit : Nat) (read : Bytes → Except ε α)

structure Accepts (payload : Bytes) (record : α) : Prop where
  nonempty : payload ≠ []
  bound : payload.length ≤ limit
  read : read payload = .ok record

variable {limit read}

variable {payload : Bytes}

theorem scanFrames_frame (small : limit < 2 ^ 32) {record : α}
    (accepts : Accepts limit read payload record) (fuel offset : Nat) (rest : Bytes) :
    scanFrames limit read (fuel + 1) offset (frame payload ++ rest) =
      (scanFrames limit read fuel (offset + headerBytes + payload.length) rest).map
        (Scan.prepend record) := by
  have positive : 0 < payload.length := length_pos_iff.mpr accepts.nonempty
  have bound := accepts.bound
  have size : readBigEndian32 (bigEndian32 payload.length) = payload.length := by
    rw [readBigEndian32_bigEndian32]
    exact Nat.mod_eq_of_lt (by omega)
  have checksum : readBigEndian32 (bigEndian32 (Crc32.checksumIEEE payload)) =
      Crc32.checksumIEEE payload := by
    rw [readBigEndian32_bigEndian32]
    exact Nat.mod_eq_of_lt (Crc32.checksumIEEE_lt payload)
  have nonempty : frame payload ++ rest ≠ [] := by simp [frame_ne_nil]
  have long : ¬(frame payload ++ rest).length < headerBytes := by
    rw [length_append, frame_length]
    omega
  have inside : ¬(payload.length = 0 ∨ limit < payload.length) := by omega
  rw [scanFrames, if_neg nonempty, if_neg long]
  simp only [frame_take, frame_drop, frame_drop_take, size, checksum, if_neg inside,
    length_append, take_left', drop_left', accepts.read]
  rw [if_neg (by omega), if_neg (by simp)]

variable {offset : Nat}

theorem scanFrames_fuel {fuel fuel' : Nat} {bytes : Bytes} (enough : bytes.length < fuel)
    (enough' : bytes.length < fuel') :
    scanFrames limit read fuel offset bytes = scanFrames limit read fuel' offset bytes := by
  induction fuel generalizing fuel' offset bytes with
  | zero => omega
  | succ fuel induction =>
    rcases fuel' with _ | fuel'
    · omega
    simp only [scanFrames]
    split_ifs with empty short invalid torn checksum <;> try rfl
    cases read ((bytes.drop headerBytes).take (readBigEndian32 (bytes.take 4))) with
    | error reason => rfl
    | ok record =>
      simp only
      rw [induction]
      · simp only [length_drop, headerBytes] at torn ⊢
        omega
      · simp only [length_drop, headerBytes] at torn ⊢
        omega

theorem scan_frame (small : limit < 2 ^ 32) {record : α}
    (accepts : Accepts limit read payload record) (offset : Nat) (rest : Bytes) :
    scan limit read offset (frame payload ++ rest) =
      (scan limit read (offset + headerBytes + payload.length) rest).map (Scan.prepend record) := by
  rw [scan, scanFrames_frame small accepts, scan]
  congr 1
  apply scanFrames_fuel
  · rw [length_append, frame_length, headerBytes]
    omega
  · omega

@[simp] theorem scan_nil (offset : Nat) :
    scan limit read offset [] = .ok ⟨[], offset, .complete⟩ := rfl

def frames (payloads : List Bytes) : Bytes := payloads.flatMap frame

@[simp] theorem frames_nil : frames [] = [] := rfl

@[simp] theorem frames_cons (payload : Bytes) (rest : List Bytes) :
    frames (payload :: rest) = frame payload ++ frames rest := rfl

@[simp] theorem frames_append (left right : List Bytes) :
    frames (left ++ right) = frames left ++ frames right := by
  simp [frames]

theorem scan_frames (small : limit < 2 ^ 32) {payloads : List Bytes} {records : List α}
    (accepts : List.Forall₂ (Accepts limit read) payloads records) (offset : Nat) (rest : Bytes) :
    scan limit read offset (frames payloads ++ rest) =
      (scan limit read (offset + (frames payloads).length) rest).map
        (fun tail => { tail with records := records ++ tail.records }) := by
  induction accepts generalizing offset with
  | nil =>
    simp only [frames_nil, nil_append, length_nil, Nat.add_zero]
    cases scan limit read offset rest <;> rfl
  | cons head tail induction =>
    rw [frames_cons, append_assoc, scan_frame small head, induction, length_append,
      frame_length, ← Nat.add_assoc, ← Nat.add_assoc]
    cases scan limit read _ rest <;> rfl

variable {result : Scan α}

theorem scan_frame_ok {rest : Bytes}
    (scanned : scan limit read offset (frame payload ++ rest) = .ok result) :
    payload.length % 2 ^ 32 ≠ 0 ∧ payload.length % 2 ^ 32 ≤ limit ∧
      ∃ record, read (payload.take (payload.length % 2 ^ 32)) = .ok record ∧
        result.records.head? = some record := by
  have size : readBigEndian32 (bigEndian32 payload.length) = payload.length % 2 ^ 32 :=
    readBigEndian32_bigEndian32 _
  have fits : payload.length % 2 ^ 32 ≤ payload.length := Nat.mod_le _ _
  have nonempty : frame payload ++ rest ≠ [] := by simp [frame_ne_nil]
  have long : ¬(frame payload ++ rest).length < headerBytes := by
    rw [length_append, frame_length]
    omega
  rw [scan, scanFrames, if_neg nonempty, if_neg long] at scanned
  simp only [frame_take, frame_drop, size, length_append, take_append_of_le_length fits] at scanned
  rw [ite_error_eq_ok, if_neg (by omega), ite_error_eq_ok] at scanned
  rcases scanned with ⟨inside, _, scanned⟩
  refine ⟨by omega, by omega, ?_⟩
  cases outcome : read (payload.take (payload.length % 2 ^ 32)) with
  | error reason =>
    rw [outcome] at scanned
    cases scanned
  | ok record =>
    rw [outcome] at scanned
    rcases map_eq_ok.mp scanned with ⟨tail, _, rfl⟩
    exact ⟨record, rfl, rfl⟩

def Whole (read : Bytes → Except ε α) (payload : Bytes) : Prop :=
  ∀ cut < payload.length, ∀ record, read (payload.take cut) ≠ .ok record

variable {tail : Bytes}

theorem scan_frames_ok (small : limit < 2 ^ 32) {payloads : List Bytes}
    (whole : ∀ payload ∈ payloads, Whole read payload)
    (scanned : scan limit read offset (frames payloads ++ tail) = .ok result) :
    ∃ records rest, List.Forall₂ (Accepts limit read) payloads records ∧
      scan limit read (offset + (frames payloads).length) tail = .ok rest ∧
      result = { rest with records := records ++ rest.records } := by
  induction payloads generalizing offset result with
  | nil => exact ⟨[], result, .nil, by simpa using scanned, rfl⟩
  | cons payload payloads induction =>
    rw [forall_mem_cons] at whole
    rw [frames_cons, append_assoc] at scanned
    rcases scan_frame_ok scanned with ⟨nonzero, bound, record, isRead, _⟩
    have fits : payload.length % 2 ^ 32 = payload.length := by
      by_contra cut
      have shorter := Nat.mod_le payload.length (2 ^ 32)
      exact whole.1 _ (by omega) record isRead
    rw [fits] at nonzero bound isRead
    rw [take_length] at isRead
    have accepts : Accepts limit read payload record :=
      ⟨fun empty => nonzero (by simp [empty]), bound, isRead⟩
    rw [scan_frame small accepts] at scanned
    rcases map_eq_ok.mp scanned with ⟨inner, innerScanned, rfl⟩
    rcases induction whole.2 innerScanned with ⟨records, rest, accepted, restScanned, rfl⟩
    refine ⟨record :: records, rest, .cons accepts accepted, ?_, rfl⟩
    rw [← restScanned, frames_cons, length_append, frame_length, ← Nat.add_assoc, ← Nat.add_assoc]

theorem scan_corrupted {checksum : Bytes} (size : payload.length < 2 ^ 32)
    (width : checksum.length = 4)
    (mismatch : readBigEndian32 checksum ≠ Crc32.checksumIEEE payload) (offset : Nat)
    (rest : Bytes) : ∃ fault, scan limit read offset
      (bigEndian32 payload.length ++ (checksum ++ payload) ++ rest) = .error fault := by
  have field : readBigEndian32 (bigEndian32 payload.length) = payload.length := by
    rw [readBigEndian32_bigEndian32]
    exact Nat.mod_eq_of_lt size
  have fieldBytes : (bigEndian32 payload.length ++ (checksum ++ payload) ++ rest).take 4 =
      bigEndian32 payload.length := by
    rw [append_assoc, take_left' (by simp)]
  have behindField : (bigEndian32 payload.length ++ (checksum ++ payload) ++ rest).drop 4 =
      checksum ++ (payload ++ rest) := by
    rw [append_assoc, drop_left' (by simp), append_assoc]
  have body : (bigEndian32 payload.length ++ (checksum ++ payload) ++ rest).drop headerBytes =
      payload ++ rest := by
    rw [show headerBytes = 4 + 4 from rfl, ← drop_drop, behindField, drop_left' width]
  have long : ¬(bigEndian32 payload.length ++ (checksum ++ payload) ++ rest).length <
      headerBytes := by
    simp only [length_append, bigEndian32_length, width, headerBytes]
    omega
  have nonempty : bigEndian32 payload.length ++ (checksum ++ payload) ++ rest ≠ [] := by
    intro empty
    rw [empty] at long
    exact long (by decide)
  rw [scan, scanFrames, if_neg nonempty, if_neg long]
  simp only [fieldBytes, body, behindField, field, take_left' width, take_left' rfl, length_append]
  split_ifs with invalid torn
  · exact ⟨_, rfl⟩
  · omega
  · exact ⟨_, rfl⟩
  · rename_i same
    exact absurd (not_not.mp same) mismatch.symm

theorem scanFrames_read {fuel : Nat} {bytes : Bytes}
    (scanned : scanFrames limit read fuel offset bytes = .ok result) :
    ∀ record ∈ result.records, ∃ payload, read payload = .ok record := by
  induction fuel generalizing offset bytes result with
  | zero =>
    cases scanned
    simp
  | succ fuel induction =>
    simp only [scanFrames] at scanned
    split_ifs at scanned
    · cases scanned
      simp
    · cases scanned
      simp
    · cases scanned
      simp
    · split at scanned
      · cases scanned
      · rename_i record accepted
        rcases map_eq_ok.mp scanned with ⟨tail, inner, rfl⟩
        simp only [Scan.prepend, forall_mem_cons]
        exact ⟨⟨_, accepted⟩, induction inner⟩

theorem scanFrames_size {fuel : Nat} {bytes : Bytes}
    (scanned : scanFrames limit read fuel offset bytes = .ok result) :
    result.size ≤ offset + bytes.length := by
  induction fuel generalizing offset bytes result with
  | zero =>
    cases scanned
    exact Nat.le_add_right _ _
  | succ fuel induction =>
    simp only [scanFrames] at scanned
    split_ifs at scanned with empty short invalid torn checksum
    · cases scanned
      exact Nat.le_add_right _ _
    · cases scanned
      exact Nat.le_add_right _ _
    · cases scanned
      exact Nat.le_add_right _ _
    · split at scanned
      · cases scanned
      · rcases map_eq_ok.mp scanned with ⟨tail, inner, rfl⟩
        have inside := induction inner
        simp only [length_drop, headerBytes, Scan.prepend] at inside torn short ⊢
        omega

theorem scan_size {bytes : Bytes} (scanned : scan limit read offset bytes = .ok result) :
    result.size ≤ offset + bytes.length :=
  scanFrames_size scanned

def Torn (limit : Nat) (tail : Bytes) : Prop :=
  ∃ payload, payload ≠ [] ∧ payload.length ≤ limit ∧ tail <+: frame payload ∧ tail ≠ frame payload

theorem torn_nil (positive : 0 < limit) : Torn limit [] :=
  ⟨[0], by simp, positive, nil_prefix, (frame_ne_nil _).symm⟩

def Recognised (limit : Nat) (payload tail : Bytes) : Prop :=
  tail.length < headerBytes ∨
    0 < payload.length % 2 ^ 32 ∧ payload.length % 2 ^ 32 ≤ limit ∧
      tail.length < headerBytes + payload.length % 2 ^ 32

instance (limit : Nat) (payload tail : Bytes) : Decidable (Recognised limit payload tail) :=
  inferInstanceAs (Decidable (_ ∨ _))

theorem prefix_length_field (inside : tail <+: frame payload) (long : ¬tail.length < headerBytes) :
    readBigEndian32 (tail.take 4) = payload.length % 2 ^ 32 := by
  rcases inside with ⟨rest, whole⟩
  have field := frame_take payload []
  rw [append_nil, ← whole, take_append_of_le_length (by
    simp only [headerBytes] at long
    omega)] at field
  rw [field]
  exact readBigEndian32_bigEndian32 _

theorem scan_recognised (nonempty : tail ≠ [])
    (inside : tail <+: frame payload) (recognised : Recognised limit payload tail) (offset : Nat) :
    ∃ ending, ending ≠ .complete ∧ scan limit read offset tail = .ok ⟨[], offset, ending⟩ := by
  by_cases short : tail.length < headerBytes
  · refine ⟨.tornHeader, by simp, ?_⟩
    rw [scan, scanFrames, if_neg nonempty, if_pos short]
  · rcases recognised.resolve_left short with ⟨positive, bound, cut⟩
    refine ⟨.tornPayload, by simp, ?_⟩
    rw [scan, scanFrames, if_neg nonempty, if_neg short]
    simp only [prefix_length_field inside short, length_drop]
    rw [if_neg (by omega), if_pos (by omega)]

theorem scan_unrecognised (whole : Whole read payload)
    (inside : tail <+: frame payload) (proper : tail ≠ frame payload)
    (unrecognised : ¬Recognised limit payload tail) (offset : Nat) :
    ∃ fault, scan limit read offset tail = .error fault := by
  rw [Recognised, not_or] at unrecognised
  rcases unrecognised with ⟨long, unannounced⟩
  have nonempty : tail ≠ [] := by
    rintro rfl
    exact long (by decide)
  rw [scan, scanFrames, if_neg nonempty, if_neg long]
  simp only [prefix_length_field inside long]
  split_ifs with invalid torn checksum
  · exact ⟨_, rfl⟩
  · rw [length_drop] at torn
    exact absurd ⟨by omega, by omega, by omega⟩ unannounced
  · exact ⟨_, rfl⟩
  · rcases inside with ⟨rest, joined⟩
    have length := congrArg length joined
    rw [length_append, frame_length] at length
    have cut : 0 < rest.length := by
      apply length_pos_iff.mpr
      rintro rfl
      exact proper (by simpa using joined)
    have body : tail.drop headerBytes ++ rest = payload := by
      have behind := frame_drop payload []
      rw [append_nil, append_nil, ← joined, drop_append_of_le_length (by omega)] at behind
      exact behind
    have taken : (tail.drop headerBytes).take (payload.length % 2 ^ 32) =
        payload.take (payload.length % 2 ^ 32) := by
      rw [← body, take_append_of_le_length (by rw [body]; omega)]
    rw [length_drop] at torn
    rw [taken]
    cases outcome : read (payload.take (payload.length % 2 ^ 32)) with
    | error reason => exact ⟨_, rfl⟩
    | ok record => exact absurd outcome (whole _ (by omega) record)

theorem scan_torn (small : limit < 2 ^ 32) (torn : Torn limit tail)
    (offset : Nat) : ∃ ending, scan limit read offset tail = .ok ⟨[], offset, ending⟩ ∧
      (ending = .complete ↔ tail = []) := by
  rcases torn with ⟨payload, nonempty, bound, inside, proper⟩
  by_cases empty : tail = []
  · subst empty
    exact ⟨.complete, scan_nil offset, by simp⟩
  have size : payload.length % 2 ^ 32 = payload.length := Nat.mod_eq_of_lt (by omega)
  have positive : 0 < payload.length := length_pos_iff.mpr nonempty
  have shorter : tail.length < (frame payload).length :=
    lt_of_le_of_ne inside.length_le fun equal => proper (inside.eq_of_length equal)
  rw [frame_length] at shorter
  have recognised : Recognised limit payload tail := by
    right
    rw [size]
    exact ⟨positive, bound, shorter⟩
  rcases scan_recognised empty inside recognised offset with ⟨ending, incomplete, scanned⟩
  exact ⟨ending, scanned, by simp [empty, incomplete]⟩

theorem torn_of_prefix {cut : Bytes} (nonempty : payload ≠ [])
    (bound : payload.length ≤ limit) (inside : cut <+: frame payload) :
    cut = frame payload ∨ Torn limit cut := by
  by_cases whole : cut = frame payload
  · exact .inl whole
  · exact .inr ⟨payload, nonempty, bound, inside, whole⟩

end TelemetryForge.FrameLog
