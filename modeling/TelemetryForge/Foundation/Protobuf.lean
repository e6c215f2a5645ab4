import TelemetryForge.Foundation.Bytes

/-! # LEB128

A number as bytes of seven bits each, the lowest first. Every byte but the last has its high
bit set. -/

namespace TelemetryForge.Leb128

def value : Bytes → Nat
  | [] => 0
  | byte :: rest => byte.toNat % 128 + 128 * value rest

def isEncoding : Bytes → Bool
  | [] => false
  | byte :: rest => if byte.toNat < 128 then rest.isEmpty else isEncoding rest

theorem value_lt (encoding : Bytes) : value encoding < 128 ^ encoding.length := by
  induction encoding with
  | nil => simp [value]
  | cons byte rest induction =>
    rw [value, List.length_cons, pow_succ]
    omega

def Starts (data : Bytes) (property : Bytes → Prop) : Prop :=
  ∃ encoding rest, data = encoding ++ rest ∧ isEncoding encoding = true ∧ property encoding

theorem not_starts_nil (property : Bytes → Prop) : ¬Starts [] property := by
  rintro ⟨encoding, rest, nothing, whole, _⟩
  simp [(List.append_eq_nil_iff.mp nothing.symm).1, isEncoding] at whole

theorem starts_cons (byte : UInt8) (data : Bytes) (property : Bytes → Prop) :
    Starts (byte :: data) property ↔
      if byte.toNat < 128 then property [byte]
      else Starts data fun encoding => property (byte :: encoding) := by
  constructor
  · rintro ⟨_ | ⟨first, encoding⟩, rest, split, whole, holds⟩
    · simp [isEncoding] at whole
    · rcases List.cons.inj split with ⟨rfl, rfl⟩
      rw [isEncoding] at whole
      split_ifs at whole ⊢
      · rwa [List.isEmpty_iff.mp whole] at holds
      · exact ⟨encoding, rest, rfl, whole, holds⟩
  · split_ifs with last
    · exact fun holds => ⟨[byte], data, rfl, by simp [isEncoding, last], holds⟩
    · rintro ⟨encoding, rest, rfl, whole, holds⟩
      exact ⟨byte :: encoding, rest, rfl, by simpa [isEncoding, last] using whole, holds⟩

def decode : Bytes → Option (Nat × Bytes)
  | [] => none
  | byte :: rest =>
    if byte.toNat < 128 then some (byte.toNat, rest)
    else (decode rest).map fun read => (byte.toNat % 128 + 128 * read.1, read.2)

theorem decode_append {encoding : Bytes} (whole : isEncoding encoding = true) (rest : Bytes) :
    decode (encoding ++ rest) = some (value encoding, rest) := by
  induction encoding with
  | nil => cases whole
  | cons byte encoding induction =>
    rw [isEncoding] at whole
    rw [List.cons_append, decode]
    split_ifs at whole ⊢ with last
    · rw [List.isEmpty_iff.mp whole]
      simp [value, Nat.mod_eq_of_lt last]
    · rw [induction whole]
      rfl

end TelemetryForge.Leb128

/-! ## The protobuf wire format

A message is a sequence of fields, each with a number and a content of one of three wire
types. -/

namespace TelemetryForge.Protobuf

inductive Content
  | varint (value : Nat)
  | fixed64 (value : Nat)
  | bytes (data : Bytes)
deriving DecidableEq

abbrev Field := Nat × Content

def littleEndian : Bytes → Nat
  | [] => 0
  | byte :: rest => byte.toNat + 256 * littleEndian rest

def take? (length : Nat) (data : Bytes) : Option (Bytes × Bytes) :=
  if length ≤ data.length then some (data.take length, data.drop length) else none

def decodeContent (wireType : Nat) (data : Bytes) : Option (Content × Bytes) :=
  match wireType with
  | 0 => (Leb128.decode data).map fun read => (.varint read.1, read.2)
  | 1 => (take? 8 data).map fun read => (.fixed64 (littleEndian read.1), read.2)
  | 2 => (Leb128.decode data).bind fun length =>
    (take? length.1 length.2).map fun read => (.bytes read.1, read.2)
  | _ => none

def decodeField (data : Bytes) : Option (Field × Bytes) :=
  (Leb128.decode data).bind fun tag =>
    (decodeContent (tag.1 % 8) tag.2).map fun read => ((tag.1 / 8, read.1), read.2)

def decodeWithin : (fuel : Nat) → Bytes → Option (List Field)
  | _, [] => some []
  | 0, _ => none
  | fuel + 1, data =>
    (decodeField data).bind fun read => (decodeWithin fuel read.2).map (read.1 :: ·)

def decodeMessage (data : Bytes) : Option (List Field) := decodeWithin data.length data

def Encodes (field : Field) (encoding : Bytes) : Prop :=
  encoding ≠ [] ∧ ∀ rest, decodeField (encoding ++ rest) = some (field, rest)

theorem take?_append (data rest : Bytes) : take? data.length (data ++ rest) = some (data, rest) := by
  simp [take?]

theorem decodeMessage_flatten {fields : List Field} {encodings : List Bytes}
    (encoded : List.Forall₂ Encodes fields encodings) :
    decodeMessage encodings.flatten = some fields := by
  suffices enough : ∀ fuel, encodings.flatten.length ≤ fuel →
      decodeWithin fuel encodings.flatten = some fields from enough _ le_rfl
  induction encoded with
  | nil => exact fun fuel _ => by cases fuel <;> rfl
  | @cons field encoding fields encodings first _ induction =>
    intro fuel enough
    rw [List.flatten_cons, List.length_append] at *
    have nonempty := List.length_pos_of_ne_nil first.1
    rcases List.exists_cons_of_ne_nil first.1 with ⟨byte, tail, isCons⟩
    obtain _ | fuel := fuel
    · omega
    have read := first.2 encodings.flatten
    rw [isCons, List.cons_append] at read ⊢
    rw [decodeWithin, read]
    simp only [Option.bind_some]
    rw [induction fuel (by omega)]
    rfl
    nofun

end TelemetryForge.Protobuf
