import TelemetryForge.Foundation.Protobuf

/-! # The export check of WebAssembly plugins

`VerifyEntrypoint` walks the sections of a module and looks for an exported function. Every
access to the bytes is checked here the way Go checks it, and an access out of range is a
failure of its own. A slice is much shorter than the largest `int` of 64 bits, so sums of
positions and 32-bit lengths are exact. -/

namespace TelemetryForge.Wasmplugin

open List

inductive Failure
  | truncatedModule
  | truncatedSection
  | truncatedExport
  | invalidULEB
  | notExported (entrypoint : Bytes)
  | outOfRange
  | outOfFuel
deriving DecidableEq

def slice (data : Bytes) (low high : Nat) : Except Failure Bytes :=
  if low ≤ high ∧ high ≤ data.length then .ok ((data.take high).drop low)
  else .error .outOfRange

def byteAt (data : Bytes) (index : Nat) : Except Failure UInt8 :=
  match data[index]? with
  | some byte => .ok byte
  | none => .error .outOfRange

def readULEBFrom (value i : Nat) : Bytes → Except Failure (Nat × Nat)
  | [] => .error .invalidULEB
  | byte :: rest =>
    if i < 5 then
      let value := value ||| ((byte &&& 0x7f).toNat <<< (7 * i)) % 2 ^ 32
      if byte &&& 0x80 = 0 then .ok (value, i + 1) else readULEBFrom value (i + 1) rest
    else .error .invalidULEB

def readULEB (data : Bytes) : Except Failure (Nat × Nat) := readULEBFrom 0 0 data

def findExport (entrypoint : Bytes) : (count : Nat) → Bytes → Except Failure Bool
  | 0, _ => .ok false
  | count + 1, payload => do
    let nameLen ← readULEB payload
    let payload ← slice payload nameLen.2 payload.length
    if nameLen.1 + 2 > payload.length then .error .truncatedExport else
      let name ← slice payload 0 nameLen.1
      let payload ← slice payload nameLen.1 payload.length
      let kind ← byteAt payload 0
      let payload ← slice payload 1 payload.length
      let index ← readULEB payload
      let payload ← slice payload index.2 payload.length
      if kind = 0 ∧ name = entrypoint then .ok true else findExport entrypoint count payload

def searchSection (module entrypoint : Bytes) (sectionID : UInt8) (pos finish : Nat) :
    Except Failure Bool :=
  if sectionID = 7 then do
    let payload ← slice module pos finish
    let count ← readULEB payload
    let payload ← slice payload count.2 payload.length
    findExport entrypoint count.1 payload
  else .ok false

def verifyFrom (module entrypoint : Bytes) : (fuel pos : Nat) → Except Failure Unit
  | 0, _ => .error .outOfFuel
  | fuel + 1, pos =>
    if pos < module.length then do
      let sectionID ← byteAt module pos
      let rest ← slice module (pos + 1) module.length
      let size ← readULEB rest
      let start := pos + 1 + size.2
      let finish := start + size.1
      if finish > module.length then .error .truncatedSection else
        let found ← searchSection module entrypoint sectionID start finish
        if found then .ok () else verifyFrom module entrypoint fuel finish
    else .error (.notExported entrypoint)

def verifyEntrypoint (module entrypoint : Bytes) : Except Failure Unit :=
  if module.length < 8 then .error .truncatedModule
  else verifyFrom module entrypoint module.length 8

theorem lowBits (byte : UInt8) : (byte &&& 0x7f).toNat = byte.toNat % 128 := by
  rw [UInt8.toNat_and]
  exact Nat.and_two_pow_sub_one_eq_mod byte.toNat 7

theorem highBit (byte : UInt8) : byte &&& 0x80 = 0 ↔ byte.toNat < 128 := by
  revert byte
  decide +kernel

theorem or_shiftLeft {low width : Nat} (small : low < 2 ^ width) (fits : width ≤ 32)
    (high : Nat) : low ||| (high <<< width) % 2 ^ 32 = (low + 2 ^ width * high) % 2 ^ 32 := by
  have split : 2 ^ 32 = 2 ^ width * 2 ^ (32 - width) := by
    rw [← pow_add, Nat.add_sub_cancel' fits]
  rw [split, Nat.shiftLeft_eq, mul_comm high, Nat.mul_mod_mul_left, Nat.or_comm,
    ← Nat.two_pow_add_eq_or_of_lt small, Nat.mod_mul, Nat.add_mul_mod_self_left,
    Nat.mod_eq_of_lt small, Nat.add_mul_div_left _ _ (Nat.two_pow_pos width),
    Nat.div_eq_of_lt small, zero_add, add_comm]

theorem readULEBFrom_eq_ok {value i : Nat} (small : value < 128 ^ i) (data : Bytes)
    (result : Nat × Nat) :
    readULEBFrom value i data = .ok result ↔
      Leb128.Starts data fun encoding => i + encoding.length ≤ 5 ∧
        result = ((value + 128 ^ i * Leb128.value encoding) % 2 ^ 32, i + encoding.length) := by
  induction data generalizing value i with
  | nil => simp [readULEBFrom, Leb128.not_starts_nil]
  | cons byte rest induction =>
    rw [readULEBFrom, Leb128.starts_cons, lowBits]
    have power : 128 ^ i = 2 ^ (7 * i) := by
      rw [pow_mul]
      rfl
    by_cases room : i < 5
    · rw [if_pos room, or_shiftLeft (power ▸ small) (by omega), ← power]
      simp only [highBit]
      split_ifs with last
      · simp only [Leb128.value, length_singleton, Except.ok.injEq, mul_zero, add_zero]
        exact ⟨fun same => ⟨by omega, same.symm⟩, fun same => same.2.symm⟩
      · have bounded : (value + 128 ^ i * (byte.toNat % 128)) % 2 ^ 32 < 128 ^ (i + 1) := by
          have digit : byte.toNat % 128 + 1 ≤ 128 := Nat.mod_lt _ (by decide)
          have scaled := Nat.mul_le_mul_left (128 ^ i) digit
          rw [pow_succ]
          exact (Nat.mod_le _ _).trans_lt (by rw [mul_add] at scaled; omega)
        rw [induction bounded]
        have same (encoding : Bytes) :
            ((value + 128 ^ i * (byte.toNat % 128)) % 2 ^ 32 +
              128 ^ (i + 1) * Leb128.value encoding) % 2 ^ 32 =
            (value + 128 ^ i * Leb128.value (byte :: encoding)) % 2 ^ 32 := by
          rw [Nat.mod_add_mod, Leb128.value]
          congr 1
          ring
        simp only [same, length_cons, Nat.add_assoc, Nat.add_comm 1]
    · -- A sixth byte is not read.
      simp only [if_neg room, reduceCtorEq, false_iff]
      split_ifs
      · simp only [length_singleton]
        omega
      · rintro ⟨encoding, _, _, _, few, _⟩
        simp only [length_cons] at few
        omega

theorem readULEB_eq_ok (data : Bytes) (result : Nat × Nat) :
    readULEB data = .ok result ↔
      Leb128.Starts data fun encoding => encoding.length ≤ 5 ∧
        result = (Leb128.value encoding % 2 ^ 32, encoding.length) := by
  simpa [readULEB] using readULEBFrom_eq_ok (show 0 < 128 ^ 0 by decide) data result

/-- What decoding a 32-bit number is to be: success exactly on an encoding of at most five
bytes whose value has 32 bits. -/
def Decodes (data : Bytes) : Prop :=
  ∀ result, readULEB data = .ok result ↔
    Leb128.Starts data fun encoding => encoding.length ≤ 5 ∧
      Leb128.value encoding < 2 ^ 32 ∧ result = (Leb128.value encoding, encoding.length)

/-- Five bytes carry 35 bits, and `readULEB` drops the upper three instead of rejecting them. -/
theorem decodes_iff (data : Bytes) :
    Decodes data ↔
      ¬Leb128.Starts data fun encoding => encoding.length = 5 ∧ 2 ^ 32 ≤ Leb128.value encoding := by
  constructor
  · rintro decodes ⟨encoding, rest, split, whole, five, large⟩
    have read := (readULEB_eq_ok data _).mpr ⟨encoding, rest, split, whole, five.le, rfl⟩
    rcases (decodes _).mp read with ⟨other, rest', split', _, _, small, same⟩
    have equal : encoding = other :=
      (append_inj (split.symm.trans split') (Prod.ext_iff.mp same).2).1
    rw [equal] at large
    omega
  · intro fits result
    have small {encoding rest : Bytes} (split : data = encoding ++ rest)
        (whole : Leb128.isEncoding encoding = true) (few : encoding.length ≤ 5) :
        Leb128.value encoding < 2 ^ 32 := by
      by_contra large
      have bound := Leb128.value_lt encoding
      refine fits ⟨encoding, rest, split, whole, ?_, not_lt.mp large⟩
      by_contra fewer
      have power := Nat.pow_le_pow_right (show 0 < 128 by decide)
        (show encoding.length ≤ 4 by omega)
      omega
    rw [readULEB_eq_ok]
    constructor
    · rintro ⟨encoding, rest, split, whole, few, rfl⟩
      have bound := small split whole few
      exact ⟨encoding, rest, split, whole, few, bound, by rw [Nat.mod_eq_of_lt bound]⟩
    · rintro ⟨encoding, rest, split, whole, few, bound, rfl⟩
      exact ⟨encoding, rest, split, whole, few, by rw [Nat.mod_eq_of_lt bound]⟩

/-- The five bytes stand for `2 ^ 35 - 1`. -/
theorem not_decodes_overflow :
    readULEB [0xff, 0xff, 0xff, 0xff, 0x7f] = .ok (2 ^ 32 - 1, 5) ∧
      ¬Decodes [0xff, 0xff, 0xff, 0xff, 0x7f] := by
  have read : readULEB [0xff, 0xff, 0xff, 0xff, 0x7f] = .ok (2 ^ 32 - 1, 5) := by decide
  refine ⟨read, fun decodes => ?_⟩
  have starts := (decodes _).mp read
  simp [Leb128.starts_cons, Leb128.value] at starts

def Sound {α : Type} (result : Except Failure α) (post : α → Prop) : Prop :=
  match result with
  | .ok value => post value
  | .error failure => failure ≠ .outOfRange ∧ failure ≠ .outOfFuel

theorem Sound.bind {α β : Type} {first : Except Failure α} {next : α → Except Failure β}
    {middle : α → Prop} {post : β → Prop} (starts : Sound first middle)
    (continues : ∀ value, middle value → Sound (next value) post) : Sound (first >>= next) post :=
  match first, starts with
  | .ok value, holds => continues value holds
  | .error _, reported => reported

theorem Sound.mono {α : Type} {result : Except Failure α} {post weaker : α → Prop}
    (sound : Sound result post) (implies : ∀ value, post value → weaker value) :
    Sound result weaker :=
  match result, sound with
  | .ok value, holds => implies value holds
  | .error _, reported => reported

def Length (encoding : Bytes) (length : Nat) : Prop :=
  Leb128.isEncoding encoding = true ∧ encoding.length ≤ 5 ∧ length = Leb128.value encoding % 2 ^ 32

theorem slice_middle (before middle after : Bytes) :
    slice (before ++ (middle ++ after)) before.length (before.length + middle.length) =
      .ok middle := by
  simp [slice, take_append, take_of_length_le]

theorem slice_suffix (before rest : Bytes) :
    slice (before ++ rest) before.length (before ++ rest).length = .ok rest := by
  simpa using slice_middle before rest []

theorem exists_split {data : Bytes} {length : Nat} (inside : length ≤ data.length) :
    ∃ first rest, data = first ++ rest ∧ first.length = length :=
  ⟨data.take length, data.drop length, (take_append_drop _ _).symm,
    length_take_of_le inside⟩

theorem readULEB_sound (data : Bytes) : Sound (readULEB data) fun result =>
      ∃ encoding rest, data = encoding ++ rest ∧ Length encoding result.1 ∧
        result.2 = encoding.length := by
  cases read : readULEB data with
  | error failure =>
    have invalid (value i : Nat) (data : Bytes)
        (read : readULEBFrom value i data = .error failure) : failure = .invalidULEB := by
      induction data generalizing value i with
      | nil => simpa [readULEBFrom] using read.symm
      | cons byte rest induction =>
        rw [readULEBFrom] at read
        split_ifs at read
        · exact induction _ _ read
        · simpa using read.symm
    rw [invalid _ _ _ read]
    exact ⟨nofun, nofun⟩
  | ok result =>
    rcases (readULEB_eq_ok data result).mp read with ⟨encoding, rest, rfl, whole, few, rfl⟩
    exact ⟨encoding, rest, rfl, ⟨whole, few, rfl⟩, rfl⟩

inductive Exports (name : Bytes) : (count : Nat) → Bytes → Prop
  | here {count : Nat} {nameLen index rest : Bytes} {function : Nat} :
      Length nameLen name.length → Length index function →
      Exports name (count + 1) (nameLen ++ (name ++ 0 :: (index ++ rest)))
  | later {count : Nat} {nameLen other index rest : Bytes} {kind : UInt8} {item : Nat} :
      Length nameLen other.length → Length index item → Exports name count rest →
      Exports name (count + 1) (nameLen ++ (other ++ kind :: (index ++ rest)))

/-- One of the sections, which all lie within the bytes as far as they are read, is an export
section that exports a function of the name. -/
inductive Exporting (name : Bytes) : Bytes → Prop
  | here {size count payload rest : Bytes} {exports : Nat} :
      Length size (count ++ payload).length → Length count exports →
      Exports name exports payload → Exporting name (7 :: (size ++ (count ++ payload ++ rest)))
  | later {sectionID : UInt8} {size payload rest : Bytes} :
      Length size payload.length → Exporting name rest →
      Exporting name (sectionID :: (size ++ (payload ++ rest)))

theorem findExport_sound (entrypoint : Bytes) (count : Nat) (payload : Bytes) :
    Sound (findExport entrypoint count payload) fun found =>
      found = true → Exports entrypoint count payload := by
  induction count generalizing payload with
  | zero => exact nofun
  | succ count induction =>
    rw [findExport]
    refine (readULEB_sound payload).bind ?_
    rintro ⟨length, used⟩ ⟨nameLen, rest, rfl, isLength, rfl⟩
    rw [slice_suffix]
    change Sound (if _ then _ else _) _
    split_ifs with short
    · exact ⟨nofun, nofun⟩
    -- The name and two more bytes are there.
    rcases exists_split (show length ≤ rest.length by omega) with
      ⟨name, tail, rfl, rfl⟩
    rcases tail with _ | ⟨kind, tail⟩
    · simp at short
    have nameSlice := slice_middle [] name (kind :: tail)
    simp only [nil_append, length_nil, Nat.zero_add] at nameSlice
    rw [nameSlice, slice_suffix]
    change Sound (slice ([kind] ++ tail) [kind].length ([kind] ++ tail).length >>= _) _
    rw [slice_suffix]
    refine (readULEB_sound tail).bind ?_
    rintro ⟨item, used⟩ ⟨index, rest, rfl, isItem, rfl⟩
    rw [slice_suffix]
    change Sound (if _ then _ else _) _
    split_ifs with found
    · rcases found with ⟨rfl, rfl⟩
      exact fun _ => .here isLength isItem
    · exact (induction rest).mono fun _ search isFound => .later isLength isItem (search isFound)

theorem searchSection_sound (entrypoint : Bytes) (sectionID : UInt8)
    (before payload after : Bytes) :
    Sound (searchSection (before ++ (payload ++ after)) entrypoint sectionID before.length
        (before.length + payload.length)) fun found =>
      found = true → sectionID = 7 ∧ ∃ count content exports, payload = count ++ content ∧
        Length count exports ∧ Exports entrypoint exports content := by
  rw [searchSection]
  split_ifs with isExport
  · rw [slice_middle]
    refine (readULEB_sound payload).bind ?_
    rintro ⟨exports, used⟩ ⟨count, content, rfl, isCount, rfl⟩
    rw [slice_suffix]
    exact (findExport_sound entrypoint exports content).mono fun _ search isFound =>
      ⟨isExport, count, content, exports, rfl, isCount, search isFound⟩
  · exact nofun

theorem verifyFrom_sound (entrypoint : Bytes) {fuel : Nat} (before sections : Bytes)
    (enough : sections.length < fuel) :
    Sound (verifyFrom (before ++ sections) entrypoint fuel before.length) fun _ =>
      Exporting entrypoint sections := by
  induction fuel generalizing before sections with
  | zero => omega
  | succ fuel induction =>
    rw [verifyFrom]
    rcases sections with _ | ⟨sectionID, rest⟩
    · simp [Sound]
    have first : byteAt (before ++ sectionID :: rest) before.length = .ok sectionID := by
      simp [byteAt]
    have remaining := slice_suffix (before ++ [sectionID]) rest
    simp only [append_assoc, singleton_append, length_append, length_singleton] at remaining
    rw [if_pos (by simp), first, length_append]
    change Sound (slice _ _ _ >>= _) _
    rw [remaining]
    refine (readULEB_sound rest).bind ?_
    rintro ⟨length, used⟩ ⟨size, rest, rfl, isSize, rfl⟩
    dsimp only
    split_ifs with short
    · exact ⟨nofun, nofun⟩
    simp only [length_append, length_cons] at short enough
    rcases exists_split (show length ≤ rest.length by omega) with ⟨payload, rest, rfl, rfl⟩
    have regroup : before ++ sectionID :: (size ++ (payload ++ rest)) =
        (before ++ sectionID :: size) ++ (payload ++ rest) := by simp
    have start : before.length + 1 + size.length = (before ++ sectionID :: size).length := by
      simp
      omega
    rw [regroup, start]
    refine (searchSection_sound entrypoint sectionID _ payload rest).bind ?_
    rintro (_ | _) search
    · have next := induction (before ++ sectionID :: size ++ payload) rest
        (by simp at enough; omega)
      rw [append_assoc, length_append] at next
      exact next.mono fun _ exporting => .later isSize exporting
    · rcases search rfl with ⟨rfl, count, content, exports, rfl, isCount, isExported⟩
      exact .here isSize isCount isExported

end TelemetryForge.Wasmplugin
