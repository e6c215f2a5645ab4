import TelemetryForge.Foundation.Bytes

/-! # Base64 text

`base64.StdEncoding`: three bytes are written as four characters, the last group is
padded. Decoding ignores line breaks and the unused bits of a padded group. -/

namespace TelemetryForge.Base64

def letter (value : Nat) : UInt8 :=
  if value < 26 then UInt8.ofNat (65 + value)
  else if value < 52 then UInt8.ofNat (71 + value)
  else if value < 62 then UInt8.ofNat (value - 4)
  else if value = 62 then 0x2B
  else 0x2F

def letterValue (byte : UInt8) : Option Nat :=
  let code := byte.toNat
  if 65 ≤ code ∧ code ≤ 90 then some (code - 65)
  else if 97 ≤ code ∧ code ≤ 122 then some (code - 71)
  else if 48 ≤ code ∧ code ≤ 57 then some (code + 4)
  else if code = 43 then some 62
  else if code = 47 then some 63
  else none

def padding : UInt8 := 0x3D

def group (value : Nat) : Bytes :=
  [letter (value / 262144 % 64), letter (value / 4096 % 64), letter (value / 64 % 64),
    letter (value % 64)]

def encode : Bytes → Bytes
  | [] => []
  | [first] => (group (first.toNat * 65536)).take 2 ++ [padding, padding]
  | [first, second] => (group (first.toNat * 65536 + second.toNat * 256)).take 3 ++ [padding]
  | first :: second :: third :: rest =>
    group (first.toNat * 65536 + second.toNat * 256 + third.toNat) ++ encode rest

def groupBytes (value : Nat) : Bytes :=
  [UInt8.ofNat (value / 65536 % 256), UInt8.ofNat (value / 256 % 256), UInt8.ofNat (value % 256)]

def decodeGroups : Bytes → Option Bytes
  | [] => some []
  | first :: second :: third :: fourth :: rest =>
    if fourth = padding ∧ third = padding ∧ rest = [] then do
      let a ← letterValue first
      let b ← letterValue second
      return (groupBytes (a * 262144 + b * 4096)).take 1
    else if fourth = padding ∧ rest = [] then do
      let a ← letterValue first
      let b ← letterValue second
      let c ← letterValue third
      return (groupBytes (a * 262144 + b * 4096 + c * 64)).take 2
    else do
      let a ← letterValue first
      let b ← letterValue second
      let c ← letterValue third
      let d ← letterValue fourth
      let others ← decodeGroups rest
      return groupBytes (a * 262144 + b * 4096 + c * 64 + d) ++ others
  | _ => none

def decode (text : Bytes) : Option Bytes :=
  decodeGroups (text.filter fun byte => byte != 0x0A && byte != 0x0D)

private theorem letterValue_letter {value : Nat} (bound : value < 64) :
    letterValue (letter value) = some value := by
  revert value
  decide

private theorem letter_plain {value : Nat} (bound : value < 64) :
    letter value ≠ padding ∧ letter value ≠ 0x0A ∧ letter value ≠ 0x0D := by
  revert value
  decide

private theorem group_value {value : Nat} (bound : value < 16777216) :
    value / 262144 % 64 * 262144 + value / 4096 % 64 * 4096 + value / 64 % 64 * 64 +
      value % 64 = value := by
  omega

private theorem groupBytes_joined (first second third : UInt8) :
    groupBytes (first.toNat * 65536 + second.toNat * 256 + third.toNat) =
      [first, second, third] := by
  have high := first.toNat_lt
  have middle := second.toNat_lt
  have low := third.toNat_lt
  have firstCode : (first.toNat * 65536 + second.toNat * 256 + third.toNat) / 65536 % 256 =
      first.toNat := by omega
  have secondCode : (first.toNat * 65536 + second.toNat * 256 + third.toNat) / 256 % 256 =
      second.toNat := by omega
  have thirdCode : (first.toNat * 65536 + second.toNat * 256 + third.toNat) % 256 =
      third.toNat := by omega
  rw [groupBytes, firstCode, secondCode, thirdCode, UInt8.ofNat_toNat, UInt8.ofNat_toNat,
    UInt8.ofNat_toNat]

private theorem joined_lt (first second third : UInt8) :
    first.toNat * 65536 + second.toNat * 256 + third.toNat < 16777216 := by
  have high := first.toNat_lt
  have middle := second.toNat_lt
  have low := third.toNat_lt
  omega

theorem decodeGroups_encode (data : Bytes) : decodeGroups (encode data) = some data := by
  have letterAt (value : Nat) := letterValue_letter (Nat.mod_lt value (by decide : 0 < 64))
  have plainAt (value : Nat) := letter_plain (Nat.mod_lt value (by decide : 0 < 64))
  induction data using encode.induct with
  | case1 => rfl
  | case2 first =>
    have bound := joined_lt first 0 0
    have joined := groupBytes_joined first 0 0
    have zero : (0 : UInt8).toNat = 0 := rfl
    simp only [zero, Nat.zero_mul, Nat.add_zero] at bound joined
    have value : first.toNat * 65536 / 262144 % 64 * 262144 +
        first.toNat * 65536 / 4096 % 64 * 4096 = first.toNat * 65536 := by omega
    simp [encode, group, decodeGroups, letterAt, value, joined]
  | case3 first second =>
    have bound := joined_lt first second 0
    have joined := groupBytes_joined first second 0
    have zero : (0 : UInt8).toNat = 0 := rfl
    simp only [zero, Nat.add_zero] at bound joined
    have value : (first.toNat * 65536 + second.toNat * 256) / 262144 % 64 * 262144 +
        (first.toNat * 65536 + second.toNat * 256) / 4096 % 64 * 4096 +
        (first.toNat * 65536 + second.toNat * 256) / 64 % 64 * 64 =
          first.toNat * 65536 + second.toNat * 256 := by omega
    simp [encode, group, decodeGroups, letterAt, plainAt, value, joined]
  | case4 first second third rest induction =>
    have value := group_value (joined_lt first second third)
    simp only [encode, group, List.cons_append, List.nil_append, decodeGroups, plainAt, false_and,
      if_false, letterAt, bind, Option.bind_some, induction, value, groupBytes_joined, pure]

private theorem encode_plain (data : Bytes) : ∀ byte ∈ encode data, byte ≠ 0x0A ∧ byte ≠ 0x0D := by
  have plainAt (value : Nat) := (letter_plain (Nat.mod_lt value (by decide : 0 < 64))).2
  have pad : padding ≠ 0x0A ∧ padding ≠ 0x0D := by decide
  induction data using encode.induct with
  | case1 => simp [encode]
  | case2 first => simp [encode, group, plainAt, pad]
  | case3 first second => simp [encode, group, plainAt, pad]
  | case4 first second third rest induction =>
    simp only [encode, List.forall_mem_append]
    exact ⟨by simp [group, plainAt], induction⟩

theorem encode_ascii (data : Bytes) : ∀ byte ∈ encode data, byte < 0x80 := by
  have letterAscii : ∀ value < 64, letter value < 0x80 := by decide
  have asciiAt (value : Nat) := letterAscii _ (Nat.mod_lt value (by decide : 0 < 64))
  have pad : padding < 0x80 := by decide
  induction data using encode.induct with
  | case1 => simp [encode]
  | case2 first => simp [encode, group, asciiAt, pad]
  | case3 first second => simp [encode, group, asciiAt, pad]
  | case4 first second third rest induction =>
    simp only [encode, List.forall_mem_append]
    exact ⟨by simp [group, asciiAt], induction⟩

theorem decode_encode (data : Bytes) : decode (encode data) = some data := by
  have kept : (encode data).filter (fun byte => byte != 0x0A && byte != 0x0D) = encode data := by
    apply List.filter_eq_self.mpr
    intro byte member
    simpa using encode_plain data byte member
  rw [decode, kept, decodeGroups_encode]

end TelemetryForge.Base64
