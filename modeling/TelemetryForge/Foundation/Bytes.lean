import Mathlib

/-! # Byte strings

Go strings, slices and file contents are all byte sequences, compared the way `<` compares Go
strings. -/

namespace TelemetryForge

open List

abbrev Bytes := List UInt8

def ascii (text : String) : Bytes :=
  text.toList.map fun character => UInt8.ofNat character.toNat

instance lawfulBEqBytes : LawfulBEq Bytes := inferInstance

instance linearOrderUInt8 : LinearOrder UInt8 where
  le_refl := UInt8.le_refl
  le_trans _ _ _ := UInt8.le_trans
  le_antisymm _ _ := UInt8.le_antisymm
  le_total := UInt8.le_total
  lt_iff_le_not_ge left right := by
    simp only [UInt8.lt_iff_toNat_lt, UInt8.le_iff_toNat_le]
    omega
  toDecidableLE := inferInstance
  toDecidableLT := inferInstance
  toDecidableEq := inferInstance

theorem toNat_ofNat_of_lt {value : Nat} (bound : value < 256) :
    (UInt8.ofNat value).toNat = value := by
  simp [UInt8.toNat_ofNat', Nat.mod_eq_of_lt bound]

/-- `binary.BigEndian.PutUint32` of a length or checksum; the conversion to
`uint32` keeps the value modulo `2 ^ 32`. -/
def bigEndian32 (value : Nat) : Bytes :=
  [UInt8.ofNat (value / 16777216 % 256), UInt8.ofNat (value / 65536 % 256),
    UInt8.ofNat (value / 256 % 256), UInt8.ofNat (value % 256)]

def readBigEndian32 : Bytes → Nat
  | [first, second, third, fourth] =>
    first.toNat * 16777216 + second.toNat * 65536 + third.toNat * 256 + fourth.toNat
  | _ => 0

@[simp] theorem bigEndian32_length (value : Nat) : (bigEndian32 value).length = 4 := rfl

theorem readBigEndian32_bigEndian32 (value : Nat) :
    readBigEndian32 (bigEndian32 value) = value % 4294967296 := by
  simp only [readBigEndian32, bigEndian32, toNat_ofNat_of_lt (Nat.mod_lt _ (by decide : 256 > 0))]
  omega

def digitByte (digit : Nat) : UInt8 := UInt8.ofNat (48 + digit)

def isDigit (byte : UInt8) : Bool := 48 ≤ byte.toNat && byte.toNat ≤ 57

def digitValue (byte : UInt8) : Nat := byte.toNat - 48

theorem digitByte_toNat {digit : Nat} (bound : digit < 10) : (digitByte digit).toNat = 48 + digit :=
  toNat_ofNat_of_lt (by omega)

theorem isDigit_digitByte {digit : Nat} (bound : digit < 10) :
    isDigit (digitByte digit) = true := by
  simp [isDigit, digitByte_toNat bound]
  omega

theorem digitValue_digitByte {digit : Nat} (bound : digit < 10) :
    digitValue (digitByte digit) = digit := by
  simp [digitValue, digitByte_toNat bound]

def digitsValue (text : Bytes) : Nat :=
  text.foldl (fun value byte => value * 10 + digitValue byte) 0

private theorem digitsValue_foldl (text : Bytes) (value : Nat) :
    text.foldl (fun value byte => value * 10 + digitValue byte) value =
      value * 10 ^ text.length + digitsValue text := by
  induction text generalizing value with
  | nil => simp [digitsValue]
  | cons byte rest induction =>
    simp only [foldl_cons, digitsValue]
    rw [induction, induction (0 * 10 + digitValue byte)]
    simp only [length_cons, Nat.pow_succ]
    ring

theorem digitsValue_append (left right : Bytes) :
    digitsValue (left ++ right) = digitsValue left * 10 ^ right.length + digitsValue right := by
  rw [digitsValue, foldl_append, digitsValue_foldl, ← digitsValue]

def decimal (value : Nat) : Bytes :=
  if value = 0 then [digitByte 0]
  else (Nat.digits 10 value).reverse.map digitByte

/-- `strconv.ParseUint` in base ten, before its width is checked: digits only, at
least one. -/
def parseDecimal (text : Bytes) : Option Nat :=
  if text ≠ [] ∧ text.all isDigit then some (digitsValue text) else none

private theorem digitsValue_reverse_digits (digits : List Nat)
    (bound : ∀ digit ∈ digits, digit < 10) :
    digitsValue (digits.reverse.map digitByte) = Nat.ofDigits 10 digits := by
  induction digits with
  | nil => rfl
  | cons digit rest induction =>
    rw [reverse_cons, map_append, digitsValue_append,
      induction fun other member => bound other (mem_cons_of_mem _ member)]
    simp [digitsValue, Nat.ofDigits_cons, digitValue_digitByte (bound digit mem_cons_self)]
    ring

theorem decimal_all_digits (value : Nat) : (decimal value).all isDigit = true := by
  unfold decimal
  split
  · rfl
  · simp only [all_map, all_reverse, all_eq_true]
    intro digit member
    exact isDigit_digitByte (Nat.digits_lt_base (by decide) member)

theorem decimal_ne_nil (value : Nat) : decimal value ≠ [] := by
  unfold decimal
  split
  · simp
  · rename_i nonzero
    simpa [Nat.digits_eq_nil_iff_eq_zero] using nonzero

theorem parseDecimal_decimal (value : Nat) : parseDecimal (decimal value) = some value := by
  simp only [parseDecimal, decimal_ne_nil, decimal_all_digits, ne_eq,
    not_false_eq_true, and_self, ite_true, Option.some.injEq]
  unfold decimal
  split
  · rename_i zero
    simp [zero, digitsValue, digitValue_digitByte]
  · rw [digitsValue_reverse_digits _ fun digit member =>
      Nat.digits_lt_base (by decide) member, Nat.ofDigits_digits]

theorem decimal_injective : Function.Injective decimal := by
  intro left right equal
  have parsed := congrArg parseDecimal equal
  simpa [parseDecimal_decimal] using parsed

theorem decimal_head (value : Nat) :
    decimal value = [digitByte 0] ∨
      ∃ digit rest, decimal value = digitByte digit :: rest ∧ 0 < digit ∧ digit < 10 := by
  by_cases zero : value = 0
  · exact .inl (by simp [decimal, zero])
  · right
    have nonempty : Nat.digits 10 value ≠ [] := Nat.digits_ne_nil_iff_ne_zero.mpr zero
    refine ⟨(Nat.digits 10 value).getLast nonempty,
      ((Nat.digits 10 value).dropLast.reverse).map digitByte, ?_, ?_, ?_⟩
    · rw [decimal, if_neg zero]
      conv_lhs => rw [← dropLast_append_getLast nonempty]
      simp
    · exact Nat.pos_of_ne_zero (Nat.getLast_digit_ne_zero 10 zero)
    · exact Nat.digits_lt_base (by decide) (getLast_mem nonempty)

def decimalInt (value : Int) : Bytes :=
  if value < 0 then ascii "-" ++ decimal value.natAbs else decimal value.natAbs

def paddedDecimal : (width : Nat) → Nat → Bytes
  | 0, _ => []
  | width + 1, value => paddedDecimal width (value / 10) ++ [digitByte (value % 10)]

@[simp] theorem paddedDecimal_length (width value : Nat) :
    (paddedDecimal width value).length = width := by
  induction width generalizing value with
  | zero => rfl
  | succ width induction => simp [paddedDecimal, induction]

theorem paddedDecimal_all_digits (width value : Nat) :
    (paddedDecimal width value).all isDigit = true := by
  induction width generalizing value with
  | zero => rfl
  | succ width induction =>
    simp [paddedDecimal, induction, isDigit_digitByte (Nat.mod_lt value (by decide : 10 > 0))]

variable {width : Nat}

theorem digitsValue_paddedDecimal {value : Nat} (bound : value < 10 ^ width) :
    digitsValue (paddedDecimal width value) = value := by
  induction width generalizing value with
  | zero => simp [paddedDecimal, digitsValue] at bound ⊢; omega
  | succ width induction =>
    have smaller : value / 10 < 10 ^ width := by
      rw [Nat.pow_succ] at bound
      omega
    rw [paddedDecimal, digitsValue_append, induction smaller]
    simp [digitsValue, digitValue_digitByte (Nat.mod_lt value (by decide : 10 > 0))]
    omega

def zeroPadded (width value : Nat) : Bytes :=
  List.replicate (width - (decimal value).length) (digitByte 0) ++ decimal value

theorem digitsValue_zeroPadded (width value : Nat) :
    digitsValue (zeroPadded width value) = value := by
  have parsed := parseDecimal_decimal value
  simp only [parseDecimal, decimal_ne_nil, decimal_all_digits, ne_eq,
    not_false_eq_true, and_self, ite_true, Option.some.injEq] at parsed
  have zeros : ∀ count, digitsValue (replicate count (digitByte 0)) = 0 := by
    intro count
    induction count with
    | zero => rfl
    | succ count induction =>
      rw [replicate_succ', digitsValue_append, induction]
      simp [digitsValue, digitValue_digitByte]
  rw [zeroPadded, digitsValue_append, zeros, parsed]
  simp

theorem zeroPadded_injective (width : Nat) : Function.Injective (zeroPadded width) := by
  intro left right equal
  have values := congrArg digitsValue equal
  simpa [digitsValue_zeroPadded] using values

theorem zeroPadded_all_digits (width value : Nat) :
    (zeroPadded width value).all isDigit = true := by
  have zero : isDigit (digitByte 0) = true := by decide
  simp [zeroPadded, all_append, all_replicate, zero, decimal_all_digits]

theorem eq_of_digitsValue {left right : Bytes} (leftDigits : left.all isDigit = true)
    (rightDigits : right.all isDigit = true) (length : left.length = right.length)
    (value : digitsValue left = digitsValue right) : left = right := by
  induction left using reverseRecOn generalizing right with
  | nil => exact (length_eq_zero_iff.mp length.symm).symm
  | append_singleton left digit induction =>
    rcases eq_nil_or_concat right with rfl | ⟨others, last, rfl⟩
    · simp at length
    simp only [concat_eq_append, all_append, all_cons, all_nil, Bool.and_true,
      Bool.and_eq_true] at leftDigits rightDigits
    simp only [concat_eq_append, digitsValue_append, length_singleton, pow_one] at value ⊢
    have leftLast : digitsValue [digit] = digit.toNat - 48 := by simp [digitsValue, digitValue]
    have rightLast : digitsValue [last] = last.toNat - 48 := by simp [digitsValue, digitValue]
    have leftBound := leftDigits.2
    have rightBound := rightDigits.2
    simp only [isDigit, Bool.and_eq_true, decide_eq_true_eq] at leftBound rightBound
    have same : digit = last := by
      apply UInt8.toNat_inj.mp
      omega
    rw [induction leftDigits.1 rightDigits.1 (by simpa using length) (by omega), same]

theorem decimal_length_le {value : Nat} (positive : 0 < width)
    (bound : value < 10 ^ width) : (decimal value).length ≤ width := by
  unfold decimal
  split
  · exact positive
  · simpa using Nat.digits_length_le_iff (by decide : 1 < 10) value |>.mpr bound

theorem zeroPadded_eq_paddedDecimal {value : Nat} (positive : 0 < width)
    (bound : value < 10 ^ width) : zeroPadded width value = paddedDecimal width value := by
  apply eq_of_digitsValue (zeroPadded_all_digits _ _) (paddedDecimal_all_digits _ _)
  · have short := decimal_length_le positive bound
    simp only [zeroPadded, length_append, length_replicate, paddedDecimal_length]
    omega
  · rw [digitsValue_zeroPadded, digitsValue_paddedDecimal bound]

theorem digitsValue_lt {text : Bytes} (digits : text.all isDigit = true) :
    digitsValue text < 10 ^ text.length := by
  induction text with
  | nil => simp [digitsValue]
  | cons byte rest induction =>
    simp only [all_cons, Bool.and_eq_true, isDigit, decide_eq_true_eq] at digits
    have tail := induction digits.2
    have split := digitsValue_append [byte] rest
    have head : digitsValue [byte] = byte.toNat - 48 := by simp [digitsValue, digitValue]
    rw [singleton_append, head] at split
    rw [split, length_cons, Nat.pow_succ]
    have bound : (byte.toNat - 48) * 10 ^ rest.length ≤ 9 * 10 ^ rest.length :=
      Nat.mul_le_mul_right _ (by omega)
    omega

theorem lt_of_digitsValue_lt {left right : Bytes} (leftDigits : left.all isDigit = true)
    (rightDigits : right.all isDigit = true) (length : left.length = right.length)
    (value : digitsValue left < digitsValue right) (suffix : Bytes) :
    left ++ suffix < right ++ suffix := by
  induction left generalizing right with
  | nil =>
    rw [length_eq_zero_iff.mp length.symm] at value
    exact absurd value (lt_irrefl _)
  | cons first rest induction =>
    rcases right with _ | ⟨first', rest'⟩
    · simp at length
    simp only [length_cons, Nat.add_right_cancel_iff] at length
    simp only [all_cons, Bool.and_eq_true] at leftDigits rightDigits
    have split := digitsValue_append [first] rest
    have split' := digitsValue_append [first'] rest'
    have head (byte : UInt8) : digitsValue [byte] = byte.toNat - 48 := by
      simp [digitsValue, digitValue]
    rw [singleton_append, head] at split split'
    have tailBound := digitsValue_lt rightDigits.2
    have firstDigit := leftDigits.1
    have firstDigit' := rightDigits.1
    simp only [isDigit, Bool.and_eq_true, decide_eq_true_eq] at firstDigit firstDigit'
    simp only [cons_append, cons_lt_cons_iff]
    rcases lt_trichotomy first.toNat first'.toNat with less | same | greater
    · exact .inl (UInt8.lt_iff_toNat_lt.mpr less)
    · refine .inr ⟨UInt8.toNat_inj.mp same, induction leftDigits.2 rightDigits.2 length ?_⟩
      rw [split, split', same, length] at value
      omega
    · have more : (first'.toNat - 48 + 1) * 10 ^ rest'.length ≤
          (first.toNat - 48) * 10 ^ rest'.length := Nat.mul_le_mul_right _ (by omega)
      rw [split, split', length] at value
      rw [Nat.add_mul, one_mul] at more
      omega

theorem zeroPadded_length {value : Nat} (positive : 0 < width)
    (bound : value < 10 ^ width) : (zeroPadded width value).length = width := by
  rw [zeroPadded_eq_paddedDecimal positive bound, paddedDecimal_length]

theorem zeroPadded_lt {left right : Nat} (positive : 0 < width) (less : left < right)
    (bound : right < 10 ^ width) (suffix : Bytes) :
    zeroPadded width left ++ suffix < zeroPadded width right ++ suffix := by
  apply lt_of_digitsValue_lt (zeroPadded_all_digits _ _) (zeroPadded_all_digits _ _)
  · rw [zeroPadded_length positive (by omega), zeroPadded_length positive bound]
  · simpa only [digitsValue_zeroPadded] using less

def hexDigit (value : Nat) : UInt8 :=
  UInt8.ofNat (if value < 10 then 48 + value else 87 + value)

def hexValue (byte : UInt8) : Option Nat :=
  let code := byte.toNat
  if 48 ≤ code ∧ code ≤ 57 then some (code - 48)
  else if 97 ≤ code ∧ code ≤ 102 then some (code - 87)
  else if 65 ≤ code ∧ code ≤ 70 then some (code - 55)
  else none

def hexEncode : Bytes → Bytes
  | [] => []
  | byte :: rest =>
    hexDigit (byte.toNat / 16) :: hexDigit (byte.toNat % 16) :: hexEncode rest

def hexDecode : Bytes → Option Bytes
  | [] => some []
  | [_] => none
  | high :: low :: rest => do
    let highValue ← hexValue high
    let lowValue ← hexValue low
    let decoded ← hexDecode rest
    return UInt8.ofNat (highValue * 16 + lowValue) :: decoded

def lowercase (text : Bytes) : Bytes :=
  text.map fun byte => if 65 ≤ byte ∧ byte ≤ 90 then byte + 32 else byte

theorem hexValue_hexDigit {value : Nat} (bound : value < 16) :
    hexValue (hexDigit value) = some value := by
  revert value
  decide

theorem hexDecode_hexEncode (data : Bytes) : hexDecode (hexEncode data) = some data := by
  induction data with
  | nil => rfl
  | cons byte rest induction =>
    have bound := byte.toNat_lt
    have joined : byte.toNat / 16 * 16 + byte.toNat % 16 = byte.toNat := by omega
    simp only [hexEncode, hexDecode, induction,
      hexValue_hexDigit (show byte.toNat / 16 < 16 by omega),
      hexValue_hexDigit (show byte.toNat % 16 < 16 by omega),
      bind, Option.bind_some, pure, joined, UInt8.ofNat_toNat]

theorem hexEncode_injective : Function.Injective hexEncode := by
  intro left right equal
  have decoded := congrArg hexDecode equal
  simpa [hexDecode_hexEncode] using decoded

private theorem hexDigit_lowercase {value : Nat} (bound : value < 16) :
    ¬(65 ≤ hexDigit value ∧ hexDigit value ≤ 90) := by
  revert value
  decide

theorem lowercase_hexEncode (data : Bytes) : lowercase (hexEncode data) = hexEncode data := by
  induction data with
  | nil => rfl
  | cons byte rest induction =>
    have bound := byte.toNat_lt
    simp only [lowercase] at induction
    simp only [lowercase, hexEncode, map_cons, induction,
      if_neg (hexDigit_lowercase (show byte.toNat / 16 < 16 by omega)),
      if_neg (hexDigit_lowercase (show byte.toNat % 16 < 16 by omega))]

/-! ## Texts with a delimiter

The part of a text before the first mark, or after the last one, can be read back when the
mark does not occur in it. -/

variable {α : Type} {accepts : α → Bool} {mark : α} {left right leftRest rightRest : List α}

theorem eq_of_delimited (stops : accepts mark = false) (leftAll : left.all accepts = true)
    (rightAll : right.all accepts = true)
    (same : left ++ mark :: leftRest = right ++ mark :: rightRest) :
    left = right ∧ leftRest = rightRest := by
  have front {part : List α} (rest : List α) (all : part.all accepts = true) :
      (part ++ mark :: rest).takeWhile accepts = part := by
    rw [takeWhile_append_of_pos (by simpa using all),
      takeWhile_cons_of_neg (by simp [stops]), append_nil]
  have equal : left = right := by
    rw [← front leftRest leftAll, same, front _ rightAll]
  subst equal
  exact ⟨rfl, (cons.inj (append_cancel_left same)).2⟩

theorem eq_of_delimited_end (stops : accepts mark = false) (leftAll : left.all accepts = true)
    (rightAll : right.all accepts = true)
    (same : leftRest ++ mark :: left = rightRest ++ mark :: right) :
    leftRest = rightRest ∧ left = right := by
  have reversed := congrArg reverse same
  simp only [reverse_append, reverse_cons, append_assoc, singleton_append] at reversed
  rcases eq_of_delimited stops (by simpa using leftAll) (by simpa using rightAll) reversed
    with ⟨part, rest⟩
  exact ⟨reverse_injective rest, reverse_injective part⟩

end TelemetryForge
