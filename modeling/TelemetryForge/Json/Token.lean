import TelemetryForge.Foundation.Bytes

/-! # JSON tokens

The lexical half of `encoding/json`. -/

namespace TelemetryForge.Json

open Option

inductive Token
  | beginObject
  | endObject
  | beginArray
  | endArray
  | colon
  | comma
  | null
  | boolean (value : Bool)
  | number (literal : Bytes)
  | string (raw : Bytes)
deriving DecidableEq, Repr

def Token.text : Token → Bytes
  | .beginObject => [0x7B]
  | .endObject => [0x7D]
  | .beginArray => [0x5B]
  | .endArray => [0x5D]
  | .colon => [0x3A]
  | .comma => [0x2C]
  | .null => ascii "null"
  | .boolean true => ascii "true"
  | .boolean false => ascii "false"
  | .number literal => literal
  | .string raw => 0x22 :: (raw ++ [0x22])

/-- Position inside a string literal; `unicode` counts the hexadecimal digits
still owed after the next one. -/
inductive StringState
  | plain
  | escape
  | unicode (remaining : Nat)
deriving DecidableEq

def isHex (byte : UInt8) : Bool := (hexValue byte).isSome

def isSimpleEscape (byte : UInt8) : Bool :=
  byte == 0x22 || byte == 0x5C || byte == 0x2F || byte == 0x62 || byte == 0x66 ||
    byte == 0x6E || byte == 0x72 || byte == 0x74

def stringStep : StringState → UInt8 → Option StringState
  | .plain, byte =>
    if byte = 0x22 then none
    else if byte = 0x5C then some .escape
    else if byte < 0x20 then none
    else some .plain
  | .escape, byte =>
    if byte = 0x75 then some (.unicode 3)
    else if isSimpleEscape byte then some .plain
    else none
  | .unicode remaining, byte =>
    if isHex byte then
      match remaining with
      | 0 => some .plain
      | remaining + 1 => some (.unicode remaining)
    else none

def stringRun : StringState → Bytes → Option StringState
  | state, [] => some state
  | state, byte :: rest => (stringStep state byte).bind (stringRun · rest)

def RawString (raw : Bytes) : Prop := stringRun .plain raw = some .plain

instance (raw : Bytes) : Decidable (RawString raw) := inferInstanceAs (Decidable (_ = _))

def scanString : StringState → Bytes → Option (Bytes × Bytes)
  | _, [] => none
  | state, byte :: rest =>
    if state = .plain ∧ byte = 0x22 then some ([], rest)
    else
      match stringStep state byte with
      | none => none
      | some next =>
        (scanString next rest).map fun result => (byte :: result.1, result.2)

theorem stringRun_append (state : StringState) (left right : Bytes) :
    stringRun state (left ++ right) = (stringRun state left).bind (stringRun · right) := by
  induction left generalizing state with
  | nil => rfl
  | cons byte rest induction =>
    simp only [List.cons_append, stringRun]
    cases stringStep state byte with
    | none => rfl
    | some next => simp [induction]

theorem rawString_append {left right : Bytes} (leftRaw : RawString left)
    (rightRaw : RawString right) : RawString (left ++ right) := by
  simp only [RawString] at leftRaw rightRaw ⊢
  simp [stringRun_append, leftRaw, rightRaw]

theorem scanString_append {state : StringState} {raw : Bytes}
    (run : stringRun state raw = some .plain) (rest : Bytes) :
    scanString state (raw ++ 0x22 :: rest) = some (raw, rest) := by
  induction raw generalizing state with
  | nil =>
    simp only [stringRun, some.injEq] at run
    simp [scanString, run]
  | cons byte raw induction =>
    simp only [stringRun, bind_eq_some_iff] at run
    rcases run with ⟨next, step, run⟩
    have open_ : ¬(state = .plain ∧ byte = 0x22) := by
      rintro ⟨rfl, rfl⟩
      simp [stringStep] at step
    simp only [List.cons_append, scanString, if_neg open_, step, induction run, map_some]

theorem scanString_sound {state : StringState} {text raw rest : Bytes}
    (scanned : scanString state text = some (raw, rest)) :
    text = raw ++ 0x22 :: rest ∧ stringRun state raw = some .plain := by
  induction text generalizing state raw with
  | nil => simp [scanString] at scanned
  | cons byte text induction =>
    simp only [scanString] at scanned
    split at scanned
    · rename_i closed
      simp only [some.injEq, Prod.mk.injEq] at scanned
      rcases scanned with ⟨rfl, rfl⟩
      simp [stringRun, closed]
    · split at scanned
      · simp at scanned
      · rename_i next step
        simp only [map_eq_some_iff] at scanned
        rcases scanned with ⟨⟨tail, others⟩, inner, equal⟩
        simp only [Prod.mk.injEq] at equal
        rcases equal with ⟨rfl, rfl⟩
        have this := induction inner
        exact ⟨by simp [this.1], by simp [stringRun, step, this.2]⟩

inductive NumberState
  | start
  | minus
  | zero
  | integer
  | point
  | fraction
  | exponent
  | exponentSign
  | exponentDigits
deriving DecidableEq

def numberStep : NumberState → UInt8 → Option NumberState
  | .start, byte =>
    if byte = 0x2D then some .minus
    else if byte = 0x30 then some .zero
    else if isDigit byte then some .integer
    else none
  | .minus, byte =>
    if byte = 0x30 then some .zero
    else if isDigit byte then some .integer
    else none
  | .zero, byte =>
    if byte = 0x2E then some .point
    else if byte = 0x65 ∨ byte = 0x45 then some .exponent
    else none
  | .integer, byte =>
    if isDigit byte then some .integer
    else if byte = 0x2E then some .point
    else if byte = 0x65 ∨ byte = 0x45 then some .exponent
    else none
  | .point, byte => if isDigit byte then some .fraction else none
  | .fraction, byte =>
    if isDigit byte then some .fraction
    else if byte = 0x65 ∨ byte = 0x45 then some .exponent
    else none
  | .exponent, byte =>
    if byte = 0x2B ∨ byte = 0x2D then some .exponentSign
    else if isDigit byte then some .exponentDigits
    else none
  | .exponentSign, byte => if isDigit byte then some .exponentDigits else none
  | .exponentDigits, byte => if isDigit byte then some .exponentDigits else none

def NumberState.complete : NumberState → Bool
  | .zero | .integer | .fraction | .exponentDigits => true
  | _ => false

def numberRun : NumberState → Bytes → Option NumberState
  | state, [] => some state
  | state, byte :: rest => (numberStep state byte).bind (numberRun · rest)

def NumberLiteral (literal : Bytes) : Prop :=
  ∃ last, numberRun .start literal = some last ∧ last.complete = true

def scanNumber : NumberState → Bytes → Option (Bytes × Bytes)
  | state, [] => if state.complete then some ([], []) else none
  | state, byte :: rest =>
    match numberStep state byte with
    | some next =>
      (scanNumber next rest).map fun result => (byte :: result.1, result.2)
    | none => if state.complete then some ([], byte :: rest) else none

def NumberEnds (rest : Bytes) : Prop :=
  ∀ byte ∈ rest.head?, isDigit byte = false ∧ byte ≠ 0x2E ∧ byte ≠ 0x65 ∧ byte ≠ 0x45

theorem numberStep_of_ends {state : NumberState} {byte : UInt8} {rest : Bytes}
    (complete : state.complete = true) (ends : NumberEnds (byte :: rest)) :
    numberStep state byte = none := by
  have this := ends byte (by simp)
  cases state <;> simp_all [NumberState.complete, numberStep]

variable {literal : Bytes}

theorem scanNumber_append {state last : NumberState}
    (run : numberRun state literal = some last) (complete : last.complete = true)
    {rest : Bytes} (ends : NumberEnds rest) :
    scanNumber state (literal ++ rest) = some (literal, rest) := by
  induction literal generalizing state with
  | nil =>
    simp only [numberRun, some.injEq] at run
    subst last
    cases rest with
    | nil => simp [scanNumber, complete]
    | cons byte rest =>
      simp [scanNumber, numberStep_of_ends complete ends, complete]
  | cons byte literal induction =>
    simp only [numberRun, bind_eq_some_iff] at run
    rcases run with ⟨next, step, run⟩
    simp [scanNumber, step, induction run]

theorem scanNumber_sound {state : NumberState} {text rest : Bytes}
    (scanned : scanNumber state text = some (literal, rest)) :
    text = literal ++ rest ∧
      ∃ last, numberRun state literal = some last ∧ last.complete = true := by
  induction text generalizing state literal with
  | nil =>
    simp only [scanNumber] at scanned
    split at scanned
    · rename_i complete
      simp only [some.injEq, Prod.mk.injEq] at scanned
      rcases scanned with ⟨rfl, rfl⟩
      exact ⟨rfl, state, rfl, complete⟩
    · simp at scanned
  | cons byte text induction =>
    simp only [scanNumber] at scanned
    split at scanned
    · rename_i next step
      simp only [map_eq_some_iff] at scanned
      rcases scanned with ⟨⟨tail, others⟩, inner, equal⟩
      simp only [Prod.mk.injEq] at equal
      rcases equal with ⟨rfl, rfl⟩
      rcases induction inner with ⟨rfl, last, run, complete⟩
      exact ⟨rfl, last, by simp [numberRun, step, run], complete⟩
    · split at scanned
      · rename_i complete
        simp only [some.injEq, Prod.mk.injEq] at scanned
        rcases scanned with ⟨rfl, rfl⟩
        exact ⟨rfl, state, rfl, complete⟩
      · simp at scanned

private theorem numberRun_digits (text : Bytes) (digits : text.all isDigit = true) :
    numberRun .integer text = some .integer := by
  induction text with
  | nil => rfl
  | cons byte rest induction =>
    simp only [List.all_cons, Bool.and_eq_true] at digits
    simp [numberRun, numberStep, digits.1, induction digits.2]

theorem numberLiteral_decimal (value : Nat) : NumberLiteral (decimal value) := by
  have digits := decimal_all_digits value
  rcases decimal_head value with zero | ⟨digit, rest, equal, positive, bound⟩
  · rw [zero]
    exact ⟨.zero, by decide, rfl⟩
  · refine ⟨.integer, ?_, rfl⟩
    rw [equal] at digits ⊢
    simp only [List.all_cons, Bool.and_eq_true] at digits
    have notMinus : digitByte digit ≠ 0x2D := by
      intro same
      have code := congrArg UInt8.toNat same
      rw [digitByte_toNat bound] at code
      simp at code
      omega
    have notZero : digitByte digit ≠ 0x30 := by
      intro same
      have code := congrArg UInt8.toNat same
      rw [digitByte_toNat bound] at code
      simp at code
      omega
    simp [numberRun, numberStep, notMinus, notZero, digits.1, numberRun_digits _ digits.2]

def dropText : Bytes → Bytes → Option Bytes
  | [], rest => some rest
  | _ :: _, [] => none
  | expected :: text, byte :: rest => if expected = byte then dropText text rest else none

theorem dropText_append (text rest : Bytes) : dropText text (text ++ rest) = some rest := by
  induction text with
  | nil => rfl
  | cons byte text induction => simp [dropText, induction]

theorem dropText_sound {text input rest : Bytes} (dropped : dropText text input = some rest) :
    input = text ++ rest := by
  induction text generalizing input with
  | nil => simpa [dropText] using dropped
  | cons expected text induction =>
    cases input with
    | nil => simp [dropText] at dropped
    | cons byte input =>
      simp only [dropText] at dropped
      split at dropped
      · rename_i same
        simp [same, induction dropped]
      · simp at dropped

def punctuation (byte : UInt8) : Option Token :=
  if byte = 0x7B then some .beginObject
  else if byte = 0x7D then some .endObject
  else if byte = 0x5B then some .beginArray
  else if byte = 0x5D then some .endArray
  else if byte = 0x3A then some .colon
  else if byte = 0x2C then some .comma
  else none

def literalToken (first : UInt8) (rest : Bytes) : Option (Token × Bytes) :=
  if first = 0x22 then
    (scanString .plain rest).map fun result => (.string result.1, result.2)
  else if first = 0x6E then (dropText (ascii "ull") rest).map fun rest => (.null, rest)
  else if first = 0x74 then
    (dropText (ascii "rue") rest).map fun rest => (.boolean true, rest)
  else if first = 0x66 then
    (dropText (ascii "alse") rest).map fun rest => (.boolean false, rest)
  else if first = 0x2D ∨ isDigit first then
    (scanNumber .start (first :: rest)).map fun result => (.number result.1, result.2)
  else none

def nextToken (first : UInt8) (rest : Bytes) : Option (Token × Bytes) :=
  match punctuation first with
  | some token => some (token, rest)
  | none => literalToken first rest

private theorem nextToken_quotation (rest : Bytes) : nextToken 0x22 rest =
    (scanString .plain rest).map fun result => (.string result.1, result.2) := rfl

private theorem nextToken_t (rest : Bytes) : nextToken 0x74 rest =
    (dropText (ascii "rue") rest).map fun rest => (.boolean true, rest) := rfl

private theorem nextToken_f (rest : Bytes) : nextToken 0x66 rest =
    (dropText (ascii "alse") rest).map fun rest => (.boolean false, rest) := rfl

private theorem nextToken_n (rest : Bytes) : nextToken 0x6E rest =
    (dropText (ascii "ull") rest).map fun rest => (.null, rest) := rfl

def Token.WellFormed : Token → Prop
  | .number literal => NumberLiteral literal
  | .string raw => RawString raw
  | _ => True

def Token.isNumber : Token → Bool
  | .number _ => true
  | _ => false

theorem numberLiteral_cons (number : NumberLiteral literal) :
    ∃ first tail, literal = first :: tail ∧ (first = 0x2D ∨ isDigit first = true) := by
  rcases number with ⟨last, run, complete⟩
  cases literal with
  | nil =>
    simp only [numberRun, some.injEq] at run
    subst last
    simp [NumberState.complete] at complete
  | cons first tail =>
    refine ⟨first, tail, rfl, ?_⟩
    simp only [numberRun, bind_eq_some_iff] at run
    rcases run with ⟨next, step, _⟩
    simp only [numberStep] at step
    split at step
    · exact .inl ‹_›
    · split at step
      · rename_i zero
        subst zero
        exact .inr (by decide)
      · split at step
        · exact .inr ‹_›
        · simp at step

private theorem numberFirst_distinct {first : UInt8}
    (number : first = 0x2D ∨ isDigit first = true) :
    punctuation first = none ∧ first ≠ 0x22 ∧ first ≠ 0x6E ∧ first ≠ 0x74 ∧ first ≠ 0x66 := by
  revert first
  decide +kernel

variable {token : Token}

theorem nextToken_text (formed : token.WellFormed) {rest : Bytes}
    (ends : token.isNumber = true → NumberEnds rest) :
    ∃ first tail, token.text = first :: tail ∧
      nextToken first (tail ++ rest) = some (token, rest) := by
  cases token with
  | number literal =>
    rcases numberLiteral_cons formed with ⟨first, tail, equal, number⟩
    refine ⟨first, tail, equal, ?_⟩
    rcases formed with ⟨last, run, complete⟩
    have scanned := scanNumber_append run complete (ends rfl)
    rw [equal, List.cons_append] at scanned
    have distinct := numberFirst_distinct number
    simp only [nextToken, literalToken, distinct, if_false, number, if_true, scanned,
      map_some, equal]
  | string raw =>
    refine ⟨0x22, raw ++ [0x22], rfl, ?_⟩
    have scanned := scanString_append formed rest
    rw [List.append_assoc, nextToken_quotation]
    simp only [List.cons_append, List.nil_append, scanned, map_some]
  | boolean value =>
    cases value with
    | true =>
      refine ⟨0x74, ascii "rue", rfl, ?_⟩
      rw [nextToken_t, dropText_append, map_some]
    | false =>
      refine ⟨0x66, ascii "alse", rfl, ?_⟩
      rw [nextToken_f, dropText_append, map_some]
  | null =>
    refine ⟨0x6E, ascii "ull", rfl, ?_⟩
    rw [nextToken_n, dropText_append, map_some]
  | _ => exact ⟨_, [], rfl, rfl⟩

theorem punctuation_sound {byte : UInt8} (found : punctuation byte = some token) :
    token.text = [byte] ∧ token.WellFormed := by
  unfold punctuation at found
  split_ifs at found <;> cases found <;> exact ⟨by simp [Token.text, *], trivial⟩

theorem literalToken_sound {first : UInt8} {rest others : Bytes}
    (read : literalToken first rest = some (token, others)) :
    first :: rest = token.text ++ others ∧ token.WellFormed := by
  unfold literalToken at read
  split_ifs at read with quotation n t f number <;>
    simp only [map_eq_some_iff] at read <;> rcases read with ⟨result, found, equal⟩ <;>
    cases equal
  · have sound := scanString_sound found
    exact ⟨by simp [Token.text, sound.1, quotation], sound.2⟩
  · exact ⟨by rw [dropText_sound found, n]; rfl, trivial⟩
  · exact ⟨by rw [dropText_sound found, t]; rfl, trivial⟩
  · exact ⟨by rw [dropText_sound found, f]; rfl, trivial⟩
  · exact scanNumber_sound found

theorem nextToken_sound {first : UInt8} {rest others : Bytes}
    (read : nextToken first rest = some (token, others)) :
    first :: rest = token.text ++ others ∧ token.WellFormed := by
  unfold nextToken at read
  split at read
  · rename_i found
    cases read
    have sound := punctuation_sound found
    exact ⟨by simp [sound.1], sound.2⟩
  · exact literalToken_sound read

end TelemetryForge.Json
