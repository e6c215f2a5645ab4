import TelemetryForge.Foundation.Strings
import TelemetryForge.Json.Token

/-! # JSON string literals

How `json.Marshal` writes a Go string and how decoding reads it back. -/

namespace TelemetryForge.Json

open List

def escapeLetter (byte : UInt8) : Option UInt8 :=
  if byte = 0x22 then some 0x22
  else if byte = 0x5C then some 0x5C
  else if byte = 0x08 then some 0x62
  else if byte = 0x0C then some 0x66
  else if byte = 0x0A then some 0x6E
  else if byte = 0x0D then some 0x72
  else if byte = 0x09 then some 0x74
  else none

def isHtml (byte : UInt8) : Bool := byte == 0x3C || byte == 0x3E || byte == 0x26

def unicodeEscape (code : Nat) : Bytes :=
  [0x5C, 0x75, hexDigit (code / 4096 % 16), hexDigit (code / 256 % 16),
    hexDigit (code / 16 % 16), hexDigit (code % 16)]

def lineSeparator : Bytes := [0xE2, 0x80, 0xA8]

def paragraphSeparator : Bytes := [0xE2, 0x80, 0xA9]

def quoteByte (byte : UInt8) : Bytes :=
  match escapeLetter byte with
  | some letter => [0x5C, letter]
  | none => if byte < 0x20 || isHtml byte then unicodeEscape byte.toNat else [byte]

def quoteRune : Rune → Bytes
  | .ascii byte => quoteByte byte
  | .multibyte bytes =>
    if bytes = lineSeparator then unicodeEscape 0x2028
    else if bytes = paragraphSeparator then unicodeEscape 0x2029
    else bytes
  | .invalid _ => unicodeEscape 0xFFFD

def quote (text : Bytes) : Bytes := (Utf8.runes text).flatMap quoteRune

def unescape (letter : UInt8) : UInt8 :=
  if letter = 0x62 then 0x08
  else if letter = 0x66 then 0x0C
  else if letter = 0x6E then 0x0A
  else if letter = 0x72 then 0x0D
  else if letter = 0x74 then 0x09
  else letter

def hex4 (first second third fourth : UInt8) : Nat :=
  (hexValue first).getD 0 * 4096 + (hexValue second).getD 0 * 256 +
    (hexValue third).getD 0 * 16 + (hexValue fourth).getD 0

/-- `utf8.AppendRune` for a code point that is no surrogate. -/
def utf8Encode (code : Nat) : Bytes :=
  if code < 0x80 then [UInt8.ofNat code]
  else if code < 0x800 then [UInt8.ofNat (0xC0 + code / 64), UInt8.ofNat (0x80 + code % 64)]
  else if code < 0x10000 then
    [UInt8.ofNat (0xE0 + code / 4096), UInt8.ofNat (0x80 + code / 64 % 64),
      UInt8.ofNat (0x80 + code % 64)]
  else
    [UInt8.ofNat (0xF0 + code / 262144), UInt8.ofNat (0x80 + code / 4096 % 64),
      UInt8.ofNat (0x80 + code / 64 % 64), UInt8.ofNat (0x80 + code % 64)]

def isSurrogate (code : Nat) : Bool := 0xD800 ≤ code && code < 0xE000

def surrogatePair (high low : Nat) : Option Nat :=
  if 0xD800 ≤ high ∧ high < 0xDC00 ∧ 0xDC00 ≤ low ∧ low < 0xE000 then
    some (0x10000 + (high - 0xD800) * 1024 + (low - 0xDC00))
  else none

/-- The rune of a `\u` escape and the text after it; a surrogate takes the escape
that follows when the two make a pair. -/
def unquoteUnicode (code : Nat) (rest : Bytes) : Bytes × Bytes :=
  if isSurrogate code then
    match rest with
    | backslash :: letter :: first :: second :: third :: fourth :: others =>
      if backslash = 0x5C ∧ letter = 0x75 then
        match surrogatePair code (hex4 first second third fourth) with
        | some pair => (utf8Encode pair, others)
        | none => (Rune.replacement, rest)
      else (Rune.replacement, rest)
    | _ => (Rune.replacement, rest)
  else (utf8Encode code, rest)

def unquoteEscape : Bytes → Bytes × Bytes
  | [] => ([], [])
  | letter :: rest =>
    if letter = 0x75 then
      match rest with
      | first :: second :: third :: fourth :: others =>
        unquoteUnicode (hex4 first second third fourth) others
      | _ => ([], [])
    else ([unescape letter], rest)

def unquoteItem (first : UInt8) (rest : Bytes) : Bytes × Bytes :=
  if first = 0x5C then unquoteEscape rest
  else ((Utf8.nextRune first rest).1.coerce, (Utf8.nextRune first rest).2)

def unquoteWithin : (fuel : Nat) → Bytes → Bytes
  | 0, _ => []
  | _ + 1, [] => []
  | fuel + 1, first :: rest =>
    (unquoteItem first rest).1 ++ unquoteWithin fuel (unquoteItem first rest).2

def unquote (raw : Bytes) : Bytes := unquoteWithin raw.length raw

theorem unquoteUnicode_rest_length (code : Nat) (rest : Bytes) :
    (unquoteUnicode code rest).2.length ≤ rest.length := by
  unfold unquoteUnicode
  repeat' split
  all_goals simp only [length_cons]; omega

theorem unquoteItem_rest_length (first : UInt8) (rest : Bytes) :
    (unquoteItem first rest).2.length ≤ rest.length := by
  unfold unquoteItem
  split
  · cases rest with
    | nil => simp [unquoteEscape]
    | cons letter rest =>
      simp only [unquoteEscape]
      split
      · split
        · refine Nat.le_trans (unquoteUnicode_rest_length _ _) ?_
          simp only [length_cons]
          omega
        · simp
      · simp
  · exact Utf8.nextRune_rest_length first rest

theorem unquoteWithin_eq_of_le (fuel : Nat) (text : Bytes) (enough : text.length ≤ fuel) :
    unquoteWithin fuel text = unquote text := by
  suffices ∀ (large small : Nat) (text : Bytes), text.length ≤ small → small ≤ large →
      unquoteWithin large text = unquoteWithin small text from
    this fuel text.length text (Nat.le_refl _) enough
  intro large
  induction large with
  | zero =>
    intro small text enough bound
    obtain rfl : small = 0 := by omega
    rfl
  | succ large induction =>
    intro small text enough bound
    cases text with
    | nil => cases small <;> rfl
    | cons first rest =>
      cases small with
      | zero => simp at enough
      | succ small =>
        have shorter := unquoteItem_rest_length first rest
        simp only [unquoteWithin]
        rw [induction small _ (by simp at enough; omega) (by omega)]

theorem unquote_cons (first : UInt8) (rest : Bytes) :
    unquote (first :: rest) = (unquoteItem first rest).1 ++ unquote (unquoteItem first rest).2 := by
  have shorter := unquoteItem_rest_length first rest
  rw [unquote, length_cons, unquoteWithin, unquoteWithin_eq_of_le _ _ shorter]

variable {code : Nat}

theorem hex4_unicodeEscape (bound : code < 65536) :
    hex4 (hexDigit (code / 4096 % 16)) (hexDigit (code / 256 % 16))
      (hexDigit (code / 16 % 16)) (hexDigit (code % 16)) = code := by
  simp only [hex4, hexValue_hexDigit (Nat.mod_lt _ (by decide : 0 < 16)), Option.getD_some]
  omega

theorem unquoteItem_unicodeEscape (bound : code < 65536)
    (scalar : isSurrogate code = false) (rest : Bytes) :
    unquoteItem 0x5C ((unicodeEscape code).tail ++ rest) = (utf8Encode code, rest) := by
  simp [unicodeEscape, unquoteItem, unquoteEscape, hex4_unicodeEscape bound, unquoteUnicode, scalar]

variable {byte : UInt8}

private theorem escapeLetter_spec {letter : UInt8} (escaped : escapeLetter byte = some letter) :
    letter ≠ 0x75 ∧ unescape letter = byte ∧ isSimpleEscape letter = true := by
  have table : ∀ byte : UInt8, (escapeLetter byte).all (fun letter =>
      letter != 0x75 && unescape letter == byte && isSimpleEscape letter) = true := by
    decide +kernel
  simpa [escaped, and_assoc] using table byte

private theorem escapeLetter_none (plain : escapeLetter byte = none) :
    byte ≠ 0x5C ∧ byte ≠ 0x22 := by
  revert byte
  decide +kernel

private theorem ascii_code (small : byte < 0x80) :
    byte.toNat < 128 ∧ utf8Encode byte.toNat = [byte] ∧ isSurrogate byte.toNat = false := by
  have bound : byte.toNat < 128 := by
    simpa [UInt8.lt_iff_toNat_lt] using small
  refine ⟨bound, by simp [utf8Encode, bound], ?_⟩
  simp only [isSurrogate, Bool.and_eq_false_iff, decide_eq_false_iff_not]
  omega

theorem unquoteItem_quoteByte (small : byte < 0x80) :
    ∃ first tail, quoteByte byte = first :: tail ∧
      ∀ rest, unquoteItem first (tail ++ rest) = ([byte], rest) := by
  unfold quoteByte
  cases escaped : escapeLetter byte with
  | some letter =>
    have spec := escapeLetter_spec escaped
    exact ⟨0x5C, [letter], rfl, fun rest => by
      simp [unquoteItem, unquoteEscape, spec.1, spec.2.1]⟩
  | none =>
    have code := ascii_code small
    by_cases coded : (byte < 0x20 || isHtml byte) = true
    · refine ⟨0x5C, (unicodeEscape byte.toNat).tail, by simp [coded, unicodeEscape], ?_⟩
      intro rest
      rw [unquoteItem_unicodeEscape (by omega) code.2.2, code.2.1]
    · refine ⟨byte, [], by simp [coded], ?_⟩
      intro rest
      simp [unquoteItem, (escapeLetter_none escaped).1, Utf8.nextRune, small, Rune.coerce]

theorem multibyte_large {bytes : Bytes} (genuine : (Rune.multibyte bytes).Genuine) :
    ∀ byte ∈ bytes, 0x80 ≤ byte := by
  cases genuine with
  | two formed =>
    simp only [Utf8.wellFormed2, Utf8.isContinuation, Bool.and_eq_true, decide_eq_true_eq] at formed
    simp only [forall_mem_cons, UInt8.le_iff_toNat_le] at formed ⊢
    simp at formed ⊢
    omega
  | three formed =>
    simp only [Utf8.wellFormed3, Utf8.isContinuation, Bool.and_eq_true, Bool.or_eq_true,
      beq_iff_eq, decide_eq_true_eq] at formed
    simp only [forall_mem_cons, UInt8.le_iff_toNat_le, ← UInt8.toNat_inj] at formed ⊢
    simp at formed ⊢
    omega
  | four formed =>
    simp only [Utf8.wellFormed4, Utf8.isContinuation, Bool.and_eq_true, Bool.or_eq_true,
      beq_iff_eq, decide_eq_true_eq] at formed
    simp only [forall_mem_cons, UInt8.le_iff_toNat_le, ← UInt8.toNat_inj] at formed ⊢
    simp at formed ⊢
    omega

private theorem large_plain (large : 0x80 ≤ byte) :
    byte ≠ 0x5C ∧ stringStep .plain byte = some .plain := by
  revert byte
  decide +kernel

theorem unquoteItem_quoteRune {rune : Rune} (genuine : rune.Genuine) :
    ∃ first tail, quoteRune rune = first :: tail ∧
      ∀ rest, unquoteItem first (tail ++ rest) = (rune.coerce, rest) := by
  cases rune with
  | ascii byte =>
    have small : byte < 0x80 := by
      cases genuine
      assumption
    exact unquoteItem_quoteByte small
  | invalid byte =>
    refine ⟨0x5C, (unicodeEscape 0xFFFD).tail, rfl, fun rest => ?_⟩
    rw [unquoteItem_unicodeEscape (by decide) (by decide)]
    rfl
  | multibyte bytes =>
    by_cases line : bytes = lineSeparator
    · refine ⟨0x5C, (unicodeEscape 0x2028).tail, by simp [quoteRune, line, unicodeEscape],
        fun rest => ?_⟩
      rw [unquoteItem_unicodeEscape (by decide) (by decide), line]
      rfl
    by_cases paragraph : bytes = paragraphSeparator
    · refine ⟨0x5C, (unicodeEscape 0x2029).tail, ?_, fun rest => ?_⟩
      · simp [quoteRune, paragraph, unicodeEscape, paragraphSeparator, lineSeparator]
      · rw [unquoteItem_unicodeEscape (by decide) (by decide), paragraph]
        rfl
    rcases Utf8.nextRune_append genuine rfl [] with ⟨first, tail, equal, _⟩
    change bytes = first :: tail at equal
    have plain := large_plain (multibyte_large genuine first (by simp [equal]))
    refine ⟨first, tail, by rw [quoteRune, if_neg line, if_neg paragraph, equal], ?_⟩
    intro rest
    rcases Utf8.nextRune_append genuine rfl rest with ⟨first', tail', equal', split⟩
    change bytes = first' :: tail' at equal'
    rw [equal] at equal'
    cases equal'
    simp [unquoteItem, plain.1, split]

private theorem unquote_flatMap {runes : List Rune} (genuine : ∀ rune ∈ runes, rune.Genuine) :
    unquote (runes.flatMap quoteRune) = runes.flatMap Rune.coerce := by
  induction runes with
  | nil => rfl
  | cons rune rest induction =>
    rcases unquoteItem_quoteRune (genuine rune (by simp)) with ⟨first, tail, equal, item⟩
    rw [flatMap_cons, equal, cons_append, unquote_cons, item,
      induction (fun other member => genuine other (by simp [member])), flatMap_cons]

theorem unquote_quote (text : Bytes) : unquote (quote text) = Utf8.coerce text :=
  unquote_flatMap (Utf8.runes_genuine text)

theorem unquote_quote_of_valid {text : Bytes} (valid : Utf8.valid text = true) :
    unquote (quote text) = text := by
  rw [unquote_quote, Utf8.coerce_of_valid valid]

theorem valid_utf8Encode (small : code < 0x110000)
    (plain : isSurrogate code = false) : Utf8.valid (utf8Encode code) = true := by
  have plain : ¬(0xD800 ≤ code ∧ code < 0xE000) := by simpa [isSurrogate] using plain
  rw [utf8Encode]
  split_ifs with one two three
  · refine Utf8.valid_bytes (@Rune.Genuine.ascii (UInt8.ofNat code) ?_) rfl
    rw [UInt8.lt_iff_toNat_lt, UInt8.toNat_ofNat']
    simp
    omega
  · refine Utf8.valid_bytes (.two ?_) rfl
    simp only [Utf8.wellFormed2, Utf8.isContinuation, Bool.and_eq_true, decide_eq_true_eq,
      UInt8.le_iff_toNat_le, UInt8.toNat_ofNat']
    simp
    omega
  · refine Utf8.valid_bytes (.three ?_) rfl
    simp only [Utf8.wellFormed3, Utf8.isContinuation, Bool.and_eq_true, Bool.or_eq_true,
      decide_eq_true_eq, beq_iff_eq, UInt8.le_iff_toNat_le, UInt8.toNat_ofNat', ← UInt8.toNat_inj]
    simp
    omega
  · refine Utf8.valid_bytes (.four ?_) rfl
    simp only [Utf8.wellFormed4, Utf8.isContinuation, Bool.and_eq_true, Bool.or_eq_true,
      decide_eq_true_eq, beq_iff_eq, UInt8.le_iff_toNat_le, UInt8.toNat_ofNat', ← UInt8.toNat_inj]
    simp
    omega

private theorem hexValue_lt (byte : UInt8) : (hexValue byte).getD 0 < 16 := by
  revert byte
  decide +kernel

private theorem hex4_lt (first second third fourth : UInt8) :
    hex4 first second third fourth < 65536 := by
  have bounds := And.intro (And.intro (hexValue_lt first) (hexValue_lt second))
    (And.intro (hexValue_lt third) (hexValue_lt fourth))
  simp only [hex4]
  omega

private theorem stringRun_unicode {remaining : Nat} {text : Bytes}
    (run : stringRun (.unicode remaining) text = some .plain) :
    ∃ digits rest, text = digits ++ rest ∧ digits.length = remaining + 1 ∧ RawString rest := by
  induction remaining generalizing text with
  | zero =>
    rcases text with _ | ⟨digit, rest⟩
    · cases run
    · by_cases hex : isHex digit = true
      · refine ⟨[digit], rest, rfl, rfl, ?_⟩
        simpa [RawString, stringRun, stringStep, hex] using run
      · simp [stringRun, stringStep, hex] at run
  | succ remaining induction =>
    rcases text with _ | ⟨digit, rest⟩
    · cases run
    · by_cases hex : isHex digit = true
      · simp only [stringRun, stringStep, hex, if_true, Option.bind_some] at run
        rcases induction run with ⟨digits, others, rfl, length, raw⟩
        exact ⟨digit :: digits, others, rfl, by simp [length], raw⟩
      · simp [stringRun, stringStep, hex] at run

private theorem rawString_of_unicode {rest : Bytes} (raw : RawString (0x5C :: 0x75 :: rest)) :
    ∃ first second third fourth others,
      rest = first :: second :: third :: fourth :: others ∧ RawString others := by
  have run : stringRun (.unicode 3) rest = some .plain := raw
  rcases stringRun_unicode run with ⟨digits, others, rfl, length, remaining⟩
  rcases digits with _ | ⟨first, _ | ⟨second, _ | ⟨third, _ | ⟨fourth, _ | ⟨fifth, more⟩⟩⟩⟩⟩
  all_goals simp at length
  exact ⟨first, second, third, fourth, others, rfl, remaining⟩

private theorem surrogatePair_bounds {high low pair : Nat}
    (found : surrogatePair high low = some pair) : 0x10000 ≤ pair ∧ pair < 0x110000 := by
  simp only [surrogatePair, Option.ite_none_right_eq_some, Option.some.injEq] at found
  omega

private theorem valid_replacement : Utf8.valid Rune.replacement = true :=
  Utf8.valid_bytes Utf8.replacementRune_genuine rfl

private theorem unquoteUnicode_sound (small : code < 65536) {rest : Bytes}
    (raw : RawString rest) : Utf8.valid (unquoteUnicode code rest).1 = true ∧
      RawString (unquoteUnicode code rest).2 := by
  unfold unquoteUnicode
  split
  · split
    · rename_i backslash letter first second third fourth others
      split
      · rename_i escape
        split
        · rename_i pair found
          have bounds := surrogatePair_bounds found
          have plain : isSurrogate pair = false := by
            rw [isSurrogate, decide_eq_false (show ¬pair < 0xE000 by omega), Bool.and_false]
          refine ⟨valid_utf8Encode bounds.2 plain, ?_⟩
          rw [escape.1, escape.2] at raw
          rcases rawString_of_unicode raw with ⟨_, _, _, _, _, equal, remaining⟩
          cases equal
          exact remaining
        · exact ⟨valid_replacement, raw⟩
      · exact ⟨valid_replacement, raw⟩
    · exact ⟨valid_replacement, raw⟩
  · rename_i plain
    exact ⟨valid_utf8Encode (by omega) (by simpa using plain), raw⟩

private theorem valid_unescape : ∀ letter : UInt8, isSimpleEscape letter = true →
    unescape letter < 0x80 := by
  decide +kernel

private theorem stringStep_plain {first : UInt8} {rest : Bytes} (plain : first ≠ 0x5C)
    (raw : RawString (first :: rest)) : stringStep .plain first = some .plain := by
  simp only [RawString, stringRun, stringStep, if_neg plain] at raw ⊢
  split_ifs at raw ⊢
  · cases raw
  · cases raw
  · rfl

private theorem stringRun_plain {text : Bytes}
    (steps : ∀ byte ∈ text, stringStep .plain byte = some .plain) :
    stringRun .plain text = some .plain := by
  induction text with
  | nil => rfl
  | cons byte rest induction =>
    rw [forall_mem_cons] at steps
    rw [stringRun, steps.1, Option.bind_some, induction steps.2]

private theorem unquoteItem_sound {first : UInt8} {rest : Bytes} (raw : RawString (first :: rest)) :
    Utf8.valid (unquoteItem first rest).1 = true ∧ RawString (unquoteItem first rest).2 := by
  unfold unquoteItem
  split
  · rename_i escape
    subst escape
    rcases rest with _ | ⟨letter, rest⟩
    · simp [RawString, stringRun, stringStep] at raw
    simp only [unquoteEscape]
    split
    · rename_i unicode
      subst unicode
      rcases rawString_of_unicode raw with ⟨first, second, third, fourth, others, rfl, remaining⟩
      exact unquoteUnicode_sound (hex4_lt first second third fourth) remaining
    · rename_i simple
      have escaped : isSimpleEscape letter = true := by
        by_contra other
        simp [RawString, stringRun, stringStep, simple, other] at raw
      refine ⟨Utf8.valid_of_ascii (by simpa using valid_unescape letter escaped), ?_⟩
      simpa [RawString, stringRun, stringStep, simple, escaped] using raw
  · rename_i plain
    refine ⟨Utf8.valid_nextRune first rest, ?_⟩
    -- The bytes of the rune are plain ones, so that the rest is a literal of its own.
    have divided := Utf8.nextRune_bytes first rest
    have genuine := Utf8.nextRune_genuine first rest
    generalize Utf8.nextRune first rest = next at divided genuine
    rcases next with ⟨rune, remaining⟩
    have steps : ∀ byte ∈ rune.bytes, stringStep .plain byte = some .plain := by
      cases genuine with
      | ascii small =>
        cases divided
        simp only [Rune.bytes, forall_mem_cons]
        exact ⟨stringStep_plain plain raw, by simp⟩
      | two formed => exact fun byte inside => (large_plain (multibyte_large (.two formed) byte inside)).2
      | three formed =>
        exact fun byte inside => (large_plain (multibyte_large (.three formed) byte inside)).2
      | four formed =>
        exact fun byte inside => (large_plain (multibyte_large (.four formed) byte inside)).2
      | invalid large =>
        simp only [Rune.bytes, forall_mem_cons]
        exact ⟨(large_plain (not_lt.mp large)).2, by simp⟩
    rw [← divided, RawString, stringRun_append, stringRun_plain steps] at raw
    exact raw

theorem valid_unquote {raw : Bytes} (literal : RawString raw) : Utf8.valid (unquote raw) = true := by
  induction length : raw.length using Nat.strong_induction_on generalizing raw with
  | _ bound induction =>
    rcases raw with _ | ⟨first, rest⟩
    · rfl
    rcases unquoteItem_sound literal with ⟨valid, remaining⟩
    have shorter := unquoteItem_rest_length first rest
    rw [unquote_cons]
    refine Utf8.valid_append valid (induction _ ?_ remaining rfl)
    rw [← length, length_cons]
    omega

private theorem replacementRune_shorter :
    (quoteRune Utf8.replacementRune).length < (unicodeEscape 0xFFFD).length := by
  decide

private theorem quoteRune_length_le (rune : Rune) :
    (quoteRune (Utf8.coerceRune rune)).length ≤ (quoteRune rune).length := by
  cases rune with
  | invalid byte => exact replacementRune_shorter.le
  | _ => exact Nat.le_refl _

theorem valid_of_quote_coerce {text : Bytes} (equal : quote (Utf8.coerce text) = quote text) :
    Utf8.valid text = true := by
  have lengths (runes : List Rune) :
      ((runes.map Utf8.coerceRune).flatMap quoteRune).length ≤ (runes.flatMap quoteRune).length ∧
        (((runes.map Utf8.coerceRune).flatMap quoteRune).length =
          (runes.flatMap quoteRune).length → runes.all Rune.isValid = true) := by
    induction runes with
    | nil => simp
    | cons rune rest induction =>
      have head := quoteRune_length_le rune
      simp only [map_cons, flatMap_cons, length_append, all_cons, Bool.and_eq_true]
      refine ⟨by omega, fun same => ⟨?_, induction.2 (by omega)⟩⟩
      cases rune with
      | invalid byte =>
        have shorter : (quoteRune (Utf8.coerceRune (.invalid byte))).length <
            (quoteRune (.invalid byte)).length := replacementRune_shorter
        omega
      | _ => rfl
  refine (lengths (Utf8.runes text)).2 ?_
  rw [quote, Utf8.runes_coerce] at equal
  exact congrArg length equal

theorem valid_of_quote_eq {left right : Bytes} (rightValid : Utf8.valid right = true)
    (equal : quote left = quote right) : Utf8.valid left = true := by
  apply valid_of_quote_coerce
  have same : Utf8.coerce left = right := by
    rw [← unquote_quote, equal, unquote_quote_of_valid rightValid]
  rw [same, equal]

private theorem hexDigit_isHex {value : Nat} (bound : value < 16) :
    isHex (hexDigit value) = true := by
  simp [isHex, hexValue_hexDigit bound]

theorem rawString_unicodeEscape (code : Nat) : RawString (unicodeEscape code) := by
  have digit (value : Nat) : isHex (hexDigit (value % 16)) = true :=
    hexDigit_isHex (Nat.mod_lt _ (by decide))
  simp [RawString, unicodeEscape, stringRun, stringStep, digit]

private theorem rawString_large {bytes : Bytes} (large : ∀ byte ∈ bytes, 0x80 ≤ byte) :
    RawString bytes := by
  induction bytes with
  | nil => rfl
  | cons byte rest induction =>
    have plain := large_plain (large byte (by simp))
    have others := induction (fun other member => large other (by simp [member]))
    simp only [RawString, stringRun, plain.2, Option.bind_some] at others ⊢
    exact others

private theorem rawString_quoteByte (byte : UInt8) : RawString (quoteByte byte) := by
  unfold quoteByte
  cases escaped : escapeLetter byte with
  | some letter =>
    have spec := escapeLetter_spec escaped
    simp [RawString, stringRun, stringStep, spec.1, spec.2.2]
  | none =>
    dsimp only
    split
    · exact rawString_unicodeEscape _
    · rename_i plain
      have notEscape := escapeLetter_none escaped
      have control : ¬byte < 0x20 := by
        intro low
        simp [low] at plain
      simp [RawString, stringRun, stringStep, notEscape.1, notEscape.2, control]

theorem rawString_quoteRune {rune : Rune} (genuine : rune.Genuine) :
    RawString (quoteRune rune) := by
  cases rune with
  | ascii byte => exact rawString_quoteByte byte
  | invalid byte => exact rawString_unicodeEscape _
  | multibyte bytes =>
    simp only [quoteRune]
    split
    · exact rawString_unicodeEscape _
    split
    · exact rawString_unicodeEscape _
    · exact rawString_large (multibyte_large genuine)

theorem rawString_quote (text : Bytes) : RawString (quote text) := by
  have all (runes : List Rune) (genuine : ∀ rune ∈ runes, rune.Genuine) :
      RawString (runes.flatMap quoteRune) := by
    induction runes with
    | nil => rfl
    | cons rune rest induction =>
      rw [flatMap_cons]
      exact rawString_append (rawString_quoteRune (genuine rune (by simp)))
        (induction fun other member => genuine other (by simp [member]))
  exact all _ (Utf8.runes_genuine text)

end TelemetryForge.Json
