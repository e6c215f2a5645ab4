import TelemetryForge.Json.Quote
import TelemetryForge.Json.Read
import TelemetryForge.Foundation.Rfc3339
import TelemetryForge.Foundation.SortedMap

/-! # Structs as JSON objects

A Go struct is written as an object with one member for each field, and decoded by visiting the
members of an object in order: each key selects a field, without regard to case, and sets it. -/

namespace TelemetryForge.Json

open List Option

/-- Keys are compared by their folded form. Besides the ASCII letters only the
Kelvin sign and the long s fold to a letter of a field name. -/
def foldName : Bytes → Bytes
  | [] => []
  | first :: second :: third :: rest =>
    if [first, second, third] = [0xE2, 0x84, 0xAA] then 0x6B :: foldName rest
    else if [first, second] = [0xC5, 0xBF] then 0x73 :: foldName (third :: rest)
    else lowercase [first] ++ foldName (second :: third :: rest)
  | [first, second] =>
    if [first, second] = [0xC5, 0xBF] then [0x73] else lowercase [first, second]
  | [first] => lowercase [first]

class FieldNames (φ : Type) where
  all : List φ
  name : φ → Bytes
  selects : ∀ field,
    all.find? (fun other => name other == foldName (unquote (name field))) = some field
  literal : ∀ field, RawString (name field)

section Fields

variable {φ : Type} [FieldNames φ] {α β : Type}

def selectField (key : Bytes) : Option φ :=
  FieldNames.all.find? fun field => FieldNames.name field == foldName key

@[simp] theorem selectField_name (field : φ) :
    selectField (unquote (FieldNames.name field)) = some field :=
  FieldNames.selects field

def selectFields (strict : Bool) : List (Bytes × β) → Option (List (φ × β))
  | [] => some []
  | (raw, value) :: rest =>
    match selectField (unquote raw) with
    | some field => (selectFields strict rest).map ((field, value) :: ·)
    | none => if strict then none else selectFields strict rest

theorem selectFields_named (strict : Bool) (fields : List (φ × β)) :
    selectFields strict (fields.map fun entry => (FieldNames.name entry.1, entry.2)) =
      some fields := by
  induction fields with
  | nil => rfl
  | cons entry rest induction => simp [selectFields, induction]

theorem selectFields_map {γ : Type} (strict : Bool) (f : β → γ) (members : List (Bytes × β)) :
    selectFields strict (members.map fun member => (member.1, f member.2)) =
      (selectFields strict members).map (List.map fun entry : φ × β => (entry.1, f entry.2)) := by
  induction members with
  | nil => rfl
  | cons member rest induction =>
    simp only [List.map_cons, selectFields, induction]
    cases selectField (φ := φ) (unquote member.1) with
    | none => cases strict <;> rfl
    | some field => simp [Option.map_map, Function.comp_def]

/-- The fields a value sets, in order: those of an object, or none for `null`. -/
def structFields (tokenOf : α → Token) (strict : Bool) (value : List α) :
    Option (List (φ × List α)) :=
  if value.map tokenOf = [.null] then some []
  else (takeObject tokenOf maxNestingDepth value).bind (selectFields strict)

def structTokens (fields : List (φ × List Token)) : List Token :=
  objectTokens (fields.map fun entry => (FieldNames.name entry.1, entry.2))

theorem structFields_map (tokenOf : α → Token) (f : β → α) (strict : Bool) (value : List β) :
    structFields (φ := φ) tokenOf strict (value.map f) =
      (structFields (tokenOf ∘ f) strict value).map
        (List.map fun entry => (entry.1, entry.2.map f)) := by
  simp only [structFields, List.map_map, takeObject_map]
  split
  · rfl
  · cases takeObject (tokenOf ∘ f) maxNestingDepth value with
    | none => rfl
    | some members => simp [selectFields_map]

theorem objectTokens_ne_null (members : List (Bytes × List Token)) :
    objectTokens members ≠ [.null] := by
  cases members <;> simp [objectTokens]

variable {limit : Nat}

theorem takeObject_structTokens {fields : List (φ × List Token)}
    (written : ∀ entry ∈ fields, Written limit entry.2) :
    takeObject id limit (structTokens fields) =
      some (fields.map fun entry => (FieldNames.name entry.1, entry.2)) := by
  apply takeObject_objectTokens
  intro member inside
  simp only [List.mem_map] at inside
  rcases inside with ⟨entry, inside, rfl⟩
  exact (written entry inside).value

theorem structFields_structTokens (strict : Bool) {fields : List (φ × List Token)}
    (written : ∀ entry ∈ fields, Written maxNestingDepth entry.2) :
    structFields id strict (structTokens fields) = some fields := by
  have object : structTokens fields ≠ [.null] := objectTokens_ne_null _
  rw [structFields, List.map_id, if_neg object, takeObject_structTokens written]
  exact selectFields_named strict fields

def decodeStruct {σ : Type} (tokenOf : α → Token) (set : σ → φ → List α → Option σ)
    (strict : Bool) (initial : σ) (value : List α) : Option σ :=
  (structFields tokenOf strict value).bind fun fields =>
    fields.foldlM (fun state entry => set state entry.1 entry.2) initial

theorem decodeStruct_bare {σ : Type} (set : σ → φ → List Lexeme → Option σ) (strict : Bool)
    (initial : σ) {fields : List (φ × List Token)}
    (written : ∀ entry ∈ fields, Written maxNestingDepth entry.2) :
    decodeStruct Lexeme.token set strict initial (bare (structTokens fields)) =
      fields.foldlM (fun state entry => set state entry.1 (bare entry.2)) initial := by
  have same : Lexeme.token ∘ (fun token => (⟨[], token⟩ : Lexeme)) = id := rfl
  rw [decodeStruct, bare, structFields_map, same, structFields_structTokens strict written]
  simp only [map_some, bind_some, foldlM_map]
  rfl

theorem decodeStruct_tokens {σ : Type} (set : σ → φ → List Token → Option σ) (strict : Bool)
    (initial : σ) {fields : List (φ × List Token)}
    (written : ∀ entry ∈ fields, Written maxNestingDepth entry.2) :
    decodeStruct id set strict initial (structTokens fields) =
      fields.foldlM (fun state entry => set state entry.1 entry.2) initial := by
  rw [decodeStruct, structFields_structTokens strict written, bind_some]

theorem selectFields_values {strict : Bool} {members : List (Bytes × β)}
    {fields : List (φ × β)} (selected : selectFields strict members = some fields) :
    ∀ entry ∈ fields, ∃ member ∈ members, member.2 = entry.2 := by
  induction members generalizing fields with
  | nil =>
    cases selected
    simp
  | cons member rest induction =>
    rw [selectFields] at selected
    split at selected
    · simp only [map_eq_some_iff] at selected
      rcases selected with ⟨others, inner, rfl⟩
      rw [forall_mem_cons]
      refine ⟨⟨_, mem_cons_self, rfl⟩, fun entry inside => ?_⟩
      rcases induction inner entry inside with ⟨other, listed, same⟩
      exact ⟨other, mem_cons_of_mem _ listed, same⟩
    · split at selected
      · cases selected
      · intro entry inside
        rcases induction selected entry inside with ⟨other, listed, same⟩
        exact ⟨other, mem_cons_of_mem _ listed, same⟩

theorem decodeStruct_invariant {σ : Type} {tokenOf : α → Token} {set : σ → φ → List α → Option σ}
    {strict : Bool} {initial result : σ} {value : List α} (property : σ → Prop)
    (decoded : decodeStruct tokenOf set strict initial value = some result)
    (initially : property initial)
    (step : ∀ state field entries next, (∀ entry ∈ entries, entry ∈ value) → property state →
      set state field entries = some next → property next) : property result := by
  simp only [decodeStruct, bind_eq_some_iff] at decoded
  rcases decoded with ⟨fields, found, folded⟩
  have inside : ∀ field ∈ fields, ∀ entry ∈ field.2, entry ∈ value := by
    rw [structFields] at found
    split at found
    · cases found
      simp
    · simp only [bind_eq_some_iff] at found
      rcases found with ⟨members, taken, selected⟩
      intro field listed entry included
      rcases selectFields_values selected field listed with ⟨member, listed, same⟩
      exact takeObject_subset tokenOf taken member listed entry (same ▸ included)
  clear found
  induction fields generalizing initial with
  | nil =>
    cases folded
    exact initially
  | cons field rest induction =>
    rw [forall_mem_cons] at inside
    simp only [foldlM_cons, bind, bind_eq_some_iff] at folded
    rcases folded with ⟨next, set, folded⟩
    exact induction (step _ _ _ _ inside.1 initially set) folded inside.2

def optionalField (present : Bool) (field : φ) (tokens : List Token) : List (φ × List Token) :=
  if present then [(field, tokens)] else []

omit [FieldNames φ] in
@[simp] theorem forall_mem_optionalField {present : Bool} {field : φ} {tokens : List Token}
    {property : φ × List Token → Prop} :
    (∀ entry ∈ optionalField present field tokens, property entry) ↔
      (present = true → property (field, tokens)) := by
  cases present <;> simp [optionalField]

omit [FieldNames φ] in
theorem foldlM_optionalField {σ : Type} {set : σ → φ × List Token → Option σ} {present : Bool}
    {field : φ} {tokens : List Token} {state next : σ}
    (written : present = true → set state (field, tokens) = some next)
    (omitted : present = false → next = state) :
    (optionalField present field tokens).foldlM set state = some next := by
  cases present with
  | true => simp [optionalField, written rfl]
  | false => simp [optionalField, omitted rfl]

theorem structTokens_injective {left right : List (φ × List Token)}
    (leftWritten : ∀ entry ∈ left, Written limit entry.2)
    (rightWritten : ∀ entry ∈ right, Written limit entry.2)
    (equal : structTokens left = structTokens right) : left = right := by
  have members := takeObject_structTokens leftWritten
  rw [equal, takeObject_structTokens rightWritten, some.injEq] at members
  have fields := congrArg (@selectFields φ _ _ true) members
  simpa only [selectFields_named, some.injEq] using fields.symm

def fieldTokens [DecidableEq φ] (field : φ) (fields : List (φ × List Token)) :
    Option (List Token) :=
  (fields.find? fun entry => entry.1 = field).map Prod.snd

section FieldTokens

variable [DecidableEq φ]

section

omit [FieldNames φ]

@[simp] theorem fieldTokens_nil (field : φ) : fieldTokens field [] = none := rfl

@[simp] theorem fieldTokens_cons (field other : φ) (tokens : List Token)
    (rest : List (φ × List Token)) :
    fieldTokens field ((other, tokens) :: rest) =
      if other = field then some tokens else fieldTokens field rest := by
  by_cases same : other = field <;> simp [fieldTokens, same]

@[simp] theorem fieldTokens_optionalField (field other : φ) (present : Bool)
    (tokens : List Token) (rest : List (φ × List Token)) :
    fieldTokens field (optionalField present other tokens ++ rest) =
      if present = true ∧ other = field then some tokens else fieldTokens field rest := by
  cases present <;> simp [optionalField]

@[simp] theorem fieldTokens_optionalField_last (field other : φ) (present : Bool)
    (tokens : List Token) :
    fieldTokens field (optionalField present other tokens) =
      if present = true ∧ other = field then some tokens else none := by
  cases present <;> simp [optionalField]

end

end FieldTokens

theorem written_structTokens {fields : List (φ × List Token)}
    (written : ∀ entry ∈ fields, Written limit entry.2) :
    Written (limit + 1) (structTokens fields) := by
  apply written_objectTokens
  intro member inside
  simp only [List.mem_map] at inside
  rcases inside with ⟨entry, inside, rfl⟩
  exact ⟨FieldNames.literal entry.1, written entry inside⟩

theorem isValue_of_structTokens (limit' : Nat) {fields : List (φ × List Token)}
    (values : ∀ entry ∈ fields, IsValue limit' entry.2)
    (object : IsValue (limit + 1) (structTokens fields)) :
    ∀ entry ∈ fields, IsValue limit entry.2 := by
  intro entry inside
  have members := isValue_of_objectTokens limit' (by
    intro member inside
    simp only [List.mem_map] at inside
    rcases inside with ⟨entry, inside, rfl⟩
    exact values entry inside) object
  exact members (FieldNames.name entry.1, entry.2) (List.mem_map_of_mem inside)

end Fields

def decodeString (current : Bytes) : List Token → Option Bytes
  | [.string raw] => some (unquote raw)
  | [.null] => some current
  | _ => none

def parseUint64 (literal : Bytes) : Option Nat :=
  (parseDecimal literal).bind fun value => if value < 2 ^ 64 then some value else none

def decodeUint64 (current : Nat) : List Token → Option Nat
  | [.number literal] => parseUint64 literal
  | [.null] => some current
  | _ => none

def intText (value : Int) : Bytes :=
  if value < 0 then 0x2D :: decimal value.natAbs else decimal value.natAbs

def parseInt64 (literal : Bytes) : Option Int :=
  match literal with
  | 0x2D :: digits =>
    (parseDecimal digits).bind fun value =>
      if value ≤ 2 ^ 63 then some (-(value : Int)) else none
  | digits =>
    (parseDecimal digits).bind fun value =>
      if value < 2 ^ 63 then some (value : Int) else none

def decodeInt (current : Int) : List Token → Option Int
  | [.number literal] => parseInt64 literal
  | [.null] => some current
  | _ => none

def stringTokens (text : Bytes) : List Token := [.string (quote text)]

def natTokens (value : Nat) : List Token := [.number (decimal value)]

def intTokens (value : Int) : List Token := [.number (intText value)]

theorem decodeString_valid {current text : Bytes} {tokens : List Token}
    (decoded : decodeString current tokens = some text)
    (formed : ∀ token ∈ tokens, token.WellFormed) (valid : Utf8.valid current = true) :
    Utf8.valid text = true := by
  unfold decodeString at decoded
  split at decoded
  · rename_i raw
    cases decoded
    exact valid_unquote (formed (.string raw) (by simp))
  · cases decoded
    exact valid
  · cases decoded

@[simp] theorem decodeString_stringTokens (current text : Bytes) :
    decodeString current (stringTokens text) = some (Utf8.coerce text) := by
  simp [decodeString, stringTokens, unquote_quote]

@[simp] theorem decodeUint64_natTokens (current value : Nat) :
    decodeUint64 current (natTokens value) = if value < 2 ^ 64 then some value else none := by
  simp [decodeUint64, natTokens, parseUint64, parseDecimal_decimal]

theorem decodeInt_intTokens (current : Int) {value : Int} (nonnegative : 0 ≤ value)
    (bound : value < 2 ^ 63) : decodeInt current (intTokens value) = some value := by
  have digits := decimal_all_digits value.natAbs
  have positive : ¬value < 0 := by omega
  have notMinus (rest : Bytes) : decimal value.natAbs ≠ 0x2D :: rest := by
    intro equal
    rw [equal, all_cons] at digits
    exact absurd digits (by simp [isDigit])
  simp only [decodeInt, intTokens, intText, if_neg positive, parseInt64]
  rw [parseDecimal_decimal, bind_some, if_pos (by omega)]
  simp only [some.injEq]
  omega

@[simp] theorem written_stringTokens (limit : Nat) (text : Bytes) :
    Written limit (stringTokens text) :=
  written_string limit (rawString_quote text)

@[simp] theorem written_natTokens (limit : Nat) (value : Nat) : Written limit (natTokens value) :=
  written_number limit (numberLiteral_decimal value)

theorem written_intTokens (limit : Nat) {value : Int} (nonnegative : 0 ≤ value) :
    Written limit (intTokens value) := by
  have positive : ¬value < 0 := by omega
  rw [intTokens, intText, if_neg positive]
  exact written_number limit (numberLiteral_decimal value.natAbs)

/-! ## Times, maps and numbers in JSON

Codecs for the remaining field types of the modelled structs. The decimal text of
a `float64` is a parameter: its two laws are all that the development uses. -/

def timeTokens (time : Time) : Option (List Token) :=
  time.marshal.map fun text => [.string text]

def decodeTime (current : Time) : List Token → Option Time
  | [.string raw] => Time.unmarshal raw
  | [.null] => some current
  | _ => none

theorem decodeTime_timeTokens {time : Time} {tokens : List Token}
    (written : timeTokens time = some tokens) (current : Time) :
    decodeTime current tokens = some time.reread := by
  simp only [timeTokens, map_eq_some_iff] at written
  rcases written with ⟨text, marshalled, rfl⟩
  exact Time.unmarshal_marshal marshalled

def isPlain (byte : UInt8) : Bool := 0x20 ≤ byte && byte != 0x22 && byte != 0x5C

theorem rawString_of_plain {text : Bytes} (plain : text.all isPlain = true) : RawString text := by
  induction text with
  | nil => rfl
  | cons byte rest induction =>
    simp only [all_cons, Bool.and_eq_true, isPlain, decide_eq_true_eq, bne_iff_ne] at plain
    have others := induction (by simpa [isPlain] using plain.2)
    have step : stringStep .plain byte = some .plain := by
      simp [stringStep, plain.1.2, plain.1.1.2, not_lt.mpr plain.1.1.1]
    simpa [RawString, stringRun, step] using others

private theorem isPlain_of_isDigit : ∀ byte : UInt8, isDigit byte = true → isPlain byte = true := by
  decide +kernel

theorem digits_plain {text : Bytes} (digits : text.all isDigit = true) :
    text.all isPlain = true := by
  rw [List.all_eq_true] at digits ⊢
  exact fun byte member => isPlain_of_isDigit byte (digits byte member)

theorem civilText_plain (civil : Civil) : civil.text.all isPlain = true :=
  civil.text_all isPlain_of_isDigit (by decide)

theorem zoneText_plain (offset : Int) : (zoneText offset).all isPlain = true := by
  unfold zoneText
  split
  · decide
  · simp only [all_cons, all_append, digits_plain (zeroPadded_all_digits _ _),
      digits_plain (paddedDecimal_all_digits _ _)]
    split <;> decide

theorem timeTokens_written (limit : Nat) {time : Time} {tokens : List Token}
    (encoded : timeTokens time = some tokens) : Written limit tokens := by
  simp only [timeTokens, map_eq_some_iff, Time.marshal, ite_none_right_eq_some] at encoded
  rcases encoded with ⟨text, ⟨_, equal⟩, rfl⟩
  cases equal
  apply written_string
  apply rawString_of_plain
  rw [all_append, civilText_plain, zoneText_plain]
  rfl

section Maps

variable {ν : Type}

def mapTokens (encode : ν → List Token) (map : SortedMap Bytes ν) : List Token :=
  objectTokens (map.entries.map fun entry => (quote entry.1, encode entry.2))

def setMember (decode : List Token → Option ν) (map : SortedMap Bytes ν)
    (member : Bytes × List Token) : Option (SortedMap Bytes ν) :=
  (decode member.2).map fun value => map.insert (unquote member.1) value

def decodeMap (decode : List Token → Option ν) (current : SortedMap Bytes ν)
    (value : List Token) : Option (SortedMap Bytes ν) :=
  if value = [.null] then some .empty
  else (takeObject id maxNestingDepth value).bind (List.foldlM (setMember decode) current)

theorem foldlM_setMember {decode : List Token → Option ν} {encode : ν → List Token}
    {reread : ν → ν} {entries : List (Bytes × ν)}
    (inverse : ∀ entry ∈ entries, decode (encode entry.2) = some (reread entry.2))
    (current : SortedMap Bytes ν) :
    (entries.map fun entry => (quote entry.1, encode entry.2)).foldlM (setMember decode) current =
      some (current.insertAll
        (entries.map fun entry => (Utf8.coerce entry.1, reread entry.2))) := by
  induction entries generalizing current with
  | nil => rfl
  | cons entry rest induction =>
    rw [forall_mem_cons] at inverse
    simp only [map_cons, foldlM_cons, setMember, inverse.1, map_some,
      unquote_quote, bind, bind_some]
    rw [induction inverse.2]
    rfl

theorem takeObject_mapTokens {encode : ν → List Token}
    (written : ∀ value, Written maxNestingDepth (encode value)) (map : SortedMap Bytes ν) :
    takeObject id maxNestingDepth (mapTokens encode map) =
      some (map.entries.map fun entry => (quote entry.1, encode entry.2)) := by
  apply takeObject_objectTokens
  intro member inside
  simp only [List.mem_map] at inside
  rcases inside with ⟨entry, _, rfl⟩
  exact (written entry.2).value

theorem decodeMap_mapTokens {decode : List Token → Option ν} {encode : ν → List Token}
    {reread : ν → ν} {map : SortedMap Bytes ν}
    (inverse : ∀ entry ∈ map.entries, decode (encode entry.2) = some (reread entry.2))
    (written : ∀ value, Written maxNestingDepth (encode value)) (current : SortedMap Bytes ν) :
    decodeMap decode current (mapTokens encode map) =
      some (current.insertAll
        (map.entries.map fun entry => (Utf8.coerce entry.1, reread entry.2))) := by
  have object : mapTokens encode map ≠ [.null] := objectTokens_ne_null _
  rw [decodeMap, if_neg object, takeObject_mapTokens written, bind_some, foldlM_setMember inverse]

theorem mapTokens_entries {encode : ν → List Token}
    (written : ∀ value, Written maxNestingDepth (encode value)) {left right : SortedMap Bytes ν}
    (equal : mapTokens encode left = mapTokens encode right) :
    (left.entries.map fun entry => (quote entry.1, encode entry.2)) =
      right.entries.map fun entry => (quote entry.1, encode entry.2) := by
  have members := takeObject_mapTokens written left
  rw [equal, takeObject_mapTokens written right, some.injEq] at members
  exact members.symm

theorem written_mapTokens {limit : Nat} {encode : ν → List Token}
    (written : ∀ value, Written limit (encode value)) (map : SortedMap Bytes ν) :
    Written (limit + 1) (mapTokens encode map) := by
  apply written_objectTokens
  intro member inside
  simp only [List.mem_map] at inside
  rcases inside with ⟨entry, _, rfl⟩
  exact ⟨rawString_quote entry.1, written entry.2⟩

end Maps

def isFinite (bits : UInt64) : Bool := bits.toNat / 2 ^ 52 % 2 ^ 11 != 2047

class FloatText where
  format : UInt64 → Bytes
  parse : Bytes → Option UInt64
  literal : ∀ bits, isFinite bits = true → NumberLiteral (format bits)
  parse_format : ∀ bits, isFinite bits = true → parse (format bits) = some bits

@[reducible] def FloatText.ofBits : FloatText where
  format bits := decimal bits.toNat
  parse text := (parseDecimal text).map UInt64.ofNat
  literal bits _ := numberLiteral_decimal bits.toNat
  parse_format bits _ := by simp [parseDecimal_decimal]

section Floats

variable [FloatText]

def floatTokens (bits : UInt64) : Option (List Token) :=
  if isFinite bits then some [.number (FloatText.format bits)] else none

def decodeFloat : List Token → Option (Option UInt64)
  | [.number literal] => (FloatText.parse literal).map some
  | [.null] => some none
  | _ => none

theorem decodeFloat_floatTokens {bits : UInt64} {tokens : List Token}
    (written : floatTokens bits = some tokens) : decodeFloat tokens = some (some bits) := by
  simp only [floatTokens, ite_none_right_eq_some, some.injEq] at written
  rcases written with ⟨finite, rfl⟩
  simp [decodeFloat, FloatText.parse_format bits finite]

theorem floatTokens_written (limit : Nat) {bits : UInt64} {tokens : List Token}
    (encoded : floatTokens bits = some tokens) : Written limit tokens := by
  simp only [floatTokens, ite_none_right_eq_some, some.injEq] at encoded
  rcases encoded with ⟨finite, rfl⟩
  exact written_number limit (FloatText.literal bits finite)

end Floats

end TelemetryForge.Json
