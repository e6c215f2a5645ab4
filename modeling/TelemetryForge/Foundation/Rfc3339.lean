import TelemetryForge.Foundation.Bytes

/-! # Timestamps

A `time.Time` as its calendar fields and its offset from UTC, which is how it is written in RFC
3339 text. -/

namespace TelemetryForge

structure Civil where
  year : Int
  month : Nat
  day : Nat
  hour : Nat
  minute : Nat
  second : Nat
  nanosecond : Nat
deriving DecidableEq, Repr

namespace Civil

def isLeap (year : Int) : Bool := year % 4 == 0 && (year % 100 != 0 || year % 400 == 0)

def daysIn (month : Nat) (year : Int) : Nat :=
  if month = 2 then if isLeap year then 29 else 28
  else if month = 4 ∨ month = 6 ∨ month = 9 ∨ month = 11 then 30
  else 31

structure Valid (civil : Civil) : Prop where
  month : 1 ≤ civil.month ∧ civil.month ≤ 12
  day : 1 ≤ civil.day ∧ civil.day ≤ daysIn civil.month civil.year
  hour : civil.hour < 24
  minute : civil.minute < 60
  second : civil.second < 60
  nanosecond : civil.nanosecond < 10 ^ 9

instance (civil : Civil) : Decidable civil.Valid :=
  decidable_of_iff
    ((1 ≤ civil.month ∧ civil.month ≤ 12) ∧
      (1 ≤ civil.day ∧ civil.day ≤ daysIn civil.month civil.year) ∧ civil.hour < 24 ∧
      civil.minute < 60 ∧ civil.second < 60 ∧ civil.nanosecond < 10 ^ 9)
    ⟨fun ⟨month, day, hour, minute, second, nanosecond⟩ =>
        ⟨month, day, hour, minute, second, nanosecond⟩,
      fun valid => ⟨valid.month, valid.day, valid.hour, valid.minute, valid.second,
        valid.nanosecond⟩⟩

theorem day_lt (civil : Civil) (valid : civil.Valid) : civil.day < 100 := by
  have bound := valid.day.2
  have days : daysIn civil.month civil.year ≤ 31 := by
    unfold daysIn
    repeat' split
    all_goals omega
  omega

/-- Days since 0000-03-01. Years are counted from March, so that a leap day is the
last day of its year, and grouped by four, a hundred and four hundred. -/
def days (civil : Civil) : Int :=
  let year := if civil.month ≤ 2 then civil.year - 1 else civil.year
  let monthOfYear : Int := (civil.month + 9) % 12
  year / 400 * 146097 + year % 400 / 100 * 36524 + year % 100 / 4 * 1461 + year % 4 * 365 +
    ((153 * monthOfYear + 2) / 5 + (civil.day - 1))

def secondOfDay (civil : Civil) : Int :=
  civil.hour * 3600 + civil.minute * 60 + civil.second

def ofSeconds (total : Int) (nanosecond : Nat) : Civil :=
  let day := total / 86400
  let inDay := (total % 86400).toNat
  let dayOfEra := day % 146097
  let century := min (dayOfEra / 36524) 3
  let dayOfCentury := dayOfEra - century * 36524
  let group := dayOfCentury / 1461
  let dayOfGroup := dayOfCentury - group * 1461
  let yearOfGroup := min (dayOfGroup / 365) 3
  let dayOfYear := dayOfGroup - yearOfGroup * 365
  let monthOfYear := (5 * dayOfYear + 2) / 153
  let month := if monthOfYear < 10 then monthOfYear + 3 else monthOfYear - 9
  let year := day / 146097 * 400 + century * 100 + group * 4 + yearOfGroup
  { year := if month ≤ 2 then year + 1 else year
    month := month.toNat
    day := (dayOfYear - (153 * monthOfYear + 2) / 5 + 1).toNat
    hour := inDay / 3600
    minute := inDay / 60 % 60
    second := inDay % 60
    nanosecond := nanosecond }

structure Printable (civil : Civil) : Prop where
  month : civil.month < 100
  day : civil.day < 100
  hour : civil.hour < 100
  minute : civil.minute < 100
  second : civil.second < 100
  nanosecond : civil.nanosecond < 10 ^ 9

theorem Valid.printable {civil : Civil} (valid : civil.Valid) : civil.Printable := by
  have day := civil.day_lt valid
  rcases valid with ⟨month, _, hour, minute, second, nanosecond⟩
  exact ⟨by omega, day, by omega, by omega, by omega, nanosecond⟩

theorem ofSeconds_printable (total : Int) {nanosecond : Nat} (bound : nanosecond < 10 ^ 9) :
    (ofSeconds total nanosecond).Printable := by
  refine ⟨?_, ?_, ?_, ?_, ?_, bound⟩ <;> simp only [ofSeconds]
  · split <;> omega
  · omega
  · omega
  · omega
  · omega

def shift (civil : Civil) (offset : Int) : Civil :=
  ofSeconds (civil.days * 86400 + civil.secondOfDay - offset) civil.nanosecond

end Civil

structure Time where
  civil : Civil
  offset : Int
  valid : civil.Valid
deriving DecidableEq

namespace Time

def utc (time : Time) : Civil :=
  if time.offset = 0 then time.civil else time.civil.shift time.offset

def zeroCivil : Civil := ⟨1, 1, 1, 0, 0, 0, 0⟩

def zero : Time := ⟨zeroCivil, 0, by decide⟩

def isZero (time : Time) : Bool := time.utc == zeroCivil

end Time

/-! ## RFC 3339 text

`Time.MarshalJSON` writes nanoseconds without trailing zeros and an offset in whole
minutes; `Time.UnmarshalJSON` reads that and, as `time.Parse` does, a one-digit
hour, a comma before the fraction and offsets up to 24:60. -/

open List Option

def trimZeros (digits : Bytes) : Bytes :=
  (digits.reverse.dropWhile (· == 0x30)).reverse

def fractionText (nanosecond : Nat) : Bytes :=
  if nanosecond = 0 then [] else 0x2E :: trimZeros (paddedDecimal 9 nanosecond)

def yearText (year : Int) : Bytes :=
  if year < 0 then 0x2D :: zeroPadded 4 year.natAbs else zeroPadded 4 year.natAbs

def Civil.clockText (civil : Civil) : Bytes :=
  paddedDecimal 2 civil.hour ++ 0x3A :: (paddedDecimal 2 civil.minute ++
    0x3A :: (paddedDecimal 2 civil.second ++ fractionText civil.nanosecond))

def Civil.text (civil : Civil) : Bytes :=
  yearText civil.year ++ 0x2D :: (paddedDecimal 2 civil.month ++
    0x2D :: (paddedDecimal 2 civil.day ++ 0x54 :: civil.clockText))

def zoneMinutes (offset : Int) : Int := offset.tdiv 60

def zoneText (offset : Int) : Bytes :=
  if offset = 0 then [0x5A]
  else
    (if zoneMinutes offset < 0 then 0x2D else 0x2B) ::
      (zeroPadded 2 ((zoneMinutes offset).natAbs / 60) ++
        0x3A :: paddedDecimal 2 ((zoneMinutes offset).natAbs % 60))

def Civil.utcText (civil : Civil) : Bytes := civil.text ++ [0x5A]

def Time.Encodable (time : Time) : Prop :=
  0 ≤ time.civil.year ∧ time.civil.year ≤ 9999 ∧ (zoneMinutes time.offset).natAbs / 60 < 24

instance (time : Time) : Decidable time.Encodable :=
  inferInstanceAs (Decidable (_ ∧ _ ∧ _))

/-- `Time.MarshalJSON` without its quotation marks. -/
def Time.marshal (time : Time) : Option Bytes :=
  if time.Encodable then some (time.civil.text ++ zoneText time.offset) else none

/-- A reading of the clock in UTC, neither the zero time nor outside the years that
have RFC 3339 text. -/
structure Now where
  time : Time
  utc : time.offset = 0
  nonzero : time.isZero = false
  year : 0 ≤ time.civil.year ∧ time.civil.year ≤ 9999

theorem Now.encodable (now : Now) : now.time.Encodable := by
  refine ⟨now.year.1, now.year.2, ?_⟩
  rw [now.utc]
  decide

theorem trimZeros_append (digits : Bytes) :
    ∃ count, digits = trimZeros digits ++ List.replicate count 0x30 := by
  refine ⟨(digits.reverse.takeWhile (· == 0x30)).length, ?_⟩
  have zeros : digits.reverse.takeWhile (· == 0x30) =
      replicate (digits.reverse.takeWhile (· == 0x30)).length 0x30 := by
    apply eq_replicate_of_mem
    intro byte member
    have zero := mem_takeWhile_imp member
    simpa using zero
  have parts : digits.reverse.takeWhile (· == 0x30) ++ digits.reverse.dropWhile (· == 0x30) =
      digits.reverse := takeWhile_append_dropWhile
  have whole := congrArg reverse parts
  rw [reverse_append, reverse_reverse, zeros, reverse_replicate] at whole
  exact whole.symm

theorem trimZeros_all_digits {digits : Bytes} (all : digits.all isDigit = true) :
    (trimZeros digits).all isDigit = true := by
  rcases trimZeros_append digits with ⟨count, equal⟩
  rw [equal, all_append, Bool.and_eq_true] at all
  exact all.1

theorem Civil.text_all {accepts : UInt8 → Bool} (digits : ∀ byte, isDigit byte = true →
    accepts byte = true) (separators : [0x2D, 0x2E, 0x3A, 0x54].all accepts = true) (civil : Civil) :
    civil.text.all accepts = true := by
  have digitsOnly {text : Bytes} (all : text.all isDigit = true) : text.all accepts = true := by
    rw [List.all_eq_true] at all ⊢
    exact fun byte member => digits byte (all byte member)
  simp only [List.all_cons, List.all_nil, Bool.and_true, Bool.and_eq_true] at separators
  rcases separators with ⟨dash, dot, colon, letter⟩
  have padded (width value : Nat) := digitsOnly (paddedDecimal_all_digits width value)
  have year : (yearText civil.year).all accepts = true := by
    unfold yearText
    split
    · rw [List.all_cons, dash, digitsOnly (zeroPadded_all_digits _ _)]
      rfl
    · exact digitsOnly (zeroPadded_all_digits _ _)
  have fraction : (fractionText civil.nanosecond).all accepts = true := by
    unfold fractionText
    split
    · rfl
    · rw [List.all_cons, dot,
        digitsOnly (trimZeros_all_digits (paddedDecimal_all_digits 9 civil.nanosecond))]
      rfl
  simp only [Civil.text, Civil.clockText, List.all_append, List.all_cons, padded, year, fraction,
    dash, colon, letter, Bool.and_true]

theorem Civil.utcText_ascii (civil : Civil) : ∀ byte ∈ civil.utcText, byte < 0x80 := by
  have digits : ∀ byte : UInt8, isDigit byte = true → decide (byte < 0x80) = true := by
    decide +kernel
  have written := civil.text_all digits (by decide)
  intro byte member
  rcases mem_append.mp member with inside | zone
  · exact of_decide_eq_true (all_eq_true.mp written byte inside)
  · rw [mem_singleton.mp zone]
    decide

def takeDigits (width : Nat) (text : Bytes) : Option (Nat × Bytes) :=
  if (text.take width).length = width ∧ (text.take width).all isDigit then
    some (digitsValue (text.take width), text.drop width)
  else none

def takeByte (byte : UInt8) : Bytes → Option Bytes
  | [] => none
  | first :: rest => if first = byte then some rest else none

def takeHour (text : Bytes) : Option (Nat × Bytes) :=
  (takeDigits 2 text).orElse fun _ => takeDigits 1 text

def fractionValue (digits : Bytes) : Nat :=
  digitsValue ((digits ++ List.replicate 9 0x30).take 9)

def takeFraction : Bytes → Nat × Bytes
  | separator :: digit :: rest =>
    if (separator = 0x2E ∨ separator = 0x2C) ∧ isDigit digit then
      (fractionValue ((digit :: rest).takeWhile isDigit), (digit :: rest).dropWhile isDigit)
    else (0, separator :: digit :: rest)
  | text => (0, text)

def takeOffset (sign : UInt8) (text : Bytes) : Option Int := do
  let (hours, rest) ← takeDigits 2 text
  let rest ← takeByte 0x3A rest
  let (minutes, rest) ← takeDigits 2 rest
  if rest = [] ∧ hours ≤ 24 ∧ minutes ≤ 60 then
    if sign = 0x2B then some ((hours * 60 + minutes) * 60)
    else if sign = 0x2D then some (-((hours * 60 + minutes) * 60))
    else none
  else none

def takeZone : Bytes → Option Int
  | [] => none
  | sign :: text => if sign = 0x5A ∧ text = [] then some 0 else takeOffset sign text

def takeClock (text : Bytes) : Option ((Nat × Nat × Nat × Nat) × Bytes) := do
  let (hour, rest) ← takeHour text
  let rest ← takeByte 0x3A rest
  let (minute, rest) ← takeDigits 2 rest
  let rest ← takeByte 0x3A rest
  let (second, rest) ← takeDigits 2 rest
  let (nanosecond, rest) := takeFraction rest
  return ((hour, minute, second, nanosecond), rest)

def Time.unmarshal (text : Bytes) : Option Time := do
  let (year, rest) ← takeDigits 4 text
  let rest ← takeByte 0x2D rest
  let (month, rest) ← takeDigits 2 rest
  let rest ← takeByte 0x2D rest
  let (day, rest) ← takeDigits 2 rest
  let rest ← takeByte 0x54 rest
  let ((hour, minute, second, nanosecond), rest) ← takeClock rest
  let offset ← takeZone rest
  let civil : Civil := ⟨year, month, day, hour, minute, second, nanosecond⟩
  if valid : civil.Valid then some ⟨civil, offset, valid⟩ else none

def Time.reread (time : Time) : Time := { time with offset := zoneMinutes time.offset * 60 }

theorem takeDigits_append {width : Nat} {digits : Bytes} (length : digits.length = width)
    (all : digits.all isDigit = true) (rest : Bytes) :
    takeDigits width (digits ++ rest) = some (digitsValue digits, rest) := by
  subst length
  simp [takeDigits, all]

theorem takeDigits_padded {width value : Nat} (bound : value < 10 ^ width) (rest : Bytes) :
    takeDigits width (paddedDecimal width value ++ rest) = some (value, rest) := by
  rw [takeDigits_append (paddedDecimal_length _ _) (paddedDecimal_all_digits _ _),
    digitsValue_paddedDecimal bound]

theorem takeByte_cons (byte : UInt8) (rest : Bytes) : takeByte byte (byte :: rest) = some rest := by
  simp [takeByte]

variable {nanosecond : Nat}

theorem fractionValue_trimZeros (bound : nanosecond < 10 ^ 9) :
    fractionValue (trimZeros (paddedDecimal 9 nanosecond)) = nanosecond := by
  rcases trimZeros_append (paddedDecimal 9 nanosecond) with ⟨count, equal⟩
  have length := congrArg length equal
  rw [paddedDecimal_length, length_append, length_replicate] at length
  have short : count ≤ 9 := by omega
  have filled : trimZeros (paddedDecimal 9 nanosecond) ++ replicate 9 0x30 =
      paddedDecimal 9 nanosecond ++ replicate (9 - count) 0x30 := by
    conv_rhs => rw [equal]
    rw [append_assoc, replicate_append_replicate, Nat.add_sub_cancel' short]
  rw [fractionValue, filled, take_append_of_le_length (by simp)]
  rw [take_of_length_le (by simp), digitsValue_paddedDecimal bound]

theorem trimZeros_ne_nil (bound : nanosecond < 10 ^ 9)
    (nonzero : nanosecond ≠ 0) : trimZeros (paddedDecimal 9 nanosecond) ≠ [] := by
  intro empty
  have value := fractionValue_trimZeros bound
  rw [empty] at value
  exact nonzero (value.symm.trans (by decide))

theorem takeFraction_text (bound : nanosecond < 10 ^ 9) {first : UInt8}
    (rest : Bytes) (ends : isDigit first = false ∧ first ≠ 0x2E ∧ first ≠ 0x2C) :
    takeFraction (fractionText nanosecond ++ first :: rest) = (nanosecond, first :: rest) := by
  unfold fractionText
  split
  · rename_i zero
    subst zero
    cases rest <;> simp [takeFraction, ends.2.1, ends.2.2]
  · rename_i nonzero
    have all := trimZeros_all_digits (paddedDecimal_all_digits 9 nanosecond)
    have value := fractionValue_trimZeros bound
    cases digits : trimZeros (paddedDecimal 9 nanosecond) with
    | nil => exact absurd digits (trimZeros_ne_nil bound nonzero)
    | cons digit others =>
      rw [digits] at all value
      have every : ∀ byte ∈ digit :: others, isDigit byte = true := all_eq_true.mp all
      have taken : ((digit :: others) ++ first :: rest).takeWhile isDigit = digit :: others := by
        rw [takeWhile_append_of_pos every]
        simp [ends.1]
      have dropped : ((digit :: others) ++ first :: rest).dropWhile isDigit = first :: rest := by
        rw [dropWhile_append_of_pos every]
        simp [ends.1]
      simp only [cons_append] at taken dropped
      simp [takeFraction, every digit (by simp), taken, dropped, value]

theorem takeClock_text {civil : Civil} (printable : civil.Printable) {first : UInt8}
    (rest : Bytes) (ends : isDigit first = false ∧ first ≠ 0x2E ∧ first ≠ 0x2C) :
    takeClock (civil.clockText ++ first :: rest) =
      some ((civil.hour, civil.minute, civil.second, civil.nanosecond), first :: rest) := by
  simp only [takeClock, Civil.clockText, takeHour, append_assoc, cons_append,
    takeDigits_padded (show _ < 10 ^ 2 from printable.hour),
    takeDigits_padded (show _ < 10 ^ 2 from printable.minute),
    takeDigits_padded (show _ < 10 ^ 2 from printable.second),
    takeFraction_text printable.nanosecond rest ends, takeByte_cons, bind, pure,
    bind_some, orElse_some]

theorem zoneText_head (offset : Int) : ∃ first rest, zoneText offset = first :: rest ∧
    isDigit first = false ∧ first ≠ 0x2E ∧ first ≠ 0x2C := by
  unfold zoneText
  split
  · exact ⟨0x5A, [], rfl, by decide⟩
  · split
    · exact ⟨_, _, rfl, by decide⟩
    · exact ⟨_, _, rfl, by decide⟩

theorem takeZone_signed {hours minutes : Nat} (hoursBound : hours < 24)
    (minutesBound : minutes < 60) (sign : UInt8) :
    takeZone (sign :: (paddedDecimal 2 hours ++ 0x3A :: paddedDecimal 2 minutes)) =
      if sign = 0x2B then some ((hours * 60 + minutes) * 60 : Int)
      else if sign = 0x2D then some (-((hours * 60 + minutes) * 60) : Int)
      else none := by
  have minutesText := takeDigits_padded (show minutes < 10 ^ 2 by omega) []
  rw [append_nil] at minutesText
  have nonempty : paddedDecimal 2 hours ++ 0x3A :: paddedDecimal 2 minutes ≠ [] := by simp
  simp only [takeZone, nonempty, and_false, if_false, takeOffset, takeDigits_padded (show hours < 10 ^ 2 by omega),
    takeByte_cons, minutesText, bind, bind_some, true_and,
    show hours ≤ 24 by omega, show minutes ≤ 60 by omega, if_true]

theorem takeZone_zoneText {offset : Int} (bound : (zoneMinutes offset).natAbs / 60 < 24) :
    takeZone (zoneText offset) = some (zoneMinutes offset * 60) := by
  unfold zoneText
  split
  · rename_i zero
    simp [zero, takeZone, zoneMinutes]
  · have hours : zeroPadded 2 ((zoneMinutes offset).natAbs / 60) =
        paddedDecimal 2 ((zoneMinutes offset).natAbs / 60) :=
      zeroPadded_eq_paddedDecimal (by decide) (by omega)
    rw [hours, takeZone_signed bound (Nat.mod_lt _ (by decide))]
    split
    · rw [if_neg (by decide), if_pos rfl, some.injEq]
      omega
    · rw [if_pos rfl, some.injEq]
      omega

theorem yearText_eq_padded {year : Int} (low : 0 ≤ year) (high : year ≤ 9999) :
    yearText year = paddedDecimal 4 year.natAbs := by
  rw [yearText, if_neg (by omega), zeroPadded_eq_paddedDecimal (by decide) (by omega)]

theorem Time.unmarshal_marshal {time : Time} {text : Bytes}
    (marshalled : time.marshal = some text) : Time.unmarshal text = some time.reread := by
  unfold Time.marshal at marshalled
  split at marshalled
  · rename_i encodable
    rcases encodable with ⟨low, high, zone⟩
    cases marshalled
    have printable := time.valid.printable
    rcases zoneText_head time.offset with ⟨first, rest, zoneEqual, ends⟩
    have offset := takeZone_zoneText zone
    rw [zoneEqual] at offset
    simp only [Time.unmarshal, Civil.text, yearText_eq_padded low high, append_assoc, cons_append,
      takeDigits_padded (show time.civil.year.natAbs < 10 ^ 4 by omega), takeByte_cons, zoneEqual,
      takeClock_text printable rest ends, takeDigits_padded (show _ < 10 ^ 2 from printable.month),
      takeDigits_padded (show _ < 10 ^ 2 from printable.day), offset, bind, bind_some]
    have same : ((time.civil.year.natAbs : Nat) : Int) = time.civil.year := by omega
    rw [dif_pos (by rw [same]; exact time.valid)]
    simp [Time.reread, same]
  · simp at marshalled

@[simp] theorem zoneMinutes_reread (offset : Int) :
    zoneMinutes (zoneMinutes offset * 60) = zoneMinutes offset := by
  simp [zoneMinutes]

/-- An offset of less than a minute is written as `+00:00` and read as UTC, which
is written as `Z`. -/
def Time.Stable (time : Time) : Prop := time.offset = 0 ∨ zoneMinutes time.offset ≠ 0

instance (time : Time) : Decidable time.Stable := inferInstanceAs (Decidable (_ ∨ _))

theorem zoneText_reread_iff (offset : Int) :
    zoneText (zoneMinutes offset * 60) = zoneText offset ↔ offset = 0 ∨ zoneMinutes offset ≠ 0 := by
  by_cases utc : offset = 0
  · simp [utc, zoneMinutes]
  by_cases below : zoneMinutes offset = 0
  · simp [zoneText, below, utc]
  · have nonzero : zoneMinutes offset * 60 ≠ 0 := by omega
    simp [zoneText, nonzero, utc, below]

theorem Time.marshal_reread {time : Time} {text : Bytes} (marshalled : time.marshal = some text) :
    time.reread.marshal = some (time.civil.text ++ zoneText (zoneMinutes time.offset * 60)) ∧
      (time.reread.marshal = time.marshal ↔ time.Stable) := by
  simp only [Time.marshal, ite_none_right_eq_some] at marshalled
  rcases marshalled with ⟨encodable, equal⟩
  have again : time.reread.Encodable := by
    simpa [Time.Encodable, Time.reread] using encodable
  have rewritten : time.reread.marshal =
      some (time.civil.text ++ zoneText (zoneMinutes time.offset * 60)) := by
    rw [Time.marshal, if_pos again]
    rfl
  refine ⟨rewritten, ?_⟩
  rw [rewritten, Time.marshal, if_pos encodable, some.injEq, append_cancel_left_eq]
  exact zoneText_reread_iff time.offset

private theorem takeOffset_whole {sign : UInt8} {text : Bytes} {offset : Int}
    (taken : takeOffset sign text = some offset) : ∃ minutes : Int, offset = minutes * 60 := by
  simp only [takeOffset, bind, bind_eq_some_iff] at taken
  rcases taken with ⟨⟨hours, _⟩, _, _, _, ⟨minutes, _⟩, _, taken⟩
  simp only at taken
  split_ifs at taken
  · cases taken
    exact ⟨_, rfl⟩
  · cases taken
    exact ⟨-(hours * 60 + minutes), by omega⟩

theorem Time.reread_unmarshal {text : Bytes} {time : Time}
    (read : Time.unmarshal text = some time) : time.reread = time := by
  simp only [Time.unmarshal, bind, bind_eq_some_iff] at read
  rcases read with ⟨_, _, _, _, _, _, _, _, _, _, _, _, _, _, offset, zone, read⟩
  have whole : ∃ minutes : Int, offset = minutes * 60 := by
    unfold takeZone at zone
    split at zone
    · cases zone
    · split at zone
      · cases zone
        exact ⟨0, rfl⟩
      · exact takeOffset_whole zone
  rcases whole with ⟨minutes, rfl⟩
  simp only [dite_none_right_eq_some, some.injEq] at read
  rcases read with ⟨valid, rfl⟩
  simp [Time.reread, zoneMinutes]

variable {rightRest leftRest : Bytes}

private theorem digits_cancel {separator : UInt8} (ends : isDigit separator = false)
    {left right : Bytes} (leftDigits : left.all isDigit = true)
    (rightDigits : right.all isDigit = true)
    (equal : left ++ separator :: leftRest = right ++ separator :: rightRest) :
    left = right ∧ leftRest = rightRest := by
  have different {digit : UInt8} (isDigit' : isDigit digit = true) : separator ≠ digit := by
    rintro rfl
    rw [ends] at isDigit'
    cases isDigit'
  induction left generalizing right with
  | nil =>
    rcases right with _ | ⟨digit, rest⟩
    · exact ⟨rfl, (cons.inj equal).2⟩
    · rw [all_cons, Bool.and_eq_true] at rightDigits
      exact absurd (cons.inj equal).1 (different rightDigits.1)
  | cons first others induction =>
    rw [all_cons, Bool.and_eq_true] at leftDigits
    rcases right with _ | ⟨digit, rest⟩
    · exact absurd (cons.inj equal).1.symm (different leftDigits.1)
    · rw [all_cons, Bool.and_eq_true] at rightDigits
      rcases cons.inj equal with ⟨rfl, others⟩
      rcases induction leftDigits.2 rightDigits.2 others with ⟨rfl, same⟩
      exact ⟨rfl, same⟩

private theorem yearText_cancel {left right : Int}
    (equal : yearText left ++ 0x2D :: leftRest = yearText right ++ 0x2D :: rightRest) :
    left = right ∧ leftRest = rightRest := by
  have unsigned (value : Nat) (rest others : Bytes) :
      0x2D :: others ≠ zeroPadded 4 value ++ 0x2D :: rest := by
    have digits := zeroPadded_all_digits 4 value
    rcases padded : zeroPadded 4 value with _ | ⟨first, tail⟩
    · simp [zeroPadded, decimal_ne_nil] at padded
    · rw [padded, all_cons, Bool.and_eq_true] at digits
      intro same
      rw [← (cons.inj same).1] at digits
      exact absurd digits.1 (by decide)
  have cancel {left right : Nat} (same : zeroPadded 4 left ++ 0x2D :: leftRest =
      zeroPadded 4 right ++ 0x2D :: rightRest) : left = right ∧ leftRest = rightRest :=
    (digits_cancel (by decide) (zeroPadded_all_digits _ _) (zeroPadded_all_digits _ _) same).imp_left
      fun padded => zeroPadded_injective 4 padded
  simp only [yearText] at equal
  split_ifs at equal with leftNegative rightNegative rightNegative
  · rcases cancel (cons.inj equal).2 with ⟨same, rest⟩
    exact ⟨by omega, rest⟩
  · exact absurd equal (unsigned _ _ _)
  · exact absurd equal.symm (unsigned _ _ _)
  · rcases cancel equal with ⟨same, rest⟩
    exact ⟨by omega, rest⟩

private theorem padded_cancel {left right : Nat} (leftBound : left < 100) (rightBound : right < 100)
    (equal : paddedDecimal 2 left ++ leftRest = paddedDecimal 2 right ++ rightRest) :
    left = right ∧ leftRest = rightRest := by
  have taken := takeDigits_padded (show left < 10 ^ 2 from leftBound) leftRest
  rw [equal, takeDigits_padded (show right < 10 ^ 2 from rightBound)] at taken
  cases taken
  exact ⟨rfl, rfl⟩

theorem Civil.utcText_injective {left right : Civil} (leftPrintable : left.Printable)
    (rightPrintable : right.Printable) (equal : left.utcText = right.utcText) : left = right := by
  simp only [Civil.utcText, Civil.text, append_assoc, cons_append] at equal
  rcases yearText_cancel equal with ⟨year, equal⟩
  rcases padded_cancel leftPrintable.month rightPrintable.month equal with ⟨month, equal⟩
  rcases padded_cancel leftPrintable.day rightPrintable.day (cons.inj equal).2 with
    ⟨day, equal⟩
  have ends : isDigit 0x5A = false ∧ (0x5A : UInt8) ≠ 0x2E ∧ (0x5A : UInt8) ≠ 0x2C := by decide
  have clock := takeClock_text leftPrintable [] ends
  rw [(cons.inj equal).2, takeClock_text rightPrintable [] ends] at clock
  rcases left with ⟨_, _, _, _, _, _, _⟩
  rcases right with ⟨_, _, _, _, _, _, _⟩
  simp_all

theorem Time.utc_printable (time : Time) : time.utc.Printable := by
  rw [Time.utc]
  split_ifs
  · exact time.valid.printable
  · exact Civil.ofSeconds_printable _ time.valid.nanosecond

end TelemetryForge
