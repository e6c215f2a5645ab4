import TelemetryForge.Foundation.Bytes

/-! # UTF-8 text

Go strings may hold any bytes. -/

namespace TelemetryForge

open List

inductive Rune
  | ascii (byte : UInt8)
  | multibyte (bytes : Bytes)
  | invalid (byte : UInt8)
deriving DecidableEq, Repr

namespace Utf8

def isContinuation (byte : UInt8) : Bool := 0x80 ≤ byte && byte ≤ 0xBF

def wellFormed2 (first second : UInt8) : Bool :=
  0xC2 ≤ first && first ≤ 0xDF && isContinuation second

def wellFormed3 (first second third : UInt8) : Bool :=
  isContinuation third &&
    ((first == 0xE0 && 0xA0 ≤ second && second ≤ 0xBF) ||
      (0xE1 ≤ first && first ≤ 0xEC && isContinuation second) ||
      (first == 0xED && 0x80 ≤ second && second ≤ 0x9F) ||
      (0xEE ≤ first && first ≤ 0xEF && isContinuation second))

def wellFormed4 (first second third fourth : UInt8) : Bool :=
  isContinuation third && isContinuation fourth &&
    ((first == 0xF0 && 0x90 ≤ second && second ≤ 0xBF) ||
      (0xF1 ≤ first && first ≤ 0xF3 && isContinuation second) ||
      (first == 0xF4 && 0x80 ≤ second && second ≤ 0x8F))

def nextRune (first : UInt8) (rest : Bytes) : Rune × Bytes :=
  if first < 0x80 then (.ascii first, rest)
  else
    match rest with
    | [] => (.invalid first, rest)
    | second :: rest1 =>
      if wellFormed2 first second then (.multibyte [first, second], rest1)
      else
        match rest1 with
        | [] => (.invalid first, rest)
        | third :: rest2 =>
          if wellFormed3 first second third then
            (.multibyte [first, second, third], rest2)
          else
            match rest2 with
            | [] => (.invalid first, rest)
            | fourth :: rest3 =>
              if wellFormed4 first second third fourth then
                (.multibyte [first, second, third, fourth], rest3)
              else (.invalid first, rest)

end Utf8

namespace Rune

def bytes : Rune → Bytes
  | .ascii byte => [byte]
  | .multibyte bytes => bytes
  | .invalid byte => [byte]

def replacement : Bytes := [0xEF, 0xBF, 0xBD]

def coerce : Rune → Bytes
  | .ascii byte => [byte]
  | .multibyte bytes => bytes
  | .invalid _ => replacement

def isValid : Rune → Bool
  | .invalid _ => false
  | _ => true

inductive Genuine : Rune → Prop
  | ascii {byte : UInt8} : byte < 0x80 → Genuine (.ascii byte)
  | two {first second : UInt8} : Utf8.wellFormed2 first second = true →
      Genuine (.multibyte [first, second])
  | three {first second third : UInt8} :
      Utf8.wellFormed3 first second third = true →
      Genuine (.multibyte [first, second, third])
  | four {first second third fourth : UInt8} :
      Utf8.wellFormed4 first second third fourth = true →
      Genuine (.multibyte [first, second, third, fourth])
  | invalid {byte : UInt8} : ¬byte < 0x80 → Genuine (.invalid byte)

end Rune

namespace Utf8

theorem nextRune_genuine (first : UInt8) (rest : Bytes) : (nextRune first rest).1.Genuine := by
  unfold nextRune
  repeat' split
  all_goals first
    | exact .ascii (by assumption)
    | exact .two (by assumption)
    | exact .three (by assumption)
    | exact .four (by assumption)
    | exact .invalid (by assumption)

theorem nextRune_bytes (first : UInt8) (rest : Bytes) :
    (nextRune first rest).1.bytes ++ (nextRune first rest).2 = first :: rest := by
  unfold nextRune
  repeat' split
  all_goals simp [Rune.bytes]

theorem nextRune_rest_length (first : UInt8) (rest : Bytes) :
    (nextRune first rest).2.length ≤ rest.length := by
  unfold nextRune
  repeat' split
  all_goals simp_all only [length_cons]; omega

def runesWithin : (fuel : Nat) → Bytes → List Rune
  | 0, _ => []
  | _ + 1, [] => []
  | fuel + 1, first :: rest =>
    (nextRune first rest).1 :: runesWithin fuel (nextRune first rest).2

def runes (text : Bytes) : List Rune := runesWithin text.length text

theorem runesWithin_eq_of_le (fuel : Nat) (text : Bytes) (enough : text.length ≤ fuel) :
    runesWithin fuel text = runes text := by
  suffices ∀ (large small : Nat) (text : Bytes), text.length ≤ small → small ≤ large →
      runesWithin large text = runesWithin small text from
    this fuel text.length text (Nat.le_refl _) enough
  intro large
  induction large with
  | zero =>
    intro small text enough bound
    obtain rfl : small = 0 := by omega
    rfl
  | succ large induction =>
    intro small text enough bound
    cases text with
    | nil => cases small <;> rfl
    | cons first rest =>
      cases small with
      | zero => simp at enough
      | succ small =>
        have shorter := nextRune_rest_length first rest
        simp only [runesWithin]
        rw [induction small _ (by simp at enough; omega) (by omega)]

@[simp] theorem runes_nil : runes [] = [] := rfl

theorem runes_cons (first : UInt8) (rest : Bytes) :
    runes (first :: rest) = (nextRune first rest).1 :: runes (nextRune first rest).2 := by
  have shorter := nextRune_rest_length first rest
  rw [runes, length_cons, runesWithin, runesWithin_eq_of_le _ _ shorter]

theorem rune_induction {motive : Bytes → Prop} (nil : motive [])
    (cons : ∀ first rest, motive (nextRune first rest).2 → motive (first :: rest))
    (text : Bytes) : motive text := by
  suffices ∀ (bound : Nat) (text : Bytes), text.length ≤ bound → motive text from
    this text.length text (Nat.le_refl _)
  intro bound
  induction bound with
  | zero =>
    intro text short
    obtain rfl : text = [] := length_eq_zero_iff.mp (by omega)
    exact nil
  | succ bound induction =>
    intro text short
    cases text with
    | nil => exact nil
    | cons first rest =>
      have shorter := nextRune_rest_length first rest
      exact cons first rest (induction _ (by simp at short; omega))

theorem runes_genuine (text : Bytes) : ∀ rune ∈ runes text, rune.Genuine := by
  induction text using rune_induction with
  | nil => simp
  | cons first rest induction =>
    rw [runes_cons]
    intro rune member
    rcases mem_cons.mp member with equal | member
    · exact equal ▸ nextRune_genuine first rest
    · exact induction rune member

theorem runes_bytes (text : Bytes) : (runes text).flatMap Rune.bytes = text := by
  induction text using rune_induction with
  | nil => rfl
  | cons first rest induction =>
    rw [runes_cons, flatMap_cons, induction, nextRune_bytes]

def valid (text : Bytes) : Bool := (runes text).all Rune.isValid

def coerce (text : Bytes) : Bytes := (runes text).flatMap Rune.coerce

theorem coerce_of_valid {text : Bytes} (isValid : valid text = true) : coerce text = text := by
  conv_rhs => rw [← runes_bytes text]
  simp only [valid, all_eq_true] at isValid
  simp only [coerce, flatMap_def]
  congr 1
  apply map_congr_left
  intro rune member
  cases rune with
  | invalid byte => simpa [Rune.isValid] using isValid _ member
  | _ => rfl

theorem nextRune_append {rune : Rune} (genuine : rune.Genuine)
    (isValid : rune.isValid = true) (rest : Bytes) :
    ∃ first tail, rune.bytes = first :: tail ∧ nextRune first (tail ++ rest) = (rune, rest) := by
  cases genuine with
  | ascii small => exact ⟨_, [], rfl, by simp [nextRune, small]⟩
  | @two first second formed =>
    refine ⟨first, [second], rfl, ?_⟩
    have large : ¬first < 0x80 := by
      simp only [wellFormed2, Bool.and_eq_true, decide_eq_true_eq] at formed
      simp only [UInt8.lt_iff_toNat_lt, UInt8.le_iff_toNat_le] at formed ⊢
      have low := formed.1.1
      simp at low ⊢
      omega
    simp [nextRune, large, formed]
  | @three first second third formed =>
    refine ⟨first, [second, third], rfl, ?_⟩
    have excluded : ¬first < 0x80 ∧ wellFormed2 first second = false := by
      revert formed
      simp only [wellFormed3, wellFormed2, Bool.and_eq_true, Bool.or_eq_true,
        beq_iff_eq, decide_eq_true_eq, Bool.and_eq_false_iff, decide_eq_false_iff_not,
        UInt8.lt_iff_toNat_lt, UInt8.le_iff_toNat_le, ← UInt8.toNat_inj]
      simp
      omega
    simp [nextRune, excluded.1, excluded.2, formed]
  | @four first second third fourth formed =>
    refine ⟨first, [second, third, fourth], rfl, ?_⟩
    have excluded : ¬first < 0x80 ∧ wellFormed2 first second = false ∧
        wellFormed3 first second third = false := by
      revert formed
      simp only [wellFormed4, wellFormed3, wellFormed2, Bool.and_eq_true, Bool.or_eq_true,
        beq_iff_eq, decide_eq_true_eq, Bool.and_eq_false_iff, decide_eq_false_iff_not,
        Bool.or_eq_false_iff, beq_eq_false_iff_ne, ne_eq,
        UInt8.lt_iff_toNat_lt, UInt8.le_iff_toNat_le, ← UInt8.toNat_inj]
      simp
      omega
    simp [nextRune, excluded.1, excluded.2.1, excluded.2.2, formed]
  | invalid large => simp [Rune.isValid] at isValid

theorem runes_flatMap_bytes {list : List Rune}
    (genuine : ∀ rune ∈ list, rune.Genuine ∧ rune.isValid = true) (rest : Bytes) :
    runes (list.flatMap Rune.bytes ++ rest) = list ++ runes rest := by
  induction list with
  | nil => rfl
  | cons rune tail induction =>
    have this := genuine rune mem_cons_self
    rcases nextRune_append this.1 this.2 (tail.flatMap Rune.bytes ++ rest) with
      ⟨first, others, bytesEq, split⟩
    rw [flatMap_cons, append_assoc, bytesEq, cons_append, runes_cons, split,
      induction fun other member => genuine other (mem_cons_of_mem _ member)]
    rfl

def replacementRune : Rune := .multibyte Rune.replacement

theorem replacementRune_genuine : replacementRune.Genuine :=
  .three (by decide)

def coerceRune : Rune → Rune
  | .invalid _ => replacementRune
  | rune => rune

theorem runes_coerce (text : Bytes) : runes (coerce text) = (runes text).map coerceRune := by
  have bytesEq : coerce text = ((runes text).map coerceRune).flatMap Rune.bytes ++ [] := by
    rw [append_nil, flatMap_map, coerce]
    congr 1
    funext rune
    cases rune <;> rfl
  rw [bytesEq, runes_flatMap_bytes, runes_nil, append_nil]
  intro rune member
  rcases mem_map.mp member with ⟨source, sourceMember, rfl⟩
  have genuine := runes_genuine text source sourceMember
  cases source with
  | invalid byte => exact ⟨replacementRune_genuine, rfl⟩
  | ascii byte => exact ⟨genuine, rfl⟩
  | multibyte bytes => exact ⟨genuine, rfl⟩

theorem valid_coerce (text : Bytes) : valid (coerce text) = true := by
  simp only [valid, runes_coerce, all_map, all_eq_true]
  intro rune _
  cases rune <;> rfl

theorem coerce_eq_nil_iff (text : Bytes) : coerce text = [] ↔ text = [] := by
  cases text with
  | nil => simp [coerce]
  | cons first rest =>
    have nonempty {rune : Rune} (genuine : rune.Genuine) : rune.coerce ≠ [] := by
      cases genuine <;> simp [Rune.coerce, Rune.replacement]
    simp [coerce, runes_cons, nonempty (nextRune_genuine first rest)]

theorem valid_append {left right : Bytes} (leftValid : valid left = true)
    (rightValid : valid right = true) : valid (left ++ right) = true := by
  have split : runes (left ++ right) = runes left ++ runes right := by
    have genuine : ∀ rune ∈ runes left, rune.Genuine ∧ rune.isValid = true :=
      fun rune member => ⟨runes_genuine left rune member, all_eq_true.mp leftValid rune member⟩
    have parts := runes_flatMap_bytes genuine right
    rwa [runes_bytes] at parts
  simp only [valid] at leftValid rightValid
  simp [valid, split, all_append, leftValid, rightValid]

theorem valid_of_ascii {text : Bytes} (allAscii : ∀ byte ∈ text, byte < 0x80) :
    valid text = true := by
  induction text with
  | nil => rfl
  | cons byte rest induction =>
    have head := allAscii byte mem_cons_self
    have tail := induction fun other member => allAscii other (mem_cons_of_mem _ member)
    simp only [valid, all_eq_true] at tail
    simp only [valid, runes_cons, nextRune, head, if_true, all_cons, Rune.isValid,
      Bool.true_and, all_eq_true]
    exact tail

theorem valid_bytes {rune : Rune} (genuine : rune.Genuine) (isValid : rune.isValid = true) :
    valid rune.bytes = true := by
  have runes := @runes_flatMap_bytes [rune] (by simp [genuine, isValid]) []
  simp only [flatMap_cons, flatMap_nil, append_nil, runes_nil] at runes
  simp [valid, runes, isValid]

theorem valid_nextRune (first : UInt8) (rest : Bytes) :
    valid (nextRune first rest).1.coerce = true := by
  have genuine := nextRune_genuine first rest
  generalize (nextRune first rest).1 = rune at genuine
  cases genuine with
  | ascii small => exact valid_bytes (.ascii small) rfl
  | two formed => exact valid_bytes (.two formed) rfl
  | three formed => exact valid_bytes (.three formed) rfl
  | four formed => exact valid_bytes (.four formed) rfl
  | invalid _ => exact valid_bytes replacementRune_genuine rfl

end Utf8

end TelemetryForge

/-! ## Trimming white space

`strings.TrimSpace` removes the runes `unicode.IsSpace` accepts from both ends. -/

namespace TelemetryForge

open List

def isSpace1 (byte : UInt8) : Bool := byte == 0x20 || (0x09 ≤ byte && byte ≤ 0x0D)

def isSpace2 (first second : UInt8) : Bool :=
  first == 0xC2 && (second == 0x85 || second == 0xA0)

def isSpace3 (first second third : UInt8) : Bool :=
  (first == 0xE1 && second == 0x9A && third == 0x80) ||
    (first == 0xE2 && second == 0x80 &&
      ((0x80 ≤ third && third ≤ 0x8A) || third == 0xA8 || third == 0xA9 || third == 0xAF)) ||
    (first == 0xE2 && second == 0x81 && third == 0x9F) ||
    (first == 0xE3 && second == 0x80 && third == 0x80)

section

variable (space2 : UInt8 → UInt8 → Bool) (space3 : UInt8 → UInt8 → UInt8 → Bool)

def trimWith : Bytes → Bytes
  | [] => []
  | [first] => if isSpace1 first then [] else [first]
  | [first, second] =>
    if isSpace1 first then trimWith [second]
    else if space2 first second then [] else [first, second]
  | first :: second :: third :: rest =>
    if isSpace1 first then trimWith (second :: third :: rest)
    else if space2 first second then trimWith (third :: rest)
    else if space3 first second third then trimWith rest
    else first :: second :: third :: rest

def startsWithSpace : Bytes → Bool
  | [] => false
  | [first] => isSpace1 first
  | [first, second] => isSpace1 first || space2 first second
  | first :: second :: third :: _ =>
    isSpace1 first || space2 first second || space3 first second third

variable {space2 space3}

theorem trimWith_eq_self {text : Bytes} (none : startsWithSpace space2 space3 text = false) :
    trimWith space2 space3 text = text := by
  unfold startsWithSpace at none
  unfold trimWith
  split <;> simp_all

theorem startsWithSpace_trimWith (text : Bytes) :
    startsWithSpace space2 space3 (trimWith space2 space3 text) = false := by
  induction text using trimWith.induct space2 space3 with
  | case1 => rfl
  | _ => simp_all [trimWith, startsWithSpace]

theorem trimWith_suffix (text : Bytes) : trimWith space2 space3 text <:+ text := by
  induction text using trimWith.induct space2 space3 with
  | case1 => simp [trimWith]
  | case2 first space => simp [trimWith, space]
  | case3 first none => simp [trimWith, none]
  | case4 first second space induction =>
    simp only [trimWith, space, if_true]
    exact induction.trans (suffix_cons _ _)
  | case5 first second none space => simp [trimWith, none, space]
  | case6 first second none none2 => simp [trimWith, none, none2]
  | case7 first second third rest space induction =>
    simp only [trimWith, space, if_true]
    exact induction.trans (suffix_cons _ _)
  | case8 first second third rest none space induction =>
    simp only [trimWith, none, space, if_true]
    exact induction.trans ((suffix_cons _ _).trans (suffix_cons _ _))
  | case9 first second third rest none none2 space induction =>
    simp only [trimWith, none, none2, space, if_true]
    exact induction.trans ((suffix_cons _ _).trans
      ((suffix_cons _ _).trans (suffix_cons _ _)))
  | case10 first second third rest none none2 none3 =>
    simp [trimWith, none, none2, none3]

theorem startsWithSpace_append {left : Bytes} (right : Bytes)
    (space : startsWithSpace space2 space3 left = true) :
    startsWithSpace space2 space3 (left ++ right) = true := by
  match left, right with
  | [], _ => simp [startsWithSpace] at space
  | [first], [] => exact space
  | [first], [second] => simp_all [startsWithSpace]
  | [first], second :: third :: rest => simp_all [startsWithSpace]
  | [first, second], [] => exact space
  | [first, second], third :: rest => simp_all [startsWithSpace]
  | first :: second :: third :: rest, _ => simpa [startsWithSpace] using space

end

def trimLeft (text : Bytes) : Bytes := trimWith isSpace2 isSpace3 text

def trimRight (text : Bytes) : Bytes :=
  (trimWith (fun last before => isSpace2 before last)
    (fun last middle first => isSpace3 first middle last) text.reverse).reverse

def trimSpace (text : Bytes) : Bytes := trimRight (trimLeft text)

theorem trimSpace_trimSpace (text : Bytes) : trimSpace (trimSpace text) = trimSpace text := by
  have right : trimRight (trimSpace text) = trimSpace text := by
    simp only [trimSpace, trimRight, reverse_reverse]
    rw [trimWith_eq_self (startsWithSpace_trimWith _)]
  have shorter : trimSpace text <+: trimLeft text := by
    rw [← reverse_suffix]
    simp only [trimSpace, trimRight, reverse_reverse]
    exact trimWith_suffix _
  have left : trimLeft (trimSpace text) = trimSpace text := by
    apply trimWith_eq_self
    by_contra space
    rcases shorter with ⟨rest, equal⟩
    have extended := startsWithSpace_append rest (Bool.not_eq_false _ ▸ space)
    rw [equal, trimLeft, startsWithSpace_trimWith] at extended
    exact Bool.false_ne_true extended
  rw [trimSpace, left, right]

def isVisible (byte : UInt8) : Bool := 0x20 < byte && byte < 0x80

private theorem isVisible_spaces : ∀ byte : UInt8, isVisible byte = true →
    isSpace1 byte = false ∧ byte ≠ 0xC2 ∧ byte ≠ 0xE1 ∧ byte ≠ 0xE2 ∧ byte ≠ 0xE3 ∧
      byte ≠ 0x85 ∧ byte ≠ 0xA0 ∧ ¬0x80 ≤ byte := by
  decide +kernel

private theorem isVisible_ends : ∀ byte : UInt8, isVisible byte = true →
    byte ≠ 0x80 ∧ byte ≠ 0xA8 ∧ byte ≠ 0xA9 ∧ byte ≠ 0xAF ∧ byte ≠ 0x9F := by
  decide +kernel

theorem trimSpace_of_visible {text : Bytes} (front : ∀ byte ∈ text.head?, isVisible byte = true)
    (back : ∀ byte ∈ text.getLast?, isVisible byte = true) : trimSpace text = text := by
  have left : trimLeft text = text := by
    apply trimWith_eq_self
    rcases text with _ | ⟨first, _ | ⟨second, _ | ⟨third, rest⟩⟩⟩
    · rfl
    all_goals
      have facts := isVisible_spaces first (front first rfl)
      simp [startsWithSpace, isSpace2, isSpace3, facts]
  have right : trimRight text = text := by
    rw [getLast?_eq_head?_reverse] at back
    have unchanged : trimWith (fun last before => isSpace2 before last)
        (fun last middle first => isSpace3 first middle last) text.reverse = text.reverse := by
      apply trimWith_eq_self
      generalize text.reverse = reversed at back ⊢
      rcases reversed with _ | ⟨last, _ | ⟨second, _ | ⟨third, rest⟩⟩⟩
      · rfl
      all_goals
        have facts := isVisible_spaces last (back last rfl)
        have ends := isVisible_ends last (back last rfl)
        simp [startsWithSpace, isSpace2, isSpace3, facts, ends]
    rw [trimRight, unchanged, reverse_reverse]
  rw [trimSpace, left, right]

variable {byte : UInt8}

theorem mem_trimWith {space2 : UInt8 → UInt8 → Bool} {space3 : UInt8 → UInt8 → UInt8 → Bool}
    (space1 : isSpace1 byte = false)
    (no2 : ∀ first second, space2 first second = true → byte ≠ first ∧ byte ≠ second)
    (no3 : ∀ first second third, space3 first second third = true →
      byte ≠ first ∧ byte ≠ second ∧ byte ≠ third) {text : Bytes} (member : byte ∈ text) :
    byte ∈ trimWith space2 space3 text := by
  have different {first : UInt8} (space : isSpace1 first = true) : byte ≠ first := by
    rintro rfl
    simp [space1] at space
  induction text using trimWith.induct space2 space3 with
  | case1 => exact member
  | case2 first space => simp [different space] at member
  | case3 first none => simpa [trimWith, none] using member
  | case4 first second space induction =>
    simp only [trimWith, space, if_true]
    exact induction ((mem_cons.mp member).resolve_left (different space))
  | case5 first second none space => simp [no2 first second space] at member
  | case6 first second none none2 => simpa [trimWith, none, none2] using member
  | case7 first second third rest space induction =>
    simp only [trimWith, space, if_true]
    exact induction ((mem_cons.mp member).resolve_left (different space))
  | case8 first second third rest none space induction =>
    simp only [trimWith, none, space, if_true]
    exact induction (by simpa [no2 first second space] using member)
  | case9 first second third rest none none2 space induction =>
    simp only [trimWith, none, none2, space, if_true]
    exact induction (by simpa [no3 first second third space] using member)
  | case10 first second third rest none none2 none3 =>
    simpa [trimWith, none, none2, none3] using member

private theorem isVisible_isSpace2 (visible : isVisible byte = true)
    {first second : UInt8} (space : isSpace2 first second = true) :
    byte ≠ first ∧ byte ≠ second := by
  have facts := isVisible_spaces byte visible
  simp only [isSpace2, Bool.and_eq_true, Bool.or_eq_true, beq_iff_eq] at space
  rcases space with ⟨rfl, rfl | rfl⟩ <;> simp [facts]

private theorem isVisible_isSpace3 (visible : isVisible byte = true)
    {first second third : UInt8} (space : isSpace3 first second third = true) :
    byte ≠ first ∧ byte ≠ second ∧ byte ≠ third := by
  have upper {other : UInt8} (above : 0x80 ≤ other) : byte ≠ other := by
    rintro rfl
    exact (isVisible_spaces byte visible).2.2.2.2.2.2.2 above
  simp only [isSpace3, Bool.and_eq_true, Bool.or_eq_true, beq_iff_eq, decide_eq_true_eq] at space
  rcases space with ((⟨⟨rfl, rfl⟩, rfl⟩ | ⟨⟨rfl, rfl⟩, ((⟨above, _⟩ | rfl) | rfl) | rfl⟩) |
    ⟨⟨rfl, rfl⟩, rfl⟩) | ⟨⟨rfl, rfl⟩, rfl⟩
  case inl.inl.inr.inl.inl.inl => exact ⟨upper (by decide), upper (by decide), upper above⟩
  all_goals exact ⟨upper (by decide), upper (by decide), upper (by decide)⟩

theorem trimSpace_ne_nil {text : Bytes} (member : byte ∈ text)
    (visible : isVisible byte = true) : trimSpace text ≠ [] := by
  have space1 := (isVisible_spaces byte visible).1
  have left : byte ∈ trimLeft text := mem_trimWith space1
    (fun _ _ space => isVisible_isSpace2 visible space)
    (fun _ _ _ space => isVisible_isSpace3 visible space) member
  have right : byte ∈ trimSpace text := by
    rw [trimSpace, trimRight, mem_reverse]
    exact mem_trimWith space1
      (fun _ _ space => (isVisible_isSpace2 visible space).symm)
      (fun _ _ _ space =>
        have facts := isVisible_isSpace3 visible space
        ⟨facts.2.2, facts.2.1, facts.1⟩) (mem_reverse.mpr left)
  exact ne_nil_of_mem right

/-! ## String functions with tables

Functions of Go's standard library whose results depend on Unicode tables or on the
pattern language of `path.Match`. What they compute is left open, up to a few laws that
do not depend on the tables. -/

class Strings where
  toLower : Bytes → Bytes
  equalFold : Bytes → Bytes → Bool
  pathMatch : (pattern name : Bytes) → Option Bool

/-- What holds of these functions whatever the tables say: case is folded rune by rune, so ASCII
text without capitals stays as it is at the start of any text. -/
class LawfulStrings [Strings] : Prop where
  toLower_append (start rest : Bytes) (plain : ∀ byte ∈ start, byte < 128)
    (lower : lowercase start = start) :
    Strings.toLower (start ++ rest) = start ++ Strings.toLower rest
  equalFold_refl (text : Bytes) : Strings.equalFold text text = true
  equalFold_nil (text : Bytes) (present : text ≠ []) : Strings.equalFold [] text = false

def glob [Strings] (pattern value : Bytes) : Bool :=
  let pattern := trimSpace pattern
  if pattern = [] ∨ pattern = ascii "*" then true
  else (Strings.pathMatch pattern value).getD false

def isValidGlob [Strings] (pattern : Bytes) : Bool :=
  let pattern := trimSpace pattern
  if pattern = [] ∨ pattern = ascii "*" then true
  else (Strings.pathMatch pattern (ascii "validation-probe")).isSome

/-! ## Searching text without regard to case -/

def contains (text part : Bytes) : Bool := text.tails.any (part.isPrefixOf ·)

/-- The lower case of a rune, as far as ASCII text is concerned: the Kelvin sign and the
dotted capital I are the runes outside ASCII that lower to a letter of ASCII. -/
def lowerRune : Rune → Rune
  | .ascii byte => .ascii (if 65 ≤ byte ∧ byte ≤ 90 then byte + 32 else byte)
  | .multibyte bytes =>
    if bytes = [0xE2, 0x84, 0xAA] then .ascii 0x6B
    else if bytes = [0xC4, 0xB0] then .ascii 0x69
    else .multibyte bytes
  | .invalid _ => Utf8.replacementRune

def toLower (text : Bytes) : Bytes := (Utf8.runes text).flatMap fun rune => (lowerRune rune).bytes

end TelemetryForge
