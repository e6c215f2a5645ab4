import TelemetryForge.Json.Grammar

/-! # Reading JSON text

`readValue` is the decoder's scan: white space, a token, a step of the grammar, until one value
is complete. -/

namespace TelemetryForge.Json

open List Option

structure Lexeme where
  space : Bytes
  token : Token
deriving DecidableEq, Repr

def isSpace (byte : UInt8) : Bool :=
  byte == 0x20 || byte == 0x09 || byte == 0x0A || byte == 0x0D

def Lexeme.text (lexeme : Lexeme) : Bytes := lexeme.space ++ lexeme.token.text

def Lexeme.WellFormed (lexeme : Lexeme) : Prop :=
  lexeme.space.all isSpace = true ∧ lexeme.token.WellFormed

def textOf (lexemes : List Lexeme) : Bytes := lexemes.flatMap Lexeme.text

def valueText : List Lexeme → Bytes
  | [] => []
  | lexeme :: rest => lexeme.token.text ++ textOf rest

def bare (tokens : List Token) : List Lexeme := tokens.map fun token => ⟨[], token⟩

def render (tokens : List Token) : Bytes := tokens.flatMap Token.text

@[simp] theorem bare_tokens (tokens : List Token) : (bare tokens).map Lexeme.token = tokens := by
  simp [bare, Function.comp_def]

@[simp] theorem textOf_bare (tokens : List Token) : textOf (bare tokens) = render tokens := by
  simp [textOf, bare, render, flatMap_map, Lexeme.text]

@[simp] theorem valueText_bare (tokens : List Token) : valueText (bare tokens) = render tokens := by
  cases tokens with
  | nil => rfl
  | cons token rest =>
    have others := textOf_bare rest
    simp only [bare, map_cons, valueText, render, flatMap_cons] at others ⊢
    rw [others]

/-- The first value of the text begun in `state`, and the text after it. The
first argument bounds the number of tokens; the length of the text is enough. -/
def readValue (limit : Nat) : Nat → State → Bytes → Option (List Lexeme × Bytes)
  | 0, _, _ => none
  | fuel + 1, state, text =>
    match text.dropWhile isSpace with
    | [] => none
    | first :: others =>
      match nextToken first others with
      | none => none
      | some (token, rest) =>
        match step limit state token with
        | none => none
        | some next =>
          if next = .done then some ([⟨text.takeWhile isSpace, token⟩], rest)
          else
            (readValue limit fuel next rest).map fun result =>
              (⟨text.takeWhile isSpace, token⟩ :: result.1, result.2)

def firstValue (text : Bytes) : Option (List Lexeme × Bytes) :=
  readValue maxNestingDepth text.length .initial text

def wholeValue (text : Bytes) : Option (List Lexeme) :=
  match firstValue text with
  | some (lexemes, rest) => if rest.all isSpace then some lexemes else none
  | none => none

variable {limit : Nat} {lexemes : List Lexeme}

theorem readValue_sound {fuel : Nat} {state : State} {text rest : Bytes}
    (read : readValue limit fuel state text = some (lexemes, rest)) :
    text = textOf lexemes ++ rest ∧ lexemes ≠ [] ∧
      (∀ lexeme ∈ lexemes, lexeme.WellFormed) ∧
      run limit state (lexemes.map Lexeme.token) = some .done := by
  induction fuel generalizing state text lexemes with
  | zero => simp [readValue] at read
  | succ fuel induction =>
    simp only [readValue] at read
    split at read
    · simp at read
    rename_i first others split_
    split at read
    · simp at read
    rename_i token remaining scanned
    split at read
    · simp at read
    rename_i next stepped
    have divided : text = text.takeWhile isSpace ++ (token.text ++ remaining) := by
      rw [← (nextToken_sound scanned).1, ← split_, takeWhile_append_dropWhile]
    have formed : Lexeme.WellFormed ⟨text.takeWhile isSpace, token⟩ :=
      ⟨all_takeWhile, (nextToken_sound scanned).2⟩
    split at read
    · rename_i finished
      cases read
      refine ⟨?_, by simp, by simpa using formed, by simp [run, stepped, finished]⟩
      simpa [textOf, Lexeme.text] using divided
    · simp only [map_eq_some_iff] at read
      rcases read with ⟨⟨tail, final⟩, inner, equal⟩
      cases equal
      rcases induction inner with ⟨tailText, _, tailFormed, tailRun⟩
      refine ⟨?_, by simp, ?_, by simp [run, stepped, tailRun]⟩
      · have joined : textOf (⟨text.takeWhile isSpace, token⟩ :: tail) ++ final =
            text.takeWhile isSpace ++ (token.text ++ (textOf tail ++ final)) := by
          simp [textOf, Lexeme.text]
        rw [joined, ← tailText]
        exact divided
      · intro lexeme member
        rcases mem_cons.mp member with rfl | member
        · exact formed
        · exact tailFormed lexeme member

private theorem isSpace_of_number {byte : UInt8} (number : byte = 0x2D ∨ isDigit byte = true) :
    isSpace byte = false := by
  revert byte
  decide +kernel

private theorem text_head {token : Token} (formed : token.WellFormed) :
    ∃ first tail, token.text = first :: tail ∧ isSpace first = false := by
  cases token with
  | number literal =>
    rcases numberLiteral_cons formed with ⟨first, tail, equal, number⟩
    exact ⟨first, tail, equal, isSpace_of_number number⟩
  | string raw => exact ⟨0x22, raw ++ [0x22], rfl, rfl⟩
  | boolean value => cases value <;> exact ⟨_, _, rfl, rfl⟩
  | null => exact ⟨_, _, rfl, rfl⟩
  | _ => exact ⟨_, [], rfl, rfl⟩

variable {lexeme : Lexeme}

theorem Lexeme.split_text (formed : lexeme.WellFormed) (rest : Bytes) :
    (lexeme.text ++ rest).takeWhile isSpace = lexeme.space ∧
      (lexeme.text ++ rest).dropWhile isSpace = lexeme.token.text ++ rest := by
  rcases text_head formed.2 with ⟨first, tail, equal, notSpace⟩
  have blank : ∀ byte ∈ lexeme.space, isSpace byte = true :=
    all_eq_true.mp formed.1
  simp only [Lexeme.text, append_assoc, equal, cons_append]
  constructor
  · rw [takeWhile_append_of_pos blank]
    simp [notSpace]
  · rw [dropWhile_append_of_pos blank]
    simp [notSpace]

private theorem separator_step {stack : List Container} {token : Token}
    {next : State} (stepped : step limit ⟨.separator, stack⟩ token = some next) :
    token = .comma ∨ token = .endObject ∨ token = .endArray := by
  rcases stack with _ | ⟨container, stack⟩ <;> try cases container
  all_goals cases token <;> simp_all [step, stepSeparator]

private theorem numberEnds_of_space {byte : UInt8} {rest : Bytes} (space : isSpace byte = true) :
    NumberEnds (byte :: rest) := by
  intro head member
  simp only [head?_cons, mem_def, some.injEq] at member
  subst head
  revert byte
  decide +kernel

private theorem numberEnds_of_separator {stack : List Container}
    {next : State} (formed : lexeme.WellFormed)
    (stepped : step limit ⟨.separator, stack⟩ lexeme.token = some next) (rest : Bytes) :
    NumberEnds (lexeme.text ++ rest) := by
  rcases lexeme with ⟨space, token⟩
  cases space with
  | cons byte space =>
    have blank : isSpace byte = true := by
      have all := formed.1
      simp only [all_cons, Bool.and_eq_true] at all
      exact all.1
    exact numberEnds_of_space blank
  | nil =>
    rcases separator_step stepped with equal | equal | equal <;> dsimp only at equal <;>
      subst equal <;> simp [Lexeme.text, Token.text, NumberEnds] <;> decide

theorem readValue_textOf {fuel : Nat} {state : State}
    (formed : ∀ lexeme ∈ lexemes, lexeme.WellFormed)
    (result : run limit state (lexemes.map Lexeme.token) = some .done)
    (nonempty : lexemes ≠ []) (enough : lexemes.length ≤ fuel) {rest : Bytes}
    (ends : (∃ lexeme ∈ lexemes.getLast?, lexeme.token.isNumber = true) → NumberEnds rest) :
    readValue limit fuel state (textOf lexemes ++ rest) = some (lexemes, rest) := by
  -- Induction on the lexemes; a number is followed by a separator or by `rest`.
  induction lexemes generalizing state fuel with
  | nil => contradiction
  | cons lexeme others induction =>
    rcases fuel with _ | fuel
    · simp at enough
    simp only [map_cons, run, bind_eq_some_iff] at result
    rcases result with ⟨next, stepped, remaining⟩
    have headFormed := formed lexeme (by simp)
    have boundary : lexeme.token.isNumber = true → NumberEnds (textOf others ++ rest) := by
      intro number
      cases others with
      | nil => exact ends ⟨lexeme, by simp, number⟩
      | cons second others =>
        rw [step_last number stepped] at remaining
        simp only [map_cons, run, bind_eq_some_iff] at remaining
        rcases remaining with ⟨after, secondStep, _⟩
        have this := numberEnds_of_separator (formed second (by simp)) secondStep
          (textOf others ++ rest)
        simpa [textOf] using this
    rcases nextToken_text headFormed.2 boundary with ⟨first, tail, equal, scanned⟩
    have divided := Lexeme.split_text headFormed (textOf others ++ rest)
    have whole : textOf (lexeme :: others) ++ rest = lexeme.text ++ (textOf others ++ rest) := by
      simp [textOf]
    rw [whole, readValue, divided.1, divided.2, equal, cons_append]
    simp only [scanned, stepped]
    by_cases finished : next = .done
    · subst finished
      have empty := run_done remaining
      simp only [map_eq_nil_iff] at empty
      subst empty
      simp [textOf]
    · have more : others ≠ [] := by
        rintro rfl
        simp only [map_nil, run, some.injEq] at remaining
        exact finished remaining
      have inner := induction (fun item member => formed item (by simp [member])) remaining
        more (by simpa using enough) (by
          rintro ⟨last, member, number⟩
          refine ends ⟨last, ?_, number⟩
          rw [getLast?_cons_of_ne_nil more]
          exact member)
      simp [finished, inner]

private theorem text_length_pos {token : Token} (formed : token.WellFormed) :
    0 < token.text.length := by
  rcases text_head formed with ⟨first, tail, equal, _⟩
  simp [equal]

theorem length_le_textOf
    (formed : ∀ lexeme ∈ lexemes, lexeme.WellFormed) :
    lexemes.length ≤ (textOf lexemes).length := by
  induction lexemes with
  | nil => simp
  | cons lexeme rest induction =>
    have head := text_length_pos (formed lexeme (by simp)).2
    have tail := induction (fun item member => formed item (by simp [member]))
    simp only [textOf, flatMap_cons, length_cons, length_append, Lexeme.text] at tail ⊢
    omega

theorem firstValue_textOf
    (formed : ∀ lexeme ∈ lexemes, lexeme.WellFormed)
    (value : IsValue maxNestingDepth (lexemes.map Lexeme.token)) {rest : Bytes}
    (ends : (∃ lexeme ∈ lexemes.getLast?, lexeme.token.isNumber = true) → NumberEnds rest) :
    firstValue (textOf lexemes ++ rest) = some (lexemes, rest) := by
  refine readValue_textOf formed value ?_ ?_ ends
  · rintro rfl
    exact isValue_ne_nil value rfl
  · have bound := length_le_textOf formed
    simp only [length_append]
    omega

theorem firstValue_sound {text rest : Bytes} (read : firstValue text = some (lexemes, rest)) :
    text = textOf lexemes ++ rest ∧ (∀ lexeme ∈ lexemes, lexeme.WellFormed) ∧
      IsValue maxNestingDepth (lexemes.map Lexeme.token) := by
  have sound := readValue_sound read
  exact ⟨sound.1, sound.2.2.1, sound.2.2.2⟩

theorem readValue_mono {larger : Nat} (le : limit ≤ larger) {fuel : Nat} {state : State}
    {text : Bytes} {result : List Lexeme × Bytes}
    (read : readValue limit fuel state text = some result) :
    readValue larger fuel state text = some result := by
  induction fuel generalizing state text result with
  | zero => simp [readValue] at read
  | succ fuel induction =>
    simp only [readValue] at read ⊢
    split at read
    · simp at read
    split at read
    · simp at read
    split at read
    · simp at read
    rename_i next stepped
    simp only [step_mono le stepped]
    split at read
    · simp_all
    · rename_i unfinished
      simp only [map_eq_some_iff] at read
      rcases read with ⟨inner, found, equal⟩
      simp [unfinished, induction found, equal]

theorem bare_wellFormed {tokens : List Token} (formed : ∀ token ∈ tokens, token.WellFormed) :
    ∀ lexeme ∈ bare tokens, lexeme.WellFormed := by
  intro lexeme member
  simp only [bare, List.mem_map] at member
  rcases member with ⟨token, member, rfl⟩
  exact ⟨rfl, formed token member⟩

theorem readValue_render {tokens : List Token} (written : Written limit tokens) (rest : Bytes)
    (ends : (∃ token ∈ tokens.getLast?, token.isNumber = true) → NumberEnds rest) :
    readValue limit (render tokens ++ rest).length .initial (render tokens ++ rest) =
      some (bare tokens, rest) := by
  have bareFormed := bare_wellFormed written.formed
  have bound := length_le_textOf bareFormed
  rw [← textOf_bare]
  refine readValue_textOf bareFormed (by rw [bare_tokens]; exact written.value) ?_ ?_ ?_
  · intro empty
    have same := bare_tokens tokens
    rw [empty] at same
    exact isValue_ne_nil written.value same.symm
  · simp only [length_append]
    omega
  · rintro ⟨lexeme, member, number⟩
    simp only [bare, getLast?_map, mem_def, map_eq_some_iff] at member
    rcases member with ⟨token, last, rfl⟩
    exact ends ⟨token, last, number⟩

theorem firstValue_render {tokens : List Token} (written : Written limit tokens) (rest : Bytes)
    (ends : (∃ token ∈ tokens.getLast?, token.isNumber = true) → NumberEnds rest) :
    firstValue (render tokens ++ rest) =
      if IsValue maxNestingDepth tokens then some (bare tokens, rest) else none := by
  split
  · rename_i within
    exact readValue_render ⟨written.formed, within⟩ rest ends
  · rename_i beyond
    by_contra found
    rcases ne_none_iff_exists'.mp found with ⟨⟨lexemes, others⟩, read⟩
    have sound := firstValue_sound read
    have larger := readValue_mono (Nat.le_max_left maxNestingDepth limit) read
    rw [readValue_render (written.mono (Nat.le_max_right _ _)) rest ends] at larger
    cases larger
    exact beyond (by simpa using sound.2.2)

private theorem isNumber_of_brace {rest text : Bytes}
    (formed : lexeme.WellFormed) (equal : lexeme.text ++ rest = 0x7B :: text) :
    lexeme.token.isNumber = false := by
  rcases lexeme with ⟨space, token⟩
  cases space with
  | cons byte space =>
    have blank := formed.1
    simp only [Lexeme.text, cons_append, cons.injEq] at equal
    simp [equal.1, isSpace] at blank
  | nil =>
    cases token with
    | number literal =>
      rcases numberLiteral_cons formed.2 with ⟨first, tail, shape, number⟩
      simp only [Lexeme.text, Token.text, shape, nil_append, cons_append, cons.injEq] at equal
      rw [equal.1] at number
      simp [isDigit] at number
    | _ => rfl

theorem firstValue_cut {tokens : List Token} (written : Written limit tokens)
    (object : tokens.head? = some .beginObject) {cut : Nat}
    (short : cut < (render tokens).length) : firstValue ((render tokens).take cut) = none := by
  by_contra found
  rcases ne_none_iff_exists'.mp found with ⟨⟨lexemes, rest⟩, read⟩
  rcases firstValue_sound read with ⟨divided, formed, value⟩
  obtain ⟨text, opens⟩ : ∃ text, render tokens = 0x7B :: text := by
    rcases tokens with _ | ⟨_, others⟩
    · simp at object
    · cases object
      exact ⟨render others, rfl⟩
  have whole : render tokens = textOf lexemes ++ (rest ++ (render tokens).drop cut) := by
    rw [← append_assoc, ← divided, take_append_drop]
  -- A value in the part that is no number is found in the whole text as well.
  have reread : firstValue (render tokens) = some (lexemes, rest ++ (render tokens).drop cut) := by
    nth_rewrite 1 [whole]
    refine firstValue_textOf formed value ?_
    rintro ⟨last, member, number⟩
    rcases eq_nil_or_concat' lexemes with rfl | ⟨initial, final, rfl⟩
    · simp at member
    simp only [getLast?_concat, mem_def, some.injEq] at member
    subst member
    have alone := isValue_number (by simpa using value) number
    simp only [map_eq_nil_iff] at alone
    subst alone
    rw [opens] at whole
    have starts := isNumber_of_brace (formed final (by simp)) (by simpa [textOf] using whole.symm)
    simp [number] at starts
  have ends : (∃ token ∈ tokens.getLast?, token.isNumber = true) → NumberEnds [] :=
    fun _ => by simp [NumberEnds]
  have direct := firstValue_render written [] ends
  rw [append_nil, reread] at direct
  split at direct
  · have left := (Prod.mk.inj (some.inj direct)).2
    simp only [append_eq_nil_iff, drop_eq_nil_iff] at left
    omega
  · simp at direct

theorem render_injective {left right : List Token}
    (leftWritten : Written limit left) (rightWritten : Written limit right)
    (equal : render left = render right) : left = right := by
  have leftRead := readValue_render leftWritten [] (by simp [NumberEnds])
  rw [equal, readValue_render rightWritten [] (by simp [NumberEnds])] at leftRead
  have same := congrArg (map Lexeme.token) (Prod.mk.inj (some.inj leftRead)).1
  simpa using same.symm

/-! ## Indented JSON

`json.MarshalIndent` puts white space between the tokens of a value and changes
nothing else, so the same tokens are read back. -/

def newline (depth : Nat) : Bytes := 0x0A :: List.replicate (2 * depth) 0x20

def Token.opens : Token → Bool
  | .beginObject | .beginArray => true
  | _ => false

def Token.closes : Token → Bool
  | .endObject | .endArray => true
  | _ => false

def spaceAfter (depth : Nat) : Token → Bytes
  | .comma => newline depth
  | .colon => [0x20]
  | _ => []

/-- Place tokens at a depth. `opened` tells that a container has just been opened;
its line break is put off, so that an empty one is written as `{}`. -/
def place (depth : Nat) (opened : Bool) (space : Bytes) : List Token → List Lexeme
  | [] => []
  | token :: rest =>
    if token.closes then
      if opened then ⟨space, token⟩ :: place depth false [] rest
      else ⟨newline (depth - 1), token⟩ :: place (depth - 1) false [] rest
    else if opened then
      ⟨newline (depth + 1), token⟩ ::
        place (depth + 1) token.opens (spaceAfter (depth + 1) token) rest
    else ⟨space, token⟩ :: place depth token.opens (spaceAfter depth token) rest

def indent (tokens : List Token) : List Lexeme := place 0 false [] tokens

def renderIndented (tokens : List Token) : Bytes := textOf (indent tokens) ++ [0x0A]

private theorem newline_isSpace (depth : Nat) : (newline depth).all isSpace = true := by
  simp only [newline, List.all_cons, List.all_replicate]
  simp [isSpace]

private theorem spaceAfter_isSpace (depth : Nat) (token : Token) :
    (spaceAfter depth token).all isSpace = true := by
  cases token with
  | comma => exact newline_isSpace depth
  | _ => rfl

private theorem place_tokens (tokens : List Token) (depth : Nat) (opened : Bool) (space : Bytes) :
    (place depth opened space tokens).map Lexeme.token = tokens := by
  induction tokens generalizing depth opened space with
  | nil => rfl
  | cons token rest induction =>
    simp only [place]
    split_ifs <;> simp [induction]

@[simp] theorem indent_tokens (tokens : List Token) : (indent tokens).map Lexeme.token = tokens :=
  place_tokens tokens 0 false []

private theorem place_wellFormed {tokens : List Token}
    (formed : ∀ token ∈ tokens, token.WellFormed) (depth : Nat) (opened : Bool) {space : Bytes}
    (blank : space.all isSpace = true) :
    ∀ lexeme ∈ place depth opened space tokens, lexeme.WellFormed := by
  induction tokens generalizing depth opened space with
  | nil => simp [place]
  | cons token rest induction =>
    have head := formed token (by simp)
    have tail := induction (fun other member => formed other (by simp [member]))
    simp only [place]
    split_ifs
    · simp only [List.forall_mem_cons]
      exact ⟨⟨blank, head⟩, tail _ _ rfl⟩
    · simp only [List.forall_mem_cons]
      exact ⟨⟨newline_isSpace _, head⟩, tail _ _ rfl⟩
    · simp only [List.forall_mem_cons]
      exact ⟨⟨newline_isSpace _, head⟩, tail _ _ (spaceAfter_isSpace _ _)⟩
    · simp only [List.forall_mem_cons]
      exact ⟨⟨blank, head⟩, tail _ _ (spaceAfter_isSpace _ _)⟩

private theorem numberEnds_newline : NumberEnds [0x0A] := by
  intro byte member
  simp only [List.head?_cons, Option.mem_def, Option.some.injEq] at member
  subst byte
  decide

theorem firstValue_renderIndented {tokens : List Token} (written : Written maxNestingDepth tokens) :
    firstValue (renderIndented tokens) = some (indent tokens, [0x0A]) := by
  apply firstValue_textOf
  · exact place_wellFormed written.formed 0 false rfl
  · rw [indent_tokens]
    exact written.value
  · intro _
    exact numberEnds_newline

end TelemetryForge.Json
