import TelemetryForge.Json.Quote
import TelemetryForge.Json.Read

/-! # Compacting embedded JSON

`json.Marshal` copies a `json.RawMessage` without its white space and with the HTML characters
and line separators of its strings escaped. -/

namespace TelemetryForge.Json

open List Option

def escapeHtml : Bytes → Bytes
  | [] => []
  | first :: second :: third :: others =>
    if isHtml first then
      unicodeEscape first.toNat ++ escapeHtml (second :: third :: others)
    else if [first, second, third] = lineSeparator then
      unicodeEscape 0x2028 ++ escapeHtml others
    else if [first, second, third] = paragraphSeparator then
      unicodeEscape 0x2029 ++ escapeHtml others
    else first :: escapeHtml (second :: third :: others)
  | first :: rest =>
    if isHtml first then unicodeEscape first.toNat ++ escapeHtml rest
    else first :: escapeHtml rest

def compactToken : Token → Token
  | .string raw => .string (escapeHtml raw)
  | token => token

def compactTokens (lexemes : List Lexeme) : List Token :=
  lexemes.map fun lexeme => compactToken lexeme.token

def compact (raw : Bytes) : Option (List Token) := (wholeValue raw).map compactTokens

theorem escapeHtml_html {first : UInt8} (html : isHtml first = true) (rest : Bytes) :
    escapeHtml (first :: rest) = unicodeEscape first.toNat ++ escapeHtml rest := by
  rcases rest with _ | ⟨second, _ | ⟨third, others⟩⟩ <;> simp [escapeHtml, html]

theorem escapeHtml_line (others : Bytes) :
    escapeHtml (lineSeparator ++ others) = unicodeEscape 0x2028 ++ escapeHtml others := rfl

theorem escapeHtml_paragraph (others : Bytes) :
    escapeHtml (paragraphSeparator ++ others) = unicodeEscape 0x2029 ++ escapeHtml others := rfl

structure Unescaped (first : UInt8) (rest : Bytes) : Prop where
  html : isHtml first = false
  line : ∀ others, first :: rest ≠ lineSeparator ++ others
  paragraph : ∀ others, first :: rest ≠ paragraphSeparator ++ others

theorem escapeHtml_kept {first : UInt8} {rest : Bytes} (unescaped : Unescaped first rest) :
    escapeHtml (first :: rest) = first :: escapeHtml rest := by
  rcases rest with _ | ⟨second, _ | ⟨third, others⟩⟩
  · simp [escapeHtml, unescaped.html]
  · simp [escapeHtml, unescaped.html]
  · have line : [first, second, third] ≠ lineSeparator := by
      intro equal
      exact unescaped.line others (by rw [← equal]; rfl)
    have paragraph : [first, second, third] ≠ paragraphSeparator := by
      intro equal
      exact unescaped.paragraph others (by rw [← equal]; rfl)
    simp [escapeHtml, unescaped.html, line, paragraph]

theorem escapeHtml_induction {motive : Bytes → Prop} (nil : motive [])
    (html : ∀ first rest, isHtml first = true → motive rest → motive (first :: rest))
    (line : ∀ others, motive others → motive (lineSeparator ++ others))
    (paragraph : ∀ others, motive others → motive (paragraphSeparator ++ others))
    (kept : ∀ first rest, Unescaped first rest → motive rest → motive (first :: rest))
    (text : Bytes) : motive text := by
  suffices ∀ (bound : Nat) (text : Bytes), text.length ≤ bound → motive text from
    this text.length text (Nat.le_refl _)
  intro bound
  induction bound with
  | zero =>
    intro text short
    obtain rfl : text = [] := length_eq_zero_iff.mp (by omega)
    exact nil
  | succ bound induction =>
    intro text short
    cases text with
    | nil => exact nil
    | cons first rest =>
      have shorter : rest.length ≤ bound := by simpa using short
      by_cases isHtml_ : isHtml first = true
      · exact html first rest isHtml_ (induction rest shorter)
      by_cases isLine : ∃ others, first :: rest = lineSeparator ++ others
      · rcases isLine with ⟨others, equal⟩
        rw [equal] at short ⊢
        exact line others (induction others (by simp [lineSeparator] at short; omega))
      by_cases isParagraph : ∃ others, first :: rest = paragraphSeparator ++ others
      · rcases isParagraph with ⟨others, equal⟩
        rw [equal] at short ⊢
        exact paragraph others (induction others (by simp [paragraphSeparator] at short; omega))
      · exact kept first rest
          ⟨by simpa using isHtml_, fun others equal => isLine ⟨others, equal⟩,
            fun others equal => isParagraph ⟨others, equal⟩⟩
          (induction rest shorter)

private theorem html_step : ∀ byte : UInt8, isHtml byte = true →
    stringStep .plain byte = some .plain ∧ isSimpleEscape byte = false ∧
      byte ≠ 0x75 ∧ isHex byte = false := by
  decide +kernel

private theorem plain_of_step {byte : UInt8} {state next : StringState}
    (notEscape : isSimpleEscape byte = false ∧ byte ≠ 0x75 ∧ isHex byte = false)
    (stepped : stringStep state byte = some next) : state = .plain := by
  cases state with
  | plain => rfl
  | escape => simp [stringStep, notEscape] at stepped
  | unicode remaining => simp [stringStep, notEscape] at stepped

private theorem separator_run {separator rest : Bytes} {state final : StringState}
    (separatorRun : stringRun .plain separator = some .plain) (head : separator.head? = some 0xE2)
    (result : stringRun state (separator ++ rest) = some final) :
    state = .plain ∧ stringRun .plain rest = some final := by
  rcases separator with _ | ⟨first, tail⟩
  · simp at head
  simp only [head?_cons, some.injEq] at head
  subst head
  have plain : state = .plain := by
    simp only [cons_append, stringRun, bind_eq_some_iff] at result
    rcases result with ⟨next, stepped, _⟩
    exact plain_of_step (by decide) stepped
  subst plain
  rw [stringRun_append, separatorRun] at result
  exact ⟨rfl, result⟩

private theorem stringRun_unicodeEscape (code : Nat) (rest : Bytes) :
    stringRun .plain (unicodeEscape code ++ rest) = stringRun .plain rest := by
  have escape : stringRun .plain (unicodeEscape code) = some .plain :=
    rawString_unicodeEscape code
  rw [stringRun_append, escape, bind_some]

theorem stringRun_escapeHtml {state final : StringState} {text : Bytes}
    (result : stringRun state text = some final) :
    stringRun state (escapeHtml text) = some final := by
  -- Escapes only replace text that is read in the plain state and leaves it there.
  induction text using escapeHtml_induction generalizing state with
  | nil => exact result
  | html first rest html induction =>
    simp only [stringRun, bind_eq_some_iff] at result
    rcases result with ⟨next, stepped, others⟩
    have table := html_step first html
    obtain rfl := plain_of_step table.2 stepped
    rw [table.1, some.injEq] at stepped
    subst next
    rw [escapeHtml_html html, stringRun_unicodeEscape]
    exact induction others
  | line others induction =>
    rcases separator_run (by decide) (by decide) result with ⟨rfl, remaining⟩
    rw [escapeHtml_line, stringRun_unicodeEscape]
    exact induction remaining
  | paragraph others induction =>
    rcases separator_run (by decide) (by decide) result with ⟨rfl, remaining⟩
    rw [escapeHtml_paragraph, stringRun_unicodeEscape]
    exact induction remaining
  | kept first rest unescaped induction =>
    rw [escapeHtml_kept unescaped]
    simp only [stringRun, bind_eq_some_iff] at result ⊢
    rcases result with ⟨next, stepped, remaining⟩
    exact ⟨next, stepped, induction remaining⟩

theorem escapeHtml_append_plain {left : Bytes} (right : Bytes)
    (plain : ∀ byte ∈ left, isHtml byte = false ∧ byte ≠ 0xE2) :
    escapeHtml (left ++ right) = left ++ escapeHtml right := by
  induction left with
  | nil => rfl
  | cons first rest induction =>
    have head := plain first (by simp)
    have tail := induction (fun byte member => plain byte (by simp [member]))
    rw [cons_append, escapeHtml_kept, tail, cons_append]
    refine ⟨head.1, ?_, ?_⟩ <;> intro others equal <;>
      exact head.2 (some.inj (congrArg head? equal))

private theorem hexDigit_plain {value : Nat} (bound : value < 16) :
    isHtml (hexDigit value) = false ∧ hexDigit value ≠ 0xE2 := by
  revert value
  decide

private theorem unicodeEscape_plain (code : Nat) :
    ∀ byte ∈ unicodeEscape code, isHtml byte = false ∧ byte ≠ 0xE2 := by
  have digit (value : Nat) := hexDigit_plain (Nat.mod_lt value (by decide : 0 < 16))
  simp only [unicodeEscape, forall_mem_cons]
  exact ⟨by decide, by decide, digit _, digit _, digit _, digit _, by simp⟩

private theorem escapeHtml_inverse {first : UInt8} {text rest : Bytes}
    (equal : escapeHtml text = first :: rest) (notBackslash : first ≠ 0x5C) :
    ∃ others, text = first :: others ∧ escapeHtml others = rest := by
  cases text using escapeHtml_induction with
  | nil => simp [escapeHtml] at equal
  | html head tail html =>
    rw [escapeHtml_html html] at equal
    exact absurd (cons.inj equal).1.symm notBackslash
  | line others => exact absurd (cons.inj equal).1.symm notBackslash
  | paragraph others => exact absurd (cons.inj equal).1.symm notBackslash
  | kept head tail unescaped =>
    rw [escapeHtml_kept unescaped] at equal
    rcases cons.inj equal with ⟨rfl, remaining⟩
    exact ⟨tail, rfl, remaining⟩

private theorem escapeHtml_separator {first second third : UInt8} {text others : Bytes}
    (equal : first :: escapeHtml text = [first, second, third] ++ others)
    (secondPlain : second ≠ 0x5C) (thirdPlain : third ≠ 0x5C) :
    ∃ rest, text = second :: third :: rest := by
  simp only [cons_append, nil_append, cons.injEq, true_and] at equal
  rcases escapeHtml_inverse equal secondPlain with ⟨tail, rfl, tailEqual⟩
  rcases escapeHtml_inverse tailEqual thirdPlain with ⟨rest, rfl, _⟩
  exact ⟨rest, rfl⟩

private theorem unescaped_escapeHtml {first : UInt8} {rest : Bytes}
    (unescaped : Unescaped first rest) : Unescaped first (escapeHtml rest) := by
  refine ⟨unescaped.html, ?_, ?_⟩
  · intro others equal
    obtain rfl : first = 0xE2 := some.inj (congrArg head? equal)
    rcases escapeHtml_separator equal (by decide) (by decide) with ⟨tail, rfl⟩
    exact unescaped.line tail rfl
  · intro others equal
    obtain rfl : first = 0xE2 := some.inj (congrArg head? equal)
    rcases escapeHtml_separator equal (by decide) (by decide) with ⟨tail, rfl⟩
    exact unescaped.paragraph tail rfl

@[simp] theorem escapeHtml_escapeHtml (text : Bytes) :
    escapeHtml (escapeHtml text) = escapeHtml text := by
  induction text using escapeHtml_induction with
  | nil => rfl
  | html first rest html induction =>
    rw [escapeHtml_html html, escapeHtml_append_plain _ (unicodeEscape_plain _), induction]
  | line others induction =>
    rw [escapeHtml_line, escapeHtml_append_plain _ (unicodeEscape_plain _), induction]
  | paragraph others induction =>
    rw [escapeHtml_paragraph, escapeHtml_append_plain _ (unicodeEscape_plain _), induction]
  | kept first rest unescaped induction =>
    rw [escapeHtml_kept unescaped, escapeHtml_kept (unescaped_escapeHtml unescaped), induction]

@[simp] theorem compactToken_compactToken (token : Token) :
    compactToken (compactToken token) = compactToken token := by
  cases token <;> simp [compactToken]

theorem compactToken_wellFormed {token : Token} (formed : token.WellFormed) :
    (compactToken token).WellFormed := by
  cases token with
  | string raw => exact stringRun_escapeHtml formed
  | _ => exact formed

theorem step_compactToken (limit : Nat) (state : State) (token : Token) :
    step limit state (compactToken token) = step limit state token := by
  cases token with
  | string raw =>
    rcases state with ⟨expects, stack⟩
    cases expects <;> rcases stack with _ | ⟨container, stack⟩ <;> try cases container
    all_goals rfl
  | _ => rfl

theorem run_compact (limit : Nat) (state : State) (tokens : List Token) :
    run limit state (tokens.map compactToken) = run limit state tokens := by
  induction tokens generalizing state with
  | nil => rfl
  | cons token rest induction => simp [run, step_compactToken, induction]

structure Compacted (tokens : List Token) : Prop extends
    Written maxNestingDepth tokens where
  fixed : tokens.map compactToken = tokens

theorem compact_compacted {raw : Bytes} {tokens : List Token}
    (compacted : compact raw = some tokens) : Compacted tokens := by
  simp only [compact, Option.map_eq_some_iff] at compacted
  rcases compacted with ⟨lexemes, whole, rfl⟩
  simp only [wholeValue] at whole
  split at whole
  · rename_i found rest read
    split at whole
    · cases whole
      rcases firstValue_sound read with ⟨_, formed, value⟩
      refine ⟨⟨?_, ?_⟩, ?_⟩
      · intro token member
        simp only [compactTokens, List.mem_map] at member
        rcases member with ⟨lexeme, member, rfl⟩
        exact compactToken_wellFormed (formed lexeme member).2
      · rw [IsValue, compactTokens, ← Function.comp_def compactToken, ← List.map_map, run_compact]
        exact value
      · simp [compactTokens]
    · simp at whole
  · simp at whole

theorem wholeValue_render {tokens : List Token} (written : Written maxNestingDepth tokens) :
    wholeValue (render tokens) = some (bare tokens) := by
  have read := firstValue_render written [] (by simp [NumberEnds])
  rw [append_nil, if_pos written.value] at read
  simp [wholeValue, read]

theorem compact_render {tokens : List Token} (compacted : Compacted tokens) :
    compact (render tokens) = some tokens := by
  rw [compact, wholeValue_render compacted.toWritten, Option.map_some,
    compactTokens, bare, List.map_map]
  exact congrArg some compacted.fixed

end TelemetryForge.Json
