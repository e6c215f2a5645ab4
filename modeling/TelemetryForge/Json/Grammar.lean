import TelemetryForge.Json.Token

/-! # JSON grammar

Which token sequences are values. The grammar is the pushdown automaton of Go's scanner: one
expectation, a stack of open containers and a bound on its height. -/

namespace TelemetryForge.Json

open List Option

inductive Container
  | object
  | array
deriving DecidableEq

inductive Expectation
  | value
  | firstElement
  | firstKey
  | key
  | colon
  | separator
deriving DecidableEq

structure State where
  expects : Expectation
  stack : List Container
deriving DecidableEq

def State.initial : State := ⟨.value, []⟩

def State.done : State := ⟨.separator, []⟩

/-- `encoding/json` refuses to open more containers than this. -/
def maxNestingDepth : Nat := 10000

def openContainer (limit : Nat) (stack : List Container) (container : Container)
    (expects : Expectation) : Option State :=
  if stack.length < limit then some ⟨expects, container :: stack⟩ else none

def stepValue (limit : Nat) (stack : List Container) : Token → Option State
  | .beginObject => openContainer limit stack .object .firstKey
  | .beginArray => openContainer limit stack .array .firstElement
  | .null | .boolean _ | .number _ | .string _ => some ⟨.separator, stack⟩
  | _ => none

def stepSeparator : List Container → Token → Option State
  | .object :: stack, .comma => some ⟨.key, .object :: stack⟩
  | .object :: stack, .endObject => some ⟨.separator, stack⟩
  | .array :: stack, .comma => some ⟨.value, .array :: stack⟩
  | .array :: stack, .endArray => some ⟨.separator, stack⟩
  | _, _ => none

def stepKey (stack : List Container) : Token → Option State
  | .string _ => some ⟨.colon, stack⟩
  | _ => none

def step (limit : Nat) (state : State) (token : Token) : Option State :=
  match state.expects with
  | .value => stepValue limit state.stack token
  | .firstElement =>
    match state.stack, token with
    | .array :: stack, .endArray => some ⟨.separator, stack⟩
    | stack, token => stepValue limit stack token
  | .firstKey =>
    match state.stack, token with
    | .object :: stack, .endObject => some ⟨.separator, stack⟩
    | stack, token => stepKey stack token
  | .key => stepKey state.stack token
  | .colon => if token = .colon then some ⟨.value, state.stack⟩ else none
  | .separator => stepSeparator state.stack token

def run (limit : Nat) : State → List Token → Option State
  | state, [] => some state
  | state, token :: rest => (step limit state token).bind (run limit · rest)

def IsValue (limit : Nat) (tokens : List Token) : Prop :=
  run limit .initial tokens = some .done

instance (limit : Nat) (tokens : List Token) : Decidable (IsValue limit tokens) :=
  inferInstanceAs (Decidable (_ = _))

@[simp] theorem step_done (limit : Nat) (token : Token) : step limit .done token = none := by
  cases token <;> rfl

theorem run_append (limit : Nat) (state : State) (left right : List Token) :
    run limit state (left ++ right) = (run limit state left).bind (run limit · right) := by
  induction left generalizing state with
  | nil => rfl
  | cons token rest induction =>
    simp only [cons_append, run]
    cases step limit state token with
    | none => rfl
    | some next => simp [induction]

variable {limit : Nat}

theorem run_done {tokens : List Token} {state : State}
    (result : run limit .done tokens = some state) : tokens = [] := by
  cases tokens with
  | nil => rfl
  | cons token rest => simp [run] at result

def State.under (state : State) (outer : List Container) : State :=
  ⟨state.expects, state.stack ++ outer⟩

variable {token : Token}

theorem step_under {state next : State}
    (result : step limit state token = some next) (outer : List Container) :
    step (limit + outer.length) (state.under outer) token = some (next.under outer) := by
  rcases state with ⟨expects, stack⟩
  cases expects <;> cases token <;> rcases stack with _ | ⟨container, stack⟩ <;>
    try cases container
  all_goals
    simp_all [step, stepValue, stepKey, stepSeparator, openContainer, State.under]
  all_goals
    first
    | (subst next; simp)
    | (rcases result with ⟨bound, rfl⟩; simp; try omega)

theorem run_under {state next : State} {tokens : List Token}
    (result : run limit state tokens = some next) (outer : List Container) :
    run (limit + outer.length) (state.under outer) tokens = some (next.under outer) := by
  induction tokens generalizing state with
  | nil =>
    simp only [run, some.injEq] at result ⊢
    rw [result]
  | cons token rest induction =>
    simp only [run, bind_eq_some_iff] at result ⊢
    rcases result with ⟨middle, first, others⟩
    exact ⟨_, step_under first outer, induction others⟩

theorem step_of_under {limit' : Nat} {state next final : State}
    {outer : List Container} (result : step limit' state token = some next)
    (inside : step (limit + outer.length) (state.under outer) token = some final) :
    step limit state token = some next ∧ final = next.under outer := by
  rcases state with ⟨expects, stack⟩
  cases expects <;> cases token <;> rcases stack with _ | ⟨container, stack⟩ <;>
    try cases container
  all_goals
    simp_all [step, stepValue, stepKey, stepSeparator, openContainer, State.under]
  all_goals
    first
    | (subst next; simp_all)
    | (rcases result with ⟨_, rfl⟩; rcases inside with ⟨bound, rfl⟩; simp; try omega)

theorem run_of_under {limit' : Nat} {state next final : State} {tokens : List Token}
    (outer : List Container) (result : run limit' state tokens = some next)
    (inside : run (limit + outer.length) (state.under outer) tokens = some final) :
    run limit state tokens = some next ∧ final = next.under outer := by
  induction tokens generalizing state with
  | nil =>
    simp only [run, some.injEq] at result inside ⊢
    exact ⟨result, by rw [← inside, result]⟩
  | cons token rest induction =>
    simp only [run, bind_eq_some_iff] at result inside ⊢
    rcases result with ⟨middle, first, others⟩
    rcases inside with ⟨inner, innerFirst, innerOthers⟩
    rcases step_of_under first innerFirst with ⟨lowered, rfl⟩
    rcases induction others innerOthers with ⟨rest, equal⟩
    exact ⟨⟨middle, lowered, rest⟩, equal⟩

variable {larger : Nat}

theorem step_mono (le : limit ≤ larger) {state next : State}
    (result : step limit state token = some next) :
    step larger state token = some next := by
  rcases state with ⟨expects, stack⟩
  cases expects <;> cases token <;> rcases stack with _ | ⟨container, stack⟩ <;>
    try cases container
  all_goals
    simp_all [step, stepValue, stepKey, stepSeparator, openContainer]
  all_goals omega

theorem run_mono (le : limit ≤ larger) {state next : State}
    {tokens : List Token} (result : run limit state tokens = some next) :
    run larger state tokens = some next := by
  induction tokens generalizing state with
  | nil => exact result
  | cons token rest induction =>
    simp only [run, bind_eq_some_iff] at result ⊢
    rcases result with ⟨middle, first, others⟩
    exact ⟨middle, step_mono le first, induction others⟩

theorem IsValue.mono {tokens : List Token}
    (value : IsValue limit tokens) (le : limit ≤ larger) : IsValue larger tokens :=
  run_mono le value

theorem step_last {state : State} (number : token.isNumber = true)
    {next : State} (result : step limit state token = some next) :
    next = ⟨.separator, state.stack⟩ := by
  rcases state with ⟨expects, stack⟩
  cases token <;> simp [Token.isNumber] at number
  cases expects <;> rcases stack with _ | ⟨container, stack⟩ <;> try cases container
  all_goals simp_all [step, stepValue, stepKey, stepSeparator]

theorem step_open {state next : State} (opened : state.stack ≠ [])
    (result : step limit state token = some next) : next.stack ≠ [] ∨ next = .done := by
  rcases state with ⟨expects, stack⟩
  rcases stack with _ | ⟨container, stack⟩
  · exact absurd rfl opened
  cases expects <;> cases container <;> cases token
  all_goals simp [step, stepValue, stepKey, stepSeparator, openContainer] at result
  all_goals first
    | (rw [← result]; simp; done)
    | (rw [← result.2]; simp)
    | (rw [← result]; rcases stack with _ | ⟨_, _⟩ <;> simp [State.done])

theorem run_open {tokens : List Token} {state final : State}
    (opened : state.stack ≠ []) (result : run limit state tokens = some final) :
    final.stack ≠ [] ∨ final = .done := by
  induction tokens generalizing state with
  | nil =>
    cases result
    exact .inl opened
  | cons token rest induction =>
    simp only [run, bind_eq_some_iff] at result
    rcases result with ⟨next, step, result⟩
    rcases step_open opened step with inside | rfl
    · exact induction inside result
    · cases run_done result
      cases result
      exact .inr rfl

theorem isValue_number {initial : List Token} {last : Token}
    (value : IsValue limit (initial ++ [last])) (number : last.isNumber = true) :
    initial = [] := by
  rw [IsValue, run_append, bind_eq_some_iff] at value
  rcases value with ⟨state, before, after⟩
  simp only [run, bind_eq_some_iff, some.injEq, exists_eq_right] at after
  have closed : state.stack = [] := (congrArg State.stack (step_last number after)).symm
  cases initial with
  | nil => rfl
  | cons token rest =>
    simp only [run, bind_eq_some_iff] at before
    rcases before with ⟨next, first, before⟩
    have reached : state.stack ≠ [] ∨ state = .done := by
      by_cases opened : next.stack = []
      · have scalar : next = .done := by
          cases token <;> simp [step, State.initial, stepValue, openContainer] at first
          all_goals grind [State.done]
        subst scalar
        cases run_done before
        cases before
        exact .inr rfl
      · exact run_open opened before
    rcases reached with inside | rfl
    · exact absurd closed inside
    · simp at after

/-! ## Taking the first value off a token sequence

The entries may carry more than a token (white space, for instance), so the
functions take the token of an entry as a parameter. -/

section Entries

variable {α : Type} (tokenOf : α → Token)

def takeValue (limit : Nat) : State → List α → Option (List α × List α)
  | _, [] => none
  | state, entry :: rest =>
    match step limit state (tokenOf entry) with
    | none => none
    | some next =>
      if next = .done then some ([entry], rest)
      else (takeValue limit next rest).map fun result => (entry :: result.1, result.2)

theorem takeValue_append {state : State} {value : List α}
    (result : run limit state (value.map tokenOf) = some .done) (nonempty : value ≠ [])
    (rest : List α) : takeValue tokenOf limit state (value ++ rest) = some (value, rest) := by
  induction value generalizing state with
  | nil => contradiction
  | cons entry others induction =>
    simp only [map_cons, run, bind_eq_some_iff] at result
    rcases result with ⟨next, first, remaining⟩
    simp only [cons_append, takeValue, first]
    by_cases finished : next = .done
    · subst finished
      have empty := run_done remaining
      simp only [map_eq_nil_iff] at empty
      simp [empty]
    · have more : others ≠ [] := by
        rintro rfl
        simp only [map_nil, run, some.injEq] at remaining
        exact finished remaining
      simp [finished, induction remaining more]

theorem takeValue_sound {state : State} {entries value rest : List α}
    (taken : takeValue tokenOf limit state entries = some (value, rest)) :
    entries = value ++ rest ∧ value ≠ [] ∧ run limit state (value.map tokenOf) = some .done := by
  induction entries generalizing state value with
  | nil => simp [takeValue] at taken
  | cons entry entries induction =>
    simp only [takeValue] at taken
    split at taken
    · simp at taken
    · rename_i next first
      split at taken
      · rename_i finished
        cases taken
        simp [run, first, finished]
      · simp only [map_eq_some_iff] at taken
        rcases taken with ⟨⟨others, remaining⟩, inner, equal⟩
        cases equal
        have sound := induction inner
        exact ⟨by simp [sound.1], by simp, by simp [run, first, sound.2.2]⟩

theorem takeValue_map {β : Type} (f : β → α) (limit : Nat) (state : State) (entries : List β) :
    takeValue tokenOf limit state (entries.map f) =
      (takeValue (tokenOf ∘ f) limit state entries).map
        fun result => (result.1.map f, result.2.map f) := by
  induction entries generalizing state with
  | nil => rfl
  | cons entry entries induction =>
    simp only [List.map_cons, takeValue, Function.comp_apply]
    cases step limit state (tokenOf (f entry)) with
    | none => rfl
    | some next =>
      dsimp only
      split
      · rfl
      · simp [induction, Option.map_map, Function.comp_def]

def takeMembers (limit : Nat) : Nat → List α → Option (List (Bytes × List α))
  | 0, _ => none
  | fuel + 1, key :: colon :: rest =>
    match tokenOf key, tokenOf colon with
    | .string raw, .colon =>
      match takeValue tokenOf limit .initial rest with
      | some (value, next :: others) =>
        match tokenOf next, others with
        | .comma, others =>
          (takeMembers limit fuel others).map ((raw, value) :: ·)
        | .endObject, [] => some [(raw, value)]
        | _, _ => none
      | _ => none
    | _, _ => none
  | _ + 1, _ => none

def takeObject (limit : Nat) : List α → Option (List (Bytes × List α))
  | first :: second :: rest =>
    match tokenOf first with
    | .beginObject =>
      if tokenOf second = .endObject ∧ rest = [] then some []
      else takeMembers tokenOf limit (rest.length + 1) (second :: rest)
    | _ => none
  | _ => none

theorem takeMembers_subset {fuel : Nat} {entries : List α} {members : List (Bytes × List α)}
    (taken : takeMembers tokenOf limit fuel entries = some members) :
    ∀ member ∈ members, ∀ entry ∈ member.2, entry ∈ entries := by
  induction fuel generalizing entries members with
  | zero => cases taken
  | succ fuel induction =>
    rcases entries with _ | ⟨key, _ | ⟨colon, rest⟩⟩
    · cases taken
    · cases taken
    simp only [takeMembers] at taken
    split at taken
    · split at taken
      · rename_i value next others found
        rcases (takeValue_sound tokenOf found).1 with rfl
        split at taken
        · simp only [map_eq_some_iff] at taken
          rcases taken with ⟨remaining, inner, rfl⟩
          rw [forall_mem_cons]
          refine ⟨by simp +contextual, fun member inside entry included => ?_⟩
          have listed := induction inner member inside entry included
          simp [listed]
        · cases taken
          simp +contextual
        · cases taken
      · cases taken
    · cases taken

theorem takeObject_subset {entries : List α} {members : List (Bytes × List α)}
    (taken : takeObject tokenOf limit entries = some members) :
    ∀ member ∈ members, ∀ entry ∈ member.2, entry ∈ entries := by
  rw [takeObject.eq_def] at taken
  split at taken
  · split at taken
    · split at taken
      · cases taken
        simp
      · intro member inside entry included
        exact mem_cons_of_mem _ (takeMembers_subset tokenOf taken member inside entry included)
    · cases taken
  · cases taken

theorem takeMembers_map {β : Type} (f : β → α) (limit fuel : Nat) (entries : List β) :
    takeMembers tokenOf limit fuel (entries.map f) =
      (takeMembers (tokenOf ∘ f) limit fuel entries).map
        (List.map fun member => (member.1, member.2.map f)) := by
  induction fuel generalizing entries with
  | zero => rfl
  | succ fuel induction =>
    rcases entries with _ | ⟨key, _ | ⟨colon, rest⟩⟩
    · rfl
    · rfl
    simp only [List.map_cons, takeMembers, Function.comp_apply]
    split
    · rw [takeValue_map]
      rcases takeValue (tokenOf ∘ f) limit .initial rest with _ | ⟨value, _ | ⟨next, others⟩⟩
      · rfl
      · rfl
      simp only [Option.map_some, List.map_cons]
      cases tokenOf (f next) <;> try rfl
      · cases others <;> rfl
      · simp [induction, Option.map_map, Function.comp_def]
    · rfl

theorem takeObject_map {β : Type} (f : β → α) (limit : Nat) (entries : List β) :
    takeObject tokenOf limit (entries.map f) =
      (takeObject (tokenOf ∘ f) limit entries).map
        (List.map fun member => (member.1, member.2.map f)) := by
  rcases entries with _ | ⟨first, _ | ⟨second, rest⟩⟩
  · rfl
  · rfl
  simp only [map_cons, takeObject, Function.comp_apply, map_eq_nil_iff]
  cases tokenOf (f first) <;> try rfl
  dsimp only
  split
  · rfl
  · have members := takeMembers_map tokenOf f limit (rest.length + 1) (second :: rest)
    simpa using members

end Entries

def memberTokens (member : Bytes × List Token) : List Token :=
  .string member.1 :: .colon :: member.2

def objectTail : List (Bytes × List Token) → List Token
  | [] => [.endObject]
  | member :: members => .comma :: (memberTokens member ++ objectTail members)

def objectTokens : List (Bytes × List Token) → List Token
  | [] => [.beginObject, .endObject]
  | member :: members => .beginObject :: (memberTokens member ++ objectTail members)

theorem objectTokens_head (members : List (Bytes × List Token)) :
    (objectTokens members).head? = some .beginObject := by
  cases members <;> rfl

theorem isValue_ne_nil {tokens : List Token} (value : IsValue limit tokens) :
    tokens ≠ [] := by
  rintro rfl
  simp [IsValue, run, State.initial, State.done] at value

theorem takeValue_of_isValue {value : List Token}
    (isValue : IsValue limit value) (rest : List Token) :
    takeValue id limit .initial (value ++ rest) = some (value, rest) :=
  takeValue_append id (by rw [List.map_id]; exact isValue) (isValue_ne_nil isValue) rest

theorem takeMembers_objectTail (member : Bytes × List Token) (members : List (Bytes × List Token))
    (values : ∀ item ∈ member :: members, IsValue limit item.2) (fuel : Nat)
    (enough : members.length < fuel) :
    takeMembers id limit fuel (memberTokens member ++ objectTail members) =
      some (member :: members) := by
  induction members generalizing member fuel with
  | nil =>
    rcases fuel with _ | fuel
    · omega
    have taken := takeValue_of_isValue (values member (by simp)) [Token.endObject]
    simp [memberTokens, objectTail, takeMembers, taken]
  | cons next members induction =>
    rcases fuel with _ | fuel
    · omega
    have taken := takeValue_of_isValue (values member (by simp)) (objectTail (next :: members))
    have others := induction next (fun item inside => values item (by simp_all)) fuel
      (by simpa using enough)
    simp only [objectTail] at taken ⊢
    simp only [memberTokens, cons_append] at others taken ⊢
    simp only [takeMembers, id_eq, taken, others, map_some]

theorem objectTail_length (members : List (Bytes × List Token)) :
    members.length < (objectTail members).length := by
  induction members with
  | nil => simp [objectTail]
  | cons member members induction =>
    simp only [objectTail, memberTokens, length_cons, length_append]
    omega

theorem takeObject_objectTokens (members : List (Bytes × List Token))
    (values : ∀ item ∈ members, IsValue limit item.2) :
    takeObject id limit (objectTokens members) = some members := by
  cases members with
  | nil => rfl
  | cons member members =>
    have taken := takeMembers_objectTail member members values
      ((Token.colon :: (member.2 ++ objectTail members)).length + 1)
      (by
        have bound := objectTail_length members
        simp only [length_cons, length_append]
        omega)
    simpa [objectTokens, memberTokens, takeObject] using taken

theorem run_value_inside {value : List Token} (isValue : IsValue limit value)
    (container : Container) :
    run (limit + 1) ⟨.value, [container]⟩ value = some ⟨.separator, [container]⟩ :=
  run_under isValue [container]

theorem run_objectTail (members : List (Bytes × List Token))
    (values : ∀ item ∈ members, IsValue limit item.2) :
    run (limit + 1) ⟨.separator, [.object]⟩ (objectTail members) = some .done := by
  induction members with
  | nil => rfl
  | cons member members induction =>
    have inner := run_value_inside (values member (by simp)) .object
    have others := induction (fun item inside => values item (by simp_all))
    simp [objectTail, memberTokens, run, step, stepSeparator, stepKey, run_append, inner, others]

theorem isValue_objectTokens {members : List (Bytes × List Token)}
    (values : ∀ item ∈ members, IsValue limit item.2) :
    IsValue (limit + 1) (objectTokens members) := by
  cases members with
  | nil => rfl
  | cons member members =>
    have inner := run_value_inside (values member (by simp)) .object
    have others := run_objectTail members (fun item inside => values item (by simp_all))
    simp [IsValue, objectTokens, memberTokens, State.initial, run, step, stepValue,
      openContainer, stepKey, run_append, inner, others]

private theorem isValue_of_tail {limit' : Nat} {members : List (Bytes × List Token)}
    {state : State} (values : ∀ item ∈ members, IsValue limit' item.2)
    (inside : run (limit + 1) ⟨.separator, [.object]⟩ (objectTail members) = some state) :
    ∀ item ∈ members, IsValue limit item.2 := by
  induction members with
  | nil => simp
  | cons member members induction =>
    simp only [objectTail, memberTokens, cons_append, run, step, stepSeparator,
      stepKey, if_true, bind_some, run_append, bind_eq_some_iff] at inside
    rcases inside with ⟨middle, inner, others⟩
    have lowered := run_of_under [.object] (values member (by simp)) inner
    rw [lowered.2] at others
    have rest := induction (fun item inside => values item (by simp_all)) others
    intro item position
    rcases mem_cons.mp position with rfl | position
    · exact lowered.1
    · exact rest item position

theorem isValue_of_objectTokens (limit' : Nat) {members : List (Bytes × List Token)}
    (values : ∀ item ∈ members, IsValue limit' item.2)
    (object : IsValue (limit + 1) (objectTokens members)) :
    ∀ item ∈ members, IsValue limit item.2 := by
  cases members with
  | nil => simp
  | cons member members =>
    simp only [IsValue, objectTokens, memberTokens, State.initial, cons_append, run, step,
      stepValue, openContainer, length_nil, Nat.zero_lt_succ, if_true, stepKey,
      bind_some, run_append, bind_eq_some_iff] at object
    rcases object with ⟨middle, inner, others⟩
    have lowered := run_of_under [.object] (values member (by simp)) inner
    rw [lowered.2] at others
    have rest := isValue_of_tail (fun item inside => values item (by simp_all)) others
    intro item position
    rcases mem_cons.mp position with rfl | position
    · exact lowered.1
    · exact rest item position

theorem wellFormed_objectTokens {members : List (Bytes × List Token)}
    (formed : ∀ member ∈ members, RawString member.1 ∧ ∀ token ∈ member.2, token.WellFormed) :
    ∀ token ∈ objectTokens members, token.WellFormed := by
  have ofMember {member : Bytes × List Token} (inside : member ∈ members) :
      ∀ token ∈ memberTokens member, token.WellFormed := by
    simp only [memberTokens, forall_mem_cons]
    exact ⟨(formed member inside).1, trivial, (formed member inside).2⟩
  have ofTail (rest : List (Bytes × List Token)) (inside : rest ⊆ members) :
      ∀ token ∈ objectTail rest, token.WellFormed := by
    induction rest with
    | nil => simp [objectTail, Token.WellFormed]
    | cons member rest induction =>
      rcases cons_subset.mp inside with ⟨head, tail⟩
      simp only [objectTail, forall_mem_cons, forall_mem_append]
      exact ⟨trivial, ofMember head, induction tail⟩
  cases members with
  | nil => simp [objectTokens, Token.WellFormed]
  | cons member rest =>
    simp only [objectTokens, forall_mem_cons, forall_mem_append]
    exact ⟨trivial, ofMember (by simp), ofTail rest (by simp)⟩

structure Written (limit : Nat) (tokens : List Token) : Prop where
  formed : ∀ token ∈ tokens, token.WellFormed
  value : IsValue limit tokens

theorem Written.mono {tokens : List Token} (written : Written limit tokens)
    (le : limit ≤ larger) : Written larger tokens :=
  ⟨written.formed, written.value.mono le⟩

theorem written_objectTokens {members : List (Bytes × List Token)}
    (written : ∀ member ∈ members, RawString member.1 ∧ Written limit member.2) :
    Written (limit + 1) (objectTokens members) where
  formed := wellFormed_objectTokens fun member inside =>
    ⟨(written member inside).1, (written member inside).2.formed⟩
  value := isValue_objectTokens fun member inside => (written member inside).2.value

theorem isValue_single (limit : Nat)
    (scalar : stepValue limit [] token = some .done) : IsValue limit [token] := by
  simp [IsValue, State.initial, run, step, scalar]

theorem written_string (limit : Nat) {raw : Bytes} (literal : RawString raw) :
    Written limit [.string raw] :=
  ⟨by simpa [Token.WellFormed] using literal, isValue_single limit rfl⟩

theorem written_number (limit : Nat) {literal : Bytes} (number : NumberLiteral literal) :
    Written limit [.number literal] :=
  ⟨by simpa [Token.WellFormed] using number, isValue_single limit rfl⟩

end TelemetryForge.Json
