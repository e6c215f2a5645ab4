import Mathlib

/-! # Calls that change a state and a disk

A call on an object keeps what it has done when it fails, and a crash can strike
after any of its writes. `Program` is a computation over the object's state and the
disk which records the disk after each write; `Ensures` states what holds along the
way and at the end, and its rules follow the steps of the computation. -/

namespace TelemetryForge

/-- What a call leaves behind. `writes` is the disk after each write, in order. -/
structure Outcome (σ δ ε α : Type) where
  result : Except ε α
  state : σ
  disk : δ
  writes : List δ

def Program (σ δ ε α : Type) : Type := σ → δ → Outcome σ δ ε α

namespace Program

variable {σ δ ε α β ι : Type}

def bind (first : Program σ δ ε α) (next : α → Program σ δ ε β) : Program σ δ ε β :=
  fun state disk =>
    let before := first state disk
    match before.result with
    | .error error => ⟨.error error, before.state, before.disk, before.writes⟩
    | .ok value =>
      let after := next value before.state before.disk
      { after with writes := before.writes ++ after.writes }

instance : Monad (Program σ δ ε) where
  pure value := fun state disk => ⟨.ok value, state, disk, []⟩
  bind := Program.bind

def fail (error : ε) : Program σ δ ε α := fun state disk => ⟨.error error, state, disk, []⟩

def lift (result : Except ε α) : Program σ δ ε α := fun state disk => ⟨result, state, disk, []⟩

def getState : Program σ δ ε σ := fun state disk => ⟨.ok state, state, disk, []⟩

def modify (change : σ → σ) : Program σ δ ε Unit :=
  fun state disk => ⟨.ok (), change state, disk, []⟩

def getDisk : Program σ δ ε δ := fun state disk => ⟨.ok disk, state, disk, []⟩

def write (change : δ → δ) : Program σ δ ε Unit :=
  fun state disk => ⟨.ok (), state, change disk, [change disk]⟩

def noting (part : Program σ δ ε α) (note : ε → σ → σ) : Program σ δ ε α :=
  fun state disk =>
    let outcome := part state disk
    match outcome.result with
    | .error error => { outcome with state := note error outcome.state }
    | .ok _ => outcome

def forEach (body : ι → Program σ δ ε Unit) : List ι → Program σ δ ε Unit
  | [] => pure ()
  | item :: rest => do
    body item
    forEach body rest

theorem bind_of_ok {program : Program σ δ ε α} {next : α → Program σ δ ε β} {state : σ} {disk : δ}
    {value : α} (ends : (program state disk).result = .ok value) : (program >>= next) state disk =
      { next value (program state disk).state (program state disk).disk with
        writes := (program state disk).writes ++
          (next value (program state disk).state (program state disk).disk).writes } := by
  have unfolded : (program >>= next) state disk = Program.bind program next state disk := rfl
  rw [unfolded, Program.bind]
  simp only [ends]

theorem getState_bind (next : σ → Program σ δ ε β) (state : σ) (disk : δ) :
    (getState >>= next) state disk = next state state disk :=
  bind_of_ok rfl

theorem getDisk_bind (next : δ → Program σ δ ε β) (state : σ) (disk : δ) :
    (getDisk >>= next) state disk = next disk state disk :=
  bind_of_ok rfl

theorem noting_of_ok {program : Program σ δ ε α} {note : ε → σ → σ} {state : σ} {disk : δ}
    {value : α} (ends : (program state disk).result = .ok value) :
    program.noting note state disk = program state disk := by
  simp only [noting, ends]

/-- From `state` and `disk`, every disk along the way satisfies `along`, and the end
satisfies `post`. -/
structure Ensures (program : Program σ δ ε α) (state : σ) (disk : δ) (along : δ → Prop)
    (post : Except ε α → σ → δ → Prop) : Prop where
  along : ∀ after ∈ (program state disk).writes, along after
  post : post (program state disk).result (program state disk).state (program state disk).disk

namespace Ensures

variable {program : Program σ δ ε α} {next : α → Program σ δ ε β} {state : σ} {disk : δ}
  {along : δ → Prop} {post : Except ε α → σ → δ → Prop} {after : Except ε β → σ → δ → Prop}

variable {post' : Except ε α → σ → δ → Prop}

theorem mono {along' : δ → Prop} (ensures : Ensures program state disk along post)
    (alongMono : ∀ disk, along disk → along' disk)
    (postMono : ∀ result state disk, post result state disk → post' result state disk) :
    Ensures program state disk along' post' :=
  ⟨fun after member => alongMono after (ensures.along after member), postMono _ _ _ ensures.post⟩

theorem imp (ensures : Ensures program state disk along post)
    (postMono : ∀ result state disk, post result state disk → post' result state disk) :
    Ensures program state disk along post' :=
  ensures.mono (fun _ passes => passes) postMono

theorem and (first : Ensures program state disk along post)
    (second : Ensures program state disk along post') :
    Ensures program state disk along fun result state disk =>
      post result state disk ∧ post' result state disk :=
  ⟨first.along, first.post, second.post⟩

theorem of_eq {other : Program σ δ ε α} (ensures : Ensures other state disk along post)
    (same : program state disk = other state disk) : Ensures program state disk along post := by
  rcases ensures with ⟨passes, ends⟩
  rw [← same] at passes ends
  exact ⟨passes, ends⟩

theorem pure {value : α} (holds : post (.ok value) state disk) :
    Ensures (Pure.pure value : Program σ δ ε α) state disk along post :=
  ⟨by simp [Pure.pure], holds⟩

theorem fail {error : ε} (holds : post (.error error) state disk) :
    Ensures (Program.fail error : Program σ δ ε α) state disk along post :=
  ⟨by simp [Program.fail], holds⟩

theorem lift {result : Except ε α} (holds : post result state disk) :
    Ensures (Program.lift result) state disk along post :=
  ⟨by simp [Program.lift], holds⟩

theorem write {change : δ → δ} {post : Except ε Unit → σ → δ → Prop}
    (passes : along (change disk)) (holds : post (.ok ()) state (change disk)) :
    Ensures (Program.write change) state disk along post :=
  ⟨by simpa [Program.write] using passes, holds⟩

theorem modify {change : σ → σ} {post : Except ε Unit → σ → δ → Prop}
    (holds : post (.ok ()) (change state) disk) :
    Ensures (Program.modify change) state disk along post :=
  ⟨by simp [Program.modify], holds⟩

theorem bind (first : Ensures program state disk along fun result state disk =>
    match result with
    | .ok value => Ensures (next value) state disk along after
    | .error error => after (.error error) state disk) :
    Ensures (program >>= next) state disk along after := by
  rcases first with ⟨passes, ends⟩
  have unfolded : (program >>= next) state disk = Program.bind program next state disk := rfl
  rcases outcome : program state disk with ⟨result, state', disk', writes⟩
  rw [outcome] at passes ends
  cases result with
  | error error =>
    constructor
    · simpa [unfolded, Program.bind, outcome] using passes
    · simpa [unfolded, Program.bind, outcome] using ends
  | ok value =>
    rcases ends with ⟨later, last⟩
    constructor
    · intro reached member
      simp only [unfolded, Program.bind, outcome, List.mem_append] at member
      exact member.elim (passes reached) (later reached)
    · simpa [unfolded, Program.bind, outcome] using last

theorem bind_ok {middle : α → σ → δ → Prop}
    (first : Ensures program state disk along fun result state disk =>
      ∃ value, result = .ok value ∧ middle value state disk)
    (rest : ∀ value state disk, middle value state disk →
      Ensures (next value) state disk along after) :
    Ensures (program >>= next) state disk along after := by
  apply bind
  apply first.imp
  rintro result state disk ⟨value, rfl, holds⟩
  exact rest value state disk holds

theorem ite {condition : Prop} [Decidable condition] {other : Program σ δ ε α}
    (holds : condition → Ensures program state disk along post)
    (fails : ¬condition → Ensures other state disk along post) :
    Ensures (if condition then program else other) state disk along post := by
  split_ifs with decided
  · exact holds decided
  · exact fails decided

theorem getState {next : σ → Program σ δ ε β} (rest : Ensures (next state) state disk along after) :
    Ensures (Program.getState >>= next) state disk along after :=
  bind ⟨by simp [Program.getState], rest⟩

theorem getDisk {next : δ → Program σ δ ε β} (rest : Ensures (next disk) state disk along after) :
    Ensures (Program.getDisk >>= next) state disk along after :=
  bind ⟨by simp [Program.getDisk], rest⟩

theorem lift_ok {value : α} (rest : Ensures (next value) state disk along after) :
    Ensures (Program.lift (.ok value) >>= next) state disk along after :=
  bind (lift rest)

theorem write_then {change : δ → δ} {next : Unit → Program σ δ ε β}
    (passes : along (change disk)) (rest : Ensures (next ()) state (change disk) along after) :
    Ensures (Program.write change >>= next) state disk along after :=
  bind (write passes rest)

theorem modify_then {change : σ → σ} {next : Unit → Program σ δ ε β}
    (rest : Ensures (next ()) (change state) disk along after) :
    Ensures (Program.modify change >>= next) state disk along after :=
  bind (modify rest)

theorem noting {note : ε → σ → σ}
    (ensures : Ensures program state disk along fun result state disk =>
      match result with
      | .ok value => post (.ok value) state disk
      | .error error => post (.error error) (note error state) disk) :
    Ensures (program.noting note) state disk along post := by
  rcases ensures with ⟨passes, ends⟩
  rcases outcome : program state disk with ⟨result, state', disk', writes⟩
  rw [outcome] at passes ends
  cases result with
  | error error => exact ⟨by simpa [Program.noting, outcome] using passes,
      by simpa [Program.noting, outcome] using ends⟩
  | ok value => exact ⟨by simpa [Program.noting, outcome] using passes,
      by simpa [Program.noting, outcome] using ends⟩

theorem forEach {body : ι → Program σ δ ε Unit} (invariant : List ι → σ → δ → Prop)
    (step : ∀ item rest state disk, invariant (item :: rest) state disk →
      Ensures (body item) state disk along fun result state disk =>
        result = .ok () ∧ invariant rest state disk)
    {items : List ι} (holds : invariant items state disk) :
    Ensures (Program.forEach body items) state disk along fun result state disk =>
      result = .ok () ∧ invariant [] state disk := by
  induction items generalizing state disk with
  | nil => exact pure ⟨rfl, holds⟩
  | cons item rest induction =>
    refine bind_ok (?_ : Ensures (body item) state disk along fun result state disk =>
      ∃ value, result = .ok value ∧ invariant rest state disk) ?_
    · apply (step item rest state disk holds).imp
      rintro result state disk ⟨rfl, kept⟩
      exact ⟨(), rfl, kept⟩
    · intro _ state disk kept
      exact induction kept

theorem forEach_keeps {body : ι → Program σ δ ε Unit} {items : List ι} (invariant : σ → δ → Prop)
    (step : ∀ item ∈ items, ∀ state disk, invariant state disk →
      Ensures (body item) state disk along fun _ state disk => invariant state disk)
    (holds : invariant state disk) :
    Ensures (Program.forEach body items) state disk along fun _ state disk =>
      invariant state disk := by
  induction items generalizing state disk with
  | nil => exact pure holds
  | cons item rest induction =>
    apply bind
    apply (step item List.mem_cons_self state disk holds).imp
    rintro (error | done) state disk kept
    · exact kept
    · exact induction (fun item member => step item (List.mem_cons_of_mem _ member)) kept

end Ensures

def Yields (program : Program σ δ ε α) (state : σ) (disk : δ) (along : δ → Prop) (value : α)
    (state' : σ) (disk' : δ) : Prop :=
  Ensures program state disk along fun result last final =>
    result = .ok value ∧ last = state' ∧ final = disk'

namespace Yields

variable {program : Program σ δ ε α} {next : α → Program σ δ ε β} {state state' : σ}
  {disk disk' : δ} {along : δ → Prop} {value : α} {after : Except ε β → σ → δ → Prop}

theorem pure (value : α) : Yields (Pure.pure value : Program σ δ ε α) state disk along value
    state disk :=
  Ensures.pure ⟨rfl, rfl, rfl⟩

theorem bind (first : Yields program state disk along value state' disk')
    (rest : Ensures (next value) state' disk' along after) :
    Ensures (program >>= next) state disk along after := by
  apply Ensures.bind
  apply first.imp
  rintro result last final ⟨rfl, rfl, rfl⟩
  exact rest

end Yields

end Program

end TelemetryForge

/-! ## Properties that a program leaves alone

`Preserves` is about a property of the state and one of the disk that hold before a program,
after each of its writes and at its end, whether it succeeds or fails. -/

namespace TelemetryForge.Program

variable {σ δ ε α β ι : Type}

def Preserves (onState : σ → Prop) (onDisk : δ → Prop) (program : Program σ δ ε α) : Prop :=
  ∀ state disk, onState state → onDisk disk →
    Ensures program state disk onDisk fun _ state disk => onState state ∧ onDisk disk

namespace Preserves

variable {onState : σ → Prop} {onDisk : δ → Prop} {program : Program σ δ ε α}

theorem pure (value : α) : Preserves onState onDisk (Pure.pure value : Program σ δ ε α) :=
  fun _ _ state disk => Ensures.pure ⟨state, disk⟩

theorem fail (error : ε) : Preserves onState onDisk (Program.fail error : Program σ δ ε α) :=
  fun _ _ state disk => Ensures.fail ⟨state, disk⟩

theorem lift (result : Except ε α) :
    Preserves onState onDisk (Program.lift result : Program σ δ ε α) :=
  fun _ _ state disk => Ensures.lift ⟨state, disk⟩

theorem modify {change : σ → σ} (keeps : ∀ state, onState state → onState (change state)) :
    Preserves onState onDisk (Program.modify change : Program σ δ ε Unit) :=
  fun _ _ state disk => Ensures.modify ⟨keeps _ state, disk⟩

theorem write {change : δ → δ} (keeps : ∀ disk, onDisk disk → onDisk (change disk)) :
    Preserves onState onDisk (Program.write change : Program σ δ ε Unit) :=
  fun _ _ state disk => Ensures.write (keeps _ disk) ⟨state, keeps _ disk⟩

theorem bind {next : α → Program σ δ ε β} (first : Preserves onState onDisk program)
    (rest : ∀ value, Preserves onState onDisk (next value)) :
    Preserves onState onDisk (program >>= next) := by
  intro state disk holds passes
  apply Ensures.bind
  apply (first state disk holds passes).imp
  intro result state disk kept
  cases result with
  | error error => exact kept
  | ok value => exact rest value state disk kept.1 kept.2

theorem getState {next : σ → Program σ δ ε β}
    (rest : ∀ state, Preserves onState onDisk (next state)) :
    Preserves onState onDisk (Program.getState >>= next) :=
  fun state disk holds passes => Ensures.getState (rest state state disk holds passes)

theorem getDisk {next : δ → Program σ δ ε β} (rest : ∀ disk, Preserves onState onDisk (next disk)) :
    Preserves onState onDisk (Program.getDisk >>= next) :=
  fun state disk holds passes => Ensures.getDisk (rest disk state disk holds passes)

theorem noting {note : ε → σ → σ} (keeps : Preserves onState onDisk program)
    (notes : ∀ error state, onState state → onState (note error state)) :
    Preserves onState onDisk (program.noting note) := by
  intro state disk holds passes
  apply Ensures.noting
  apply (keeps state disk holds passes).imp
  intro result state disk kept
  cases result with
  | error error => exact ⟨notes error state kept.1, kept.2⟩
  | ok value => exact kept

theorem forEach {body : ι → Program σ δ ε Unit}
    (keeps : ∀ item, Preserves onState onDisk (body item)) (items : List ι) :
    Preserves onState onDisk (Program.forEach body items) := by
  induction items with
  | nil => exact pure ()
  | cons item rest induction => exact bind (keeps item) fun _ => induction

theorem ite {condition : Prop} [Decidable condition] {other : Program σ δ ε α}
    (holds : Preserves onState onDisk program) (fails : Preserves onState onDisk other) :
    Preserves onState onDisk (if condition then program else other) := by
  split_ifs
  · exact holds
  · exact fails

end Preserves

end TelemetryForge.Program
