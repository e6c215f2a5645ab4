import TelemetryForge.Foundation.Machine
import TelemetryForge.Foundation.Strings

/-! # The configuration lifecycle

The tables of `storage/lifecycle.go` and the calls on them. A call reads and writes in
several statements, and other calls may take steps in between. A statement that a unique
index refuses changes nothing, so the indexes are left out. -/

namespace TelemetryForge.Lifecycle

inductive Kind
  | policy
  | shaping
  | routing
deriving DecidableEq

inductive State
  | draft
  | shadow
  | approved
  | scheduled
  | active
  | retired
deriving DecidableEq

def canTransition : (origin target : State) → Bool
  | .draft, .shadow | .draft, .retired => true
  | .shadow, .approved | .shadow, .retired => true
  | .approved, .scheduled | .approved, .active | .approved, .retired => true
  | .scheduled, .active | .scheduled, .retired => true
  | .active, .retired => true
  | .retired, .active => true
  | _, _ => false

inductive Result
  | pass
  | waived
  | fail
deriving DecidableEq

structure Artifact where
  kind : Kind
  state : State
  createdBy : Bytes
  scheduledFor : Option Int
  activatedAt : Option Int
  retiredAt : Option Int
deriving DecidableEq

structure Tables where
  artifacts : Bytes → Option Artifact
  approvals : Bytes → Option Bytes
  evidence : List (Bytes × Result)

namespace Tables

def empty : Tables := ⟨fun _ => none, fun _ => none, []⟩

def update (tables : Tables) (id : Bytes) (change : Artifact → Artifact) : Tables :=
  { tables with
    artifacts := Function.update tables.artifacts id ((tables.artifacts id).map change) }

def create (tables : Tables) (id : Bytes) (kind : Kind) (actor : Bytes) : Tables :=
  if trimSpace actor = [] ∨ (tables.artifacts id).isSome = true then tables
  else
    { tables with
      artifacts := Function.update tables.artifacts id
        (some ⟨kind, .draft, trimSpace actor, none, none, none⟩) }

def transition (tables : Tables) (id : Bytes) (origin target : State) (schedule : Option Int) :
    Tables :=
  tables.update id fun artifact =>
    if artifact.state = origin ∧ canTransition origin target = true then
      { artifact with state := target, scheduledFor := schedule }
    else artifact

def addEvidence (tables : Tables) (id : Bytes) (result : Result) : Tables :=
  if (tables.artifacts id).isSome = true then
    { tables with evidence := tables.evidence ++ [(id, result)] }
  else tables

def approve (tables : Tables) (id actor : Bytes) : Tables :=
  let approved := tables.update id fun artifact =>
    if artifact.state = .shadow then { artifact with state := .approved } else artifact
  { approved with approvals := Function.update tables.approvals id (some actor) }

def retireActive (kind : Kind) (now : Int) (artifact : Artifact) : Artifact :=
  if artifact.kind = kind ∧ artifact.state = .active then
    { artifact with state := .retired, retiredAt := some now }
  else artifact

/-- The transaction of `activateLifecycle`; it does not look at the state again. -/
def activate (tables : Tables) (id : Bytes) (kind : Kind) (now : Int) : Tables :=
  let retired : Tables :=
    { tables with
      artifacts := fun other => (tables.artifacts other).map (retireActive kind now) }
  retired.update id fun artifact =>
    { artifact with
      state := .active
      activatedAt := some now
      retiredAt := none
      scheduledFor := none }

def retire (tables : Tables) (id : Bytes) (now : Int) : Tables :=
  tables.update id fun artifact =>
    { artifact with state := .retired, retiredAt := some now, scheduledFor := none }

def hasApproval (tables : Tables) (id : Bytes) : Bool := (tables.approvals id).isSome

def accepted (tables : Tables) (id : Bytes) : Nat :=
  tables.evidence.countP fun entry => decide (entry = (id, .pass) ∨ entry = (id, .waived))

def failed (tables : Tables) (id : Bytes) : Nat :=
  tables.evidence.countP fun entry => decide (entry = (id, .fail))

def hasEvidence (tables : Tables) (id : Bytes) : Bool :=
  decide (¬0 < tables.failed id ∧ ¬tables.accepted id < 1)

end Tables

inductive Gates
  | unchecked
  | approval
  | evidence
deriving DecidableEq

inductive Call
  | approve (id actor : Bytes)
  | activate (id : Bytes) (kind : Kind) (gates : Gates)
  | rollback (id : Bytes) (kind : Kind)
  | retire (id : Bytes)
deriving DecidableEq

inductive Request
  | approve (id actor : Bytes)
  | activate (id : Bytes) (clock : Int)
  | rollback (id : Bytes)
  | retire (id : Bytes)
deriving DecidableEq

def Tables.begin (tables : Tables) : Request → Option Call
  | .approve id actor =>
    (tables.artifacts id).bind fun artifact =>
      let actor := trimSpace actor
      if actor = [] ∨ actor = artifact.createdBy ∨ artifact.state ≠ .shadow then none
      else some (.approve id actor)
  | .activate id clock =>
    (tables.artifacts id).bind fun artifact =>
      if artifact.state ≠ .approved ∧ artifact.state ≠ .scheduled then none
      else if artifact.state = .scheduled ∧ (artifact.scheduledFor.any fun time => clock < time)
        then none
      else some (.activate id artifact.kind .unchecked)
  | .rollback id =>
    (tables.artifacts id).bind fun artifact =>
      if artifact.state ≠ .retired then none else some (.rollback id artifact.kind)
  | .retire id =>
    (tables.artifacts id).bind fun artifact =>
      if artifact.state = .retired then none else some (.retire id)

def Tables.check (tables : Tables) : Call → Option Call
  | .activate id kind .unchecked =>
    if tables.hasApproval id then some (.activate id kind .approval) else none
  | .activate id kind .approval =>
    if tables.hasEvidence id then some (.activate id kind .evidence) else none
  | call => some call

def Tables.commit (tables : Tables) (now : Int) : Call → Tables
  | .approve id actor => tables.approve id actor
  | .activate id kind _ => tables.activate id kind now
  | .rollback id kind => tables.activate id kind now
  | .retire id => tables.retire id now

def Call.isReady : Call → Bool
  | .activate _ _ gates => decide (gates = .evidence)
  | .approve _ _ | .rollback _ _ | .retire _ => true

structure Board (ι : Type) where
  tables : Tables
  calls : ι → Option Call

inductive Action (ι : Type)
  | create (id : Bytes) (kind : Kind) (actor : Bytes)
  | shadow (id : Bytes)
  | schedule (id : Bytes) (time : Int)
  | evidence (id : Bytes) (result : Result)
  | begin (call : ι) (request : Request)
  | check (call : ι)
  | commit (call : ι) (now : Int)
  | abandon (call : ι)

namespace Board

variable {ι : Type} [DecidableEq ι]

def initial : Board ι := ⟨.empty, fun _ => none⟩

def setCall (board : Board ι) (call : ι) (value : Option Call) : Board ι :=
  { board with calls := Function.update board.calls call value }

def step (board : Board ι) : Action ι → Board ι
  | .create id kind actor => { board with tables := board.tables.create id kind actor }
  | .shadow id => { board with tables := board.tables.transition id .draft .shadow none }
  | .schedule id time =>
    { board with tables := board.tables.transition id .approved .scheduled (some time) }
  | .evidence id result => { board with tables := board.tables.addEvidence id result }
  | .begin call request => board.setCall call (board.tables.begin request)
  | .check call => board.setCall call ((board.calls call).bind board.tables.check)
  | .commit call now =>
    match board.calls call with
    | none => board
    | some pending => { board with tables := board.tables.commit now pending }.setCall call none
  | .abandon call => board.setCall call none

def Allowed (board : Board ι) : Action ι → Prop
  | .commit call _ => ∀ pending, board.calls call = some pending → pending.isReady = true
  | .create _ _ _ | .shadow _ | .schedule _ _ | .evidence _ _ | .begin _ _ | .check _
  | .abandon _ => True

def machine (ι : Type) [DecidableEq ι] : Machine (Board ι) (Action ι) := ⟨step, Allowed⟩

end Board

/-! ## The activation gates

The gates are checked by queries of their own before the transaction that activates, and not at
all for a rollback. -/

open Option

structure Gated (tables : Tables) (id : Bytes) : Prop where
  approved : ∃ artifact actor, tables.artifacts id = some artifact ∧
    tables.approvals id = some actor ∧ actor ≠ artifact.createdBy
  accepted : (id, .pass) ∈ tables.evidence ∨ (id, .waived) ∈ tables.evidence
  unfailed : (id, .fail) ∉ tables.evidence

namespace Tables

variable {tables : Tables} {id : Bytes}

theorem hasEvidence_iff : tables.hasEvidence id = true ↔
    ((id, .pass) ∈ tables.evidence ∨ (id, .waived) ∈ tables.evidence) ∧
      (id, .fail) ∉ tables.evidence := by
  simp only [hasEvidence, failed, accepted, decide_eq_true_eq, List.countP_pos_iff, Nat.lt_one_iff,
    List.countP_eq_zero]
  constructor
  · rintro ⟨unfailed, accepted⟩
    push Not at unfailed accepted
    rcases accepted with ⟨entry, member, rfl | rfl⟩
    · exact ⟨.inl member, fun failed => unfailed _ failed rfl⟩
    · exact ⟨.inr member, fun failed => unfailed _ failed rfl⟩
  · rintro ⟨accepted, unfailed⟩
    push Not
    refine ⟨fun entry member same => unfailed (same ▸ member), ?_⟩
    rcases accepted with member | member
    · exact ⟨_, member, .inl rfl⟩
    · exact ⟨_, member, .inr rfl⟩

theorem artifacts_update (tables : Tables) (id other : Bytes) (change : Artifact → Artifact) :
    (tables.update id change).artifacts other =
      if other = id then (tables.artifacts id).map change else tables.artifacts other := by
  unfold update
  by_cases same : other = id
  · simp [same]
  · simp [same]

/-- Artifacts keep their creator, an approval is only replaced by another, and evidence stays.
An artifact that has become active without having been so is one of `activated`. -/
structure Keeps (before after : Tables) (activated : Bytes → Prop) : Prop where
  creator : ∀ id artifact, before.artifacts id = some artifact →
    ∃ artifact', after.artifacts id = some artifact' ∧ artifact'.createdBy = artifact.createdBy
  approvals : ∀ id, before.hasApproval id = true → after.hasApproval id = true
  evidence : before.evidence ⊆ after.evidence
  active : ∀ id artifact', after.artifacts id = some artifact' → artifact'.state = .active →
    activated id ∨ ∃ artifact, before.artifacts id = some artifact ∧ artifact.state = .active ∧
      artifact.activatedAt = artifact'.activatedAt

theorem keeps_update (tables : Tables) (id : Bytes) {change : Artifact → Artifact}
    (creator : ∀ artifact, (change artifact).createdBy = artifact.createdBy)
    (active : ∀ artifact, (change artifact).state = .active →
      artifact.state = .active ∧ artifact.activatedAt = (change artifact).activatedAt) :
    Keeps tables (tables.update id change) fun _ => False where
  creator other artifact found := by
    rw [artifacts_update]
    by_cases same : other = id
    · subst same
      exact ⟨change artifact, by simp [found], creator artifact⟩
    · exact ⟨artifact, by rw [if_neg same, found], rfl⟩
  approvals _ held := held
  evidence := List.Subset.refl _
  active other artifact' found isActive := by
    rw [artifacts_update] at found
    by_cases same : other = id
    · subst same
      rw [if_pos rfl] at found
      rcases map_eq_some_iff.mp found with ⟨artifact, isArtifact, rfl⟩
      exact .inr ⟨artifact, isArtifact, active artifact isActive⟩
    · rw [if_neg same] at found
      exact .inr ⟨artifact', found, isActive, rfl⟩

theorem keeps_create (tables : Tables) (id : Bytes) (kind : Kind) (actor : Bytes) :
    Keeps tables (tables.create id kind actor) fun _ => False := by
  unfold create
  split_ifs with refused
  · exact ⟨fun _ artifact found => ⟨artifact, found, rfl⟩, fun _ held => held,
      List.Subset.refl _, fun _ artifact found isActive => .inr ⟨artifact, found, isActive, rfl⟩⟩
  · push Not at refused
    have absent : tables.artifacts id = none := not_isSome_iff_eq_none.mp (by simpa using refused.2)
    refine ⟨fun other artifact found => ?_, fun _ held => held, List.Subset.refl _,
      fun other artifact found isActive => ?_⟩
    · have different : other ≠ id := by
        rintro rfl
        simp [absent] at found
      exact ⟨artifact, by simp [different, found], rfl⟩
    · by_cases same : other = id
      · subst same
        simp only [Function.update_self, some.injEq] at found
        subst found
        cases isActive
      · simp only [Function.update_of_ne same] at found
        exact .inr ⟨artifact, found, isActive, rfl⟩

theorem keeps_transition (tables : Tables) (id : Bytes) {origin target : State}
    (passive : target ≠ .active) (schedule : Option Int) :
    Keeps tables (tables.transition id origin target schedule) fun _ => False := by
  refine keeps_update tables id (fun artifact => ?_) (fun artifact isActive => ?_)
  · split_ifs <;> rfl
  · by_cases moves : artifact.state = origin ∧ canTransition origin target = true
    · rw [if_pos moves] at isActive
      exact absurd isActive passive
    · rw [if_neg moves] at isActive ⊢
      exact ⟨isActive, rfl⟩

theorem keeps_shadow (tables : Tables) (id : Bytes) :
    Keeps tables (tables.transition id .draft .shadow none) fun _ => False :=
  keeps_transition tables id (by decide) none

theorem keeps_schedule (tables : Tables) (id : Bytes) (time : Int) :
    Keeps tables (tables.transition id .approved .scheduled (some time)) fun _ => False :=
  keeps_transition tables id (by decide) (some time)

theorem keeps_addEvidence (tables : Tables) (id : Bytes) (result : Result) :
    Keeps tables (tables.addEvidence id result) fun _ => False := by
  have same {evidence : List (Bytes × Result)} (more : tables.evidence ⊆ evidence) :
      Keeps tables { tables with evidence := evidence } fun _ => False :=
    ⟨fun _ artifact found => ⟨artifact, found, rfl⟩, fun _ held => held, more,
      fun _ artifact found isActive => .inr ⟨artifact, found, isActive, rfl⟩⟩
  unfold addEvidence
  split_ifs
  · exact same (List.subset_append_left _ _)
  · exact same (List.Subset.refl _)

theorem keeps_retire (tables : Tables) (id : Bytes) (now : Int) :
    Keeps tables (tables.retire id now) fun _ => False :=
  keeps_update tables id (fun _ => rfl) (by simp)

theorem keeps_approve (tables : Tables) (id actor : Bytes) :
    Keeps tables (tables.approve id actor) fun _ => False := by
  have keeps : Keeps tables (tables.update id fun artifact =>
        if artifact.state = .shadow then { artifact with state := .approved } else artifact)
      fun _ => False := by
    refine keeps_update tables id (fun artifact => ?_) (fun artifact isActive => ?_)
    · split_ifs <;> rfl
    · by_cases shadow : artifact.state = .shadow
      · simp [shadow] at isActive
      · rw [if_neg shadow] at isActive ⊢
        exact ⟨isActive, rfl⟩
  refine ⟨keeps.creator, fun other held => ?_, List.Subset.refl _, keeps.active⟩
  by_cases same : other = id
  · simp [approve, update, hasApproval, same]
  · simpa [approve, update, hasApproval, same] using held

theorem keeps_activate (tables : Tables) (id : Bytes) (kind : Kind) (now : Int) :
    Keeps tables (tables.activate id kind now) (· = id) := by
  have retired (artifact : Artifact) :
      (retireActive kind now artifact).createdBy = artifact.createdBy ∧
        ((retireActive kind now artifact).state = .active → artifact.state = .active ∧
          artifact.activatedAt = (retireActive kind now artifact).activatedAt) := by
    unfold retireActive
    split_ifs <;> simp
  refine ⟨fun other artifact found => ?_, fun _ held => held, List.Subset.refl _,
    fun other artifact' found isActive => ?_⟩
  · unfold activate
    rw [artifacts_update]
    by_cases same : other = id
    · rw [if_pos same, ← same]
      dsimp only
      rw [found]
      exact ⟨_, rfl, (retired artifact).1⟩
    · rw [if_neg same]
      dsimp only
      rw [found]
      exact ⟨_, rfl, (retired artifact).1⟩
  · unfold activate at found
    rw [artifacts_update] at found
    by_cases same : other = id
    · exact .inl same
    · rw [if_neg same] at found
      rcases map_eq_some_iff.mp found with ⟨artifact, isArtifact, rfl⟩
      exact .inr ⟨artifact, isArtifact, (retired artifact).2 isActive⟩

theorem activatedAt_activate {tables : Tables} {id : Bytes} {kind : Kind} {now : Int}
    {artifact : Artifact} (found : (tables.activate id kind now).artifacts id = some artifact) :
    artifact.activatedAt = some now := by
  unfold activate at found
  rw [artifacts_update, if_pos rfl] at found
  rcases map_eq_some_iff.mp found with ⟨_, _, rfl⟩
  rfl

end Tables

def Call.Backed (tables : Tables) : Call → Prop
  | .approve id actor => ∃ artifact, tables.artifacts id = some artifact ∧ actor ≠ artifact.createdBy
  | .activate id _ gates => (gates ≠ .unchecked → tables.hasApproval id = true) ∧
      (gates = .evidence → (id, .pass) ∈ tables.evidence ∨ (id, .waived) ∈ tables.evidence)
  | .rollback _ _ | .retire _ => True

variable {activated : Bytes → Prop}

theorem Call.Backed.keep {before after : Tables}
    (keeps : Tables.Keeps before after activated) {call : Call} (backed : call.Backed before) :
    call.Backed after := by
  cases call with
  | approve id actor =>
    rcases backed with ⟨artifact, found, other⟩
    rcases keeps.creator id artifact found with ⟨artifact', found', creator⟩
    exact ⟨artifact', found', creator ▸ other⟩
  | activate id kind gates =>
    refine ⟨fun checked => keeps.approvals id (backed.1 checked), fun checked => ?_⟩
    exact (backed.2 checked).imp (fun member => keeps.evidence member)
      (fun member => keeps.evidence member)
  | rollback id kind => trivial
  | retire id => trivial

theorem Call.backed_begin {tables : Tables} {request : Request} {call : Call}
    (begun : tables.begin request = some call) : call.Backed tables := by
  cases request with
  | approve id actor =>
    rcases bind_eq_some_iff.mp begun with ⟨artifact, found, begun⟩
    dsimp only at begun
    split_ifs at begun with refused
    cases begun
    push Not at refused
    exact ⟨artifact, found, refused.2.1⟩
  | activate id clock =>
    rcases bind_eq_some_iff.mp begun with ⟨artifact, found, begun⟩
    split_ifs at begun
    cases begun
    exact ⟨fun checked => absurd rfl checked, nofun⟩
  | rollback id =>
    rcases bind_eq_some_iff.mp begun with ⟨artifact, found, begun⟩
    split_ifs at begun
    cases begun
    trivial
  | retire id =>
    rcases bind_eq_some_iff.mp begun with ⟨artifact, found, begun⟩
    split_ifs at begun
    cases begun
    trivial

theorem Call.backed_check {tables : Tables} {call checked : Call} (backed : call.Backed tables)
    (passed : tables.check call = some checked) : checked.Backed tables := by
  unfold Tables.check at passed
  split at passed
  · split_ifs at passed with approval
    cases passed
    exact ⟨fun _ => approval, nofun⟩
  · split_ifs at passed with evidence
    cases passed
    exact ⟨fun _ => backed.1 nofun, fun _ => (Tables.hasEvidence_iff.mp evidence).1⟩
  · cases passed
    exact backed

def Call.Guarded (tables : Tables) : Call → Prop
  | .rollback id _ => ((tables.artifacts id).bind Artifact.activatedAt).isSome = true
  | .activate id _ _ => (id, .fail) ∉ tables.evidence
  | .approve _ _ | .retire _ => True

instance (tables : Tables) (call : Call) : Decidable (call.Guarded tables) := by
  cases call <;> unfold Call.Guarded <;> infer_instance

namespace Board

variable {ι : Type}

structure Sound (board : Board ι) : Prop where
  approvals : ∀ id actor, board.tables.approvals id = some actor →
    ∃ artifact, board.tables.artifacts id = some artifact ∧ actor ≠ artifact.createdBy
  calls : ∀ call pending, board.calls call = some pending → pending.Backed board.tables
  activated : ∀ id artifact, board.tables.artifacts id = some artifact → artifact.state = .active →
    artifact.activatedAt ≠ none

def FirstActive (before after : Board ι) (id : Bytes) : Prop :=
  (∀ artifact, before.tables.artifacts id = some artifact → artifact.activatedAt = none) ∧
    ∃ artifact, after.tables.artifacts id = some artifact ∧ artifact.state = .active

def Guarded (board : Board ι) : Action ι → Prop
  | .commit call _ => ∀ pending, board.calls call = some pending → pending.Guarded board.tables
  | .create _ _ _ | .shadow _ | .schedule _ _ | .evidence _ _ | .begin _ _ | .check _
  | .abandon _ => True

namespace Sound

variable {board : Board ι}

theorem initial : (Board.initial : Board ι).Sound where
  approvals _ _ found := by simp [Board.initial, Tables.empty] at found
  calls _ _ found := by simp [Board.initial] at found
  activated _ _ found := by simp [Board.initial, Tables.empty] at found

theorem keep (sound : board.Sound) {after : Tables}
    (keeps : Tables.Keeps board.tables after activated)
    (approvals : after.approvals = board.tables.approvals)
    (stamped : ∀ id artifact, activated id → after.artifacts id = some artifact →
      artifact.activatedAt ≠ none) : Sound { board with tables := after } where
  approvals id actor found := by
    rcases sound.approvals id actor (by rw [← approvals]; exact found) with
      ⟨artifact, isArtifact, other⟩
    rcases keeps.creator id artifact isArtifact with ⟨artifact', isArtifact', creator⟩
    exact ⟨artifact', isArtifact', creator ▸ other⟩
  calls call pending found := (sound.calls call pending found).keep keeps
  activated id artifact' found isActive := by
    rcases keeps.active id artifact' found isActive with now | ⟨artifact, isArtifact, was, same⟩
    · exact stamped id artifact' now found
    · exact same ▸ sound.activated id artifact isArtifact was

theorem approve (sound : board.Sound) {id actor : Bytes}
    (backed : (Call.approve id actor).Backed board.tables) :
    Sound { board with tables := board.tables.approve id actor } := by
  have keeps := Tables.keeps_approve board.tables id actor
  refine ⟨fun other approver found => ?_, fun call pending found => ?_,
    fun other artifact' found isActive => ?_⟩
  · have held : ∃ artifact, board.tables.artifacts other = some artifact ∧
        approver ≠ artifact.createdBy := by
      by_cases same : other = id
      · subst same
        simp only [Tables.approve, Function.update_self, some.injEq] at found
        subst found
        exact backed
      · simp only [Tables.approve, Function.update_of_ne same] at found
        exact sound.approvals other approver found
    rcases held with ⟨artifact, isArtifact, different⟩
    rcases keeps.creator other artifact isArtifact with ⟨artifact', isArtifact', creator⟩
    exact ⟨artifact', isArtifact', creator ▸ different⟩
  · exact (sound.calls call pending found).keep keeps
  · rcases keeps.active other artifact' found isActive with none | ⟨artifact, isArtifact, was, same⟩
    · cases none
    · exact same ▸ sound.activated other artifact isArtifact was

theorem activate (sound : board.Sound) (id : Bytes) (kind : Kind) (now : Int) :
    Sound { board with tables := board.tables.activate id kind now } := by
  refine sound.keep (Tables.keeps_activate board.tables id kind now) rfl ?_
  rintro _ artifact rfl found
  rw [Tables.activatedAt_activate found]
  exact nofun

theorem commit (sound : board.Sound) {call : ι} {pending : Call}
    (found : board.calls call = some pending) (now : Int) :
    Sound { board with tables := board.tables.commit now pending } := by
  cases pending with
  | approve id actor => exact sound.approve (sound.calls call _ found)
  | activate id kind gates => exact sound.activate id kind now
  | rollback id kind => exact sound.activate id kind now
  | retire id => exact sound.keep (Tables.keeps_retire board.tables id now) rfl nofun

theorem activated_of_firstActive (sound : board.Sound) {after : Board ι}
    (keeps : Tables.Keeps board.tables after.tables activated)
    {id : Bytes} (first : FirstActive board after id) : activated id := by
  rcases first with ⟨never, artifact', found, isActive⟩
  rcases keeps.active id artifact' found isActive with now | ⟨artifact, isArtifact, was, _⟩
  · exact now
  · exact absurd (never artifact isArtifact) (sound.activated id artifact isArtifact was)

theorem not_firstActive_of_same (sound : board.Sound) {after : Board ι}
    (same : after.tables = board.tables) (id : Bytes) : ¬FirstActive board after id := by
  rintro ⟨never, artifact, found, isActive⟩
  rw [same] at found
  exact sound.activated id artifact found isActive (never artifact found)

theorem gated_activate (sound : board.Sound) {call : ι} {id : Bytes} {kind : Kind}
    (found : board.calls call = some (.activate id kind .evidence))
    (unfailed : (id, .fail) ∉ board.tables.evidence) (now : Int) :
    Gated (board.tables.activate id kind now) id := by
  have backed := sound.calls call _ found
  have approved := backed.1 nofun
  rcases isSome_iff_exists.mp approved with ⟨actor, isActor⟩
  rcases sound.approvals id actor isActor with ⟨artifact, isArtifact, other⟩
  rcases (Tables.keeps_activate board.tables id kind now).creator id artifact isArtifact with
    ⟨artifact', isArtifact', creator⟩
  exact ⟨⟨artifact', actor, isArtifact', isActor, creator ▸ other⟩, backed.2 rfl, unfailed⟩

variable [DecidableEq ι]

theorem setCall (sound : board.Sound) (call : ι) {value : Option Call}
    (backed : ∀ pending, value = some pending → pending.Backed board.tables) :
    (board.setCall call value).Sound where
  approvals := sound.approvals
  calls other pending found := by
    by_cases same : other = call
    · subst same
      simp only [Board.setCall, Function.update_self] at found
      exact backed pending found
    · simp only [Board.setCall, Function.update_of_ne same] at found
      exact sound.calls other pending found
  activated := sound.activated

theorem step (sound : board.Sound) (action : Action ι) : (board.step action).Sound := by
  cases action with
  | create id kind actor =>
    refine sound.keep (Tables.keeps_create board.tables id kind actor) ?_ nofun
    unfold Tables.create
    split_ifs <;> rfl
  | shadow id => exact sound.keep (Tables.keeps_shadow board.tables id) rfl nofun
  | schedule id time => exact sound.keep (Tables.keeps_schedule board.tables id time) rfl nofun
  | evidence id result =>
    refine sound.keep (Tables.keeps_addEvidence board.tables id result) ?_ nofun
    unfold Tables.addEvidence
    split_ifs <;> rfl
  | begin call request => exact sound.setCall call fun _ begun => Call.backed_begin begun
  | check call =>
    refine sound.setCall call fun checked passed => ?_
    rcases bind_eq_some_iff.mp passed with ⟨pending, found, passed⟩
    exact Call.backed_check (sound.calls call pending found) passed
  | commit call now =>
    simp only [Board.step]
    cases found : board.calls call with
    | none => exact sound
    | some pending => exact (sound.commit found now).setCall call nofun
  | abandon call => exact sound.setCall call nofun

theorem step_gated (sound : board.Sound) {action : Action ι} (allowed : board.Allowed action)
    (guarded : board.Guarded action) {id : Bytes}
    (first : FirstActive board (board.step action) id) : Gated (board.step action).tables id := by
  cases action with
  | create other kind actor =>
    cases sound.activated_of_firstActive (Tables.keeps_create board.tables other kind actor) first
  | shadow other =>
    cases sound.activated_of_firstActive (Tables.keeps_shadow board.tables other) first
  | schedule other time =>
    cases sound.activated_of_firstActive (Tables.keeps_schedule board.tables other time) first
  | evidence other result =>
    cases sound.activated_of_firstActive (Tables.keeps_addEvidence board.tables other result) first
  | begin call request =>
    exact absurd first (sound.not_firstActive_of_same rfl id)
  | check call => exact absurd first (sound.not_firstActive_of_same rfl id)
  | abandon call => exact absurd first (sound.not_firstActive_of_same rfl id)
  | commit call now =>
    simp only [Board.step] at first ⊢
    cases found : board.calls call with
    | none =>
      rw [found] at first
      exact absurd first (sound.not_firstActive_of_same rfl id)
    | some pending =>
      rw [found] at first
      have ready := allowed pending found
      have condition := guarded pending found
      cases pending with
      | approve other actor =>
        cases sound.activated_of_firstActive (Tables.keeps_approve board.tables other actor) first
      | retire other =>
        cases sound.activated_of_firstActive (Tables.keeps_retire board.tables other now) first
      | rollback other kind =>
        have same := sound.activated_of_firstActive
          (Tables.keeps_activate board.tables other kind now) first
        subst same
        rcases isSome_iff_exists.mp condition with ⟨time, activated⟩
        rcases bind_eq_some_iff.mp activated with ⟨artifact, isArtifact, before⟩
        rw [first.1 artifact isArtifact] at before
        cases before
      | activate other kind gates =>
        have same := sound.activated_of_firstActive
          (Tables.keeps_activate board.tables other kind now) first
        subst same
        have checked : gates = .evidence := of_decide_eq_true ready
        subst checked
        exact sound.gated_activate found condition now

end Sound

variable [DecidableEq ι]

def guardedMachine (ι : Type) [DecidableEq ι] : Machine (Board ι) (Action ι) :=
  ⟨step, fun board action => board.Allowed action ∧ board.Guarded action⟩

instance (board : Board ι) (action : Action ι) : Decidable (board.Allowed action) := by
  cases action with
  | commit call now =>
    refine decidable_of_iff (((board.calls call).all Call.isReady) = true) ?_
    simp [Allowed, Option.all_eq_true]
  | _ => exact isTrue trivial

instance (board : Board ι) (action : Action ι) : Decidable (board.Guarded action) := by
  cases action with
  | commit call now =>
    refine decidable_of_iff
      (((board.calls call).all fun pending => decide (pending.Guarded board.tables)) = true) ?_
    simp [Guarded, Option.all_eq_true]
  | _ => exact isTrue trivial

instance (board : Board ι) (action : Action ι) : Decidable ((machine ι).allowed board action) :=
  inferInstanceAs (Decidable (board.Allowed action))

instance (board : Board ι) (action : Action ι) :
    Decidable ((guardedMachine ι).allowed board action) :=
  inferInstanceAs (Decidable (_ ∧ _))

end Board

namespace Sample

def id : Bytes := ascii "CFG-1"

def rolledBack : List (Action Unit) :=
  [.create id .policy (ascii "ann"), .begin () (.retire id), .commit () 1, .begin () (.rollback id)]

def reviewed : List (Action Unit) :=
  [.create id .policy (ascii "ann"), .shadow id, .begin () (.approve id (ascii "bob")),
    .commit () 1, .evidence id .pass, .begin () (.activate id 2), .check (), .check ()]

def overtaken : List (Action Unit) := reviewed ++ [.evidence id .fail]

end Sample

end TelemetryForge.Lifecycle
