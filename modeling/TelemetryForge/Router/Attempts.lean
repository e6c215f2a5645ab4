import TelemetryForge.Router.Fencing

/-! # The rows of a board

What one step of the lanes does to a row and to what a lane has in hand, and which rows it
inserts. -/

namespace TelemetryForge.Router

open Option

structure Row.SameIntent (row row' : Row) : Prop where
  attempts : row'.attempts = row.attempts
  maxAttempts : row'.maxAttempts = row.maxAttempts
  failureFallback : row'.failureFallback = row.failureFallback

theorem Row.SameIntent.refl (row : Row) : row.SameIntent row := ⟨rfl, rfl, rfl⟩

namespace Outbox

def insertAll (outbox : Outbox) (rows : List (DeliveryKey × Row)) : Outbox :=
  rows.foldl (fun outbox (key, row) => outbox.insertDelivery key row) outbox

def insertions (outbox : Outbox) : List (DeliveryKey × Row) → List DeliveryKey
  | [] => []
  | (key, row) :: rest =>
    match outbox.deliveries key with
    | some _ => (outbox.insertDelivery key row).insertions rest
    | none => key :: (outbox.insertDelivery key row).insertions rest

theorem insertDelivery_isSome (outbox : Outbox) (key other : DeliveryKey) (row : Row) :
    ((outbox.insertDelivery key row).deliveries other).isSome = true ↔
      (outbox.deliveries other).isSome = true ∨ other = key := by
  rw [deliveries_insertDelivery]
  by_cases same : other = key
  · simp [same]
  · simp [same]

theorem insertAll_isSome (outbox : Outbox) (rows : List (DeliveryKey × Row)) (key : DeliveryKey) :
    ((outbox.insertAll rows).deliveries key).isSome = true ↔
      (outbox.deliveries key).isSome = true ∨ ∃ row, (key, row) ∈ rows := by
  induction rows generalizing outbox with
  | nil => simp [insertAll]
  | cons entry rest induction =>
    rcases entry with ⟨other, row⟩
    have unfolded : outbox.insertAll ((other, row) :: rest) =
        (outbox.insertDelivery other row).insertAll rest := rfl
    rw [unfolded, induction, insertDelivery_isSome]
    by_cases same : key = other
    · simp [same]
    · simp [same]

variable {outbox : Outbox} {rows : List (DeliveryKey × Row)}

theorem insertAll_row {key : DeliveryKey}
    {row : Row} (found : (outbox.insertAll rows).deliveries key = some row) :
    outbox.deliveries key = some row ∨ outbox.deliveries key = none ∧ (key, row) ∈ rows := by
  induction rows generalizing outbox with
  | nil => exact .inl found
  | cons entry rest induction =>
    rcases entry with ⟨other, inserted⟩
    rcases induction found with
      kept | ⟨absent, member⟩
    · rw [deliveries_insertDelivery] at kept
      split_ifs at kept with same
      · subst same
        cases before : outbox.deliveries key with
        | none =>
          rw [before] at kept
          cases kept
          exact .inr ⟨rfl, List.mem_cons_self⟩
        | some held =>
          rw [before] at kept
          exact .inl kept
      · exact .inl kept
    · rw [← not_isSome_iff_eq_none, insertDelivery_isSome, not_or, not_isSome_iff_eq_none] at absent
      exact .inr ⟨absent.1, List.mem_cons_of_mem _ member⟩

theorem insertions_absent {key : DeliveryKey}
    (member : key ∈ outbox.insertions rows) : outbox.deliveries key = none := by
  induction rows generalizing outbox with
  | nil => cases member
  | cons entry rest induction =>
    rcases entry with ⟨other, row⟩
    have later (inRest : key ∈ (outbox.insertDelivery other row).insertions rest) :
        outbox.deliveries key = none := by
      have absent := induction inRest
      rw [← not_isSome_iff_eq_none, insertDelivery_isSome, not_or, not_isSome_iff_eq_none] at absent
      exact absent.1
    rw [insertions] at member
    cases before : outbox.deliveries other with
    | none =>
      rw [before] at member
      rcases List.mem_cons.mp member with rfl | inRest
      · exact before
      · exact later inRest
    | some held =>
      rw [before] at member
      exact later member

theorem insertions_nodup (outbox : Outbox) (rows : List (DeliveryKey × Row)) :
    (outbox.insertions rows).Nodup := by
  induction rows generalizing outbox with
  | nil => exact .nil
  | cons entry rest induction =>
    rcases entry with ⟨key, row⟩
    rw [insertions]
    split
    · exact induction _
    · refine List.nodup_cons.mpr ⟨fun again => ?_, induction _⟩
      -- The row is there by the time of the later statements.
      have absent := insertions_absent again
      rw [deliveries_insertDelivery, if_pos rfl] at absent
      cases absent

theorem mem_of_mem_insertions
    {key : DeliveryKey} (member : key ∈ outbox.insertions rows) : ∃ row, (key, row) ∈ rows := by
  induction rows generalizing outbox with
  | nil => cases member
  | cons entry rest induction =>
    rcases entry with ⟨other, inserted⟩
    have later (inRest : key ∈ (outbox.insertDelivery other inserted).insertions rest) :
        ∃ row, (key, row) ∈ (other, inserted) :: rest := by
      rcases induction inRest with ⟨row, listed⟩
      exact ⟨row, List.mem_cons_of_mem _ listed⟩
    rw [insertions] at member
    split at member
    · exact later member
    · rcases List.mem_cons.mp member with rfl | inRest
      · exact ⟨inserted, List.mem_cons_self⟩
      · exact later inRest

theorem updateDelivery_row {key other : DeliveryKey} {change : Row → Row}
    {row' : Row} (found : (outbox.updateDelivery key change).deliveries other = some row') :
    ∃ row, outbox.deliveries other = some row ∧ row' = if other = key then change row else row := by
  rw [deliveries_updateDelivery] at found
  split_ifs at found with same
  · subst same
    rcases map_eq_some_iff.mp found with ⟨row, before, rfl⟩
    exact ⟨row, before, by rw [if_pos rfl]⟩
  · exact ⟨row', found, by rw [if_neg same]⟩

theorem updateDelivery_isSome (outbox : Outbox) (key other : DeliveryKey) (change : Row → Row) :
    ((outbox.updateDelivery key change).deliveries other).isSome =
      (outbox.deliveries other).isSome := by
  rw [deliveries_updateDelivery]
  split_ifs with same
  · rw [same, isSome_map]
  · rfl

theorem eq_foldl_of_enqueueRoutingPlan [Json.FloatText] {after : Outbox}
    {contextTenant : Bytes} {event : Event} {decisions : List Decision} {now : Int}
    (stored : outbox.enqueueRoutingPlan contextTenant event decisions now = some after) :
    after = decisions.foldl (enqueueDecision contextTenant event now) outbox := by
  rw [enqueueRoutingPlan] at stored
  split_ifs at stored with nothing
  · rw [nothing]
    exact (some.inj stored).symm
  · rcases map_eq_some_iff.mp stored with ⟨_, _, same⟩
    exact same.symm

structure KeepsIntents (before after : Outbox) : Prop where
  rows : ∀ key row', after.deliveries key = some row' →
    ∃ row, before.deliveries key = some row ∧ row.SameIntent row'
  present : ∀ key, (after.deliveries key).isSome = (before.deliveries key).isSome

theorem KeepsIntents.refl (outbox : Outbox) : KeepsIntents outbox outbox :=
  ⟨fun _ row found => ⟨row, found, .refl row⟩, fun _ => rfl⟩

theorem KeepsIntents.updateDelivery (outbox : Outbox) (key : DeliveryKey) {change : Row → Row}
    (keeps : ∀ row : Row, row.SameIntent (change row)) :
    KeepsIntents outbox (outbox.updateDelivery key change) where
  rows other row' found := by
    rcases updateDelivery_row found with ⟨row, before, rfl⟩
    refine ⟨row, before, ?_⟩
    split_ifs
    · exact keeps row
    · exact .refl row
  present other := updateDelivery_isSome outbox key other change

end Outbox

def Claim.isTerminal (claim : Claim) : SendResult → Bool
  | .sent => false
  | .failed retryable _ => decide (retryable = false ∨ claim.row.maxAttempts ≤ claim.row.attempts)

def Config.fallbackRows (config : Config) (claim : Claim) (result : SendResult) (now : Int) :
    List (DeliveryKey × Row) :=
  if claim.isTerminal result then
    match config.failureFallback claim with
    | none => []
    | some decision =>
      [({ claim.key with destination := decision.destination },
        Outbox.pendingRow claim.row.event decision now)]
  else []

theorem Config.failureFallback_eq_some {config : Config} {claim : Claim} {decision : Decision}
    (fallback : config.failureFallback claim = some decision) :
    claim.row.failureFallback ≠ [] ∧
      ∃ destination, config.destinationByName claim.row.failureFallback = some destination ∧
        decision.destination = destination.name ∧
        decision.maxAttempts = destination.maxAttempts ∧
        decision.failureFallback = destination.failureFallback := by
  rw [failureFallback] at fallback
  split_ifs at fallback with none
  refine ⟨none, ?_⟩
  split at fallback
  · cases fallback
  next destination lookup =>
    split_ifs at fallback
    cases fallback
    exact ⟨destination, lookup, rfl, rfl, rfl⟩

theorem mem_fallbackRows {config : Config} {claim : Claim} {result : SendResult} {now : Int} {key : DeliveryKey}
    {row : Row} (member : (key, row) ∈ config.fallbackRows claim result now) :
    ∃ decision, config.failureFallback claim = some decision ∧
      key.destination = decision.destination ∧
      row = Outbox.pendingRow claim.row.event decision now := by
  rw [Config.fallbackRows] at member
  split_ifs at member
  · split at member
    · cases member
    next decision fallback =>
      cases List.mem_singleton.mp member
      exact ⟨decision, fallback, rfl, rfl⟩
  · cases member

theorem Outbox.finish_insertAll (config : Config) (outbox : Outbox) (claim : Claim)
    (result : SendResult) (next now : Int) :
    ∃ middle : Outbox, KeepsIntents outbox middle ∧
      (outbox.finish config claim result next now).deliveries =
        (middle.insertAll (config.fallbackRows claim result now)).deliveries := by
  unfold Config.fallbackRows
  cases result with
  | sent =>
    exact ⟨outbox.markRoutingDelivered claim now,
      .updateDelivery outbox claim.key fun _ => ⟨rfl, rfl, rfl⟩, rfl⟩
  | failed retryable message =>
    by_cases terminal : retryable = false ∨ claim.row.maxAttempts ≤ claim.row.attempts
    · have isTerminal : claim.isTerminal (.failed retryable message) = true :=
        decide_eq_true terminal
      have marked := KeepsIntents.updateDelivery (outbox.insertDeadLetter claim message now)
        claim.key fun row => (⟨rfl, rfl, rfl⟩ : row.SameIntent { row with
            status := .deadLetter
            leaseUntil := none
            lastError := message
            updatedAt := now })
      refine ⟨_, ⟨marked.rows, marked.present⟩, ?_⟩
      rw [if_pos isTerminal, finish, if_pos terminal, deadLetterRoutingDelivery]
      cases config.failureFallback claim <;> rfl
    · have goesOn : ¬claim.isTerminal (.failed retryable message) = true := by
        simpa [Claim.isTerminal] using terminal
      refine ⟨outbox.markRoutingRetry claim message next now,
        .updateDelivery outbox claim.key fun _ => ⟨rfl, rfl, rfl⟩, ?_⟩
      rw [if_neg goesOn, finish, if_neg terminal]
      rfl

namespace Board

variable {ι : Type} [Json.FloatText] (config : Config)

def inserted (board : Board ι) : Action ι → List (DeliveryKey × Row)
  | .enqueue contextTenant event decisions now =>
    if (board.outbox.enqueueRoutingPlan contextTenant event decisions now).isSome then
      decisions.map fun decision =>
        (Outbox.planKey contextTenant event decision.destination,
          Outbox.pendingRow event decision now)
    else []
  | .finish lane result _ now =>
    match board.hands lane with
    | none => []
    | some claim => config.fallbackRows claim result now
  | .claim _ _ _ _ | .abandon _ => []

theorem enqueue_insertAll (board : Board ι) (contextTenant : Bytes) (event : Event)
    (decisions : List Decision) (now : Int) :
    (board.outbox.enqueueRoutingPlan contextTenant event decisions now).getD board.outbox =
      board.outbox.insertAll
        (board.inserted config (.enqueue contextTenant event decisions now)) := by
  rw [inserted]
  cases stored : board.outbox.enqueueRoutingPlan contextTenant event decisions now with
  | none => rfl
  | some after =>
    rw [getD_some, isSome_some, if_pos rfl, Outbox.insertAll, List.foldl_map,
      Outbox.eq_foldl_of_enqueueRoutingPlan stored]
    rfl

inductive RowChange (board : Board ι) (action : Action ι) (key : DeliveryKey) (row' : Row) : Prop
  | kept (row : Row) (found : board.outbox.deliveries key = some row)
      (same : row.SameIntent row')
  | claimed (lane : ι) (leaseUntil now : Int) (row : Row)
      (isClaim : action = .claim lane key leaseUntil now)
      (found : board.outbox.deliveries key = some row)
      (leased : row' = Outbox.leased row leaseUntil now)
  | created (absent : board.outbox.deliveries key = none)
      (inserted : (key, row') ∈ board.inserted config action)

variable {action : Action ι} {board : Board ι}

theorem rowChange_of_insertAll {middle : Outbox}
    (keeps : Outbox.KeepsIntents board.outbox middle) {key : DeliveryKey} {row' : Row}
    (found : (middle.insertAll (board.inserted config action)).deliveries key = some row') :
    board.RowChange config action key row' := by
  rcases Outbox.insertAll_row found with kept | ⟨absent, inserted⟩
  · rcases keeps.rows key row' kept with ⟨row, before, same⟩
    exact .kept row before same
  · refine .created ?_ inserted
    rw [← isNone_iff_eq_none, ← not_isSome, ← keeps.present key, absent]
    rfl

variable [DecidableEq ι]

theorem step_row {key : DeliveryKey} {row' : Row}
    (found : (board.step config action).outbox.deliveries key = some row') :
    board.RowChange config action key row' := by
  cases action with
  | enqueue contextTenant event decisions now =>
    refine rowChange_of_insertAll config (.refl board.outbox) ?_
    rwa [← enqueue_insertAll]
  | claim lane other leaseUntil now =>
    rw [step, claim] at found
    split at found
    · exact .kept row' found (.refl row')
    · rcases Outbox.updateDelivery_row found with ⟨row, before, rfl⟩
      split_ifs with same
      · subst same
        exact .claimed lane leaseUntil now row rfl before rfl
      · exact .kept row before (.refl row)
  | finish lane result next now =>
    cases hand : board.hands lane with
    | none =>
      simp only [step, finish, hand] at found
      exact .kept row' found (.refl row')
    | some claim =>
      rcases board.outbox.finish_insertAll config claim result next now with
        ⟨middle, keeps, deliveries⟩
      refine rowChange_of_insertAll config keeps ?_
      simp only [step, finish, hand, deliveries] at found
      simpa only [inserted, hand] using found
  | abandon lane => exact .kept row' found (.refl row')

theorem step_isSome (board : Board ι) (action : Action ι) (key : DeliveryKey) :
    ((board.step config action).outbox.deliveries key).isSome = true ↔
      (board.outbox.deliveries key).isSome = true ∨
        ∃ row, (key, row) ∈ board.inserted config action := by
  cases action with
  | enqueue contextTenant event decisions now =>
    rw [← Outbox.insertAll_isSome, ← enqueue_insertAll]
    rfl
  | claim lane other leaseUntil now =>
    rw [step, claim]
    split
    · simp [inserted]
    · simp [inserted, Outbox.updateDelivery_isSome]
  | finish lane result next now =>
    cases hand : board.hands lane with
    | none => simp [step, finish, inserted, hand]
    | some claim =>
      rcases board.outbox.finish_insertAll config claim result next now with
        ⟨middle, keeps, deliveries⟩
      simp only [step, finish, inserted, hand, deliveries]
      rw [Outbox.insertAll_isSome, keeps.present]
  | abandon lane => simp [step, inserted]

theorem step_hand {lane : ι} {claim : Claim}
    (hand : (board.step config action).hands lane = some claim) :
    board.hands lane = some claim ∨
      ∃ leaseUntil now row, action = .claim lane claim.key leaseUntil now ∧
        board.outbox.deliveries claim.key = some row ∧
        claim.row = Outbox.leased row leaseUntil now := by
  cases action with
  | enqueue contextTenant event decisions now => exact .inl hand
  | claim other key leaseUntil now =>
    rw [step, Board.claim] at hand
    split at hand
    · exact .inl hand
    next row found =>
      dsimp only at hand
      by_cases same : lane = other
      · subst same
        rw [Function.update_self] at hand
        cases hand
        exact .inr ⟨leaseUntil, now, row, rfl, found, rfl⟩
      · rw [Function.update_of_ne same] at hand
        exact .inl hand
  | finish other result next now =>
    rw [step, finish] at hand
    split at hand
    · exact .inl hand
    · dsimp only at hand
      by_cases same : lane = other
      · simp [same] at hand
      · rw [Function.update_of_ne same] at hand
        exact .inl hand
  | abandon other =>
    dsimp only [step] at hand
    by_cases same : lane = other
    · simp [same] at hand
    · rw [Function.update_of_ne same] at hand
      exact .inl hand

end Board

end TelemetryForge.Router

/-! ## Send calls

A claim counts an attempt and the limit is compared only after the send has failed. -/

namespace TelemetryForge.Router

open List

inductive Move (ι : Type)
  | act (action : Action ι)
  | send (lane : ι)

/-- The lanes, which of them have called `Send` since their claim, and all calls by key and
attempt. -/
structure Ledger (ι : Type) where
  board : Board ι
  called : ι → Bool
  calls : List (DeliveryKey × Nat)

namespace Ledger

variable {ι : Type}

def initial : Ledger ι := ⟨.initial, fun _ => false, []⟩

def callsFor (ledger : Ledger ι) (key : DeliveryKey) : List (DeliveryKey × Nat) :=
  ledger.calls.filter fun call => call.1 = key

variable [DecidableEq ι]

def calledAfter (called : ι → Bool) : Action ι → ι → Bool
  | .claim lane _ _ _ => Function.update called lane false
  | .enqueue _ _ _ _ | .finish _ _ _ _ | .abandon _ => called

def step [Json.FloatText] (config : Config) (ledger : Ledger ι) : Move ι → Ledger ι
  | .act action =>
    { ledger with
      board := ledger.board.step config action
      called := calledAfter ledger.called action }
  | .send lane =>
    match ledger.board.hands lane with
    | none => ledger
    | some claim =>
      { ledger with
        called := Function.update ledger.called lane true
        calls := ledger.calls ++ [(claim.key, claim.row.attempts)] }

/-- A lane calls `Send` once for a claim, and finishes without a call only where the
destination has no sender. -/
def Allowed (ledger : Ledger ι) : Move ι → Prop
  | .act (.finish lane result next now) =>
    ledger.board.Allowed (.finish lane result next now) ∧
      (ledger.called lane = true ∨
        result = .failed false (ascii "destination is no longer configured"))
  | .act action => ledger.board.Allowed action
  | .send lane => (ledger.board.hands lane).isSome = true ∧ ledger.called lane = false

instance (ledger : Ledger ι) (move : Move ι) : Decidable (ledger.Allowed move) :=
  match move with
  | .act (.finish lane result next now) =>
    inferInstanceAs (Decidable (ledger.board.Allowed (.finish lane result next now) ∧ (_ ∨ _)))
  | .act (.enqueue contextTenant event decisions now) =>
    inferInstanceAs (Decidable (ledger.board.Allowed (.enqueue contextTenant event decisions now)))
  | .act (.claim lane key leaseUntil now) =>
    inferInstanceAs (Decidable (ledger.board.Allowed (.claim lane key leaseUntil now)))
  | .act (.abandon lane) => inferInstanceAs (Decidable (ledger.board.Allowed (.abandon lane)))
  | .send _ => inferInstanceAs (Decidable (_ ∧ _))

def machine [Json.FloatText] (ι : Type) [DecidableEq ι] (config : Config) :
    Machine (Ledger ι) (Move ι) := ⟨step config, Allowed⟩

instance [Json.FloatText] (config : Config) (ledger : Ledger ι) (move : Move ι) :
    Decidable ((machine ι config).allowed ledger move) :=
  inferInstanceAs (Decidable (ledger.Allowed move))

def AttemptsLeft (ledger : Ledger ι) : Move ι → Prop
  | .act (.claim _ key _ _) =>
    ∀ row, ledger.board.outbox.deliveries key = some row → (row.attempts : Int) < row.maxAttempts
  | .act (.enqueue _ _ _ _) | .act (.finish _ _ _ _) | .act (.abandon _) | .send _ => True

instance (ledger : Ledger ι) (move : Move ι) : Decidable (ledger.AttemptsLeft move) := by
  rcases move with (_ | _ | _ | _) | _ <;> unfold AttemptsLeft <;> infer_instance

def limitedMachine [Json.FloatText] (ι : Type) [DecidableEq ι] (config : Config) :
    Machine (Ledger ι) (Move ι) :=
  ⟨step config, fun ledger move => ledger.Allowed move ∧ ledger.AttemptsLeft move⟩

instance [Json.FloatText] (config : Config) (ledger : Ledger ι) (move : Move ι) :
    Decidable ((limitedMachine ι config).allowed ledger move) :=
  inferInstanceAs (Decidable (_ ∧ _))

end Ledger

namespace Board

variable {ι : Type} [DecidableEq ι] [Json.FloatText] (config : Config)

theorem step_attempts (board : Board ι) (action : Action ι) {key : DeliveryKey} {row : Row}
    (found : board.outbox.deliveries key = some row) :
    ∃ row', (board.step config action).outbox.deliveries key = some row' ∧
      row.attempts ≤ row'.attempts := by
  have stays : ((board.step config action).outbox.deliveries key).isSome = true := by
    rw [step_isSome, found]
    exact .inl rfl
  rcases Option.isSome_iff_exists.mp stays with ⟨row', found'⟩
  refine ⟨row', found', ?_⟩
  cases step_row config found' with
  | kept before held same =>
    rw [found] at held
    cases held
    exact same.attempts.ge
  | claimed lane leaseUntil now before isClaim held leased =>
    rw [found] at held
    cases held
    rw [leased]
    exact Nat.le_succ _
  | created absent inserted =>
    rw [found] at absent
    cases absent

omit [Json.FloatText] in
theorem deliveries_claim {board : Board ι} {key : DeliveryKey} {row : Row}
    (found : board.outbox.deliveries key = some row) (lane : ι) (leaseUntil now : Int) :
    (board.claim lane key leaseUntil now).outbox.deliveries key =
      some (Outbox.leased row leaseUntil now) := by
  simp only [claim, found]
  rw [Outbox.deliveries_updateDelivery, if_pos rfl, found]
  rfl

omit [DecidableEq ι] in
theorem inserted_limits {board : Board ι} {action : Action ι} {key : DeliveryKey} {row : Row}
    (member : (key, row) ∈ board.inserted config action) :
    row.attempts = 0 ∧ 1 ≤ row.maxAttempts := by
  cases action with
  | enqueue contextTenant event decisions now =>
    rw [inserted] at member
    split_ifs at member with stored
    · rcases mem_map.mp member with ⟨decision, listed, same⟩
      cases same
      refine ⟨rfl, ?_⟩
      rw [Outbox.enqueueRoutingPlan] at stored
      split_ifs at stored with nothing unstorable
      · simp [nothing] at listed
      · cases stored
      · rw [Bool.not_eq_false, all_eq_true] at unstorable
        have storable := unstorable decision listed
        simp only [Decision.isStorable, Bool.and_eq_true, decide_eq_true_eq] at storable
        exact storable.1.1
    · cases member
  | finish lane result next now =>
    rw [inserted] at member
    split at member
    · cases member
    · rcases mem_fallbackRows member with ⟨decision, fallback, _, rfl⟩
      refine ⟨rfl, ?_⟩
      rcases Config.failureFallback_eq_some fallback with ⟨_, found, lookup, _, attempts, _⟩
      rw [Config.destinationByName, Option.map_eq_some_iff] at lookup
      rcases lookup with ⟨destination, _, rfl⟩
      exact attempts.ge.trans' (withDestinationDefaults_bounds destination).1
  | claim lane other leaseUntil now => cases member
  | abandon lane => cases member

end Board

namespace Ledger

variable {ι : Type}

structure Numbered (ledger : Ledger ι) : Prop where
  distinct : ledger.calls.Nodup
  counted : ∀ key attempt, (key, attempt) ∈ ledger.calls → 1 ≤ attempt ∧
    ∃ row, ledger.board.outbox.deliveries key = some row ∧ attempt ≤ row.attempts
  held : ∀ lane claim, ledger.board.hands lane = some claim → 1 ≤ claim.row.attempts ∧
    ∃ row, ledger.board.outbox.deliveries claim.key = some row ∧ claim.row.attempts ≤ row.attempts
  single : ∀ lane other claim claim', ledger.board.hands lane = some claim →
    ledger.board.hands other = some claim' → claim.key = claim'.key →
    claim.row.attempts = claim'.row.attempts → lane = other
  unsent : ∀ lane claim, ledger.board.hands lane = some claim → ledger.called lane = false →
    (claim.key, claim.row.attempts) ∉ ledger.calls

def Limited (ledger : Ledger ι) : Prop :=
  ∀ key row, ledger.board.outbox.deliveries key = some row → (row.attempts : Int) ≤ row.maxAttempts

theorem Numbered.initial : (Ledger.initial : Ledger ι).Numbered where
  distinct := .nil
  counted _ _ member := by simp [Ledger.initial] at member
  held _ _ hand := by simp [Ledger.initial, Board.initial] at hand
  single _ _ _ _ hand := by simp [Ledger.initial, Board.initial] at hand
  unsent _ _ hand := by simp [Ledger.initial, Board.initial] at hand

theorem Numbered.length_callsFor {ledger : Ledger ι} (numbered : ledger.Numbered)
    {key : DeliveryKey} {row : Row} (found : ledger.board.outbox.deliveries key = some row) :
    (ledger.callsFor key).length ≤ row.attempts := by
  have distinct : (ledger.callsFor key).Nodup := numbered.distinct.filter _
  have listed : ledger.callsFor key ⊆ (range' 1 row.attempts).map (key, ·) := by
    rintro ⟨other, attempt⟩ member
    rcases mem_filter.mp member with ⟨called, same⟩
    have sameKey : other = key := of_decide_eq_true same
    subst sameKey
    rcases numbered.counted other attempt called with ⟨positive, held, isHeld, bound⟩
    rw [found] at isHeld
    cases isHeld
    refine mem_map.mpr ⟨attempt, ?_, rfl⟩
    rw [mem_range'_1]
    omega
  have fits := (subperm_of_subset distinct listed).length_le
  simpa using fits

variable [DecidableEq ι]

theorem Numbered.send {ledger : Ledger ι} (numbered : ledger.Numbered) {lane : ι} {claim : Claim}
    (hand : ledger.board.hands lane = some claim) (uncalled : ledger.called lane = false) :
    Numbered { ledger with
        called := Function.update ledger.called lane true
        calls := ledger.calls ++ [(claim.key, claim.row.attempts)] } where
  distinct := by
    refine nodup_append.mpr ⟨numbered.distinct, by simp, ?_⟩
    rintro call earlier _ last rfl
    rw [mem_singleton.mp last] at earlier
    exact numbered.unsent lane claim hand uncalled earlier
  counted key attempt member := by
    rcases mem_append.mp member with earlier | last
    · exact numbered.counted key attempt earlier
    · cases mem_singleton.mp last
      exact numbered.held lane claim hand
  held := numbered.held
  single := numbered.single
  unsent other claim' hand' uncalled' member := by
    have different : other ≠ lane := by
      rintro rfl
      simp at uncalled'
    dsimp only at uncalled'
    rw [Function.update_of_ne different] at uncalled'
    rcases mem_append.mp member with earlier | last
    · exact numbered.unsent other claim' hand' uncalled' earlier
    · have same := mem_singleton.mp last
      rw [Prod.mk.injEq] at same
      exact different (numbered.single other lane claim' claim hand' hand same.1 same.2)

variable [Json.FloatText] {config : Config}

omit [Json.FloatText] in
theorem called_of_held {ledger : Ledger ι} {action : Action ι} (allowed : ledger.board.Allowed action)
    {lane : ι} {claim : Claim} (held : ledger.board.hands lane = some claim) :
    calledAfter ledger.called action lane = ledger.called lane := by
  cases action with
  | claim other key leaseUntil now =>
    have different : lane ≠ other := by
      rintro rfl
      rw [allowed.1] at held
      cases held
    rw [calledAfter, Function.update_of_ne different]
  | enqueue contextTenant event decisions now => rfl
  | finish other result next now => rfl
  | abandon other => rfl

theorem Numbered.act {ledger : Ledger ι} (numbered : ledger.Numbered) {action : Action ι}
    (allowed : ledger.board.Allowed action) : (ledger.step config (.act action)).Numbered := by
  -- A claim that is new counts one attempt more than its row had.
  have fresh {claim : Claim} {row : Row} {leaseUntil now : Int}
      (leased : claim.row = Outbox.leased row leaseUntil now) :
      claim.row.attempts = row.attempts + 1 := by
    rw [leased]
    rfl
  have stillHeld {key : DeliveryKey} {attempt : Nat}
      (held : ∃ row, ledger.board.outbox.deliveries key = some row ∧ attempt ≤ row.attempts) :
      ∃ row, (ledger.board.step config action).outbox.deliveries key = some row ∧
        attempt ≤ row.attempts := by
    rcases held with ⟨row, found, bound⟩
    rcases ledger.board.step_attempts config action found with ⟨row', found', more⟩
    exact ⟨row', found', bound.trans more⟩
  constructor
  · exact numbered.distinct
  · intro key attempt member
    rcases numbered.counted key attempt member with ⟨positive, held⟩
    exact ⟨positive, stillHeld held⟩
  · intro lane claim hand
    rcases Board.step_hand config hand with held | ⟨leaseUntil, now, row, rfl, found, leased⟩
    · rcases numbered.held lane claim held with ⟨positive, counted⟩
      exact ⟨positive, stillHeld counted⟩
    · rw [leased]
      refine ⟨Nat.succ_pos _, _, ?_, le_rfl⟩
      exact Board.deliveries_claim found lane leaseUntil now
  · intro lane other claim claim' hand hand' sameKey sameAttempts
    rcases Board.step_hand config hand with held | ⟨leaseUntil, now, row, isClaim, found, leased⟩
    · rcases Board.step_hand config hand' with held' | ⟨_, _, row', _, found', leased'⟩
      · exact numbered.single lane other claim claim' held held' sameKey sameAttempts
      · rcases numbered.held lane claim held with ⟨_, before, isBefore, bound⟩
        rw [sameKey, found'] at isBefore
        cases isBefore
        have more := fresh leased'
        omega
    · rcases Board.step_hand config hand' with held' | ⟨_, _, row', isClaim', _, _⟩
      · rcases numbered.held other claim' held' with ⟨_, before, isBefore, bound⟩
        rw [← sameKey, found] at isBefore
        cases isBefore
        have more := fresh leased
        omega
      · rw [isClaim] at isClaim'
        injection isClaim'
  · intro lane claim hand uncalled member
    rcases Board.step_hand config hand with held | ⟨leaseUntil, now, row, isClaim, found, leased⟩
    · dsimp only [step] at uncalled
      rw [called_of_held allowed held] at uncalled
      exact numbered.unsent lane claim held uncalled member
    · rcases numbered.counted _ _ member with ⟨_, before, isBefore, bound⟩
      rw [found] at isBefore
      cases isBefore
      have more := fresh leased
      omega

theorem Limited.step {ledger : Ledger ι} (limited : ledger.Limited) {move : Move ι}
    (left : ledger.AttemptsLeft move) : (ledger.step config move).Limited := by
  cases move with
  | act action =>
    intro key row found
    cases Board.step_row config found with
    | kept before held same =>
      rw [same.attempts, same.maxAttempts]
      exact limited key before held
    | claimed lane leaseUntil now before isClaim held leased =>
      subst isClaim
      have less := left before held
      rw [leased]
      simp only [Outbox.leased, Nat.cast_add, Nat.cast_one]
      omega
    | created absent inserted =>
      rcases Board.inserted_limits config inserted with ⟨untried, positive⟩
      rw [untried]
      omega
  | send lane =>
    rw [Ledger.step]
    split
    · exact limited
    · exact limited

theorem Numbered.step {ledger : Ledger ι} (numbered : ledger.Numbered) {move : Move ι}
    (allowed : ledger.Allowed move) : (ledger.step config move).Numbered := by
  cases move with
  | act action =>
    refine numbered.act ?_
    cases action with
    | finish lane result next now => exact allowed.1
    | enqueue contextTenant event decisions now => exact allowed
    | claim lane key leaseUntil now => exact allowed
    | abandon lane => exact allowed
  | send lane =>
    rcases Option.isSome_iff_exists.mp allowed.1 with ⟨claim, hand⟩
    simp only [Ledger.step, hand]
    exact numbered.send hand allowed.2

/-- Whatever the lanes do, no two calls of `Send` for a row are made with the same attempt, and
the row has counted at least as many attempts as there were calls. -/
theorem calls_numbered (config : Config) {moves : List (Move ι)}
    (admits : (machine ι config).Admits initial moves) :
    let ledger := (machine ι config).run initial moves
    ledger.calls.Nodup ∧ ∀ call ∈ ledger.calls, 1 ≤ call.2 ∧
      ∃ row, ledger.board.outbox.deliveries call.1 = some row ∧ call.2 ≤ row.attempts ∧
        (ledger.callsFor call.1).length ≤ row.attempts := by
  have numbered : ((machine ι config).run initial moves).Numbered :=
    Machine.invariant Numbered (fun _ _ numbered allowed => numbered.step allowed) .initial admits
  refine ⟨numbered.distinct, fun call member => ?_⟩
  rcases numbered.counted call.1 call.2 member with ⟨positive, row, found, bound⟩
  exact ⟨positive, row, found, bound, numbered.length_callsFor found⟩

end Ledger

namespace AttemptSample

def decision : Decision := ⟨ascii "archive", [ascii "all"], 1, 500, 30000, []⟩

def first : List (Move Bool) :=
  [.act (.enqueue (ascii "default") Policy.Sample.event [decision] 0),
    .act (.claim false Sample.key 30 0), .send false]

def takeover : List (Move Bool) :=
  first ++ [.act (.abandon false), .act (.claim true Sample.key 61 31), .send true]

theorem first_admits : letI := Sample.floatText
    (Ledger.limitedMachine Bool Sample.planner.active).Admits .initial first := by
  decide +kernel

theorem takeover_admits : letI := Sample.floatText
    (Ledger.machine Bool Sample.planner.active).Admits .initial takeover := by
  decide +kernel

end AttemptSample

theorem calls_numbered_takeover : letI := Sample.floatText
    ((Ledger.machine Bool Sample.planner.active).run .initial AttemptSample.takeover).calls.Nodup :=
  letI := Sample.floatText
  (Ledger.calls_numbered Sample.planner.active AttemptSample.takeover_admits).1

end TelemetryForge.Router
