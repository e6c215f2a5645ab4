import TelemetryForge.Router.Plan
import TelemetryForge.Foundation.Machine

/-! # The routing outbox

The tables `routing_deliveries`, `routing_dead_letters` and `routing_shadow_diffs` with the
statements of `storage/routing.go`, and the planner that fills them. An envelope is kept as
the event that it encodes. -/

namespace TelemetryForge.Router

structure DeliveryKey where
  tenant : Bytes
  eventID : Bytes
  destination : Bytes
deriving DecidableEq

inductive Status
  | pending
  | sending
  | retry
  | delivered
  | deadLetter
deriving DecidableEq

structure Row where
  routeRules : List Bytes
  event : Event
  status : Status
  attempts : Nat
  maxAttempts : Int
  baseDelayMS : Int
  maxDelayMS : Int
  failureFallback : Bytes
  nextAttemptAt : Int
  leaseUntil : Option Int
  lastError : Bytes
  createdAt : Int
  updatedAt : Int
  deliveredAt : Option Int
deriving DecidableEq

structure DeadLetter where
  routeRules : List Bytes
  event : Event
  attempts : Nat
  error : Bytes
  failedAt : Int
  failureCount : Nat
deriving DecidableEq

structure ShadowDiff where
  observedAt : Int
  activeConfig : Bytes
  activeVersion : Bytes
  shadowConfig : Bytes
  shadowVersion : Bytes
  activeDestinations : List Bytes
  shadowDestinations : List Bytes
  added : List Bytes
  removed : List Bytes
deriving DecidableEq

structure Outbox where
  deliveries : DeliveryKey → Option Row
  deadLetters : DeliveryKey → Option DeadLetter
  shadowDiffs : Bytes × Bytes → Option ShadowDiff

def Decision.isStorable (decision : Decision) : Bool :=
  1 ≤ decision.maxAttempts && 1 ≤ decision.baseDelayMS && decision.baseDelayMS ≤ decision.maxDelayMS

namespace Outbox

def empty : Outbox := ⟨fun _ => none, fun _ => none, fun _ => none⟩

def pendingRow (event : Event) (decision : Decision) (now : Int) : Row where
  routeRules := decision.routeRules
  event := event
  status := .pending
  attempts := 0
  maxAttempts := decision.maxAttempts
  baseDelayMS := decision.baseDelayMS
  maxDelayMS := decision.maxDelayMS
  failureFallback := decision.failureFallback
  nextAttemptAt := now
  leaseUntil := none
  lastError := []
  createdAt := now
  updatedAt := now
  deliveredAt := none

def insertDelivery (outbox : Outbox) (key : DeliveryKey) (row : Row) : Outbox :=
  match outbox.deliveries key with
  | some _ => outbox
  | none => { outbox with deliveries := Function.update outbox.deliveries key (some row) }

def updateDelivery (outbox : Outbox) (key : DeliveryKey) (change : Row → Row) : Outbox :=
  { outbox with
    deliveries := Function.update outbox.deliveries key ((outbox.deliveries key).map change) }

def tenantForEvent (contextTenant : Bytes) (event : Event) : Bytes :=
  if trimSpace event.tenantID ≠ [] then trimSpace event.tenantID else contextTenant

def planKey (contextTenant : Bytes) (event : Event) (name : Bytes) : DeliveryKey :=
  ⟨tenantForEvent contextTenant event, event.id, name⟩

def enqueueDecision (contextTenant : Bytes) (event : Event) (now : Int) (outbox : Outbox)
    (decision : Decision) : Outbox :=
  outbox.insertDelivery (planKey contextTenant event decision.destination)
    (pendingRow event decision now)

/-- `EnqueueRoutingPlan`; nothing is returned for an event that cannot be encoded, or when the
table refuses a decision. -/
def enqueueRoutingPlan [Json.FloatText] (outbox : Outbox) (contextTenant : Bytes) (event : Event)
    (decisions : List Decision) (now : Int) : Option Outbox :=
  if decisions = [] then some outbox
  else if decisions.all Decision.isStorable = false then none
  else event.marshal.map fun _ =>
    decisions.foldl (enqueueDecision contextTenant event now) outbox

def recordRoutingShadowDiff (outbox : Outbox) (contextTenant : Bytes) (event : Event)
    (diff : ShadowDiff) : Outbox :=
  let tenant := if event.tenantID = [] then contextTenant else event.tenantID
  { outbox with
    shadowDiffs := Function.update outbox.shadowDiffs (tenant, event.id) (some diff) }

end Outbox

def decisionNames (decisions : List Decision) : List Bytes :=
  (decisions.map Decision.destination).insertionSort (· ≤ ·)

def setDifference (left right : List Bytes) : List Bytes :=
  left.filter fun value => decide (value ∉ right)

def comparePlans (activeConfig shadowConfig : Config) (active shadow : List Decision)
    (observedAt : Int) : Option ShadowDiff :=
  let activeNames := decisionNames active
  let shadowNames := decisionNames shadow
  let added := setDifference shadowNames activeNames
  let removed := setDifference activeNames shadowNames
  if added = [] ∧ removed = [] then none
  else
    some
      { observedAt := observedAt
        activeConfig := activeConfig.name
        activeVersion := activeConfig.version
        shadowConfig := shadowConfig.name
        shadowVersion := shadowConfig.version
        activeDestinations := activeNames
        shadowDestinations := shadowNames
        added := added
        removed := removed }

structure Planner where
  active : Config
  shadow : Option Config
deriving DecidableEq

def Planner.compareShadow [Strings] (planner : Planner) (contextTenant : Bytes) (event : Event)
    (now : Int) (outbox : Outbox) : Outbox :=
  match planner.shadow with
  | none => outbox
  | some shadow =>
    match comparePlans planner.active shadow (planner.active.plan event) (shadow.plan event)
      now with
    | none => outbox
    | some diff => outbox.recordRoutingShadowDiff contextTenant event diff

/-- `Planner.Process` on a database without faults. -/
def Planner.process [Strings] [Json.FloatText] (planner : Planner) (contextTenant : Bytes)
    (event : Event) (now : Int) (outbox : Outbox) : Option Outbox :=
  (outbox.enqueueRoutingPlan contextTenant event (planner.active.plan event) now).map
    (planner.compareShadow contextTenant event now)

namespace Outbox

theorem deliveries_insertDelivery (outbox : Outbox) (key other : DeliveryKey) (row : Row) :
    (outbox.insertDelivery key row).deliveries other =
      if other = key then some ((outbox.deliveries key).getD row) else outbox.deliveries other := by
  unfold insertDelivery
  cases found : outbox.deliveries key with
  | none =>
    by_cases same : other = key
    · simp [same]
    · simp [same]
  | some held =>
    by_cases same : other = key
    · simp [same, found]
    · simp [same]

theorem deliveries_foldl_isSome (contextTenant : Bytes) (event : Event) (now : Int)
    (decisions : List Decision) (outbox : Outbox) (key : DeliveryKey) :
    ((decisions.foldl (enqueueDecision contextTenant event now) outbox).deliveries key).isSome =
        true ↔
      (outbox.deliveries key).isSome = true ∨
        ∃ decision ∈ decisions, planKey contextTenant event decision.destination = key := by
  induction decisions generalizing outbox with
  | nil => simp
  | cons decision rest induction =>
    rw [List.foldl_cons, induction, enqueueDecision, deliveries_insertDelivery]
    by_cases same : key = planKey contextTenant event decision.destination
    · simp [same]
    · simp [same, Ne.symm same]

theorem foldl_eq_self_iff (contextTenant : Bytes) (event : Event) (now : Int)
    (decisions : List Decision) (outbox : Outbox) :
    (decisions.foldl (enqueueDecision contextTenant event now) outbox).deliveries =
        outbox.deliveries ↔
      ∀ decision ∈ decisions,
        (outbox.deliveries (planKey contextTenant event decision.destination)).isSome = true := by
  constructor
  · intro same decision member
    rw [← same, deliveries_foldl_isSome]
    exact .inr ⟨decision, member, rfl⟩
  · intro present
    induction decisions with
    | nil => rfl
    | cons decision rest induction =>
      rcases List.forall_mem_cons.mp present with ⟨first, others⟩
      have unchanged : enqueueDecision contextTenant event now outbox decision = outbox := by
        rcases Option.isSome_iff_exists.mp first with ⟨held, found⟩
        simp [enqueueDecision, insertDelivery, found]
      rw [List.foldl_cons, unchanged]
      exact induction others

end Outbox

theorem Planner.deliveries_compareShadow [Strings] (planner : Planner) (contextTenant : Bytes)
    (event : Event) (now : Int) (outbox : Outbox) :
    (planner.compareShadow contextTenant event now outbox).deliveries = outbox.deliveries := by
  unfold compareShadow
  split
  · rfl
  · split <;> rfl

theorem withDestinationDefaults_bounds (destination : Destination) :
    let configured := withDestinationDefaults destination
    1 ≤ configured.maxAttempts ∧ 1 ≤ configured.baseDelayMS ∧
      configured.baseDelayMS ≤ configured.maxDelayMS := by
  dsimp only [withDestinationDefaults]
  refine ⟨?_, ?_, le_max_right _ _⟩
  · split_ifs <;> omega
  · split_ifs <;> omega

theorem Config.isStorable_decisionFor (config : Config) (entry : Bytes × List Bytes) :
    (config.decisionFor entry).isStorable = (config.destinationByName entry.1).isSome := by
  unfold decisionFor destinationByName
  cases config.destinations.find? fun destination => decide (destination.name = entry.1) with
  | none => rfl
  | some destination =>
    rcases withDestinationDefaults_bounds destination with ⟨attempts, base, delays⟩
    simp [Decision.isStorable, attempts, base, delays]

theorem Config.isStorable_of_mem_plan [Strings] {config : Config} {event : Event}
    {decision : Decision} (planned : decision ∈ config.plan event) :
    decision.isStorable = (config.destinationByName decision.destination).isSome := by
  rcases List.mem_map.mp planned with ⟨entry, _, rfl⟩
  exact config.isStorable_decisionFor entry

theorem Planner.process_unchanged_iff [Strings] [Json.FloatText] (planner : Planner)
    (contextTenant : Bytes) (event : Event) (now : Int) (outbox : Outbox) :
    ((planner.process contextTenant event now outbox).getD outbox).deliveries =
        outbox.deliveries ↔
      event.marshal = none ∨
        (∃ name, planner.active.PlansTo event name ∧ planner.active.destinationByName name = none) ∨
        ∀ name, planner.active.PlansTo event name →
          (outbox.deliveries (Outbox.planKey contextTenant event name)).isSome = true := by
  have planned : (∀ name, planner.active.PlansTo event name →
      (outbox.deliveries (Outbox.planKey contextTenant event name)).isSome = true) ↔
      ∀ decision ∈ planner.active.plan event,
        (outbox.deliveries (Outbox.planKey contextTenant event decision.destination)).isSome =
          true := by
    simp only [← Config.mem_plan_iff, forall_exists_index, and_imp]
    exact ⟨fun all decision member => all _ decision member rfl,
      fun all _ decision member same => same ▸ all decision member⟩
  have refused : (∃ name, planner.active.PlansTo event name ∧
      planner.active.destinationByName name = none) ↔
      (planner.active.plan event).all Decision.isStorable = false := by
    rw [List.all_eq_false]
    constructor
    · rintro ⟨name, reached, unknown⟩
      rcases (planner.active.mem_plan_iff event name).mpr reached with ⟨decision, member, rfl⟩
      exact ⟨decision, member, by simp [Config.isStorable_of_mem_plan member, unknown]⟩
    · rintro ⟨decision, member, unstorable⟩
      rw [Config.isStorable_of_mem_plan member, Option.not_isSome_iff_eq_none] at unstorable
      exact ⟨_, (planner.active.mem_plan_iff event _).mp ⟨decision, member, rfl⟩, unstorable⟩
  rw [planned, refused, process, Outbox.enqueueRoutingPlan]
  split_ifs with nothing unstorable
  · simp [nothing, deliveries_compareShadow]
  · simp [unstorable]
  · cases encoded : event.marshal with
    | none => simp
    | some text => simp [unstorable, deliveries_compareShadow, Outbox.foldl_eq_self_iff]

/-! ## Dispatching deliveries

The lanes of all router processes share the outbox. A lane claims a due row, sends it and
makes its mark; each statement or transaction is one step, and between the steps of a lane
any number of others may be taken. -/

structure Claim where
  key : DeliveryKey
  row : Row
deriving DecidableEq

namespace Outbox

def IsDue (row : Row) (now : Int) : Prop :=
  (row.status = .pending ∨ row.status = .retry) ∧ row.nextAttemptAt ≤ now ∨
    row.status = .sending ∧ ∃ lease, row.leaseUntil = some lease ∧ lease < now

instance (row : Row) (now : Int) : Decidable (IsDue row now) :=
  inferInstanceAs (Decidable (_ ∨ _))

def leased (row : Row) (leaseUntil now : Int) : Row :=
  { row with
    status := .sending
    attempts := row.attempts + 1
    leaseUntil := some leaseUntil
    updatedAt := now }

def markRoutingDelivered (outbox : Outbox) (claim : Claim) (now : Int) : Outbox :=
  outbox.updateDelivery claim.key fun row =>
    { row with
      status := .delivered
      leaseUntil := none
      lastError := []
      deliveredAt := some now
      updatedAt := now }

def markRoutingRetry (outbox : Outbox) (claim : Claim) (message : Bytes) (next now : Int) :
    Outbox :=
  outbox.updateDelivery claim.key fun row =>
    { row with
      status := .retry
      leaseUntil := none
      lastError := message
      nextAttemptAt := next
      updatedAt := now }

def deadLetterRow (outbox : Outbox) (claim : Claim) (message : Bytes) (now : Int) : DeadLetter where
  routeRules := claim.row.routeRules
  event := claim.row.event
  attempts := claim.row.attempts
  error := message
  failedAt := now
  failureCount :=
    match outbox.deadLetters claim.key with
    | none => 1
    | some held => held.failureCount + 1

def insertDeadLetter (outbox : Outbox) (claim : Claim) (message : Bytes) (now : Int) : Outbox :=
  { outbox with
    deadLetters := Function.update outbox.deadLetters claim.key
      (some (outbox.deadLetterRow claim message now)) }

def enqueueFallback (outbox : Outbox) (claim : Claim) (fallback : Option Decision) (now : Int) :
    Outbox :=
  match fallback with
  | none => outbox
  | some decision =>
    outbox.insertDelivery { claim.key with destination := decision.destination }
      (pendingRow claim.row.event decision now)

def deadLetterRoutingDelivery (outbox : Outbox) (claim : Claim) (message : Bytes)
    (fallback : Option Decision) (now : Int) : Outbox :=
  ((outbox.insertDeadLetter claim message now).updateDelivery claim.key fun row =>
    { row with
      status := .deadLetter
      leaseUntil := none
      lastError := message
      updatedAt := now }).enqueueFallback claim fallback now

end Outbox

inductive SendResult
  | sent
  | failed (retryable : Bool) (message : Bytes)
deriving DecidableEq

def Config.failureFallback (config : Config) (claim : Claim) : Option Decision :=
  if claim.row.failureFallback = [] then none
  else
    match config.destinationByName claim.row.failureFallback with
    | none => none
    | some destination =>
      if destination.enabled then
        some
          { destination := destination.name
            routeRules := [ascii "failure_fallback:" ++ claim.key.destination]
            maxAttempts := destination.maxAttempts
            baseDelayMS := destination.baseDelayMS
            maxDelayMS := destination.maxDelayMS
            failureFallback := destination.failureFallback }
      else none

def Outbox.finish (config : Config) (outbox : Outbox) (claim : Claim) (result : SendResult)
    (next now : Int) : Outbox :=
  match result with
  | .sent => outbox.markRoutingDelivered claim now
  | .failed retryable message =>
    if retryable = false ∨ claim.row.maxAttempts ≤ claim.row.attempts then
      outbox.deadLetterRoutingDelivery claim message (config.failureFallback claim) now
    else outbox.markRoutingRetry claim message next now

structure Board (ι : Type) where
  outbox : Outbox
  hands : ι → Option Claim

inductive Action (ι : Type)
  | enqueue (contextTenant : Bytes) (event : Event) (decisions : List Decision) (now : Int)
  | claim (lane : ι) (key : DeliveryKey) (leaseUntil now : Int)
  | finish (lane : ι) (result : SendResult) (next now : Int)
  | abandon (lane : ι)

namespace Board

variable {ι : Type} [DecidableEq ι]

def initial : Board ι := ⟨.empty, fun _ => none⟩

def claim (board : Board ι) (lane : ι) (key : DeliveryKey) (leaseUntil now : Int) : Board ι :=
  match board.outbox.deliveries key with
  | none => board
  | some row =>
    { outbox := board.outbox.updateDelivery key fun row => Outbox.leased row leaseUntil now
      hands := Function.update board.hands lane (some ⟨key, Outbox.leased row leaseUntil now⟩) }

def finish (config : Config) (board : Board ι) (lane : ι) (result : SendResult)
    (next now : Int) : Board ι :=
  match board.hands lane with
  | none => board
  | some claim =>
    { outbox := board.outbox.finish config claim result next now
      hands := Function.update board.hands lane none }

def step [Json.FloatText] (config : Config) (board : Board ι) : Action ι → Board ι
  | .enqueue contextTenant event decisions now =>
    { board with
      outbox := (board.outbox.enqueueRoutingPlan contextTenant event decisions now).getD
        board.outbox }
  | .claim lane key leaseUntil now => board.claim lane key leaseUntil now
  | .finish lane result next now => board.finish config lane result next now
  | .abandon lane => { board with hands := Function.update board.hands lane none }

def Allowed (board : Board ι) : Action ι → Prop
  | .enqueue _ _ _ _ | .abandon _ => True
  | .claim lane key _ now =>
    board.hands lane = none ∧ ∃ row, board.outbox.deliveries key = some row ∧ Outbox.IsDue row now
  | .finish lane _ _ _ => (board.hands lane).isSome = true

instance (board : Board ι) (action : Action ι) : Decidable (board.Allowed action) := by
  cases action <;> unfold Allowed <;> infer_instance

def machine [Json.FloatText] (ι : Type) [DecidableEq ι] (config : Config) :
    Machine (Board ι) (Action ι) := ⟨step config, Allowed⟩

instance [Json.FloatText] (config : Config) (board : Board ι) (action : Action ι) :
    Decidable ((machine ι config).allowed board action) :=
  inferInstanceAs (Decidable (board.Allowed action))

def Reclaimed (board : Board ι) (claim : Claim) : Prop :=
  ∃ row, board.outbox.deliveries claim.key = some row ∧ claim.row.attempts < row.attempts

def Fenced (board : Board ι) : Action ι → Prop
  | .finish lane _ _ _ => ∀ claim, board.hands lane = some claim → ¬board.Reclaimed claim
  | .enqueue _ _ _ _ | .claim _ _ _ _ | .abandon _ => True

instance (board : Board ι) (claim : Claim) : Decidable (board.Reclaimed claim) :=
  inferInstanceAs (Decidable (∃ _, _ ∧ _))

instance (board : Board ι) (action : Action ι) : Decidable (board.Fenced action) := by
  cases action with
  | finish lane result next now =>
    refine decidable_of_iff (¬∃ claim, board.hands lane = some claim ∧ board.Reclaimed claim) ?_
    simp only [Fenced, not_exists, not_and]
  | _ => exact isTrue trivial

def fencedMachine [Json.FloatText] (ι : Type) [DecidableEq ι] (config : Config) :
    Machine (Board ι) (Action ι) :=
  ⟨step config, fun board action => board.Allowed action ∧ board.Fenced action⟩

instance [Json.FloatText] (config : Config) (board : Board ι) (action : Action ι) :
    Decidable ((fencedMachine ι config).allowed board action) :=
  inferInstanceAs (Decidable (_ ∧ _))

end Board

end TelemetryForge.Router
