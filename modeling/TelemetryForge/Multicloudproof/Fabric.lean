import TelemetryForge.Foundation.Result
import TelemetryForge.Foundation.SortedMap
import TelemetryForge.Foundation.Strings

/-! # The multi-cloud proof model

A fabric copies every event that it accepts to nodes of different clouds before it accepts
it. Clouds, regions and nodes fail and heal; an event is delivered as soon as one of its
copies can be reached. -/

namespace TelemetryForge.Multicloudproof

open List

structure Node where
  id : Bytes
  cloud : Bytes
  region : Bytes
  healthy : Bool
  writable : Bool
  partitioned : Bool

structure Event where
  id : Nat
  accepted : Bool
  rejectedReason : Bytes
  durableCopies : List Bytes
  delivered : Bool
  deliveryAttempts : Nat
  duplicateAttempts : Nat
  corrupted : Bool

structure Fabric where
  nodes : SortedMap Bytes Node
  quorum : Int
  copyTarget : Int
  nextID : Nat
  events : List Event

inductive Failure
  | quorum
  | copyTarget
  | identity
  | duplicate (id : Bytes)

def register (nodes : SortedMap Bytes Node) (node : Node) : Except Failure (SortedMap Bytes Node) :=
  if trimSpace node.id = [] ∨ trimSpace node.cloud = [] then .error .identity
  else if (nodes.find? node.id).isSome then .error (.duplicate node.id)
  else .ok (nodes.insert node.id node)

def newFabric (nodes : List Node) (quorum copyTarget : Int) : Except Failure Fabric :=
  if quorum < 1 then .error .quorum
  else if copyTarget < quorum then .error .copyTarget
  else (nodes.foldlM register .empty).map fun nodes => ⟨nodes, quorum, copyTarget, 0, []⟩

def rank (cloud : Bytes) : Nat :=
  if cloud = ascii "aws" then 0
  else if cloud = ascii "gcp" then 1
  else if cloud = ascii "azure" then 2
  else if cloud = ascii "bare-metal" then 3
  else 100

def place (copyTarget : Int) : List Node → (copies distinct : List Bytes) → List Bytes × List Bytes
  | [], copies, distinct => (copies, distinct)
  | node :: rest, copies, distinct =>
    if copyTarget ≤ copies.length then (copies, distinct)
    else if distinct.contains node.cloud then place copyTarget rest copies distinct
    else place copyTarget rest (copies ++ [node.id]) (distinct ++ [node.cloud])

namespace Fabric

def writableCandidates (fabric : Fabric) : List Node :=
  ((fabric.nodes.entries.map Prod.snd).filter fun node =>
    node.healthy && node.writable && !node.partitioned).mergeSort fun left right =>
      rank left.cloud < rank right.cloud ||
        rank left.cloud == rank right.cloud && left.id ≤ right.id

def offerOne (fabric : Fabric) : Fabric :=
  let placed := place fabric.copyTarget fabric.writableCandidates [] []
  let event : Event :=
    if placed.2.length < fabric.quorum then
      ⟨fabric.nextID + 1, false, ascii "durability quorum unavailable before acceptance", [],
        false, 0, 0, false⟩
    else ⟨fabric.nextID + 1, true, [], placed.1, false, 0, 0, false⟩
  { fabric with nextID := fabric.nextID + 1, events := fabric.events ++ [event] }

def offer (fabric : Fabric) (count : Int) : Fabric := offerOne^[count.toNat] fabric

def changeNodes (fabric : Fabric) (change : Bytes → Node → Node) : Fabric :=
  { fabric with nodes := fabric.nodes.mapValues change }

def setCloud (fabric : Fabric) (cloud : Bytes) (healthy writable partitioned : Bool) : Fabric :=
  fabric.changeNodes fun _ node =>
    if node.cloud = cloud then { node with healthy, writable, partitioned } else node

def setRegion (fabric : Fabric) (region : Bytes) (healthy writable partitioned : Bool) : Fabric :=
  fabric.changeNodes fun _ node =>
    if node.region = region then { node with healthy, writable, partitioned } else node

def setNodeWritable (fabric : Fabric) (id : Bytes) (writable : Bool) : Fabric :=
  fabric.changeNodes fun key node => if key = id then { node with writable } else node

def heal (fabric : Fabric) : Fabric :=
  fabric.changeNodes fun _ node =>
    { node with healthy := true, writable := true, partitioned := false }

def reachable (fabric : Fabric) (event : Event) : Bool :=
  event.durableCopies.any fun id =>
    (fabric.nodes.find? id).any fun node => node.healthy && !node.partitioned

/-- The body of the loop of `DeliverAvailable`. Its branch for an event that is delivered
already is never taken. -/
def deliver (fabric : Fabric) (ambiguousRetries : Int) (event : Event) : Event :=
  if !event.accepted || event.delivered || !fabric.reachable event then event
  else
    { event with
      delivered := true
      deliveryAttempts := event.deliveryAttempts + 1 + ambiguousRetries.toNat
      duplicateAttempts := event.duplicateAttempts + ambiguousRetries.toNat }

def deliverAvailable (fabric : Fabric) (ambiguousRetries : Int) : Fabric :=
  { fabric with events := fabric.events.map (fabric.deliver ambiguousRetries) }

end Fabric

structure Accounting where
  offered : Int
  accepted : Int
  rejected : Int
  deliveredUnique : Int
  retained : Int
  duplicateAttempts : Int
  lost : Int
  corrupted : Int
  unaccounted : Int
deriving DecidableEq

namespace Fabric

def count (fabric : Fabric) (a : Accounting) (event : Event) : Accounting :=
  if !event.accepted then { a with rejected := a.rejected + 1 }
  else
    let a := { a with
      accepted := a.accepted + 1
      duplicateAttempts := a.duplicateAttempts + event.duplicateAttempts
      corrupted := if event.corrupted then a.corrupted + 1 else a.corrupted }
    if event.delivered then { a with deliveredUnique := a.deliveredUnique + 1 }
    else if event.durableCopies.any fun id => (fabric.nodes.find? id).isSome then
      { a with retained := a.retained + 1 }
    else { a with lost := a.lost + 1 }

def accounting (fabric : Fabric) : Accounting :=
  let a := fabric.events.foldl fabric.count ⟨fabric.events.length, 0, 0, 0, 0, 0, 0, 0, 0⟩
  { a with unaccounted := a.accepted - a.deliveredUnique - a.retained - a.lost }

end Fabric

inductive Step
  | offer (count : Int)
  | setCloud (cloud : Bytes) (healthy writable partitioned : Bool)
  | setRegion (region : Bytes) (healthy writable partitioned : Bool)
  | setNodeWritable (id : Bytes) (writable : Bool)
  | heal
  | deliverAvailable (ambiguousRetries : Int)

def Fabric.step (fabric : Fabric) : Step → Fabric
  | .offer count => fabric.offer count
  | .setCloud cloud healthy writable partitioned =>
    fabric.setCloud cloud healthy writable partitioned
  | .setRegion region healthy writable partitioned =>
    fabric.setRegion region healthy writable partitioned
  | .setNodeWritable id writable => fabric.setNodeWritable id writable
  | .heal => fabric.heal
  | .deliverAvailable ambiguousRetries => fabric.deliverAvailable ambiguousRetries

def cloudOf (nodes : SortedMap Bytes Node) (id : Bytes) : Option Bytes :=
  (nodes.find? id).map Node.cloud

/-- The clouds that hold a copy. -/
def durableClouds (nodes : SortedMap Bytes Node) (event : Event) : Finset Bytes :=
  (event.durableCopies.filterMap (cloudOf nodes)).toFinset

structure Sound (quorum : Int) (fabric : Fabric) : Prop where
  positive : 1 ≤ quorum
  same : fabric.quorum = quorum
  keyed : ∀ key node, fabric.nodes.find? key = some node → node.id = key
  durable : ∀ event ∈ fabric.events, event.accepted = true →
    quorum ≤ (durableClouds fabric.nodes event).card

structure Balanced (a : Accounting) : Prop where
  offered : a.offered = a.accepted + a.rejected
  accepted : a.accepted = a.deliveredUnique + a.retained + a.lost
  lost : a.lost = 0
  unaccounted : a.unaccounted = 0

theorem foldlM_register_keyed (offered : List Node) {initial nodes : SortedMap Bytes Node}
    (keyed : ∀ key node, initial.find? key = some node → node.id = key)
    (registered : offered.foldlM register initial = .ok nodes) :
    ∀ key node, nodes.find? key = some node → node.id = key := by
  induction offered generalizing initial with
  | nil =>
    cases registered
    exact keyed
  | cons first rest induction =>
    rw [foldlM_cons, register] at registered
    split_ifs at registered
    · cases registered
    · cases registered
    · refine induction ?_ registered
      intro key node found
      rw [SortedMap.find?_insert] at found
      split_ifs at found with same
      · rw [← Option.some.inj found, same]
      · exact keyed key node found

theorem newFabric_sound {nodes : List Node} {quorum copyTarget : Int} {fabric : Fabric}
    (created : newFabric nodes quorum copyTarget = .ok fabric) : Sound quorum fabric := by
  unfold newFabric at created
  split_ifs at created with small few
  rcases registered : nodes.foldlM register .empty with _ | all
  · rw [registered] at created
    cases created
  · rw [registered] at created
    cases created
    exact ⟨not_lt.mp small, rfl, foldlM_register_keyed nodes (by simp) registered, nofun⟩

/-- Each copy is in a cloud of its own, and the clouds are counted. -/
theorem place_clouds (nodes : SortedMap Bytes Node) (copyTarget : Int) {candidates : List Node}
    (known : ∀ node ∈ candidates, cloudOf nodes node.id = some node.cloud)
    {copies distinct : List Bytes} (placed : copies.filterMap (cloudOf nodes) = distinct)
    (once : distinct.Nodup) :
    let result := place copyTarget candidates copies distinct
    result.1.filterMap (cloudOf nodes) = result.2 ∧ result.2.Nodup := by
  induction candidates generalizing copies distinct with
  | nil => exact ⟨placed, once⟩
  | cons node rest induction =>
    rw [forall_mem_cons] at known
    simp only [place]
    split_ifs with enough taken
    · exact ⟨placed, once⟩
    · exact induction known.2 placed once
    · refine induction known.2 ?_ ?_
      · simp [placed, known.1]
      · rw [nodup_append]
        refine ⟨once, nodup_singleton _, ?_⟩
        intro cloud member other isOther same
        rw [mem_singleton.mp isOther] at same
        exact taken (contains_iff_mem.mpr (same ▸ member))

namespace Sound

variable {quorum : Int} {fabric : Fabric} (sound : Sound quorum fabric)
include sound

theorem offerOne : Sound quorum fabric.offerOne := by
  have known : ∀ node ∈ fabric.writableCandidates,
      cloudOf fabric.nodes node.id = some node.cloud := by
    intro node member
    rw [Fabric.writableCandidates, mem_mergeSort, mem_filter, mem_map] at member
    rcases member.1 with ⟨entry, isEntry, rfl⟩
    have found := (fabric.nodes.find?_eq_some_iff entry.1 entry.2).mpr isEntry
    rw [cloudOf, sound.keyed entry.1 entry.2 found, found]
    rfl
  have nothing : [].filterMap (cloudOf fabric.nodes) = [] := rfl
  rcases place_clouds fabric.nodes fabric.copyTarget known nothing nodup_nil with
    ⟨clouds, once⟩
  refine ⟨sound.positive, sound.same, sound.keyed, ?_⟩
  intro event member accepted
  rcases mem_append.mp member with old | new
  · exact sound.durable event old accepted
  · rw [mem_singleton] at new
    split_ifs at new with few
    · rw [new] at accepted
      cases accepted
    · rw [new, ← sound.same]
      change _ ≤ (((place _ _ _ _).1.filterMap (cloudOf fabric.nodes)).toFinset.card : Int)
      rw [clouds, toFinset_card_of_nodup once]
      exact not_lt.mp few

theorem changeNodes {change : Bytes → Node → Node}
    (stays : ∀ key node, (change key node).id = node.id ∧ (change key node).cloud = node.cloud) :
    Sound quorum (fabric.changeNodes change) := by
  have clouds : cloudOf (fabric.changeNodes change).nodes = cloudOf fabric.nodes := by
    funext id
    rw [cloudOf, Fabric.changeNodes, SortedMap.find?_mapValues, cloudOf]
    cases fabric.nodes.find? id with
    | none => rfl
    | some node => exact congrArg some (stays id node).2
  refine ⟨sound.positive, sound.same, ?_, ?_⟩
  · intro key node found
    rw [Fabric.changeNodes, SortedMap.find?_mapValues] at found
    rcases Option.map_eq_some_iff.mp found with ⟨old, isOld, rfl⟩
    rw [(stays key old).1, sound.keyed key old isOld]
  · intro event member accepted
    rw [durableClouds, clouds]
    exact sound.durable event member accepted

theorem deliverAvailable (ambiguousRetries : Int) :
    Sound quorum (fabric.deliverAvailable ambiguousRetries) := by
  refine ⟨sound.positive, sound.same, sound.keyed, ?_⟩
  intro event member accepted
  rcases mem_map.mp member with ⟨old, isOld, rfl⟩
  have same : (fabric.deliver ambiguousRetries old).accepted = old.accepted ∧
      (fabric.deliver ambiguousRetries old).durableCopies = old.durableCopies := by
    unfold Fabric.deliver
    split_ifs <;> exact ⟨rfl, rfl⟩
  rw [durableClouds, same.2]
  exact sound.durable old isOld (same.1 ▸ accepted)

theorem step (step : Step) : Sound quorum (fabric.step step) := by
  cases step with
  | offer count =>
    exact Function.Iterate.rec (Sound quorum) sound (fun _ => Sound.offerOne) count.toNat
  | setCloud cloud healthy writable partitioned =>
    exact sound.changeNodes fun _ _ => by split_ifs <;> exact ⟨rfl, rfl⟩
  | setRegion region healthy writable partitioned =>
    exact sound.changeNodes fun _ _ => by split_ifs <;> exact ⟨rfl, rfl⟩
  | setNodeWritable id writable =>
    exact sound.changeNodes fun _ _ => by split_ifs <;> exact ⟨rfl, rfl⟩
  | heal => exact sound.changeNodes fun _ _ => ⟨rfl, rfl⟩
  | deliverAvailable ambiguousRetries => exact sound.deliverAvailable ambiguousRetries

theorem exists_copy {event : Event} (member : event ∈ fabric.events)
    (accepted : event.accepted = true) {down : Finset Bytes} (few : (down.card : Int) < quorum) :
    ∃ id ∈ event.durableCopies, ∃ node, fabric.nodes.find? id = some node ∧ node.cloud ∉ down := by
  have more : down.card < (durableClouds fabric.nodes event).card := by
    have enough := sound.durable event member accepted
    omega
  rcases Finset.exists_mem_notMem_of_card_lt_card more with ⟨cloud, held, up⟩
  rw [durableClouds, mem_toFinset, mem_filterMap] at held
  rcases held with ⟨id, isCopy, found⟩
  rcases Option.map_eq_some_iff.mp found with ⟨node, isNode, rfl⟩
  exact ⟨id, isCopy, node, isNode, up⟩

theorem delivers {down : Finset Bytes} (few : (down.card : Int) < quorum)
    (up : ∀ key node, fabric.nodes.find? key = some node → node.cloud ∉ down →
      node.healthy = true ∧ node.partitioned = false) (ambiguousRetries : Int) :
    ∀ event ∈ (fabric.deliverAvailable ambiguousRetries).events,
      event.accepted = true → event.delivered = true := by
  intro event member accepted
  rcases mem_map.mp member with ⟨old, isOld, rfl⟩
  unfold Fabric.deliver at accepted ⊢
  split_ifs at accepted ⊢ with skipped
  · rcases sound.exists_copy isOld accepted few with ⟨id, isCopy, node, found, outside⟩
    have healthy := up id node found outside
    have reachable : fabric.reachable old = true :=
      any_eq_true.mpr ⟨id, isCopy, by simp [found, healthy]⟩
    simpa [accepted, reachable] using skipped
  · rfl

theorem count {event : Event} (member : event ∈ fabric.events) (a : Accounting) :
    let b := fabric.count a event
    b.offered = a.offered ∧ b.lost = a.lost ∧
      b.accepted + b.rejected = a.accepted + a.rejected + 1 ∧
      b.accepted - b.deliveredUnique - b.retained =
        a.accepted - a.deliveredUnique - a.retained := by
  have retained : event.accepted = true →
      (event.durableCopies.any fun id => (fabric.nodes.find? id).isSome) = true := by
    intro accepted
    have fewer : ((∅ : Finset Bytes).card : Int) < quorum := by
      have positive := sound.positive
      rw [Finset.card_empty]
      omega
    rcases sound.exists_copy member accepted fewer with ⟨id, isCopy, node, found, _⟩
    exact any_eq_true.mpr ⟨id, isCopy, by simp [found]⟩
  unfold Fabric.count
  cases accepted : event.accepted with
  | false => simp [add_assoc]
  | true =>
    simp only [Bool.not_true, Bool.false_eq_true, if_false, retained accepted, if_true]
    cases event.delivered <;> simp <;> omega

theorem balanced : Balanced fabric.accounting := by
  have counts (events : List Event) (inside : ∀ event ∈ events, event ∈ fabric.events)
      (a : Accounting) : let b := events.foldl fabric.count a
      b.offered = a.offered ∧ b.lost = a.lost ∧
        b.accepted + b.rejected = a.accepted + a.rejected + events.length ∧
        b.accepted - b.deliveredUnique - b.retained =
          a.accepted - a.deliveredUnique - a.retained := by
    induction events generalizing a with
    | nil => simp
    | cons event rest induction =>
      rw [forall_mem_cons] at inside
      have first := sound.count inside.1 a
      have others := induction inside.2 (fabric.count a event)
      simp only [foldl_cons, length_cons, Nat.cast_add, Nat.cast_one] at first others ⊢
      omega
  have total := counts fabric.events (fun _ => id) ⟨fabric.events.length, 0, 0, 0, 0, 0, 0, 0, 0⟩
  simp only at total
  constructor <;> simp only [Fabric.accounting] <;> omega

end Sound

def Sample.node (id cloud : String) : Node := ⟨ascii id, ascii cloud, [], true, true, false⟩

/-! ## The report of a scenario -/

structure Assertion where
  name : Bytes
  passed : Bool

def accountingAssertions (during after : Accounting) : List Assertion :=
  [⟨ascii "accepted-accounted-during-fault",
      during.accepted == during.deliveredUnique + during.retained + during.lost &&
        during.unaccounted == 0⟩,
    ⟨ascii "zero-loss-during-fault", during.lost == 0⟩,
    ⟨ascii "zero-corruption", during.corrupted == 0 && after.corrupted == 0⟩,
    ⟨ascii "recovery-drains-accepted",
      after.accepted == after.deliveredUnique && after.retained == 0 && after.lost == 0 &&
        after.unaccounted == 0⟩,
    ⟨ascii "rejection-is-before-acceptance", after.offered == after.accepted + after.rejected⟩]

structure ScenarioReport where
  duringFault : Accounting
  afterRecovery : Accounting
  assertions : List Assertion
  passed : Bool

def reportScenario (fabric : Fabric) : ScenarioReport :=
  let during := fabric.accounting
  let after := (fabric.heal.deliverAvailable 0).accounting
  let assertions := accountingAssertions during after
  ⟨during, after, assertions, assertions.all Assertion.passed⟩

/-- No event is corrupted, and all attempts at one but the first are duplicates. -/
def Once (fabric : Fabric) : Prop :=
  ∀ event ∈ fabric.events, event.corrupted = false ∧
    event.deliveryAttempts = event.duplicateAttempts + event.delivered.toNat

namespace Once

variable {fabric : Fabric}

theorem step (once : Once fabric) (step : Step) : Once (fabric.step step) := by
  cases step with
  | offer count =>
    refine Function.Iterate.rec Once once ?_ _
    intro fabric once event member
    rcases mem_append.mp member with old | new
    · exact once event old
    · rw [mem_singleton.mp new]
      split_ifs <;> exact ⟨rfl, rfl⟩
  | deliverAvailable ambiguousRetries =>
    intro event member
    rcases mem_map.mp member with ⟨old, isOld, rfl⟩
    have ⟨whole, attempts⟩ := once old isOld
    cases undelivered : old.delivered with
    | true => simp [Fabric.deliver, undelivered, whole, attempts]
    | false =>
      unfold Fabric.deliver
      split_ifs
      · exact once old isOld
      · simp only [undelivered, Bool.toNat_false, Bool.toNat_true] at attempts ⊢
        exact ⟨whole, by omega⟩
  | _ => exact once

theorem corrupted (once : Once fabric) : fabric.accounting.corrupted = 0 := by
  refine foldlRecOn (motive := fun a : Accounting => a.corrupted = 0) fabric.events _ rfl ?_
  intro a none event member
  simp only [Fabric.count, (once event member).1, Bool.false_eq_true, if_false]
  split_ifs <;> exact none

end Once

theorem retained_eq_zero {fabric : Fabric}
    (delivered : ∀ event ∈ fabric.events, event.accepted = true → event.delivered = true) :
    fabric.accounting.retained = 0 := by
  refine foldlRecOn (motive := fun a : Accounting => a.retained = 0) fabric.events _ rfl ?_
  intro a none event member
  unfold Fabric.count
  cases accepted : event.accepted with
  | false => exact none
  | true => simpa [delivered event member accepted] using none

theorem Sound.recovers {quorum : Int} {fabric : Fabric} (sound : Sound quorum fabric) :
    ∀ event ∈ (fabric.heal.deliverAvailable 0).events,
      event.accepted = true → event.delivered = true := by
  have positive : ((∅ : Finset Bytes).card : Int) < quorum := sound.positive
  refine (sound.step .heal).delivers positive ?_ 0
  intro key node found _
  rw [Fabric.step, Fabric.heal, Fabric.changeNodes, SortedMap.find?_mapValues] at found
  rcases Option.map_eq_some_iff.mp found with ⟨old, _, rfl⟩
  exact ⟨rfl, rfl⟩

/-- The report on a fabric passes after every schedule of faults: nothing is lost or corrupted,
and the recovery delivers each accepted event once, all other attempts being duplicates. -/
theorem reportScenario_passed (nodes : List Node) (quorum copyTarget : Int) (fabric : Fabric)
    (created : newFabric nodes quorum copyTarget = .ok fabric) (steps : List Step) :
    let final := steps.foldl Fabric.step fabric
    (reportScenario final).passed = true ∧
      ∀ event ∈ (final.heal.deliverAvailable 0).events, event.accepted = true →
        event.deliveryAttempts = event.duplicateAttempts + 1 := by
  intro final
  have sound : Sound quorum final :=
    foldlRecOn steps _ (newFabric_sound created) fun _ sound step _ => sound.step step
  have once : Once final := by
    refine foldlRecOn steps _ ?_ fun _ once step _ => once.step step
    unfold newFabric at created
    split_ifs at created
    rcases map_eq_ok.mp created with ⟨_, _, rfl⟩
    exact nofun
  have onceAfter : Once (final.heal.deliverAvailable 0) :=
    (once.step .heal).step (.deliverAvailable 0)
  refine ⟨?_, fun event member accepted => ?_⟩
  · have during := sound.balanced
    have after := ((sound.step .heal).step (.deliverAvailable 0)).balanced
    have drained := retained_eq_zero sound.recovers
    have accepted := after.accepted
    simp only [Fabric.step] at after accepted
    rw [drained, after.lost, add_zero, add_zero] at accepted
    simp [reportScenario, accountingAssertions, during.accepted, during.lost, during.unaccounted,
      once.corrupted, onceAfter.corrupted, accepted, drained, after.lost, after.unaccounted,
      after.offered]
  · rw [(onceAfter event member).2, sound.recovers event member accepted, Bool.toNat_true]

theorem reportScenario_passed_outage :
    let nodes := [Sample.node "a" "aws", Sample.node "g" "gcp"]
    let steps := [.offer 3, .setCloud (ascii "aws") false false true, .deliverAvailable 1, .offer 1]
    ∃ fabric, newFabric nodes 2 2 = .ok fabric ∧
      (reportScenario (steps.foldl Fabric.step fabric)).passed = true :=
  ⟨_, rfl, (reportScenario_passed [Sample.node "a" "aws", Sample.node "g" "gcp"] 2 2 _ rfl _).1⟩

end TelemetryForge.Multicloudproof
