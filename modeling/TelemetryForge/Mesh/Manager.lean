import TelemetryForge.Foundation.Numbers
import TelemetryForge.Foundation.Digest
import TelemetryForge.Domain.Event

/-! # Routes through the mesh

`mesh.Manager`: what it knows of its peers, which nodes are eligible, and the order in
which a key's candidates are tried. -/

namespace TelemetryForge.Mesh

open List

structure FailureDomain where
  cloud : Bytes
  region : Bytes
  zone : Bytes
deriving DecidableEq

structure Node where
  id : Bytes
  url : Bytes
  domain : FailureDomain
deriving DecidableEq

/-- An advertisement, without the counters that routing does not read. -/
structure State where
  node : Node
  ready : Bool
  draining : Bool
  pressure : UInt64
  observedAt : Int
deriving DecidableEq

structure PeerStatus where
  state : State
  healthy : Bool
  latencyMS : UInt64
  consecutiveFailures : Nat
  lastSuccessAt : Int
  lastFailureAt : Int
  lastError : Bytes
deriving DecidableEq

structure Candidate where
  node : Node
  locality : Nat
  score : Nat
  pressure : UInt64
  latencyMS : UInt64
  isLocal : Bool
deriving DecidableEq

inductive Policy
  | locality
  | global
deriving DecidableEq, Repr

structure Config where
  localNode : Node
  policy : Policy
  staleAfter : Int
  maxPressure : UInt64
deriving DecidableEq

/-- The manager; a probe keeps the ID under which a peer is configured, and `Validate`
refuses to configure one twice. -/
structure Manager where
  config : Config
  peers : List PeerStatus
  distinct : (config.localNode.id :: peers.map (·.state.node.id)).Nodup

structure Surroundings where
  now : Int
  localState : State

def eligible (state : State) (isLocal : Bool) (now staleAfter : Int) (maxPressure : UInt64) : Bool :=
  if state.ready = false ∨ state.draining ∨ Float64.atMost maxPressure state.pressure then false
  else if isLocal = false ∧ (state.observedAt = 0 ∨ staleAfter < Instant.sub now state.observedAt) then
    false
  else true

def localityTier (near remote : FailureDomain) : Nat :=
  if near.cloud = remote.cloud ∧ near.region = remote.region ∧ near.zone = remote.zone then 0
  else if near.cloud = remote.cloud ∧ near.region ≠ [] ∧ near.region = remote.region then 1
  else if near.cloud ≠ [] ∧ near.cloud = remote.cloud then 2
  else 3

def candidateFor (key : Bytes) (node : Node) (pressure latency : UInt64) (isLocal : Bool)
    (config : Config) : Candidate where
  node := node
  locality :=
    match config.policy with
    | .locality => localityTier config.localNode.domain node.domain
    | .global => 0
  score := hash64 (key ++ ascii "|" ++ node.id)
  pressure := pressure
  latencyMS := latency
  isLocal := isLocal

def Candidate.less (left right : Candidate) : Bool :=
  if left.locality ≠ right.locality then left.locality < right.locality
  else if left.score ≠ right.score then right.score < left.score
  else left.node.id < right.node.id

def rankCandidates (candidates : List Candidate) : List Candidate :=
  candidates.insertionSort fun left right => right.less left = false

inductive RouteError
  | noRoute
deriving DecidableEq

namespace Manager

def localCandidates (manager : Manager) (surroundings : Surroundings) (key : Bytes) :
    List Candidate :=
  if eligible surroundings.localState true surroundings.now manager.config.staleAfter
      manager.config.maxPressure then
    [candidateFor key manager.config.localNode surroundings.localState.pressure 0 true
      manager.config]
  else []

def isUsable (manager : Manager) (surroundings : Surroundings) (status : PeerStatus) : Bool :=
  status.healthy && eligible status.state false surroundings.now manager.config.staleAfter
    manager.config.maxPressure

def peerCandidates (manager : Manager) (surroundings : Surroundings) (key : Bytes) :
    List Candidate :=
  (manager.peers.filter (manager.isUsable surroundings)).map fun status =>
    candidateFor key status.state.node status.state.pressure status.latencyMS false manager.config

def candidates (manager : Manager) (surroundings : Surroundings) (key : Bytes) : List Candidate :=
  manager.localCandidates surroundings key ++ manager.peerCandidates surroundings key

/-- `Route`: the candidates in the order in which they are tried; the first is selected. -/
def route (manager : Manager) (surroundings : Surroundings) (key : Bytes) :
    Except RouteError (List Candidate) :=
  if manager.candidates surroundings key = [] then .error .noRoute
  else .ok (rankCandidates (manager.candidates surroundings key))

def updatePeer (manager : Manager) (id : Bytes) (change : PeerStatus → PeerStatus)
    (kept : ∀ status, (change status).state = status.state) : Manager where
  config := manager.config
  peers := manager.peers.map fun status => if status.state.node.id = id then change status else status
  distinct := by
    have ids : (manager.peers.map fun status =>
        if status.state.node.id = id then change status else status).map (·.state.node.id) =
          manager.peers.map (·.state.node.id) := by
      rw [List.map_map]
      apply List.map_congr_left
      intro status _
      by_cases isPeer : status.state.node.id = id
      · simp [isPeer, kept]
      · simp [isPeer]
    rw [ids]
    exact manager.distinct

def reportFailure (manager : Manager) (id error : Bytes) (now : Int) : Manager :=
  if id = manager.config.localNode.id then manager
  else
    manager.updatePeer id (fun status =>
        { status with
          healthy := false
          consecutiveFailures := status.consecutiveFailures + 1
          lastFailureAt := now
          lastError := error })
      fun _ => rfl

def reportSuccess (manager : Manager) (id : Bytes) (now : Int) : Manager :=
  if id = manager.config.localNode.id then manager
  else
    manager.updatePeer id (fun status =>
        { status with
          healthy := true, consecutiveFailures := 0, lastSuccessAt := now, lastError := [] })
      fun _ => rfl

variable {manager : Manager} {surroundings : Surroundings}

theorem mem_route {key : Bytes} {ranked : List Candidate}
    (routed : manager.route surroundings key = .ok ranked) {candidate : Candidate} :
    candidate ∈ ranked ↔ candidate ∈ manager.candidates surroundings key := by
  unfold route at routed
  split_ifs at routed
  obtain rfl := Except.ok.inj routed
  exact mem_insertionSort _

theorem mem_peerCandidates {key : Bytes} {candidate : Candidate} :
    candidate ∈ manager.peerCandidates surroundings key ↔
      ∃ status ∈ manager.peers, manager.isUsable surroundings status = true ∧
        candidateFor key status.state.node status.state.pressure status.latencyMS false
          manager.config = candidate := by
  simp [peerCandidates, and_assoc]

theorem candidates_eq_nil_iff (key other : Bytes) :
    manager.candidates surroundings key = [] ↔ manager.candidates surroundings other = [] := by
  simp only [candidates, localCandidates, peerCandidates, append_eq_nil_iff, map_eq_nil_iff]
  split_ifs <;> simp

end Manager

/-! ## The order of the map

Go's maps are iterated in no fixed order, but candidates of different nodes never rank
alike, so the route does not show it. -/

namespace Candidate

def sortKey (candidate : Candidate) : ℕ ×ₗ (ℕᵒᵈ ×ₗ Bytes) :=
  toLex (candidate.locality, toLex (OrderDual.toDual candidate.score, candidate.node.id))

theorem not_less_iff (left right : Candidate) :
    right.less left = false ↔ left.sortKey ≤ right.sortKey := by
  rw [← not_lt, ← Bool.not_eq_true, not_iff_not]
  unfold less sortKey
  rw [Prod.Lex.toLex_lt_toLex, Prod.Lex.toLex_lt_toLex]
  dsimp only
  rw [OrderDual.toDual_lt_toDual, OrderDual.toDual_inj]
  split_ifs with tier score
  · simp [tier]
  · simp [not_ne_iff.mp tier, score]
  · simp [not_ne_iff.mp tier, not_ne_iff.mp score]

theorem pairwise_rankCandidates (candidates : List Candidate) :
    (rankCandidates candidates).Pairwise fun left right => left.sortKey ≤ right.sortKey := by
  have : Std.Total fun left right : Candidate => right.less left = false :=
    ⟨fun left right => by
      rw [not_less_iff, not_less_iff]
      exact le_total _ _⟩
  have : IsTrans Candidate fun left right => right.less left = false :=
    ⟨fun first second third before after => by
      rw [not_less_iff] at before after ⊢
      exact before.trans after⟩
  exact (pairwise_insertionSort _ candidates).imp fun before => (not_less_iff _ _).mp before

theorem rankCandidates_perm {left right : List Candidate} (perm : left.Perm right)
    (distinct : (left.map (·.node.id)).Nodup) : rankCandidates left = rankCandidates right := by
  have same : (rankCandidates left).Perm (rankCandidates right) :=
    (perm_insertionSort _ left).trans (perm.trans (perm_insertionSort _ right).symm)
  refine same.eq_of_pairwise ?_ (pairwise_rankCandidates left) (pairwise_rankCandidates right)
  intro first second isFirst isSecond before after
  have keys := le_antisymm before after
  have ids : first.node.id = second.node.id := by
    simp only [sortKey, EmbeddingLike.apply_eq_iff_eq, Prod.mk.injEq] at keys
    exact keys.2.2
  exact inj_on_of_nodup_map distinct ((mem_insertionSort _).mp isFirst)
    (perm.mem_iff.mpr ((mem_insertionSort _).mp isSecond)) ids

end Candidate

namespace Manager

theorem candidates_ids_nodup (manager : Manager) (surroundings : Surroundings) (key : Bytes) :
    ((manager.candidates surroundings key).map (·.node.id)).Nodup := by
  have peers : ((manager.peerCandidates surroundings key).map (·.node.id)).Sublist
      (manager.peers.map (·.state.node.id)) := by
    rw [peerCandidates, map_map]
    exact (filter_sublist (l := manager.peers)).map _
  unfold candidates localCandidates
  split_ifs
  · exact manager.distinct.sublist (peers.cons_cons _)
  · exact manager.distinct.sublist (peers.cons _)

theorem route_perm {left right : Manager} (config : left.config = right.config)
    (peers : left.peers.Perm right.peers) (surroundings : Surroundings) (key : Bytes) :
    left.route surroundings key = right.route surroundings key := by
  have perm : (left.candidates surroundings key).Perm (right.candidates surroundings key) := by
    have usable : left.isUsable surroundings = right.isUsable surroundings := by
      funext status
      simp only [isUsable, config]
    simp only [candidates, localCandidates, peerCandidates, config, usable]
    exact List.Perm.append_left _ ((peers.filter _).map _)
  have empty : left.candidates surroundings key = [] ↔ right.candidates surroundings key = [] := by
    rw [← length_eq_zero_iff, perm.length_eq, length_eq_zero_iff]
  simp only [route, empty,
    Candidate.rankCandidates_perm perm (left.candidates_ids_nodup surroundings key)]

end Manager

/-! ## Ownership of keys -/

def Node.rank (config : Config) (key : Bytes) (node : Node) : ℕ ×ₗ (ℕᵒᵈ ×ₗ Bytes) :=
  (candidateFor key node 0 0 false config).sortKey

theorem Node.id_eq_of_rank {config : Config} {key : Bytes} {left right : Node}
    (same : left.rank config key = right.rank config key) : left.id = right.id := by
  simp only [rank, Candidate.sortKey, candidateFor, EmbeddingLike.apply_eq_iff_eq,
    Prod.mk.injEq] at same
  exact same.2.2

theorem Node.rank_of_global {left right : Config} (leftGlobal : left.policy = .global)
    (rightGlobal : right.policy = .global) (key : Bytes) {node other : Node}
    (same : node.id = other.id) : node.rank left key = other.rank right key := by
  simp only [rank, Candidate.sortKey, candidateFor, leftGlobal, rightGlobal, same]

namespace Manager

def eligibleNodes (manager : Manager) (surroundings : Surroundings) : List Node :=
  (if eligible surroundings.localState true surroundings.now manager.config.staleAfter
      manager.config.maxPressure then [manager.config.localNode] else []) ++
    (manager.peers.filter (manager.isUsable surroundings)).map (·.state.node)

def owner (manager : Manager) (surroundings : Surroundings) (key : Bytes) : Option Node :=
  match manager.route surroundings key with
  | .ok (first :: _) => some first.node
  | _ => none

variable {manager : Manager} {surroundings : Surroundings} {key : Bytes}

theorem candidates_nodes (manager : Manager) (surroundings : Surroundings) (key : Bytes) :
    (manager.candidates surroundings key).map Candidate.node =
      manager.eligibleNodes surroundings := by
  have peers : (manager.peerCandidates surroundings key).map Candidate.node =
      (manager.peers.filter (manager.isUsable surroundings)).map (·.state.node) := by
    rw [peerCandidates, map_map]
    rfl
  rw [candidates, map_append, peers, eligibleNodes, localCandidates]
  split_ifs <;> rfl

theorem sortKey_of_mem {candidate : Candidate}
    (member : candidate ∈ manager.candidates surroundings key) :
    candidate.sortKey = candidate.node.rank manager.config key := by
  rw [candidates, mem_append] at member
  rcases member with isLocal | isPeer
  · rw [localCandidates] at isLocal
    split_ifs at isLocal
    · cases mem_singleton.mp isLocal
      rfl
    · cases isLocal
  · rcases mem_peerCandidates.mp isPeer with ⟨status, _, _, rfl⟩
    rfl

variable (key) in
theorem mem_eligibleNodes_iff {node : Node} :
    node ∈ manager.eligibleNodes surroundings ↔
      ∃ candidate ∈ manager.candidates surroundings key, candidate.node = node := by
  rw [← candidates_nodes manager surroundings key, mem_map]

theorem eligibleNodes_eq_of_id {left right : Node}
    (isLeft : left ∈ manager.eligibleNodes surroundings)
    (isRight : right ∈ manager.eligibleNodes surroundings) (same : left.id = right.id) :
    left = right := by
  have distinct := manager.candidates_ids_nodup surroundings []
  have ids : (manager.candidates surroundings []).map (·.node.id) =
      (manager.eligibleNodes surroundings).map Node.id := by
    rw [← candidates_nodes manager surroundings [], map_map]
    rfl
  rw [ids] at distinct
  exact inj_on_of_nodup_map distinct isLeft isRight same

theorem owner_eq_some_iff {node : Node} :
    manager.owner surroundings key = some node ↔
      node ∈ manager.eligibleNodes surroundings ∧
        ∀ other ∈ manager.eligibleNodes surroundings,
          node.rank manager.config key ≤ other.rank manager.config key := by
  have first : ∀ chosen, manager.owner surroundings key = some chosen →
      chosen ∈ manager.eligibleNodes surroundings ∧
        ∀ other ∈ manager.eligibleNodes surroundings,
          chosen.rank manager.config key ≤ other.rank manager.config key := by
    intro chosen selected
    rw [owner] at selected
    split at selected
    next best rest routed =>
      obtain rfl := Option.some.inj selected
      have isBest := (mem_route routed).mp mem_cons_self
      refine ⟨(mem_eligibleNodes_iff key).mpr ⟨best, isBest, rfl⟩, fun other eligible => ?_⟩
      rcases (mem_eligibleNodes_iff key).mp eligible with ⟨candidate, isCandidate, rfl⟩
      rw [← sortKey_of_mem isBest, ← sortKey_of_mem isCandidate]
      rcases mem_cons.mp ((mem_route routed).mpr isCandidate) with same | later
      · rw [same]
      · have sorted := Candidate.pairwise_rankCandidates (manager.candidates surroundings key)
        rw [route] at routed
        split_ifs at routed
        rw [Except.ok.inj routed] at sorted
        exact rel_of_pairwise_cons sorted later
    next => cases selected
  constructor
  · exact first node
  · rintro ⟨isEligible, least⟩
    -- There is a route, and its first node cannot rank apart from this one.
    rcases (mem_eligibleNodes_iff key).mp isEligible with ⟨candidate, isCandidate, _⟩
    cases selected : manager.owner surroundings key with
    | none =>
      rw [owner, route, if_neg (ne_nil_of_mem isCandidate)] at selected
      split at selected
      · cases selected
      · rename_i absent
        have ranked := (mem_insertionSort
          (fun left right : Candidate => right.less left = false)).mpr isCandidate
        rcases sorted : rankCandidates (manager.candidates surroundings key) with _ | ⟨best, rest⟩
        · rw [rankCandidates] at sorted
          rw [sorted] at ranked
          cases ranked
        · exact absurd (congrArg Except.ok sorted) (absent best rest)
    | some chosen =>
      rcases first chosen selected with ⟨isChosen, chosenLeast⟩
      have ranks := le_antisymm (chosenLeast node isEligible) (least chosen isChosen)
      rw [eligibleNodes_eq_of_id isChosen isEligible (Node.id_eq_of_rank ranks)]

variable {before after : Manager} {earlier later : Surroundings}

theorem owner_of_subset (config : before.config = after.config) {node : Node}
    (owns : before.owner earlier key = some node) (kept : node ∈ after.eligibleNodes later)
    (fewer : ∀ other ∈ after.eligibleNodes later, other ∈ before.eligibleNodes earlier) :
    after.owner later key = some node := by
  rw [owner_eq_some_iff] at owns ⊢
  refine ⟨kept, fun other eligible => ?_⟩
  rw [← config]
  exact owns.2 other (fewer other eligible)

theorem owner_of_superset (config : before.config = after.config) {node : Node}
    (owns : after.owner later key = some node) (kept : node ∈ before.eligibleNodes earlier)
    (more : ∀ other ∈ before.eligibleNodes earlier, other ∈ after.eligibleNodes later) :
    before.owner earlier key = some node :=
  owner_of_subset config.symm owns kept more

theorem owner_of_global (beforeGlobal : before.config.policy = .global)
    (afterGlobal : after.config.policy = .global)
    (same : ∀ id, id ∈ (before.eligibleNodes earlier).map Node.id ↔
      id ∈ (after.eligibleNodes later).map Node.id) {node : Node}
    (owns : before.owner earlier key = some node) :
    (after.owner later key).map Node.id = some node.id := by
  rw [owner_eq_some_iff] at owns
  rcases mem_map.mp ((same node.id).mp (mem_map_of_mem owns.1)) with
    ⟨image, isImage, imageID⟩
  have imageOwns : after.owner later key = some image := by
    rw [owner_eq_some_iff]
    refine ⟨isImage, fun other eligible => ?_⟩
    rcases mem_map.mp ((same other.id).mpr (mem_map_of_mem eligible)) with
      ⟨source, isSource, sourceID⟩
    rw [Node.rank_of_global afterGlobal beforeGlobal key imageID,
      Node.rank_of_global afterGlobal beforeGlobal key sourceID.symm]
    exact owns.2 source isSource
  rw [imageOwns, Option.map_some, imageID]

variable (key) in
theorem owner_isSome_iff :
    (manager.owner surroundings key).isSome = true ↔ manager.eligibleNodes surroundings ≠ [] := by
  constructor
  · intro selected
    rcases Option.isSome_iff_exists.mp selected with ⟨node, owns⟩
    exact ne_nil_of_mem (owner_eq_some_iff.mp owns).1
  · intro nonempty
    have finite : (manager.eligibleNodes surroundings).toFinset.Nonempty := by
      rcases exists_mem_of_ne_nil _ nonempty with ⟨node, member⟩
      exact ⟨node, mem_toFinset.mpr member⟩
    rcases Finset.exists_min_image _ (Node.rank manager.config key) finite with
      ⟨node, member, least⟩
    rw [Option.isSome_iff_exists]
    refine ⟨node, owner_eq_some_iff.mpr ⟨mem_toFinset.mp member, fun other eligible => ?_⟩⟩
    exact least other (mem_toFinset.mpr eligible)

/-- The order of the candidates is independent of the order of the map and repeats no node;
losing a node that is not the owner keeps the owner; a further node leaves the owner or
becomes it; and managers without tiers agree on the owner when their eligible nodes have the
same IDs. -/
theorem rendezvous_ownership (key : Bytes) :
    (∀ left right : Manager, left.config = right.config → left.peers.Perm right.peers →
      ∀ surroundings, left.route surroundings key = right.route surroundings key) ∧
    (∀ (manager : Manager) surroundings ranked, manager.route surroundings key = .ok ranked →
      (ranked.map (·.node.id)).Nodup) ∧
    (∀ (before after : Manager) earlier later node lost, before.config = after.config →
      before.owner earlier key = some node → lost ≠ node →
      (∀ other, other ∈ after.eligibleNodes later ↔
        other ∈ before.eligibleNodes earlier ∧ other ≠ lost) →
      after.owner later key = some node) ∧
    (∀ (before after : Manager) earlier later further, before.config = after.config →
      (∀ other, other ∈ after.eligibleNodes later ↔
        other ∈ before.eligibleNodes earlier ∨ other = further) →
      after.owner later key = before.owner earlier key ∨ after.owner later key = some further) ∧
    ∀ (left right : Manager) here there, left.config.policy = .global →
      right.config.policy = .global →
      (∀ id, id ∈ (left.eligibleNodes here).map Node.id ↔
        id ∈ (right.eligibleNodes there).map Node.id) →
      (left.owner here key).map Node.id = (right.owner there key).map Node.id := by
  refine ⟨?_, ?_, ?_, ?_, ?_⟩
  · intro left right config peers surroundings
    exact route_perm config peers surroundings key
  · intro manager surroundings ranked routed
    rw [route] at routed
    split_ifs at routed
    rw [← Except.ok.inj routed]
    have perm := (perm_insertionSort (fun left right : Candidate => right.less left = false)
      (manager.candidates surroundings key)).map (·.node.id)
    exact perm.nodup_iff.mpr (manager.candidates_ids_nodup surroundings key)
  · intro before after earlier later node lost config owns different fewer
    refine owner_of_subset config owns ?_ fun other eligible => ((fewer other).mp eligible).1
    exact (fewer node).mpr ⟨(owner_eq_some_iff.mp owns).1, different.symm⟩
  · intro before after earlier later further config more
    have further_mem := (more further).mpr (.inr rfl)
    rcases Option.isSome_iff_exists.mp
      ((owner_isSome_iff key).mpr (ne_nil_of_mem further_mem)) with ⟨node, owns⟩
    rw [owns]
    rcases (more node).mp (owner_eq_some_iff.mp owns).1 with kept | rfl
    · exact .inl (owner_of_superset config owns kept fun other eligible =>
        (more other).mpr (.inl eligible)).symm
    · exact .inr rfl
  · intro left right here there leftGlobal rightGlobal same
    cases owns : left.owner here key with
    | some node => exact (owner_of_global leftGlobal rightGlobal same owns).symm
    | none =>
      cases owned : right.owner there key with
      | none => rfl
      | some node =>
        have mirrored := owner_of_global rightGlobal leftGlobal (fun id => (same id).symm) owned
        rw [owns] at mirrored
        cases mirrored

end Manager

/-! ## Publishing through the mesh

`mesh.Publisher`: an item is tried at the candidates of its route until one accepts it; a
batch whose items all belong to the local node is handed to the local publisher. -/

structure Item where
  topic : Bytes
  event : Event
deriving DecidableEq

def routeKey (event : Event) : Bytes :=
  let key := trimSpace event.tenantID ++ ascii "|" ++ trimSpace event.source
  if key.all (· == 0x7C) then event.id else key

structure ForwardRequest where
  targetNodeID : Bytes
  routeKey : Bytes
  topic : Bytes
  event : Event

def Item.forwardTo (item : Item) (node : Node) : ForwardRequest :=
  ⟨node.id, routeKey item.event, item.topic, item.event⟩

structure Outcomes where
  batch : Option (List Item → List (Option Bytes))
  send : Item → Option Bytes
  forward : Node → ForwardRequest → Option Bytes

inductive Failure
  | localNode (id error : Bytes)
  | meshNode (id error : Bytes)
deriving DecidableEq

inductive PublishError
  | noRoute (failures : List Failure)
  | batch (error : Bytes)
deriving DecidableEq

namespace Manager

variable (surroundings : Surroundings) (outcomes : Outcomes)

def tryCandidates (item : Item) :
    Manager → List Failure → List Candidate → Manager × Option PublishError
  | manager, failures, [] => (manager, some (.noRoute failures))
  | manager, failures, candidate :: rest =>
    let node := candidate.node
    if node.id = manager.config.localNode.id then
      match outcomes.send item with
      | none => (manager, none)
      | some error => tryCandidates item manager (failures ++ [.localNode node.id error]) rest
    else
      match outcomes.forward node (item.forwardTo node) with
      | none => (manager.reportSuccess node.id surroundings.now, none)
      | some error =>
        tryCandidates item (manager.reportFailure node.id error surroundings.now)
          (failures ++ [.meshNode node.id error]) rest

def publish (manager : Manager) (item : Item) : Manager × Option PublishError :=
  match manager.route surroundings (routeKey item.event) with
  | .error .noRoute => (manager, some (.noRoute []))
  | .ok ranked => tryCandidates surroundings outcomes item manager [] ranked

def ownership (manager : Manager) (item : Item) : Except RouteError Bool :=
  match manager.route surroundings (routeKey item.event) with
  | .error error => .error error
  | .ok ranked =>
    .ok (ranked.head?.any fun selected => selected.node.id == manager.config.localNode.id)

def routeResult (manager : Manager) (item : Item) : Option PublishError :=
  match manager.ownership surroundings item with
  | .error .noRoute => some (.noRoute [])
  | .ok _ => none

def publishEach : Manager → List (Item × Option PublishError) →
    Manager × List (Option PublishError)
  | manager, [] => (manager, [])
  | manager, (_, some error) :: rest =>
    let (after, results) := publishEach manager rest
    (after, some error :: results)
  | manager, (item, none) :: rest =>
    let (next, result) := manager.publish surroundings outcomes item
    let (after, results) := publishEach next rest
    (after, result :: results)

def allLocal (manager : Manager) (items : List Item) : Bool :=
  items.all fun item => manager.ownership surroundings item == .ok true

def publishBatch (manager : Manager) (items : List Item) : Manager × List (Option PublishError) :=
  if items = [] then (manager, [])
  else
    match outcomes.batch with
    | none => publishEach surroundings outcomes manager (items.map (·, none))
    | some batch =>
      if manager.allLocal surroundings items then
        (manager, (batch items).map (·.map .batch))
      else
        publishEach surroundings outcomes manager
          (items.map fun item => (item, manager.routeResult surroundings item))

def Accepts (config : Config) (item : Item) (node : Node) : Prop :=
  if node.id = config.localNode.id then outcomes.send item = none
  else outcomes.forward node (item.forwardTo node) = none

def Deliverable (manager : Manager) (item : Item) : Prop :=
  ∃ candidate ∈ manager.candidates surroundings (routeKey item.event),
    Accepts outcomes manager.config item candidate.node

section Delivery

variable {surroundings outcomes} {manager : Manager} {item : Item}

@[simp] theorem reportFailure_config (id error : Bytes) (now : Int) :
    (manager.reportFailure id error now).config = manager.config := by
  unfold reportFailure
  split_ifs <;> rfl

theorem tryCandidates_eq_none_iff (failures : List Failure) (candidates : List Candidate) :
    (tryCandidates surroundings outcomes item manager failures candidates).2 = none ↔
      ∃ candidate ∈ candidates, Accepts outcomes manager.config item candidate.node := by
  induction candidates generalizing manager failures with
  | nil => simp [tryCandidates]
  | cons candidate rest induction =>
    simp only [tryCandidates, List.exists_mem_cons_iff]
    by_cases near : candidate.node.id = manager.config.localNode.id
    · rw [if_pos near]
      cases sent : outcomes.send item with
      | none => simp [Accepts, near, sent]
      | some error => simp [induction, Accepts, near, sent]
    · rw [if_neg near]
      cases sent : outcomes.forward candidate.node (item.forwardTo candidate.node) with
      | none => simp [Accepts, near, sent]
      | some error => simp [induction, Accepts, near, sent]

theorem publish_eq_none_iff : (manager.publish surroundings outcomes item).2 = none ↔
      manager.Deliverable surroundings outcomes item := by
  unfold publish Deliverable
  cases routed : manager.route surroundings (routeKey item.event) with
  | error error =>
    cases error
    unfold route at routed
    split_ifs at routed with empty
    simp [empty]
  | ok ranked =>
    rw [tryCandidates_eq_none_iff]
    simp only [mem_route routed]

end Delivery

def afterItems (manager : Manager) (items : List Item) : Manager :=
  items.foldl (fun manager item => (manager.publish surroundings outcomes item).1) manager

def isBatched (manager : Manager) (items : List Item) : Bool :=
  outcomes.batch.isSome && manager.allLocal surroundings items

section Batch

variable {surroundings outcomes} {manager : Manager}

theorem publishEach_getElem? (items : List Item) (index : Nat) (item : Item)
    (isItem : items[index]? = some item) :
    (publishEach surroundings outcomes manager (items.map (·, none))).2[index]? =
      some ((manager.afterItems surroundings outcomes (items.take index)).publish surroundings
        outcomes item).2 := by
  induction items generalizing manager index with
  | nil => cases isItem
  | cons first rest induction =>
    cases index with
    | zero =>
      obtain rfl := Option.some.inj isItem
      rfl
    | succ index => exact induction index isItem

theorem routeResult_eq_none {key : Bytes} (exists_ : manager.candidates surroundings key ≠ [])
    (item : Item) : manager.routeResult surroundings item = none := by
  have nonempty : manager.candidates surroundings (routeKey item.event) ≠ [] := by
    rwa [Ne, candidates_eq_nil_iff _ key]
  simp [routeResult, ownership, route, nonempty]

theorem publishBatch_getElem?_eq_none_iff {items : List Item}
    (single : manager.isBatched surroundings outcomes items = false) {index : Nat} {item : Item}
    (isItem : items[index]? = some item) (deliverable : manager.Deliverable surroundings outcomes item) :
    (manager.publishBatch surroundings outcomes items).2[index]? = some none ↔
      (manager.afterItems surroundings outcomes (items.take index)).Deliverable surroundings
        outcomes item := by
  have nonempty : items ≠ [] := by
    rintro rfl
    cases isItem
  have routed (other : Item) : manager.routeResult surroundings other = none := by
    rcases deliverable with ⟨candidate, member, _⟩
    exact routeResult_eq_none (List.ne_nil_of_mem member) other
  have each : manager.publishBatch surroundings outcomes items =
      publishEach surroundings outcomes manager (items.map (·, none)) := by
    unfold publishBatch
    rw [if_neg nonempty]
    cases batch : outcomes.batch with
    | none => rfl
    | some publisher =>
      have remote : manager.allLocal surroundings items = false := by
        simpa [isBatched, batch] using single
      simp only [remote, Bool.false_eq_true, if_false, routed]
  rw [each, publishEach_getElem? items index item isItem, Option.some.injEq, publish_eq_none_iff]

theorem publishBatch_of_batched {items : List Item} {batch : List Item → List (Option Bytes)}
    (publisher : outcomes.batch = some batch) (owned : manager.allLocal surroundings items = true)
    (nonempty : items ≠ []) : (manager.publishBatch surroundings outcomes items).2 =
      (batch items).map (·.map PublishError.batch) := by
  simp [publishBatch, nonempty, publisher, owned]

end Batch

end Manager

/-- A batch delivers every item that `Publish` alone delivers exactly when the local publisher
accepts all of them in one batch, or, item by item, each of them is still accepted by a node that
the items before it have left eligible. -/
theorem publishBatch_iff (surroundings : Surroundings) (outcomes : Outcomes) (manager : Manager)
    (items : List Item) : (∀ (index : Nat) (item : Item), items[index]? = some item →
      (manager.publish surroundings outcomes item).2 = none →
        (manager.publishBatch surroundings outcomes items).2[index]? = some none) ↔
    ∀ (index : Nat) (item : Item), items[index]? = some item →
      manager.Deliverable surroundings outcomes item →
        if manager.isBatched surroundings outcomes items then
          ∃ batch, outcomes.batch = some batch ∧ (batch items)[index]? = some none
        else
          (manager.afterItems surroundings outcomes (items.take index)).Deliverable surroundings
            outcomes item := by
  refine forall₃_congr fun index item isItem => ?_
  rw [Manager.publish_eq_none_iff]
  refine imp_congr_right fun deliverable => ?_
  cases batched : manager.isBatched surroundings outcomes items with
  | false =>
    rw [Manager.publishBatch_getElem?_eq_none_iff batched isItem deliverable]
    simp
  | true =>
    simp only [Manager.isBatched, Bool.and_eq_true, Option.isSome_iff_exists] at batched
    rcases batched with ⟨⟨batch, publisher⟩, owned⟩
    have nonempty : items ≠ [] := by
      rintro rfl
      cases isItem
    rw [Manager.publishBatch_of_batched publisher owned nonempty]
    simp [publisher, List.getElem?_map]

namespace Sample

def node (id zone : String) : Node :=
  ⟨ascii id, [], ⟨ascii "aws", ascii "us-east-1", ascii zone⟩⟩

def state (node : Node) : State := ⟨node, true, false, 0, 1⟩

def config : Config := ⟨node "edge-a" "a", .locality, 15 * Duration.second, 0x3FECCCCCCCCCCCCD⟩

def manager : Manager where
  config := config
  peers := [⟨state (node "edge-b" "b"), true, 0, 0, 1, 0, []⟩]
  distinct := by decide

def surroundings : Surroundings := ⟨2, state (node "edge-a" "a")⟩

def item : Item :=
  ⟨ascii "telemetry", { Event.zero with id := ascii "e1", tenantID := ascii "acme", source := ascii "api" }⟩

def localDown : Outcomes where
  batch := some fun items => items.map fun _ => some (ascii "kafka unavailable")
  send := fun _ => some (ascii "kafka unavailable")
  forward := fun _ _ => none

end Sample

/-- The item belongs to the local node: alone it fails over to the peer, in a batch it fails. -/
theorem batch_without_failover :
    (Sample.manager.publish Sample.surroundings Sample.localDown Sample.item).2 = none ∧
      (Sample.manager.publishBatch Sample.surroundings Sample.localDown [Sample.item]).2 =
        [some (.batch (ascii "kafka unavailable"))] := by
  decide +kernel

end TelemetryForge.Mesh
