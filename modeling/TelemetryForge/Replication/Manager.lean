import TelemetryForge.Foundation.Numbers
import TelemetryForge.Wal.Record

/-! # The replication policy

`replication.Config`, its validation, and `evaluate`, which decides whether a set of
acknowledgements meets the quorum and the failure-domain rule of the mode. -/

namespace TelemetryForge.Replication

open List

structure FailureDomain where
  cloud : Bytes
  region : Bytes
  zone : Bytes
deriving DecidableEq

structure Node where
  id : Bytes
  url : Bytes
  domain : FailureDomain
deriving DecidableEq

inductive Mode
  | unset
  | local
  | regional
  | crossRegion
  | crossCloud
  | unsupported (text : Bytes)
deriving DecidableEq

structure Config where
  localNode : Node
  peers : List Node
  mode : Mode
  quorum : Int
  timeout : Int
  token : Bytes
deriving DecidableEq

def Config.normalized (config : Config) : Config :=
  let mode := if config.mode = .unset then .local else config.mode
  { config with
    mode := mode
    quorum := if config.quorum = 0 then (if mode = .local then 1 else 2) else config.quorum
    timeout := if config.timeout ≤ 0 then 3 * Duration.second else config.timeout }

inductive ConfigError
  | localIDRequired
  | regionalDomain
  | crossRegionDomain
  | crossCloudDomain
  | unsupportedMode (mode : Bytes)
  | quorumNotPositive
  | quorumTooLarge (quorum : Int) (nodes : Nat)
  | tokenRequired
  | peerIDAndURL
  | duplicateNodeID (id : Bytes)
deriving DecidableEq

def Mode.validate (mode : Mode) (domain : FailureDomain) : Except ConfigError Unit :=
  match mode with
  | .unset | .local => .ok ()
  | .regional => refuse (trimSpace domain.region = [] ∨ trimSpace domain.zone = []) .regionalDomain
  | .crossRegion => refuse (trimSpace domain.region = []) .crossRegionDomain
  | .crossCloud => refuse (trimSpace domain.cloud = []) .crossCloudDomain
  | .unsupported text => .error (.unsupportedMode text)

def validatePeers : (seen : List Bytes) → List Node → Except ConfigError Unit
  | _, [] => .ok ()
  | seen, peer :: rest => do
    refuse (trimSpace peer.id = [] ∨ trimSpace peer.url = []) .peerIDAndURL
    refuse (peer.id ∈ seen) (.duplicateNodeID peer.id)
    validatePeers (peer.id :: seen) rest

def Config.validate (config : Config) : Except ConfigError Unit := do
  refuse (trimSpace config.localNode.id = []) .localIDRequired
  config.mode.validate config.localNode.domain
  let quorum :=
    if config.quorum = 0 then (if config.mode = .unset ∨ config.mode = .local then 1 else 2)
    else config.quorum
  refuse (quorum < 1) .quorumNotPositive
  refuse (config.peers.length + 1 < quorum) (.quorumTooLarge quorum (config.peers.length + 1))
  refuse (config.mode ≠ .local ∧ trimSpace config.token = []) .tokenRequired
  validatePeers [config.localNode.id] config.peers

def sortedKeys (values : List Bytes) : List Bytes := values.dedup.insertionSort (· ≤ ·)

theorem length_sortedKeys (values : List Bytes) :
    (sortedKeys values).length = values.toFinset.card := by
  rw [sortedKeys, length_insertionSort, card_toFinset]

/-- `replication.Result`, without the time of its completion. -/
structure Result where
  mode : Mode
  quorum : Int
  ackCount : Nat
  satisfied : Bool
  nodes : List Bytes
  clouds : List Bytes
  regions : List Bytes
  zones : List Bytes
  failureReason : Bytes
deriving DecidableEq

def counted (config : Config) (nodes : List Node) : List Node :=
  nodes.filter fun node =>
    decide (trimSpace node.id ≠ []) &&
      !(decide (config.mode = .regional) && decide (node.domain.region ≠ config.localNode.domain.region))

def regionalReason : Bytes := ascii
  "regional durability requires acknowledgements from at least two zones in the local region"

def crossRegionReason : Bytes := ascii
  "cross-region durability requires acknowledgements from at least two regions"

def crossCloudReason : Bytes := ascii
  "cross-cloud durability requires acknowledgements from at least two clouds"

def shortReason (quorum : Int) (acknowledged : Nat) : Bytes :=
  ascii "need " ++ decimalInt quorum ++ ascii " durable nodes, have " ++ decimal acknowledged

def domainFailure (config : Config) (nodes : List Node) : Option Bytes :=
  match config.mode with
  | .regional =>
    let near := nodes.filter fun node =>
      node.domain.region = config.localNode.domain.region ∧ node.domain.zone ≠ []
    if (sortedKeys (near.map (·.domain.zone))).length < 2 then
      some regionalReason
    else none
  | .crossRegion =>
    if (sortedKeys ((nodes.map (·.domain.region)).filter (· ≠ []))).length < 2 then
      some crossRegionReason
    else none
  | .crossCloud =>
    if (sortedKeys ((nodes.map (·.domain.cloud)).filter (· ≠ []))).length < 2 then
      some crossCloudReason
    else none
  | _ => none

/-- `evaluate`, on the nodes of the acknowledgements. The modes that are not supported are never
satisfied. -/
def evaluate (config : Config) (nodes : List Node) : Result :=
  let config := config.normalized
  let nodes := counted config nodes
  let ids := sortedKeys (nodes.map (·.id))
  let result : Result :=
    { mode := config.mode
      quorum := config.quorum
      ackCount := ids.length
      satisfied := false
      nodes := ids
      clouds := sortedKeys ((nodes.map (·.domain.cloud)).filter (· ≠ []))
      regions := sortedKeys ((nodes.map (·.domain.region)).filter (· ≠ []))
      zones := sortedKeys ((nodes.map (·.domain.zone)).filter (· ≠ []))
      failureReason := [] }
  if ids.length < config.quorum then
    { result with failureReason := shortReason config.quorum ids.length }
  else
    match config.mode with
    | .unset | .unsupported _ => result
    | .local | .regional | .crossRegion | .crossCloud =>
      match domainFailure config nodes with
      | some reason => { result with failureReason := reason }
      | none => { result with satisfied := true }

def valuesOf (field : Node → Bytes) (nodes : List Node) : Finset Bytes :=
  ((nodes.map field).filter (· ≠ [])).toFinset

def MeetsRule (config : Config) (nodes : List Node) : Prop :=
  match config.mode with
  | .local => True
  | .regional =>
    2 ≤ (valuesOf (·.domain.zone)
      (nodes.filter (·.domain.region = config.localNode.domain.region))).card
  | .crossRegion => 2 ≤ (valuesOf (·.domain.region) nodes).card
  | .crossCloud => 2 ≤ (valuesOf (·.domain.cloud) nodes).card
  | .unset | .unsupported _ => False

structure Meets (config : Config) (nodes : List Node) : Prop where
  quorum : config.quorum ≤ ((counted config nodes).map (·.id)).toFinset.card
  rule : MeetsRule config (counted config nodes)

theorem domainFailure_eq_none_iff (config : Config) (nodes : List Node)
    (supported : config.mode = .local ∨ config.mode = .regional ∨ config.mode = .crossRegion ∨
      config.mode = .crossCloud) :
    domainFailure config nodes = none ↔ MeetsRule config nodes := by
  rcases supported with mode | mode | mode | mode
  · simp only [domainFailure, MeetsRule, mode]
  · have near : valuesOf (·.domain.zone)
        (nodes.filter (·.domain.region = config.localNode.domain.region)) =
        ((nodes.filter fun node => node.domain.region = config.localNode.domain.region ∧
          node.domain.zone ≠ []).map (·.domain.zone)).toFinset := by
      ext zone
      simp only [valuesOf, mem_toFinset, mem_filter, mem_map, decide_eq_true_eq]
      constructor
      · rintro ⟨⟨node, ⟨member, region⟩, rfl⟩, present⟩
        exact ⟨node, ⟨member, region, present⟩, rfl⟩
      · rintro ⟨node, ⟨member, region, present⟩, rfl⟩
        exact ⟨⟨node, ⟨member, region⟩, rfl⟩, present⟩
    simp only [domainFailure, MeetsRule, mode, near, length_sortedKeys, ite_eq_right_iff, reduceCtorEq,
      imp_false, not_lt]
  · simp only [domainFailure, MeetsRule, mode, valuesOf, length_sortedKeys, ite_eq_right_iff,
      reduceCtorEq, imp_false, not_lt]
  · simp only [domainFailure, MeetsRule, mode, valuesOf, length_sortedKeys, ite_eq_right_iff,
      reduceCtorEq, imp_false, not_lt]

theorem evaluate_satisfied_iff (config : Config) (nodes : List Node) :
    (evaluate config nodes).satisfied = true ↔ Meets config.normalized nodes := by
  have quorum : ((sortedKeys ((counted config.normalized nodes).map (·.id))).length : Int) <
      config.normalized.quorum ↔ ¬config.normalized.quorum ≤
        ((counted config.normalized nodes).map (·.id)).toFinset.card := by
    rw [length_sortedKeys, not_le]
  unfold evaluate
  dsimp only
  split_ifs with short
  · simp only [false_iff]
    exact fun meets => quorum.mp short meets.quorum
  · have reached := not_not.mp (mt quorum.mpr short)
    split
    case h_1 mode | h_2 mode =>
      simp only [Bool.false_eq_true, false_iff]
      intro meets
      have rule := meets.rule
      simp only [MeetsRule, mode] at rule
    all_goals
      rename_i mode
      have rule := domainFailure_eq_none_iff config.normalized (counted config.normalized nodes)
        (by simp only [mode, reduceCtorEq, true_or, or_true])
      cases failure : domainFailure config.normalized (counted config.normalized nodes) with
      | some reason =>
        simp only [Bool.false_eq_true, false_iff]
        intro meets
        rw [rule.mpr meets.rule] at failure
        cases failure
      | none =>
        simp only [true_iff]
        exact ⟨reached, rule.mp failure⟩

def CoveredBy (nodes more : List Node) : Prop :=
  ∀ node ∈ nodes, ∃ other ∈ more, other.id = node.id ∧ other.domain = node.domain

variable {more : List Node}

theorem CoveredBy.of_subset {nodes : List Node} (subset : nodes ⊆ more) : CoveredBy nodes more :=
  fun node member => ⟨node, subset member, rfl, rfl⟩

theorem CoveredBy.counted {config : Config} {nodes : List Node}
    (covered : CoveredBy nodes more) : CoveredBy (counted config nodes) (counted config more) := by
  intro node member
  rw [Replication.counted, mem_filter] at member
  rcases covered node member.1 with ⟨other, isOther, id, domain⟩
  refine ⟨other, ?_, id, domain⟩
  rw [Replication.counted, mem_filter, id, domain]
  exact ⟨isOther, member.2⟩

theorem CoveredBy.valuesOf_subset {nodes : List Node} (covered : CoveredBy nodes more)
    (field : FailureDomain → Bytes) :
    valuesOf (fun node => field node.domain) nodes ⊆ valuesOf (fun node => field node.domain) more := by
  intro value member
  simp only [valuesOf, mem_toFinset, mem_filter, mem_map] at member ⊢
  rcases member with ⟨⟨node, isNode, rfl⟩, present⟩
  rcases covered node isNode with ⟨other, isOther, _, domain⟩
  exact ⟨⟨other, isOther, by rw [domain]⟩, present⟩

theorem CoveredBy.inRegion {nodes : List Node} (covered : CoveredBy nodes more) (region : Bytes) :
    CoveredBy (nodes.filter (·.domain.region = region)) (more.filter (·.domain.region = region)) := by
  intro node member
  rw [mem_filter] at member
  rcases covered node member.1 with ⟨other, isOther, id, domain⟩
  refine ⟨other, ?_, id, domain⟩
  rw [mem_filter, domain]
  exact ⟨isOther, member.2⟩

theorem MeetsRule.mono {config : Config} {nodes : List Node} (meets : MeetsRule config nodes)
    (covered : CoveredBy nodes more) : MeetsRule config more := by
  unfold MeetsRule at meets ⊢
  split at meets
  case h_1 => trivial
  case h_2 =>
    exact meets.trans (Finset.card_le_card ((covered.inRegion _).valuesOf_subset FailureDomain.zone))
  case h_3 => exact meets.trans (Finset.card_le_card (covered.valuesOf_subset FailureDomain.region))
  case h_4 => exact meets.trans (Finset.card_le_card (covered.valuesOf_subset FailureDomain.cloud))
  case h_5 | h_6 => exact meets.elim

theorem Meets.mono {config : Config} {nodes : List Node} (meets : Meets config nodes)
    (covered : CoveredBy nodes more) : Meets config more where
  quorum := by
    refine meets.quorum.trans ?_
    have ids : ((counted config nodes).map (·.id)).toFinset ⊆
        ((counted config more).map (·.id)).toFinset := by
      intro id member
      simp only [mem_toFinset, mem_map] at member ⊢
      rcases member with ⟨node, isNode, rfl⟩
      rcases covered.counted node isNode with ⟨other, isOther, id, _⟩
      exact ⟨other, isOther, id⟩
    exact_mod_cast Finset.card_le_card ids
  rule := meets.rule.mono covered.counted

/-- Whether the policy is satisfied depends on the set of the acknowledging nodes only, survives
every further acknowledgement, and says that the counted nodes reach the quorum and meet the
rule of the mode. -/
theorem satisfied_laws (config : Config) (nodes : List Node) :
    (∀ others : List Node, (∀ node, node ∈ others ↔ node ∈ nodes) →
        (evaluate config others).satisfied = (evaluate config nodes).satisfied) ∧
      (∀ more : List Node, nodes ⊆ more → (evaluate config nodes).satisfied = true →
        (evaluate config more).satisfied = true) ∧
      ((evaluate config nodes).satisfied = true ↔
        config.normalized.quorum ≤
            ((counted config.normalized nodes).map (·.id)).toFinset.card ∧
          MeetsRule config.normalized (counted config.normalized nodes)) := by
  have grows {fewer most : List Node} (subset : fewer ⊆ most)
      (satisfied : (evaluate config fewer).satisfied = true) :
      (evaluate config most).satisfied = true := by
    rw [evaluate_satisfied_iff] at satisfied ⊢
    exact satisfied.mono (.of_subset subset)
  refine ⟨fun others same => ?_, fun more subset => grows subset, ?_⟩
  · rw [Bool.eq_iff_iff]
    exact ⟨grows fun node => (same node).mp, grows fun node => (same node).mpr⟩
  · rw [evaluate_satisfied_iff]
    exact ⟨fun meets => ⟨meets.quorum, meets.rule⟩, fun both => ⟨both.1, both.2⟩⟩

/-! ## Synchronous replication

`replication.Manager`: a configuration that can satisfy its mode, and the loop of
`Replicate`, which collects the answers of the peers until the policy is satisfied. -/

structure Manager where
  config : Config
  isNormalized : config.normalized = config
  valid : config.validate = .ok ()
  possible : (evaluate config (config.localNode :: config.peers)).satisfied = true

inductive NewManagerError
  | config (error : ConfigError)
  | topology (mode : Mode) (reason : Bytes)
deriving DecidableEq

theorem Config.normalized_normalized (config : Config) :
    config.normalized.normalized = config.normalized := by
  have mode : (if config.mode = .unset then Mode.local else config.mode) ≠ .unset := by
    split_ifs with unset
    · simp
    · exact unset
  have quorum (default_ : Int) (nonzero : default_ ≠ 0) :
      (if config.quorum = 0 then default_ else config.quorum) ≠ 0 := by
    split_ifs with zero
    · exact nonzero
    · exact zero
  have default_ : (if (if config.mode = .unset then Mode.local else config.mode) = .local then
      (1 : Int) else 2) ≠ 0 := by
    split_ifs <;> decide
  have timeout : ¬(if config.timeout ≤ 0 then 3 * Duration.second else config.timeout) ≤ 0 := by
    split_ifs with zero
    · decide
    · exact zero
  simp only [Config.normalized, mode, quorum _ default_, timeout, if_false]

def newManager (config : Config) : Except NewManagerError Manager :=
  match valid : config.normalized.validate with
  | .error error => .error (.config error)
  | .ok () =>
    if possible : (evaluate config.normalized
        (config.normalized.localNode :: config.normalized.peers)).satisfied = true then
      .ok ⟨config.normalized, config.normalized_normalized, valid, possible⟩
    else
      .error (.topology config.normalized.mode
        (evaluate config.normalized
          (config.normalized.localNode :: config.normalized.peers)).failureReason)

theorem newManager_eq_ok {config : Config} (valid : config.normalized.validate = .ok ())
    (possible : (evaluate config.normalized
      (config.normalized.localNode :: config.normalized.peers)).satisfied = true) :
    newManager config = .ok ⟨config.normalized, config.normalized_normalized, valid, possible⟩ := by
  unfold newManager
  split
  case h_1 error failed =>
    rw [valid] at failed
    cases failed
  case h_2 => rw [dif_pos possible]

structure Ack where
  node : Node
  edgeID : Bytes
  edgeSequence : Nat
  payloadSHA256 : Bytes
  recordHash : Bytes
  duplicate : Bool
  durableAt : Time
deriving DecidableEq

inductive Response
  | failed
  | created (ack : Ack)
deriving DecidableEq

/-- The end of `replicateToPeer`: the acknowledgement has to be that of the peer and the record. -/
def replicateToPeer (peer : Node) (record : Record) : Response → Option Ack
  | .failed => none
  | .created ack =>
    if ack.node.id ≠ peer.id ∨ ack.edgeID ≠ record.edgeID ∨
        ack.edgeSequence ≠ record.edgeSequence ∨ ack.payloadSHA256 ≠ record.payloadSHA256 ∨
        ack.recordHash ≠ record.recordHash then none
    else some ack

inductive Arrival
  | timedOut
  | answered (peer : Node) (response : Response)
deriving DecidableEq

structure Outcome where
  result : Result
  error : Option Bytes
  collected : List (Node × Ack)
deriving DecidableEq

def timeoutReason : Bytes :=
  ascii "replication timeout before durability policy was satisfied"

def failuresReason (failures : Nat) : Bytes :=
  ascii "durability policy not satisfied after " ++ decimal failures ++ ascii " peer failures"

def reportedNodes (config : Config) (collected : List (Node × Ack)) : List Node :=
  config.localNode :: collected.map (·.2.node)

def collect (config : Config) (record : Record) :
    (failures : Nat) → (collected : List (Node × Ack)) → List Arrival → Outcome
  | failures, collected, [] =>
    let result := evaluate config (reportedNodes config collected)
    let reason := if result.failureReason = [] then failuresReason failures else result.failureReason
    ⟨{ result with failureReason := reason }, some reason, collected⟩
  | _, collected, .timedOut :: _ =>
    let result := evaluate config (reportedNodes config collected)
    ⟨{ result with failureReason := timeoutReason }, some timeoutReason, collected⟩
  | failures, collected, .answered peer response :: rest =>
    match replicateToPeer peer record response with
    | none => collect config record (failures + 1) collected rest
    | some ack =>
      let collected := collected ++ [(peer, ack)]
      let result := evaluate config (reportedNodes config collected)
      if result.satisfied then ⟨result, none, collected⟩
      else collect config record failures collected rest

def Manager.replicate (manager : Manager) (record : Record) (arrivals : List Arrival) : Outcome :=
  if manager.config.mode = .local then
    ⟨evaluate manager.config [manager.config.localNode], none, []⟩
  else collect manager.config record 0 [] arrivals

theorem validatePeers_ok {seen : List Bytes} {peers : List Node}
    (valid : validatePeers seen peers = .ok ()) :
    (∀ peer ∈ peers, trimSpace peer.id ≠ []) ∧ (peers.map (·.id)).Nodup ∧
      ∀ peer ∈ peers, peer.id ∉ seen := by
  induction peers generalizing seen with
  | nil => simp
  | cons peer rest induction =>
    simp only [validatePeers, andThen_eq_ok, refuse_eq_ok, not_or] at valid
    rcases valid with ⟨⟨named, _⟩, new, others⟩
    rcases induction others with ⟨ids, nodup, fresh⟩
    refine ⟨?_, ?_, ?_⟩
    · rw [forall_mem_cons]
      exact ⟨named, ids⟩
    · rw [map_cons, nodup_cons]
      refine ⟨?_, nodup⟩
      rw [mem_map]
      rintro ⟨other, member, same⟩
      exact fresh other member (same ▸ mem_cons_self)
    · rw [forall_mem_cons]
      exact ⟨new, fun other member seen_ => fresh other member (mem_cons_of_mem _ seen_)⟩

structure Config.Sound (config : Config) : Prop where
  named : trimSpace config.localNode.id ≠ []
  placed : config.mode.validate config.localNode.domain = .ok ()
  quorum : 1 ≤ config.quorum
  peerNames : ∀ peer ∈ config.peers, trimSpace peer.id ≠ []
  distinct : (config.localNode.id :: config.peers.map (·.id)).Nodup

theorem Manager.mode_ne_unset (manager : Manager) : manager.config.mode ≠ .unset := by
  intro unset
  have mode := congrArg Config.mode manager.isNormalized
  simp [Config.normalized, unset] at mode

theorem Manager.quorum_ne_zero (manager : Manager) : manager.config.quorum ≠ 0 := by
  intro zero
  have quorum := congrArg Config.quorum manager.isNormalized
  simp only [Config.normalized, zero, if_true] at quorum
  split_ifs at quorum <;> omega

theorem Manager.sound (manager : Manager) : manager.config.Sound := by
  have valid := manager.valid
  simp only [Config.validate, if_neg manager.quorum_ne_zero, andThen_eq_ok, refuse_eq_ok,
    not_lt] at valid
  rcases valid with ⟨named, placed, quorum, _, _, peers⟩
  rcases validatePeers_ok peers with ⟨ids, nodup, fresh⟩
  refine ⟨named, placed, quorum, ids, nodup_cons.mpr ⟨?_, nodup⟩⟩
  rw [mem_map]
  rintro ⟨peer, member, same⟩
  exact fresh peer member (mem_singleton.mpr same)

theorem Manager.evaluate_iff (manager : Manager) (nodes : List Node) :
    (evaluate manager.config nodes).satisfied = true ↔ Meets manager.config nodes := by
  rw [evaluate_satisfied_iff, manager.isNormalized]

section Loop

variable {config : Config} {record : Record}

theorem collect_satisfied (failures : Nat) (collected : List (Node × Ack)) (arrivals : List Arrival) :
    (collect config record failures collected arrivals).result.satisfied =
      (evaluate config (reportedNodes config
        (collect config record failures collected arrivals).collected)).satisfied := by
  induction arrivals generalizing failures collected with
  | nil => rfl
  | cons arrival rest induction =>
    cases arrival with
    | timedOut => rfl
    | answered peer response =>
      simp only [collect]
      split
      · exact induction _ _
      · split_ifs
        · rfl
        · exact induction _ _

theorem collect_error_eq_none_iff (failures : Nat) (collected : List (Node × Ack))
    (arrivals : List Arrival)
    (before : (evaluate config (reportedNodes config collected)).satisfied = false) :
    (collect config record failures collected arrivals).error = none ↔
      (collect config record failures collected arrivals).result.satisfied = true := by
  induction arrivals generalizing failures collected with
  | nil => simp [collect, before]
  | cons arrival rest induction =>
    cases arrival with
    | timedOut => simp [collect, before]
    | answered peer response =>
      simp only [collect]
      split
      · exact induction _ _ before
      · split_ifs with satisfied
        · simp [satisfied]
        · exact induction _ _ (by simpa using satisfied)

end Loop

theorem not_meetsRule_of_subset_singleton {config : Config} {node : Node} {nodes : List Node}
    (remote : config.mode ≠ .local) (single : nodes ⊆ [node]) : ¬MeetsRule config nodes := by
  have few (field : Node → Bytes) {nodes : List Node} (single : nodes ⊆ [node]) :
      (valuesOf field nodes).card ≤ 1 := by
    refine (Finset.card_le_card ?_).trans (Finset.card_singleton (field node)).le
    intro value member
    simp only [valuesOf, mem_toFinset, mem_filter, mem_map] at member
    rcases member with ⟨⟨other, isOther, rfl⟩, _⟩
    rw [mem_singleton.mp (single isOther), Finset.mem_singleton]
  unfold MeetsRule
  split
  case h_1 mode => exact absurd mode remote
  case h_2 =>
    exact fun two => absurd (two.trans (few (·.domain.zone)
      (List.Subset.trans (filter_subset_self _) single))) (by decide)
  case h_3 =>
    exact fun two => absurd (two.trans (few (·.domain.region) single)) (by decide)
  case h_4 =>
    exact fun two => absurd (two.trans (few (·.domain.cloud) single)) (by decide)
  case h_5 | h_6 => exact id

namespace Manager

variable (manager : Manager)

theorem alone_iff : (evaluate manager.config [manager.config.localNode]).satisfied = true ↔
    manager.config.mode = .local ∧ manager.config.quorum = 1 := by
  have sound := manager.sound
  rw [manager.evaluate_iff]
  constructor
  · intro meets
    have near : manager.config.mode = .local := by
      by_contra remote
      exact not_meetsRule_of_subset_singleton remote (filter_subset_self _) meets.rule
    have count : ((counted manager.config [manager.config.localNode]).map (·.id)).toFinset.card ≤ 1 := by
      refine (toFinset_card_le _).trans ?_
      rw [length_map]
      exact length_filter_le _ _
    have quorum := meets.quorum
    exact ⟨near, by have := sound.quorum; omega⟩
  · rintro ⟨near, quorum⟩
    have all : counted manager.config [manager.config.localNode] = [manager.config.localNode] := by
      simp [counted, sound.named, near]
    refine ⟨?_, ?_⟩
    · rw [all, quorum]
      simp
    · rw [all]
      simp [MeetsRule, near]

theorem replicate_satisfied_iff (record : Record) (arrivals : List Arrival) :
    (manager.replicate record arrivals).result.satisfied = true ↔
      Meets manager.config
        (reportedNodes manager.config (manager.replicate record arrivals).collected) := by
  rw [← manager.evaluate_iff]
  unfold replicate
  split_ifs
  · rfl
  · rw [collect_satisfied]

theorem replicate_error_iff (record : Record) (arrivals : List Arrival) :
    ((manager.replicate record arrivals).error = none ↔
        (manager.replicate record arrivals).result.satisfied = true) ↔
      ¬(manager.config.mode = .local ∧ 1 < manager.config.quorum) := by
  have positive := manager.sound.quorum
  have alone := manager.alone_iff
  unfold replicate
  by_cases near : manager.config.mode = .local
  · simp only [near, if_true, true_iff, true_and, alone]
    omega
  · simp only [near, if_false, false_and, not_false_eq_true, iff_true]
    apply collect_error_eq_none_iff
    rw [← Bool.not_eq_true]
    exact fun satisfied => near (alone.mp satisfied).1

end Manager

end TelemetryForge.Replication
