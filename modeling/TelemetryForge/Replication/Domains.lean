import TelemetryForge.Replication.Manager

/-! # Reported and configured failure domains

An acknowledgement has to carry the ID of its peer, but its failure domain is taken from the
peer's answer. -/

namespace TelemetryForge.Replication

open List

def Arrival.peer? : Arrival → Option Node
  | .timedOut => none
  | .answered peer _ => some peer

def FromPeers (config : Config) (arrivals : List Arrival) : Prop :=
  (arrivals.filterMap Arrival.peer?).Subperm config.peers

def configuredNodes (config : Config) (collected : List (Node × Ack)) : List Node :=
  config.localNode :: collected.map Prod.fst

def neededPeers (config : Config) : Nat := max (config.quorum - 1).toNat 1

theorem collect_collected (config : Config) (record : Record) (failures : Nat)
    (collected : List (Node × Ack)) (arrivals : List Arrival) :
    ∃ more, (collect config record failures collected arrivals).collected = collected ++ more ∧
      (more.map Prod.fst).Sublist (arrivals.filterMap Arrival.peer?) := by
  induction arrivals generalizing failures collected with
  | nil => exact ⟨[], by simp [collect], List.Sublist.refl _⟩
  | cons arrival rest induction =>
    cases arrival with
    | timedOut => exact ⟨[], by simp [collect], nil_sublist _⟩
    | answered peer response =>
      simp only [collect, filterMap_cons, Arrival.peer?]
      split
      · rcases induction (failures + 1) collected with ⟨more, isMore, sublist⟩
        exact ⟨more, isMore, sublist.cons _⟩
      · rename_i ack _
        split_ifs
        · exact ⟨[(peer, ack)], rfl, (nil_sublist _).cons_cons _⟩
        · rcases induction failures (collected ++ [(peer, ack)]) with ⟨more, isMore, sublist⟩
          exact ⟨(peer, ack) :: more, by simp [isMore], sublist.cons_cons _⟩

theorem Meets.neededPeers_le {config : Config} (remote : config.mode ≠ .local)
    {collected : List (Node × Ack)} (meets : Meets config (reportedNodes config collected)) :
    neededPeers config ≤ collected.length := by
  have count : ((counted config (reportedNodes config collected)).map (·.id)).toFinset.card ≤
      collected.length + 1 := by
    refine (toFinset_card_le _).trans ?_
    rw [length_map]
    refine (length_filter_le _ _).trans ?_
    simp [reportedNodes]
  have others : collected ≠ [] := by
    rintro rfl
    exact not_meetsRule_of_subset_singleton remote (filter_subset_self _) meets.rule
  have positive := length_pos_of_ne_nil others
  have quorum := meets.quorum
  simp only [neededPeers, max_le_iff]
  omega

def otherDomain (config : Config) : FailureDomain :=
  let domain := config.localNode.domain
  match config.mode with
  | .regional => { domain with zone := domain.zone ++ ascii "-other" }
  | .crossCloud => { domain with cloud := domain.cloud ++ ascii "-other" }
  | _ => { domain with region := domain.region ++ ascii "-other" }

def misplacedAck (config : Config) (record : Record) (peer : Node) : Ack where
  node := { peer with domain := otherDomain config }
  edgeID := record.edgeID
  edgeSequence := record.edgeSequence
  payloadSHA256 := record.payloadSHA256
  recordHash := record.recordHash
  duplicate := false
  durableAt := record.acceptedAt

def misplaced (config : Config) (record : Record) (peer : Node) : Arrival :=
  .answered peer (.created (misplacedAck config record peer))

theorem replicateToPeer_misplaced (config : Config) (record : Record) (peer : Node) :
    replicateToPeer peer record (.created (misplacedAck config record peer)) =
      some (misplacedAck config record peer) := by
  simp [replicateToPeer, misplacedAck]

theorem append_other_ne (text : Bytes) : text ++ ascii "-other" ≠ text := by
  intro same
  have nonempty : ascii "-other" ≠ [] := by decide
  exact nonempty (append_right_eq_self.mp same)

theorem two_le_valuesOf {field : Node → Bytes} {nodes : List Node} (left right : Node)
    (isLeft : left ∈ nodes) (isRight : right ∈ nodes) (leftPresent : field left ≠ [])
    (rightPresent : field right ≠ []) (different : field left ≠ field right) :
    2 ≤ (valuesOf field nodes).card := by
  have pair : ({field left, field right} : Finset Bytes) ⊆ valuesOf field nodes := by
    intro value member
    simp only [Finset.mem_insert, Finset.mem_singleton] at member
    simp only [valuesOf, mem_toFinset, mem_filter, mem_map, decide_eq_true_eq]
    rcases member with rfl | rfl
    · exact ⟨⟨left, isLeft, rfl⟩, leftPresent⟩
    · exact ⟨⟨right, isRight, rfl⟩, rightPresent⟩
  exact (Finset.card_pair different).ge.trans (Finset.card_le_card pair)

theorem ne_nil_of_trimSpace {text : Bytes} (nonblank : trimSpace text ≠ []) : text ≠ [] := by
  rintro rfl
  exact nonblank (by decide)

theorem meetsRule_other {config : Config} (sound : config.Sound) (remote : config.mode ≠ .local)
    (set : config.mode ≠ .unset) {nodes : List Node} (isLocal : config.localNode ∈ nodes)
    {peer : Node} (isPeer : peer ∈ nodes) (domain : peer.domain = otherDomain config) :
    MeetsRule config nodes := by
  have placed := sound.placed
  have other (text : Bytes) : text ++ ascii "-other" ≠ [] := by
    rw [Ne, append_eq_nil_iff, not_and]
    intro _
    decide
  cases mode : config.mode with
  | unset => exact absurd mode set
  | «local» => exact absurd mode remote
  | unsupported text =>
    rw [mode] at placed
    cases placed
  | regional =>
    simp only [mode, Mode.validate, refuse_eq_ok, not_or] at placed
    simp only [otherDomain, mode] at domain
    simp only [MeetsRule, mode]
    refine two_le_valuesOf config.localNode peer ?_ ?_ (ne_nil_of_trimSpace placed.2) ?_ ?_
    · simp [isLocal]
    · simp [isPeer, domain]
    · simpa only [domain] using other _
    · simpa only [domain] using (append_other_ne _).symm
  | crossRegion | crossCloud =>
    simp only [mode, Mode.validate, refuse_eq_ok] at placed
    simp only [otherDomain, mode] at domain
    simp only [MeetsRule, mode]
    refine two_le_valuesOf config.localNode peer isLocal isPeer (ne_nil_of_trimSpace placed) ?_ ?_
    · simpa only [domain] using other _
    · simpa only [domain] using (append_other_ne _).symm

section Misplaced

variable (manager : Manager) (record : Record)

def misplacedAcks (config : Config) (peers : List Node) : List (Node × Ack) :=
  peers.map fun peer => (peer, misplacedAck config record peer)

theorem counted_misplaced {peers : List Node} (subset : peers ⊆ manager.config.peers) :
    counted manager.config (reportedNodes manager.config
      (misplacedAcks record manager.config peers)) =
        reportedNodes manager.config (misplacedAcks record manager.config peers) := by
  have sound := manager.sound
  rw [counted, filter_eq_self]
  intro node member
  rcases mem_cons.mp member with rfl | member
  · simp [sound.named]
  · simp only [misplacedAcks, map_map, mem_map] at member
    rcases member with ⟨peer, isPeer, rfl⟩
    have named := sound.peerNames peer (subset isPeer)
    by_cases regional : manager.config.mode = .regional
    · simp [misplacedAck, named, otherDomain, regional]
    · simp [misplacedAck, named, regional]

theorem meets_misplaced_iff (remote : manager.config.mode ≠ .local) {peers : List Node}
    (subperm : peers.Subperm manager.config.peers) (nonempty : peers ≠ []) :
    Meets manager.config (reportedNodes manager.config
        (misplacedAcks record manager.config peers)) ↔
      manager.config.quorum ≤ peers.length + 1 := by
  have all := counted_misplaced manager record subperm.subset
  have ids : (reportedNodes manager.config (misplacedAcks record manager.config peers)).map (·.id) =
      manager.config.localNode.id :: peers.map (·.id) := by
    simp [reportedNodes, misplacedAcks, misplacedAck, Function.comp_def]
  have nodup : (manager.config.localNode.id :: peers.map (·.id)).Nodup := by
    have distinct := nodup_cons.mp manager.sound.distinct
    rcases subperm with ⟨sub, perm, sublist⟩
    rw [nodup_cons]
    constructor
    · intro member
      exact distinct.1 ((map_subset _ sublist.subset) ((perm.map _).mem_iff.mpr member))
    · exact (perm.map _).nodup_iff.mp (distinct.2.sublist (sublist.map _))
  have count : ((counted manager.config (reportedNodes manager.config
      (misplacedAcks record manager.config peers))).map (·.id)).toFinset.card = peers.length + 1 := by
    rw [all, ids, toFinset_card_of_nodup nodup]
    simp
  constructor
  · intro meets
    have quorum := meets.quorum
    rw [count] at quorum
    exact_mod_cast quorum
  · intro quorum
    obtain ⟨peer, isPeer⟩ := exists_mem_of_ne_nil peers nonempty
    refine ⟨by rw [count]; exact_mod_cast quorum, ?_⟩
    rw [all]
    have reported : { peer with domain := otherDomain manager.config } ∈
        reportedNodes manager.config (misplacedAcks record manager.config peers) := by
      simp only [reportedNodes, misplacedAcks, map_map, mem_cons, mem_map]
      exact .inr ⟨peer, isPeer, rfl⟩
    exact meetsRule_other manager.sound remote manager.mode_ne_unset mem_cons_self reported rfl

theorem collect_misplaced (remote : manager.config.mode ≠ .local) (earlier rest : List Node)
    (subperm : (earlier ++ rest).Subperm manager.config.peers) (more : rest ≠ [])
    (needed : (earlier ++ rest).length = neededPeers manager.config) (failures : Nat) :
    let outcome := collect manager.config record failures
      (misplacedAcks record manager.config earlier) (rest.map (misplaced manager.config record))
    outcome.error = none ∧
      outcome.collected = misplacedAcks record manager.config (earlier ++ rest) := by
  induction rest generalizing earlier with
  | nil => exact absurd rfl more
  | cons peer rest induction =>
    have appended : misplacedAcks record manager.config earlier ++
        [(peer, misplacedAck manager.config record peer)] =
          misplacedAcks record manager.config (earlier ++ [peer]) := by
      simp [misplacedAcks]
    have sub : (earlier ++ [peer]).Subperm manager.config.peers := by
      refine List.Sublist.subperm ?_ |>.trans subperm
      exact (List.Sublist.refl earlier).append ((nil_sublist rest).cons_cons peer)
    have satisfied := meets_misplaced_iff manager record remote sub (by simp)
    rw [← manager.evaluate_iff] at satisfied
    simp only [map_cons, misplaced, collect, replicateToPeer_misplaced, appended]
    simp only [neededPeers, length_append, length_cons] at needed satisfied
    cases rest with
    | nil =>
      have reached := satisfied.mpr (by
        simp only [length_nil] at needed ⊢
        omega)
      rw [if_pos reached]
      exact ⟨rfl, rfl⟩
    | cons next rest =>
      have short : (evaluate manager.config (reportedNodes manager.config
          (misplacedAcks record manager.config (earlier ++ [peer])))).satisfied ≠ true := by
        intro reached
        have quorum := satisfied.mp reached
        simp only [length_nil, length_cons] at needed quorum
        omega
      rw [if_neg short]
      have later := induction (earlier ++ [peer]) (by simpa using subperm) (by simp)
        (by simp only [neededPeers, length_append, length_cons, length_nil] at needed ⊢; omega)
      simpa using later

end Misplaced

theorem collect_ids (config : Config) (record : Record) (failures : Nat)
    (collected : List (Node × Ack)) (arrivals : List Arrival)
    (ids : ∀ entry ∈ collected, entry.2.node.id = entry.1.id) :
    ∀ entry ∈ (collect config record failures collected arrivals).collected,
      entry.2.node.id = entry.1.id := by
  induction arrivals generalizing failures collected with
  | nil => exact ids
  | cons arrival rest induction =>
    cases arrival with
    | timedOut => exact ids
    | answered peer response =>
      simp only [collect]
      split
      · exact induction _ _ ids
      · rename_i ack acknowledged
        have appended : ∀ entry ∈ collected ++ [(peer, ack)], entry.2.node.id = entry.1.id := by
          intro entry member
          rcases mem_append.mp member with before | last
          · exact ids entry before
          · obtain rfl := mem_singleton.mp last
            cases response with
            | failed => cases acknowledged
            | created body =>
              simp only [replicateToPeer] at acknowledged
              split_ifs at acknowledged with mismatch
              obtain rfl := Option.some.inj acknowledged
              exact not_not.mp (not_or.mp mismatch).1
        split_ifs
        · exact appended
        · exact induction _ _ appended

/-- Success with peers that report their configured domains meets the policy in those domains. -/
theorem Manager.replicate_honest (manager : Manager) (remote : manager.config.mode ≠ .local)
    (record : Record) (arrivals : List Arrival)
    (honest : ∀ entry ∈ (manager.replicate record arrivals).collected,
      entry.2.node.domain = entry.1.domain)
    (success : (manager.replicate record arrivals).error = none) :
    Meets manager.config
      (configuredNodes manager.config (manager.replicate record arrivals).collected) := by
  have satisfied := (manager.replicate_error_iff record arrivals).mpr
    (fun near => remote near.1) |>.mp success
  rw [manager.replicate_satisfied_iff] at satisfied
  refine satisfied.mono ?_
  have ids := collect_ids manager.config record 0 [] arrivals (by simp)
  rw [Manager.replicate, if_neg remote] at honest ⊢
  intro node member
  rcases mem_cons.mp member with rfl | member
  · exact ⟨manager.config.localNode, mem_cons_self, rfl, rfl⟩
  · rcases mem_map.mp member with ⟨entry, isEntry, rfl⟩
    exact ⟨entry.1, mem_cons_of_mem _ (mem_map_of_mem isEntry),
      (ids entry isEntry).symm, (honest entry isEntry).symm⟩

/-- In a mode other than the local one, success always means that the local node and the peers
that acknowledged meet the policy as they are configured exactly when every choice of as many
configured peers as a success needs meets it. -/
theorem configured_domains_iff (manager : Manager) (remote : manager.config.mode ≠ .local) :
    (∀ record arrivals, FromPeers manager.config arrivals →
      (manager.replicate record arrivals).error = none →
        Meets manager.config
          (configuredNodes manager.config (manager.replicate record arrivals).collected)) ↔
    ∀ peers : List Node, peers.Subperm manager.config.peers →
      peers.length = neededPeers manager.config →
        Meets manager.config (manager.config.localNode :: peers) := by
  constructor
  · intro always peers subperm needed
    have nonempty : peers ≠ [] := by
      rintro rfl
      simp only [neededPeers, length_nil] at needed
      omega
    let record : Record := ⟨[], 0, [], [], 1, 1, .zero, [], 0, [], [], Event.zero⟩
    have run := collect_misplaced manager record remote [] peers subperm nonempty needed 0
    have named : (peers.map (misplaced manager.config record)).filterMap Arrival.peer? = peers := by
      simp [filterMap_map, Function.comp_def, misplaced, Arrival.peer?]
    have replicated : manager.replicate record (peers.map (misplaced manager.config record)) =
        collect manager.config record 0 [] (peers.map (misplaced manager.config record)) :=
      if_neg remote
    have meets := always record (peers.map (misplaced manager.config record))
      (by rwa [FromPeers, named]) (by rw [replicated]; exact run.1)
    rw [replicated] at meets
    have collected := run.2
    simp only [misplacedAcks, map_nil, nil_append] at collected
    rw [collected] at meets
    simpa [configuredNodes, Function.comp_def] using meets
  · intro enough record arrivals from_ success
    have satisfied := (manager.replicate_error_iff record arrivals).mpr
      (fun near => remote near.1) |>.mp success
    rw [manager.replicate_satisfied_iff] at satisfied
    have count := satisfied.neededPeers_le remote
    have replicated : manager.replicate record arrivals =
        collect manager.config record 0 [] arrivals := if_neg remote
    rcases collect_collected manager.config record 0 [] arrivals with ⟨more, isMore, sublist⟩
    rw [nil_append] at isMore
    rw [replicated, isMore] at count ⊢
    have taken := (take_sublist (neededPeers manager.config) (more.map Prod.fst))
    refine (enough ((more.map Prod.fst).take (neededPeers manager.config))
      ((taken.trans sublist).subperm.trans from_) ?_).mono ?_
    · rw [length_take, length_map]
      omega
    · exact .of_subset (cons_subset_cons _ taken.subset)

namespace Sample

def node (id region : String) : Node :=
  ⟨ascii id, ascii "http://edge", ⟨ascii "aws", ascii region, ascii "a"⟩⟩

def remoteConfig : Config :=
  ⟨node "edge-a" "us-east-1", [node "edge-b" "eu-west-1"], .crossRegion, 2, 1, ascii "secret"⟩

def remoteManager : Manager where
  config := remoteConfig
  isNormalized := by decide +kernel
  valid := by decide +kernel
  possible := by decide +kernel

def mixedConfig : Config :=
  { remoteConfig with peers := [node "edge-b" "eu-west-1", node "edge-c" "us-east-1"] }

def record : Record :=
  ⟨[], 0, ascii "edge-a", ascii "telemetry", 1, 1, .zero, [], 0, [], [], Event.zero⟩

def honestArrivals : List Arrival :=
  [.answered (node "edge-b" "eu-west-1") (.created ⟨node "edge-b" "eu-west-1", record.edgeID,
    record.edgeSequence, record.payloadSHA256, record.recordHash, false, .zero⟩)]

theorem honestArrivals_succeed : (remoteManager.replicate record honestArrivals).error = none := by
  decide +kernel

end Sample

theorem replicate_honest_sample :
    let outcome := Sample.remoteManager.replicate Sample.record Sample.honestArrivals
    outcome.error = none ∧ Meets Sample.remoteManager.config
      (configuredNodes Sample.remoteManager.config outcome.collected) :=
  ⟨Sample.honestArrivals_succeed, Sample.remoteManager.replicate_honest (by decide) _ _
    (by decide +kernel) Sample.honestArrivals_succeed⟩

theorem configured_domains_iff_sample :
    Sample.remoteManager.config.mode ≠ .local ∧
      ∀ record arrivals, FromPeers Sample.remoteManager.config arrivals →
        (Sample.remoteManager.replicate record arrivals).error = none →
          Meets Sample.remoteManager.config (configuredNodes Sample.remoteManager.config
            (Sample.remoteManager.replicate record arrivals).collected) := by
  refine ⟨by decide, (configured_domains_iff Sample.remoteManager (by decide)).mpr ?_⟩
  intro peers subperm needed
  have all : peers = Sample.remoteManager.config.peers :=
    perm_singleton.mp (subperm.perm_of_length_le (by rw [needed]; decide))
  rw [all]
  exact (Sample.remoteManager.evaluate_iff _).mp Sample.remoteManager.possible

/-- The peer of the local region acknowledges and reports the other region: success, although
both nodes that have the record are configured in one region. -/
theorem success_in_one_region :
    ∃ manager, newManager Sample.mixedConfig = .ok manager ∧ manager.config.mode ≠ .local ∧
      let peer := Sample.node "edge-c" "us-east-1"
      let outcome := manager.replicate Sample.record [misplaced manager.config Sample.record peer]
      FromPeers manager.config [misplaced manager.config Sample.record peer] ∧
        outcome.error = none ∧
        ¬Meets manager.config (configuredNodes manager.config outcome.collected) := by
  refine ⟨_, newManager_eq_ok (by decide +kernel) (by decide +kernel), by decide +kernel, ?_, ?_, ?_⟩
  · exact singleton_sublist.mpr (by decide) |>.subperm
  · decide +kernel
  · rw [← Manager.evaluate_iff]
    decide +kernel

end TelemetryForge.Replication
