import TelemetryForge.Router.Catalog
import TelemetryForge.Router.Attempts

/-! # Failure fallbacks

The walk of `validateFallbackCycles` finds every cycle of the fallback links. -/

namespace TelemetryForge.Router

open List

namespace Config

variable {config : Config}

theorem fallbackLink_eq_some {name following : Bytes}
    (linked : config.fallbackLink name = some following) :
    ∃ destination ∈ config.destinations, trimSpace destination.name = name ∧
      destination.failureFallback = following ∧ following ≠ [] := by
  rw [fallbackLink, Option.bind_eq_some_iff] at linked
  rcases linked with ⟨found, lookup, isFallback⟩
  rcases catalogued_eq_some lookup with ⟨destination, member, named, rfl⟩
  split_ifs at isFallback with none
  cases isFallback
  exact ⟨destination, member, named, rfl, none⟩

variable (config) in
theorem validateFallbackCycles_iff :
    config.validateFallbackCycles = .ok () ↔ Links.Acyclic config.fallbackLink := by
  have domain : ∀ name following, config.fallbackLink name = some following →
      name ∈ config.names := by
    intro name following linked
    rcases fallbackLink_eq_some linked with ⟨destination, member, named, _⟩
    exact mem_map.mpr ⟨destination, member, named⟩
  rw [validateFallbackCycles, forM_eq_ok, ← Links.all_walk_iff domain]
  simp only [refuse_eq_ok, Bool.not_eq_false]

def fallbackOf (config : Config) (name : Bytes) : Bytes :=
  (config.decisionFor (name, [])).failureFallback

def Configures (config : Config) (decision : Decision) : Prop :=
  decision = config.decisionFor (decision.destination, decision.routeRules)

instance (decision : Decision) : Decidable (config.Configures decision) :=
  inferInstanceAs (Decidable (_ = _))

theorem configures_of_mem_plan [Strings] {event : Event} {decision : Decision}
    (planned : decision ∈ config.plan event) : config.Configures decision := by
  rcases mem_map.mp planned with ⟨entry, _, rfl⟩
  rfl

theorem Configures.failureFallback {decision : Decision} (configured : config.Configures decision) :
    decision.failureFallback = config.fallbackOf decision.destination := by
  rw [Configures] at configured
  rw [configured]
  rfl

theorem fallback_configured {claim : Claim} {decision : Decision}
    (fallback : config.failureFallback claim = some decision) :
    claim.row.failureFallback = decision.destination ∧ decision.destination ≠ [] ∧
      (∃ destination ∈ config.destinations, destination.name = decision.destination) ∧
      decision.failureFallback = config.fallbackOf decision.destination := by
  rcases failureFallback_eq_some fallback with ⟨nonempty, found, lookup, named, _, following⟩
  rcases destinationByName_eq_some lookup with ⟨destination, member, sameName, rfl⟩
  have same : decision.destination = claim.row.failureFallback := named.trans sameName
  refine ⟨same.symm, same ▸ nonempty, ⟨destination, member, named.symm⟩, ?_⟩
  rw [following, same]
  simp only [fallbackOf, decisionFor, lookup, Option.getD_some]

theorem Resolved.link_of_fallbackOf (resolved : config.Resolved) {name : Bytes}
    (configured : config.fallbackOf name ≠ []) :
    Links.Link config.fallbackLink (trimSpace name) (trimSpace (config.fallbackOf name)) ∧
      name ∈ config.destinations.map Destination.name := by
  cases lookup : config.destinationByName name with
  | none => simp [fallbackOf, decisionFor, lookup] at configured
  | some found =>
    have fallback : config.fallbackOf name = found.failureFallback := by
      simp [fallbackOf, decisionFor, lookup]
    rcases destinationByName_eq_some lookup with ⟨destination, member, named, rfl⟩
    rw [fallback] at configured ⊢
    have available : config.isAvailable (withDestinationDefaults destination).failureFallback =
        true := resolved.failureFallbacks destination member configured
    constructor
    · rw [trimSpace_of_isAvailable available, Links.Link, fallbackLink,
        resolved.destinationByName lookup, Option.bind_some, if_neg configured]
    · exact mem_map.mpr ⟨destination, member, named⟩

end Config

structure Trail (ι : Type) where
  board : Board ι
  hops : List (DeliveryKey × DeliveryKey)
  created : List DeliveryKey

namespace Trail

variable {ι : Type} (config : Config)

def initial : Trail ι := ⟨.initial, [], []⟩

def hopsOf (board : Board ι) : Action ι → List (DeliveryKey × DeliveryKey)
  | .finish lane result _ now =>
    match board.hands lane with
    | none => []
    | some claim =>
      (config.fallbackRows claim result now).map fun (key, _) => (claim.key, key)
  | .enqueue _ _ _ _ | .claim _ _ _ _ | .abandon _ => []

section Machine

variable [DecidableEq ι] [Json.FloatText]

def step (trail : Trail ι) (action : Action ι) : Trail ι where
  board := trail.board.step config action
  hops := trail.hops ++ hopsOf config trail.board action
  created := trail.created ++ trail.board.outbox.insertions (trail.board.inserted config action)

def Planned : Action ι → Prop
  | .enqueue _ _ decisions _ => ∀ decision ∈ decisions, config.Configures decision
  | .claim _ _ _ _ | .finish _ _ _ _ | .abandon _ => True

instance (action : Action ι) : Decidable (Planned config action) :=
  match action with
  | .enqueue _ _ decisions _ =>
    inferInstanceAs (Decidable (∀ decision ∈ decisions, config.Configures decision))
  | .claim _ _ _ _ | .finish _ _ _ _ | .abandon _ => isTrue trivial

def machine (ι : Type) [DecidableEq ι] : Machine (Trail ι) (Action ι) :=
  ⟨step config, fun trail action => trail.board.Allowed action ∧ Planned config action⟩

instance (trail : Trail ι) (action : Action ι) :
    Decidable ((machine config ι).allowed trail action) :=
  inferInstanceAs (Decidable (_ ∧ _))

end Machine

def Follows (trail : Trail ι) (key following : DeliveryKey) : Prop := (key, following) ∈ trail.hops

structure Recorded (trail : Trail ι) : Prop where
  present : ∀ key ∈ trail.created, (trail.board.outbox.deliveries key).isSome = true
  distinct : trail.created.Nodup

variable {config}

theorem Recorded.initial : (Trail.initial : Trail ι).Recorded where
  present _ member := by simp [Trail.initial] at member
  distinct := .nil

theorem Recorded.step [DecidableEq ι] [Json.FloatText] {trail : Trail ι} (recorded : trail.Recorded) (action : Action ι) :
    (trail.step config action).Recorded where
  present key member := by
    dsimp only [Trail.step]
    rw [Board.step_isSome]
    rcases mem_append.mp member with earlier | fresh
    · exact .inl (recorded.present key earlier)
    · exact .inr (Outbox.mem_of_mem_insertions fresh)
  distinct := by
    refine nodup_append.mpr ⟨recorded.distinct, Outbox.insertions_nodup _ _, ?_⟩
    rintro key earlier _ fresh rfl
    -- Only keys without a row are inserted.
    have present := recorded.present key earlier
    rw [Outbox.insertions_absent fresh] at present
    cases present

variable (config) in
structure Configured (trail : Trail ι) : Prop where
  rows : ∀ key row, trail.board.outbox.deliveries key = some row →
    row.failureFallback = config.fallbackOf key.destination
  hands : ∀ lane claim, trail.board.hands lane = some claim →
    claim.row.failureFallback = config.fallbackOf claim.key.destination
  hops : ∀ key following, trail.Follows key following →
    config.fallbackOf key.destination = following.destination ∧ following.destination ≠ [] ∧
      following.destination ∈ config.destinations.map Destination.name

variable {action : Action ι}

theorem failureFallback_of_inserted [Json.FloatText] {board : Board ι}
    (planned : Planned config action) {key : DeliveryKey} {row : Row}
    (member : (key, row) ∈ board.inserted config action) :
    row.failureFallback = config.fallbackOf key.destination := by
  cases action with
  | enqueue contextTenant event decisions now =>
    rw [Board.inserted] at member
    split_ifs at member
    · rcases mem_map.mp member with ⟨decision, listed, same⟩
      cases same
      exact (planned decision listed).failureFallback
    · cases member
  | finish lane result next now =>
    rw [Board.inserted] at member
    split at member
    · cases member
    · rcases mem_fallbackRows member with ⟨decision, fallback, named, rfl⟩
      rw [named]
      exact (Config.fallback_configured fallback).2.2.2
  | claim lane other leaseUntil now => cases member
  | abandon lane => cases member

namespace Configured

variable {trail : Trail ι}

theorem initial : (Trail.initial : Trail ι).Configured config where
  rows _ _ found := by simp [Trail.initial, Board.initial, Outbox.empty] at found
  hands _ _ hand := by simp [Trail.initial, Board.initial] at hand
  hops _ _ hop := by simp [Trail.initial, Follows] at hop

section

variable (configured : trail.Configured config)
include configured

theorem hop
    {key following : DeliveryKey} (member : (key, following) ∈ hopsOf config trail.board action) :
    config.fallbackOf key.destination = following.destination ∧ following.destination ≠ [] ∧
      following.destination ∈ config.destinations.map Destination.name := by
  cases action with
  | finish lane result next now =>
    rw [hopsOf] at member
    split at member
    · cases member
    next claim hand =>
      rcases mem_map.mp member with ⟨⟨other, row⟩, listed, same⟩
      cases same
      rcases mem_fallbackRows listed with ⟨decision, fallback, named, _⟩
      rcases Config.fallback_configured fallback with
        ⟨destination, nonempty, ⟨target, known, sameName⟩, _⟩
      rw [named, ← configured.hands lane claim hand]
      exact ⟨destination, nonempty, mem_map.mpr ⟨target, known, sameName⟩⟩
  | enqueue contextTenant event decisions now => cases member
  | claim lane other leaseUntil now => cases member
  | abandon lane => cases member

theorem step [DecidableEq ι] [Json.FloatText]
    (planned : Planned config action) : (trail.step config action).Configured config where
  rows key row found := by
    cases Board.step_row config found with
    | kept before held same => rw [same.failureFallback, configured.rows key before held]
    | claimed lane leaseUntil now before isClaim held leased =>
      rw [leased]
      exact configured.rows key before held
    | created absent inserted => exact failureFallback_of_inserted planned inserted
  hands lane claim hand := by
    rcases Board.step_hand config hand with held | ⟨leaseUntil, now, row, _, found, leased⟩
    · exact configured.hands lane claim held
    · rw [leased]
      exact configured.rows claim.key row found
  hops key following member := by
    rcases mem_append.mp member with earlier | fresh
    · exact configured.hops key following earlier
    · exact configured.hop fresh

theorem isChain_names (resolved : config.Resolved)
    {chain : List DeliveryKey} (follows : chain.IsChain trail.Follows) :
    (chain.map fun key => trimSpace key.destination).IsChain (Links.Link config.fallbackLink) := by
  rw [isChain_map]
  refine follows.imp fun key following hop => ?_
  rcases configured.hops key following hop with ⟨fallback, nonempty, _⟩
  rw [← fallback] at nonempty ⊢
  exact (resolved.link_of_fallbackOf nonempty).1

theorem chain_listed (resolved : config.Resolved)
    {key following : DeliveryKey} {rest : List DeliveryKey}
    (follows : (key :: following :: rest).IsChain trail.Follows) :
    ∀ reached ∈ key :: following :: rest,
      reached.destination ∈ config.destinations.map Destination.name := by
  induction rest generalizing key following with
  | nil =>
    rcases configured.hops key following (isChain_cons_cons.mp follows).1 with
      ⟨fallback, nonempty, known⟩
    rw [← fallback] at nonempty
    simpa using ⟨by simpa using (resolved.link_of_fallbackOf nonempty).2, by simpa using known⟩
  | cons next rest induction =>
    rcases isChain_cons_cons.mp follows with ⟨hop, others⟩
    rcases configured.hops key following hop with ⟨fallback, nonempty, _⟩
    rw [← fallback] at nonempty
    rw [forall_mem_cons]
    exact ⟨(resolved.link_of_fallbackOf nonempty).2, induction others⟩

theorem chain_bounded (resolved : config.Resolved)
    {chain : List DeliveryKey} (follows : chain.IsChain trail.Follows) :
    (chain.map DeliveryKey.destination).Nodup ∧ chain.length ≤ config.destinations.length := by
  have acyclic := config.validateFallbackCycles_iff.mp resolved.acyclic
  have trimmed := Links.nodup_of_isChain acyclic (configured.isChain_names resolved follows)
  have distinct : (chain.map DeliveryKey.destination).Nodup := by
    refine List.Nodup.of_map trimSpace ?_
    rwa [map_map]
  refine ⟨distinct, ?_⟩
  match chain, follows, distinct with
  | [], _, _ => exact Nat.zero_le _
  | [_], _, _ => exact length_pos_iff.mpr resolved.nonempty
  | key :: following :: rest, follows, distinct =>
    have listed : (key :: following :: rest).map DeliveryKey.destination ⊆
        config.destinations.map Destination.name := by
      intro name member
      rcases mem_map.mp member with ⟨reached, inChain, rfl⟩
      exact configured.chain_listed resolved follows reached inChain
    have fits := (subperm_of_subset distinct listed).length_le
    simpa using fits

end

end Configured

theorem holds_run [DecidableEq ι] [Json.FloatText] {actions : List (Action ι)}
    (admits : (machine config ι).Admits .initial actions) :
    ((machine config ι).run .initial actions).Configured config ∧
      ((machine config ι).run .initial actions).Recorded := by
  refine Machine.invariant (fun trail : Trail ι => trail.Configured config ∧ trail.Recorded) ?_ ?_
    admits
  · intro trail action holds allowed
    exact ⟨holds.1.step allowed.2, holds.2.step action⟩
  · exact ⟨.initial, .initial⟩

end Trail

/-- The fallback check accepts exactly the configurations without a cycle; and for every
accepted document, in every run of any number of lanes, dead letters lead from one destination
to another at most as often as there are destinations, never back, and create each delivery
once. -/
theorem failure_fallbacks_end [Strings] [Json.FloatText] {κ ι : Type} [DecidableEq ι]
    (isValidSpec : κ → Bool) : (∀ config : Config,
      config.validateFallbackCycles = .ok () ↔ Links.Acyclic config.fallbackLink) ∧
    ∀ document : Document κ, document.validate isValidSpec = .ok () →
      ∀ actions, (Trail.machine document.config ι).Admits .initial actions →
        let trail := (Trail.machine document.config ι).run .initial actions
        (∀ chain : List DeliveryKey, chain.IsChain trail.Follows →
          (chain.map DeliveryKey.destination).Nodup ∧ chain.length ≤ document.destinations.length) ∧
        trail.created.Nodup := by
  refine ⟨Config.validateFallbackCycles_iff, fun document accepted actions admits => ?_⟩
  rcases Trail.holds_run admits with ⟨configured, recorded⟩
  refine ⟨fun chain follows => ?_, recorded.distinct⟩
  have bounded := configured.chain_bounded (document.resolved accepted) follows
  rwa [Document.config, length_map] at bounded

namespace FallbackSample

def listing (name fallback : Bytes) : Listing Unit where
  destination := ⟨name, true, 0, 0, 0, fallback⟩
  backend := ⟨ascii "kafka", [], ascii "events", [], [], .empty, .empty, [], none⟩

def document : Document Unit where
  name := ascii "routes"
  version := ascii "1"
  destinations := [listing (ascii "primary") (ascii "backup"), listing (ascii "backup") []]
  rules := [⟨ascii "all", [], [], [], [], .empty, [ascii "primary"], false⟩]
  fallbackDestination := []

def key (name : Bytes) : DeliveryKey := ⟨ascii "default", ascii "e1", name⟩

def refused : SendResult := .failed false (ascii "refused")

def actions : List (Action Bool) :=
  [.enqueue (ascii "default") Policy.Sample.event
      [document.config.decisionFor (ascii "primary", [ascii "all"])] 0,
    .claim false (key (ascii "primary")) 30 0, .finish false refused 0 1,
    .claim true (key (ascii "backup")) 32 2, .finish true refused 0 3]

theorem admits : letI := Sample.floatText
    (Trail.machine document.config Bool).Admits .initial actions := by
  decide +kernel

theorem accepted : letI := Spelling.strings
    document.validate Spelling.accepts = .ok () := by
  decide +kernel

end FallbackSample

theorem failure_fallbacks_end_sample : letI := Sample.floatText
    let trail := (Trail.machine FallbackSample.document.config Bool).run .initial
      FallbackSample.actions
    trail.hops = [(FallbackSample.key (ascii "primary"), FallbackSample.key (ascii "backup"))] ∧
      trail.created.Nodup :=
  letI := Sample.floatText
  letI := Spelling.strings
  ⟨by decide +kernel, ((failure_fallbacks_end Spelling.accepts).2 FallbackSample.document
    FallbackSample.accepted FallbackSample.actions FallbackSample.admits).2⟩

end TelemetryForge.Router
