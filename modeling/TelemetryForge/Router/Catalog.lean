import TelemetryForge.Foundation.Merkle
import TelemetryForge.Foundation.Result
import TelemetryForge.Router.Plan

/-! # Routing documents

`router.Config.Validate` over all the fields of a document, and the senders that
`NewDispatcher` builds. The checks of a connector's own configuration and the construction of
a client are parameters. -/

namespace TelemetryForge.Router

open List

structure Backend (κ : Type) where
  type : Bytes
  brokers : List Bytes
  topic : Bytes
  url : Bytes
  healthURL : Bytes
  headers : SortedMap Bytes Bytes
  headerEnv : SortedMap Bytes Bytes
  bearerTokenEnv : Bytes
  connector : Option κ

structure Listing (κ : Type) where
  destination : Destination
  backend : Backend κ

structure Document (κ : Type) where
  name : Bytes
  version : Bytes
  destinations : List (Listing κ)
  rules : List Rule
  fallbackDestination : Bytes

def Document.config {κ : Type} (document : Document κ) : Config where
  name := document.name
  version := document.version
  destinations := document.destinations.map Listing.destination
  rules := document.rules
  fallbackDestination := document.fallbackDestination

inductive RoutingError
  | nameRequired
  | versionRequired
  | destinationRequired
  | tooManyDestinations (count : Nat)
  | tooManyRules (count : Nat)
  | destinationNameRequired (index : Nat)
  | duplicateDestination (name : Bytes)
  | unsupportedType (name type : Bytes)
  | legacyConnector (name : Bytes)
  | topicRequired (name : Bytes)
  | urlRequired (name : Bytes)
  | urlScheme (name : Bytes)
  | emptyHeaderName (name : Bytes)
  | sensitiveHeader (name header : Bytes)
  | emptyHeaderEnv (name : Bytes)
  | connectorRequired (name : Bytes)
  | invalidConnector (name : Bytes)
  | outsideConnector (name label : Bytes)
  | fallbackUnavailable (name : Bytes)
  | ruleNameRequired (index : Nat)
  | duplicateRule (name : Bytes)
  | rulePattern (name label pattern : Bytes)
  | emptyTagKey (name : Bytes)
  | ruleDestinationRequired (name : Bytes)
  | unknownDestination (name destination : Bytes)
  | disabledDestination (name destination : Bytes)
  | failureFallbackUnavailable (name fallback : Bytes)
  | ownFallback (name : Bytes)
  | fallbackCycle (name : Bytes)
deriving DecidableEq

def sensitiveHeaderName (name : Bytes) : Bool :=
  [ascii "authorization", ascii "cookie", ascii "token", ascii "api-key", ascii "apikey",
    ascii "secret"].any fun marker => contains (toLower (trimSpace name)) marker

namespace Backend

variable {κ : Type} (backend : Backend κ) (name : Bytes)

def validateKafka : Except RoutingError Unit := do
  refuse (backend.connector.isSome = true) (.legacyConnector name)
  refuse (trimSpace backend.topic = []) (.topicRequired name)

def validateHTTP : Except RoutingError Unit := do
  refuse (backend.connector.isSome = true) (.legacyConnector name)
  refuse (trimSpace backend.url = []) (.urlRequired name)
  refuse ((ascii "http://").isPrefixOf backend.url = false ∧
    (ascii "https://").isPrefixOf backend.url = false) (.urlScheme name)
  backend.headers.entries.forM fun (header, _) => do
    refuse (trimSpace header = []) (.emptyHeaderName name)
    refuse (sensitiveHeaderName header = true) (.sensitiveHeader name header)
  backend.headerEnv.entries.forM fun (header, environment) =>
    refuse (trimSpace header = [] ∨ trimSpace environment = []) (.emptyHeaderEnv name)

def legacyFields : List (Bytes × Bool) :=
  [(ascii "brokers", backend.brokers != []), (ascii "topic", trimSpace backend.topic != []),
    (ascii "url", trimSpace backend.url != []),
    (ascii "health_url", trimSpace backend.healthURL != []),
    (ascii "headers", backend.headers.entries != []),
    (ascii "header_env", backend.headerEnv.entries != []),
    (ascii "bearer_token_env", trimSpace backend.bearerTokenEnv != [])]

def validateConnector (isValidSpec : κ → Bool) : Except RoutingError Unit :=
  match backend.connector with
  | none => .error (.connectorRequired name)
  | some spec => do
    refuse (isValidSpec spec = false) (.invalidConnector name)
    backend.legacyFields.forM fun (label, isSet) =>
      refuse (isSet = true) (.outsideConnector name label)

def validate (isValidSpec : κ → Bool) : Except RoutingError Unit :=
  if backend.type = ascii "kafka" then backend.validateKafka name
  else if backend.type = ascii "http" then backend.validateHTTP name
  else if backend.type = ascii "connector" then backend.validateConnector name isValidSpec
  else .error (.unsupportedType name backend.type)

end Backend

def validateDestinations {κ : Type} (isValidSpec : κ → Bool) (seen : List Bytes) (index : Nat) :
    List (Listing κ) → Except RoutingError Unit
  | [] => .ok ()
  | listing :: rest => do
    let name := trimSpace listing.destination.name
    refuse (name = []) (.destinationNameRequired index)
    refuse (name ∈ seen) (.duplicateDestination name)
    listing.backend.validate name isValidSpec
    validateDestinations isValidSpec (name :: seen) (index + 1) rest

def Config.catalogued (config : Config) (name : Bytes) : Option Destination :=
  (config.destinations.find? fun destination => trimSpace destination.name = name).map
    withDestinationDefaults

def Config.isAvailable (config : Config) (name : Bytes) : Bool :=
  (config.catalogued name).any Destination.enabled

section Rules

variable [Strings]

def Rule.validatePatterns (rule : Rule) (name : Bytes) : Except RoutingError Unit := do
  [(ascii "tenant", rule.tenant), (ascii "source", rule.source), (ascii "type", rule.type)].forM
    fun (label, pattern) => refuse (isValidGlob pattern = false)
      (.rulePattern name (ascii "routing rule " ++ label) pattern)
  rule.tags.entries.forM fun (key, pattern) => do
    refuse (trimSpace key = []) (.emptyTagKey name)
    refuse (isValidGlob pattern = false) (.rulePattern name (ascii "tag " ++ key) pattern)

def Config.validateRule (config : Config) (seen : List Bytes) (index : Nat) (rule : Rule) :
    Except RoutingError Unit := do
  let name := trimSpace rule.name
  refuse (name = []) (.ruleNameRequired index)
  refuse (name ∈ seen) (.duplicateRule name)
  rule.validatePatterns name
  refuse (rule.destinations = []) (.ruleDestinationRequired name)
  rule.destinations.forM fun destination => do
    refuse (config.catalogued destination = none) (.unknownDestination name destination)
    refuse (config.isAvailable destination = false) (.disabledDestination name destination)

def Config.validateRules (config : Config) (seen : List Bytes) (index : Nat) :
    List Rule → Except RoutingError Unit
  | [] => .ok ()
  | rule :: rest => do
    config.validateRule seen index rule
    config.validateRules (trimSpace rule.name :: seen) (index + 1) rest

end Rules

def Config.fallbackLink (config : Config) (name : Bytes) : Option Bytes :=
  (config.catalogued name).bind fun destination =>
    if destination.failureFallback = [] then none else some destination.failureFallback

def Config.names (config : Config) : List Bytes :=
  config.destinations.map fun destination => trimSpace destination.name

def Config.validateFallbackCycles (config : Config) : Except RoutingError Unit :=
  config.names.forM fun start =>
    refuse (Links.walk config.fallbackLink (config.names.length + 1) [] start = false)
      (.fallbackCycle start)

def Config.validateFallbacks (config : Config) : Except RoutingError Unit := do
  config.destinations.forM fun destination => do
    let name := trimSpace destination.name
    refuse (destination.failureFallback ≠ [] ∧
      config.isAvailable destination.failureFallback = false)
      (.failureFallbackUnavailable name destination.failureFallback)
    refuse (destination.failureFallback ≠ [] ∧ destination.failureFallback = name)
      (.ownFallback name)
  config.validateFallbackCycles

def Document.validate [Strings] {κ : Type} (isValidSpec : κ → Bool) (document : Document κ) :
    Except RoutingError Unit := do
  refuse (trimSpace document.name = []) .nameRequired
  refuse (trimSpace document.version = []) .versionRequired
  refuse (document.destinations = []) .destinationRequired
  refuse (64 < document.destinations.length) (.tooManyDestinations document.destinations.length)
  refuse (512 < document.rules.length) (.tooManyRules document.rules.length)
  validateDestinations isValidSpec [] 0 document.destinations
  refuse (trimSpace document.fallbackDestination ≠ [] ∧
      document.config.isAvailable (trimSpace document.fallbackDestination) = false)
    (.fallbackUnavailable (trimSpace document.fallbackDestination))
  document.config.validateRules [] 0 document.rules
  document.config.validateFallbacks

structure Config.Resolved (config : Config) : Prop where
  nonempty : config.destinations ≠ []
  distinct : config.names.Nodup
  named : [] ∉ config.names
  fallback : trimSpace config.fallbackDestination ≠ [] →
    config.isAvailable (trimSpace config.fallbackDestination) = true
  rules : ∀ rule ∈ config.rules, rule.destinations ≠ [] ∧
    ∀ name ∈ rule.destinations, config.isAvailable name = true
  failureFallbacks : ∀ destination ∈ config.destinations, destination.failureFallback ≠ [] →
    config.isAvailable destination.failureFallback = true
  acyclic : config.validateFallbackCycles = .ok ()

theorem validateDestinations_ok {κ : Type} {isValidSpec : κ → Bool} {seen : List Bytes}
    {index : Nat} {listings : List (Listing κ)} (distinct : seen.Nodup)
    (accepted : validateDestinations isValidSpec seen index listings = .ok ()) :
    (listings.map fun listing => trimSpace listing.destination.name).Nodup ∧
      ∀ listing ∈ listings, trimSpace listing.destination.name ≠ [] ∧
        trimSpace listing.destination.name ∉ seen := by
  induction listings generalizing seen index with
  | nil => simp
  | cons listing rest induction =>
    simp only [validateDestinations, andThen_eq_ok, refuse_eq_ok] at accepted
    rcases accepted with ⟨named, fresh, _, others⟩
    rcases induction (nodup_cons.mpr ⟨fresh, distinct⟩) others with ⟨restDistinct, restFresh⟩
    constructor
    · rw [map_cons, nodup_cons]
      refine ⟨fun repeated => ?_, restDistinct⟩
      rcases mem_map.mp repeated with ⟨other, member, same⟩
      exact (restFresh other member).2 (same ▸ mem_cons_self)
    · rw [forall_mem_cons]
      refine ⟨⟨named, fresh⟩, fun other member => ?_⟩
      exact ⟨(restFresh other member).1,
        fun earlier => (restFresh other member).2 (mem_cons_of_mem _ earlier)⟩

theorem Config.validateRules_ok [Strings] {config : Config} {seen : List Bytes} {index : Nat}
    {rules : List Rule} (accepted : config.validateRules seen index rules = .ok ()) :
    ∀ rule ∈ rules, rule.destinations ≠ [] ∧
      ∀ name ∈ rule.destinations, config.isAvailable name = true := by
  induction rules generalizing seen index with
  | nil => simp
  | cons rule rest induction =>
    simp only [validateRules, validateRule, andThen_eq_ok, refuse_eq_ok, forM_eq_ok,
      Bool.not_eq_false] at accepted
    rcases accepted with ⟨⟨_, _, _, listed, available⟩, others⟩
    rw [forall_mem_cons]
    exact ⟨⟨listed, fun name member => (available name member).2⟩, induction others⟩

theorem Document.resolved [Strings] {κ : Type} {isValidSpec : κ → Bool} {document : Document κ}
    (accepted : document.validate isValidSpec = .ok ()) : document.config.Resolved := by
  simp only [validate, Config.validateFallbacks, andThen_eq_ok, refuse_eq_ok, forM_eq_ok, not_and,
    Bool.not_eq_false] at accepted
  rcases accepted with ⟨_, _, nonempty, _, _, destinations, fallback, rules, failureFallbacks, acyclic⟩
  rcases validateDestinations_ok .nil destinations with ⟨distinct, named⟩
  have names : document.config.names =
      document.destinations.map fun listing => trimSpace listing.destination.name := by
    simp [Config.names, Document.config, Function.comp_def]
  exact
    { nonempty := by simpa [Document.config] using nonempty
      distinct := names ▸ distinct
      named := by
        rw [names, mem_map]
        rintro ⟨listing, member, empty⟩
        exact (named listing member).1 empty
      fallback := fallback
      rules := Config.validateRules_ok rules
      failureFallbacks := fun destination member => (failureFallbacks destination member).1
      acyclic := acyclic }

/-! ## Two ways to look up a name

`Plan` and the dispatcher compare names as they are written, `Validate` compares them trimmed. -/

namespace Config

variable {config : Config}

theorem destinationByName_eq_some {name : Bytes} {found : Destination}
    (lookup : config.destinationByName name = some found) :
    ∃ destination ∈ config.destinations, destination.name = name ∧
      withDestinationDefaults destination = found := by
  rw [destinationByName, Option.map_eq_some_iff] at lookup
  rcases lookup with ⟨destination, listed, rfl⟩
  have sameName := find?_some listed
  exact ⟨destination, mem_of_find?_eq_some listed, of_decide_eq_true sameName, rfl⟩

theorem Resolved.catalogued (resolved : config.Resolved) {destination : Destination}
    (member : destination ∈ config.destinations) :
    config.catalogued (trimSpace destination.name) = some (withDestinationDefaults destination) := by
  rw [Config.catalogued, Option.map_eq_some_iff]
  refine ⟨destination, ?_, rfl⟩
  rcases found : config.destinations.find? fun other =>
      decide (trimSpace other.name = trimSpace destination.name) with _ | other
  · have missing := find?_eq_none.mp found destination member
    simp at missing
  · have same := find?_some found
    have sameEntry := inj_on_of_nodup_map resolved.distinct
      (mem_of_find?_eq_some found) member (of_decide_eq_true same)
    rw [found, sameEntry]

theorem catalogued_eq_some {name : Bytes} {found : Destination}
    (lookup : config.catalogued name = some found) :
    ∃ destination ∈ config.destinations, trimSpace destination.name = name ∧
      withDestinationDefaults destination = found := by
  rw [Config.catalogued, Option.map_eq_some_iff] at lookup
  rcases lookup with ⟨destination, listed, rfl⟩
  have sameName := find?_some listed
  exact ⟨destination, mem_of_find?_eq_some listed, of_decide_eq_true sameName, rfl⟩

theorem trimSpace_of_isAvailable {name : Bytes} (available : config.isAvailable name = true) :
    trimSpace name = name := by
  rw [isAvailable, Option.any_eq_true] at available
  rcases available with ⟨found, lookup, _⟩
  rcases catalogued_eq_some lookup with ⟨destination, _, rfl, _⟩
  exact trimSpace_trimSpace _

theorem Resolved.destinationByName (resolved : config.Resolved) {name : Bytes}
    {found : Destination} (lookup : config.destinationByName name = some found) :
    config.catalogued (trimSpace name) = some found := by
  rcases destinationByName_eq_some lookup with ⟨destination, member, rfl, rfl⟩
  exact resolved.catalogued member

theorem Resolved.isEnabled_iff (resolved : config.Resolved) {name : Bytes}
    (available : config.isAvailable (trimSpace name) = true) :
    config.isEnabled name = true ↔ (config.destinationByName name).isSome = true := by
  rw [isEnabled]
  cases lookup : config.destinationByName name with
  | none => simp
  | some found =>
    rw [isAvailable, resolved.destinationByName lookup] at available
    simpa using available

end Config

section Dispatcher

variable {κ σ : Type}

def Listing.withDefaults (listing : Listing κ) : Listing κ :=
  { listing with destination := withDestinationDefaults listing.destination }

def Document.enabledDestinations (document : Document κ) : List (Listing κ) :=
  ((document.destinations.filter fun listing => listing.destination.enabled).map
    Listing.withDefaults).insertionSort
    fun left right => left.destination.name ≤ right.destination.name

inductive DispatcherError
  | invalid (error : RoutingError)
  | sender (name : Bytes)
deriving DecidableEq

def buildSenders (newSender : Listing κ → Option σ) :
    List (Listing κ) → SortedMap Bytes σ → Except DispatcherError (SortedMap Bytes σ)
  | [], senders => .ok senders
  | listing :: rest, senders =>
    match newSender listing with
    | none => .error (.sender listing.destination.name)
    | some sender =>
      buildSenders newSender rest (senders.insert listing.destination.name sender)

def newDispatcher [Strings] (isValidSpec : κ → Bool) (newSender : Listing κ → Option σ)
    (document : Document κ) : Except DispatcherError (SortedMap Bytes σ) := do
  (document.validate isValidSpec).mapError .invalid
  buildSenders newSender document.enabledDestinations .empty

theorem buildSenders_ok {newSender : Listing κ → Option σ} {listings : List (Listing κ)}
    {senders built : SortedMap Bytes σ} (succeeds : buildSenders newSender listings senders = .ok built)
    (name : Bytes) : (built.find? name).isSome = true ↔
      (senders.find? name).isSome = true ∨
        ∃ listing ∈ listings, listing.destination.name = name := by
  induction listings generalizing senders with
  | nil =>
    cases succeeds
    simp
  | cons listing rest induction =>
    rw [buildSenders] at succeeds
    split at succeeds
    · cases succeeds
    · rw [induction succeeds, SortedMap.find?_insert, exists_mem_cons_iff]
      by_cases same : name = listing.destination.name
      · simp [same]
      · simp [same, Ne.symm same]

theorem sender_of_isEnabled [Strings] {isValidSpec : κ → Bool} {newSender : Listing κ → Option σ}
    {document : Document κ} {senders : SortedMap Bytes σ}
    (built : newDispatcher isValidSpec newSender document = .ok senders) {name : Bytes}
    (enabled : document.config.isEnabled name = true) : (senders.find? name).isSome = true := by
  have succeeds : buildSenders newSender document.enabledDestinations .empty = .ok senders := by
    rw [newDispatcher] at built
    cases accepted : document.validate isValidSpec with
    | error failure =>
      rw [accepted] at built
      cases built
    | ok result =>
      rw [accepted] at built
      exact built
  rw [Config.isEnabled] at enabled
  split at enabled
  · cases enabled
  next found lookup =>
    rcases Config.destinationByName_eq_some lookup with ⟨destination, member, rfl, rfl⟩
    rcases mem_map.mp member with ⟨listing, listed, rfl⟩
    rw [buildSenders_ok succeeds]
    refine .inr ⟨listing.withDefaults, ?_, rfl⟩
    rw [Document.enabledDestinations, mem_insertionSort]
    exact mem_map_of_mem (mem_filter.mpr ⟨listed, enabled⟩)

end Dispatcher

section Agreement

variable [Strings] {κ σ : Type}

structure Document.Agrees (document : Document κ) (isValidSpec : κ → Bool)
    (newSender : Listing κ → Option σ) (event : Event) : Prop where
  enabled : ∀ decision ∈ document.config.plan event,
    document.config.isEnabled decision.destination = true
  held : ∀ senders, newDispatcher isValidSpec newSender document = .ok senders →
    ∀ decision ∈ document.config.plan event, (senders.find? decision.destination).isSome = true
  sorted : ((document.config.plan event).map Decision.destination).Pairwise (· < ·)
  nonempty : ((∃ rule ∈ document.rules, ruleMatches rule event = true) ∨
      (∀ rule ∈ document.rules, ruleMatches rule event = false) ∧
        document.fallbackDestination ≠ []) →
    document.config.plan event ≠ []

def Config.Spelled (config : Config) (event : Event) : Prop :=
  (reachedRules event config.rules ≠ [] →
    ∃ rule ∈ reachedRules event config.rules, ∃ name ∈ rule.destinations,
      (config.destinationByName name).isSome = true) ∧
  (reachedRules event config.rules = [] → config.fallbackDestination ≠ [] →
    (config.destinationByName config.fallbackDestination).isSome = true)

theorem reachedRules_subset (event : Event) (rules : List Rule) :
    ∀ rule ∈ reachedRules event rules, rule ∈ rules := by
  induction rules with
  | nil => simp [reachedRules]
  | cons rule rest induction =>
    rw [reachedRules]
    split_ifs
    · simp
    · rw [forall_mem_cons]
      exact ⟨mem_cons_self, fun other reached => mem_cons_of_mem _ (induction other reached)⟩
    · exact fun other reached => mem_cons_of_mem _ (induction other reached)

theorem reachedRules_eq_nil_iff (event : Event) (rules : List Rule) :
    reachedRules event rules = [] ↔ ∀ rule ∈ rules, ruleMatches rule event = false := by
  induction rules with
  | nil => simp [reachedRules]
  | cons rule rest induction =>
    rw [reachedRules, forall_mem_cons, ← induction]
    split_ifs with matched stops
    · simp [matched]
    · simp [matched]
    · simp [matched]

theorem reachedRules_ne_nil_iff (event : Event) (rules : List Rule) :
    reachedRules event rules ≠ [] ↔ ∃ rule ∈ rules, ruleMatches rule event = true := by
  rw [Ne, reachedRules_eq_nil_iff]
  simp

theorem Config.plan_ne_nil_iff (config : Config) (event : Event) :
    config.plan event ≠ [] ↔ ∃ name, config.PlansTo event name := by
  constructor
  · intro nonempty
    rcases exists_mem_of_ne_nil _ nonempty with ⟨decision, planned⟩
    exact ⟨_, (config.mem_plan_iff event _).mp ⟨decision, planned, rfl⟩⟩
  · rintro ⟨name, planned⟩
    rcases (config.mem_plan_iff event name).mpr planned with ⟨decision, member, _⟩
    exact ne_nil_of_mem member

theorem Config.plan_sorted (config : Config) (event : Event) :
    ((config.plan event).map Decision.destination).Pairwise (· < ·) := by
  rw [plan, map_map, pairwise_map]
  exact (config.chosen event).sorted

namespace Config.Resolved

variable {config : Config} {event : Event}

section

variable (resolved : config.Resolved)
include resolved

theorem isEnabled_of_rule {rule : Rule}
    (reached : rule ∈ reachedRules event config.rules) {name : Bytes}
    (listed : name ∈ rule.destinations) :
    config.isEnabled name = true ↔ (config.destinationByName name).isSome = true := by
  have available := (resolved.rules rule (reachedRules_subset event _ rule reached)).2 name listed
  refine resolved.isEnabled_iff ?_
  rwa [trimSpace_of_isAvailable available]

omit [Strings] in
theorem isEnabled_of_fallback :
    config.isEnabled config.fallbackDestination = true ↔
      (config.destinationByName config.fallbackDestination).isSome = true := by
  by_cases blank : trimSpace config.fallbackDestination = []
  · -- No destination has a blank name.
    have unknown : config.destinationByName config.fallbackDestination = none := by
      by_contra known
      rcases Option.ne_none_iff_exists'.mp known with ⟨found, lookup⟩
      rcases destinationByName_eq_some lookup with ⟨destination, member, same, _⟩
      exact resolved.named (mem_map.mpr ⟨destination, member, same ▸ blank⟩)
    simp [isEnabled, unknown]
  · exact resolved.isEnabled_iff (resolved.fallback blank)

theorem plan_of_spelled (spelled : config.Spelled event) :
    (∀ decision ∈ config.plan event, config.isEnabled decision.destination = true) ∧
      ((reachedRules event config.rules ≠ [] ∨
        reachedRules event config.rules = [] ∧ config.fallbackDestination ≠ []) →
          config.plan event ≠ []) := by
  constructor
  · intro decision planned
    rcases (config.mem_plan_iff event _).mp ⟨decision, planned, rfl⟩ with
      ⟨_, _, _, enabled⟩ | ⟨unmatched, same, named⟩
    · exact enabled
    · rw [same] at named ⊢
      exact resolved.isEnabled_of_fallback.mpr (spelled.2 unmatched named)
  · rw [plan_ne_nil_iff]
    rintro (matched | ⟨unmatched, configured⟩)
    · rcases spelled.1 matched with ⟨rule, reached, name, listed, known⟩
      have enabled := (resolved.isEnabled_of_rule reached listed).mpr known
      exact ⟨name, .inl ⟨rule, reached, listed, enabled⟩⟩
    · exact ⟨config.fallbackDestination, .inr ⟨unmatched, rfl, configured⟩⟩

theorem spelled_of_plan
    (enabled : ∀ decision ∈ config.plan event, config.isEnabled decision.destination = true)
    (nonempty : (reachedRules event config.rules ≠ [] ∨
      reachedRules event config.rules = [] ∧ config.fallbackDestination ≠ []) →
        config.plan event ≠ []) : config.Spelled event := by
  constructor
  · intro matched
    rcases (config.plan_ne_nil_iff event).mp (nonempty (.inl matched)) with
      ⟨name, ⟨rule, reached, listed, isEnabled⟩ | ⟨unmatched, _⟩⟩
    · exact ⟨rule, reached, name, listed, (resolved.isEnabled_of_rule reached listed).mp isEnabled⟩
    · exact absurd unmatched matched
  · intro unmatched configured
    rcases (config.mem_plan_iff event _).mpr (.inr ⟨unmatched, rfl, configured⟩) with
      ⟨decision, planned, same⟩
    exact resolved.isEnabled_of_fallback.mp (same ▸ enabled decision planned)

end

end Config.Resolved

/-- For an accepted document a plan keeps its promise exactly when the names that decide it
are spelled as they are configured: validation compares trimmed names, planning does not. -/
theorem Document.agrees_iff_spelled {document : Document κ} {isValidSpec : κ → Bool}
    (accepted : document.validate isValidSpec = .ok ()) (newSender : Listing κ → Option σ)
    (event : Event) :
    document.Agrees isValidSpec newSender event ↔ document.config.Spelled event := by
  have resolved := document.resolved accepted
  have promised : (reachedRules event document.config.rules ≠ [] ∨
      reachedRules event document.config.rules = [] ∧ document.config.fallbackDestination ≠ []) ↔
      ((∃ rule ∈ document.rules, ruleMatches rule event = true) ∨
        (∀ rule ∈ document.rules, ruleMatches rule event = false) ∧
          document.fallbackDestination ≠ []) := by
    rw [reachedRules_ne_nil_iff, reachedRules_eq_nil_iff]
    rfl
  constructor
  · intro agrees
    exact resolved.spelled_of_plan agrees.enabled fun reason =>
      agrees.nonempty (promised.mp reason)
  · intro spelled
    rcases resolved.plan_of_spelled spelled with ⟨enabled, nonempty⟩
    exact
      { enabled := enabled
        held := fun senders built decision planned =>
          sender_of_isEnabled built (enabled decision planned)
        sorted := document.config.plan_sorted event
        nonempty := fun reason => nonempty (promised.mpr reason) }

end Agreement

namespace Spelling

@[reducible] def strings : Strings where
  toLower := lowercase
  equalFold left right := lowercase left == lowercase right
  pathMatch pattern name := some (pattern == name)

def document (name fallback : Bytes) (destinations : List Bytes) : Document Unit where
  name := ascii "routes"
  version := ascii "1"
  destinations := [
    { destination := ⟨name, true, 0, 0, 0, []⟩
      backend := ⟨ascii "kafka", [], ascii "events", [], [], .empty, .empty, [], none⟩ }]
  rules := if destinations = [] then []
    else [⟨ascii "all", [], [], [], [], .empty, destinations, false⟩]
  fallbackDestination := fallback

def accepts (_ : Unit) : Bool := true

def newSender (_ : Listing Unit) : Option Unit := some ()

end Spelling

/-- With a fallback that is spelled as the destination, everything is sent there. -/
theorem Document.agrees_fallback : letI := Spelling.strings
    (Spelling.document (ascii "kafka") (ascii "kafka") []).Agrees Spelling.accepts
      Spelling.newSender .zero :=
  letI := Spelling.strings
  (agrees_iff_spelled (by decide +kernel) Spelling.newSender .zero).mpr
    ⟨by decide +kernel, by decide +kernel⟩

/-- Blanks around the fallback make the plan name a destination that does not exist; blanks
around the destination's own name make the plan of a matching rule empty. -/
theorem Document.not_agrees_blanks : letI := Spelling.strings
    ((Spelling.document (ascii "kafka") (ascii " kafka ") []).validate Spelling.accepts = .ok () ∧
        ¬(Spelling.document (ascii "kafka") (ascii " kafka ") []).Agrees Spelling.accepts
          Spelling.newSender .zero) ∧
      (Spelling.document (ascii " kafka ") [] [ascii "kafka"]).validate Spelling.accepts = .ok () ∧
        ¬(Spelling.document (ascii " kafka ") [] [ascii "kafka"]).Agrees Spelling.accepts
          Spelling.newSender .zero := by
  refine ⟨⟨by decide +kernel, ?_⟩, by decide +kernel, ?_⟩
  · rintro ⟨enabled, _, _, _⟩
    have known := enabled ⟨ascii " kafka ", [ascii "fallback"], 0, 0, 0, []⟩ (by decide +kernel)
    exact absurd known (by decide +kernel)
  · rintro ⟨_, _, _, nonempty⟩
    exact nonempty (.inl (by decide +kernel)) (by decide +kernel)

end TelemetryForge.Router
