import TelemetryForge.Foundation.Digest
import TelemetryForge.Foundation.Numbers
import TelemetryForge.Foundation.Sketch
import TelemetryForge.Foundation.Machine

/-! # Estimates of cardinality

The hash of a dimension value, the register and rank that it raises, and the counts and
projections that both trackers report. Estimates are computed in floating point, as the
source computes them. -/

namespace TelemetryForge.Cardinality

abbrev registerCount : Nat := 64

def exactHashWindow : Nat := 16

def rankLoop : (steps rank remaining : Nat) → Nat
  | 0, rank, _ => rank
  | steps + 1, rank, remaining =>
    if rank < 59 ∧ remaining % 2 = 0 then rankLoop steps (rank + 1) (remaining / 2) else rank

def registerIndex (hash : Nat) : Fin registerCount := Fin.ofNat registerCount hash

def registerRank (hash : Nat) : Nat := rankLoop 58 1 (hash / 64)

def hllRegister (hash : Nat) : Fin registerCount × Nat := (registerIndex hash, registerRank hash)

def count (registers : Fin registerCount → Nat) : UInt64 :=
  let all := List.ofFn registers
  let sum := all.foldl (fun sum register => sum + Float.pow 2 (-register.toFloat)) 0
  let zeros := all.countP (· == 0)
  let raw : Float := 2904.064 / sum
  let raw := if raw ≤ 160 ∧ 0 < zeros then 64 * Float.log (64 / zeros.toFloat) else raw
  if raw < 1 then 1 else raw.round.toUInt64

def estimateState (registers : Fin registerCount → Nat) (exactCount : Nat)
    (exactOverflow : Bool) : UInt64 :=
  if exactOverflow = false then UInt64.ofNat exactCount else count registers

def projectOneHour (observed samples : UInt64) (firstSeen now : Int) : UInt64 :=
  let elapsed := Instant.sub now firstSeen
  if 30 * Duration.second ≤ elapsed ∧ elapsed < Duration.hour ∧ 10 ≤ samples then
    let value := observed.toFloat * Float.ofInt Duration.hour / Float.ofInt elapsed
    if observed.toFloat < value then value.ceil.toUInt64 else observed
  else observed

def fingerprintHash (hash : Nat) : Bytes :=
  (hexEncode (bigEndian32 (hash / 4294967296) ++ bigEndian32 hash)).take 12

structure Observation where
  observedUnique : UInt64
  projectedUnique : UInt64
  firstSeen : Int
  lastSeen : Int
  windowStart : Int
  samples : UInt64
  fingerprint : Bytes

abbrev HashSketch := Sketch Nat (Fin registerCount)

def HashSketch.add (sketch : HashSketch) (hash : Nat) : HashSketch :=
  Sketch.add exactHashWindow registerIndex registerRank sketch hash

def HashSketch.Summarizes (sketch : HashSketch) (hashes : Finset Nat) : Prop :=
  Sketch.Summarizes exactHashWindow registerIndex registerRank sketch hashes

def HashSketch.estimate (sketch : HashSketch) : UInt64 :=
  estimateState sketch.registers sketch.exact.length sketch.overflow

def registersOf (hashes : Finset Nat) : Fin registerCount → Nat :=
  Sketch.peaks registerIndex registerRank hashes

def uniqueCount (hashes : Finset Nat) : UInt64 :=
  if hashes.card ≤ exactHashWindow then UInt64.ofNat hashes.card else count (registersOf hashes)

theorem HashSketch.Summarizes.estimate_eq {sketch : HashSketch} {hashes : Finset Nat}
    (summarizes : sketch.Summarizes hashes) : sketch.estimate = uniqueCount hashes := by
  have overflow := summarizes.keeps.overflow_eq
  unfold uniqueCount HashSketch.estimate estimateState
  split_ifs with exact few few
  · rw [summarizes.keeps.length_eq few]
  · rw [exact] at overflow
    exact absurd (of_decide_eq_false overflow.symm) (by omega)
  · rw [overflow] at exact
    exact absurd (decide_eq_false (by omega)) exact
  · rw [summarizes.registers]
    rfl

/-! ## The shared cardinality state

`distributedCardinalityTracker.ObserveCardinality` as one atomic statement on the table
`cardinality_cluster_state`. Workers interleave statement by statement, so a run is a list
of observations in the order in which the database takes them. -/

open List

inductive Mode
  | active
  | shadow
  | unsupported (text : Bytes)
deriving DecidableEq

def Mode.isSupported : Mode → Bool
  | .active | .shadow => true
  | .unsupported _ => false

structure ClusterKey where
  tenant : Bytes
  mode : Mode
  source : Bytes
  eventType : Bytes
  dimension : Bytes
  windowStart : Int
deriving DecidableEq

structure Row where
  registers : Fin registerCount → Nat
  exactHashes : List Nat
  exactOverflow : Bool
  firstSeen : Int
  lastSeen : Int
  samples : Nat

abbrev ClusterTable := ClusterKey → Option Row

def maxBigint : Nat := 9223372036854775807

structure Call where
  contextTenant : Bytes
  clock : Int
  mode : Mode
  tenant : Bytes
  source : Bytes
  eventType : Bytes
  dimension : Bytes
  value : Bytes
  now : Int
deriving DecidableEq

namespace Call

def clusterNow (call : Call) : Int := if call.now = 0 then call.clock else call.now

def clusterKey (call : Call) : ClusterKey where
  tenant := if call.tenant = [] then call.contextTenant else call.tenant
  mode := call.mode
  source := call.source
  eventType := call.eventType
  dimension := call.dimension
  windowStart := Instant.truncate call.clusterNow Duration.hour

def hash (call : Call) : Nat := hash64 call.value

end Call

namespace Row

def inserted (hash : Nat) (now : Int) : Row where
  registers := Function.update (fun _ => 0) (hllRegister hash).1 (hllRegister hash).2
  exactHashes := [hash]
  exactOverflow := false
  firstSeen := now
  lastSeen := now
  samples := 1

def updated (row : Row) (hash : Nat) (now : Int) : Row where
  registers := Function.update row.registers (hllRegister hash).1
    (max (row.registers (hllRegister hash).1) (hllRegister hash).2)
  exactHashes :=
    if row.exactOverflow then row.exactHashes
    else if hash ∈ row.exactHashes then row.exactHashes
    else if row.exactHashes.length < 16 then row.exactHashes ++ [hash]
    else row.exactHashes
  exactOverflow := row.exactOverflow ||
    (!decide (hash ∈ row.exactHashes) && decide (16 ≤ row.exactHashes.length))
  firstSeen := min row.firstSeen now
  lastSeen := max row.lastSeen now
  samples := row.samples + 1

def sketch (row : Row) : HashSketch := ⟨row.registers, row.exactHashes, row.exactOverflow⟩

def report (row : Row) (call : Call) : Observation :=
  let observed := estimateState row.registers row.exactHashes.length row.exactOverflow
  { observedUnique := observed
    projectedUnique :=
      projectOneHour observed (UInt64.ofNat row.samples) row.firstSeen call.clusterNow
    firstSeen := row.firstSeen
    lastSeen := row.lastSeen
    windowStart := call.clusterKey.windowStart
    samples := UInt64.ofNat row.samples
    fingerprint := fingerprintHash call.hash }

end Row

inductive ClusterError
  | unsupportedMode (mode : Mode)
  | bigintOutOfRange
deriving DecidableEq

def ClusterTable.upsert (table : ClusterTable) (call : Call) : Except ClusterError Row :=
  match table call.clusterKey with
  | none => .ok (.inserted call.hash call.clusterNow)
  | some row =>
    if row.samples < maxBigint then .ok (row.updated call.hash call.clusterNow)
    else .error .bigintOutOfRange

def ClusterTable.observeCardinality (table : ClusterTable) (call : Call) :
    Except ClusterError (ClusterTable × Observation) :=
  if call.mode.isSupported = false then .error (.unsupportedMode call.mode)
  else
    match table.upsert call with
    | .error error => .error error
    | .ok row => .ok (Function.update table call.clusterKey (some row), row.report call)

structure Cluster where
  table : ClusterTable
  answered : List Call

namespace Cluster

def initial : Cluster := ⟨fun _ => none, []⟩

def step (cluster : Cluster) (call : Call) : Cluster :=
  match cluster.table.observeCardinality call with
  | .ok (table, _) => ⟨table, cluster.answered ++ [call]⟩
  | .error _ => cluster

def machine : Machine Cluster Call := ⟨step, fun _ _ => True⟩

end Cluster

def callsFor (key : ClusterKey) (calls : List Call) : List Call :=
  calls.filter (·.clusterKey = key)

def hashesOf (key : ClusterKey) (calls : List Call) : Finset Nat :=
  ((callsFor key calls).map Call.hash).toFinset

theorem callsFor_append_self (calls : List Call) (call : Call) :
    callsFor call.clusterKey (calls ++ [call]) = callsFor call.clusterKey calls ++ [call] := by
  simp [callsFor, filter_append]

theorem callsFor_append_of_ne {key : ClusterKey} {call : Call} (other : call.clusterKey ≠ key)
    (calls : List Call) : callsFor key (calls ++ [call]) = callsFor key calls := by
  simp [callsFor, filter_append, other]

structure Row.Holds (row : Row) (calls : List Call) : Prop where
  sketch : row.sketch.Summarizes (calls.map Call.hash).toFinset
  samples : row.samples = calls.length
  first : ∃ call ∈ calls, row.firstSeen = call.clusterNow
  earliest : ∀ call ∈ calls, row.firstSeen ≤ call.clusterNow

theorem Row.sketch_inserted (hash : Nat) (now : Int) :
    (Row.inserted hash now).sketch = HashSketch.add Sketch.empty hash := by
  simp [Row.inserted, Row.sketch, HashSketch.add, Sketch.add, Sketch.raise, Sketch.observeExact,
    Sketch.empty, hllRegister, exactHashWindow]

theorem Row.sketch_updated (row : Row) (hash : Nat) (now : Int) :
    (row.updated hash now).sketch = HashSketch.add row.sketch hash := by
  have exact : ((row.updated hash now).exactHashes, (row.updated hash now).exactOverflow) =
      Sketch.observeExact exactHashWindow row.exactHashes row.exactOverflow hash := by
    simp only [Row.updated, Sketch.observeExact, exactHashWindow]
    by_cases overflow : row.exactOverflow = true
    · simp [overflow]
    by_cases present : hash ∈ row.exactHashes
    · simp [overflow, present]
    by_cases room : row.exactHashes.length < 16
    · simp [overflow, present, room, not_le.mpr room]
    · simp [overflow, present, room, not_lt.mp room]
  rw [Prod.ext_iff] at exact
  simp only [Row.sketch, HashSketch.add, Sketch.add, ← exact.1, ← exact.2]
  rfl

theorem Row.holds_inserted (call : Call) : (Row.inserted call.hash call.clusterNow).Holds [call] where
  sketch := by
    rw [Row.sketch_inserted]
    exact Sketch.empty_summarizes.add call.hash
  samples := rfl
  first := ⟨call, mem_singleton_self call, rfl⟩
  earliest := by simp [Row.inserted]

theorem Row.Holds.updated {row : Row} {calls : List Call} (holds : row.Holds calls) (call : Call) :
    (row.updated call.hash call.clusterNow).Holds (calls ++ [call]) where
  sketch := by
    rw [Row.sketch_updated]
    have hashes : ((calls ++ [call]).map Call.hash).toFinset =
        insert call.hash (calls.map Call.hash).toFinset := by
      simp
    rw [hashes]
    exact holds.sketch.add call.hash
  samples := by simp [Row.updated, holds.samples]
  first := by
    rcases min_choice row.firstSeen call.clusterNow with before | now
    · rcases holds.first with ⟨first, member, isFirst⟩
      exact ⟨first, mem_append_left _ member, before.trans isFirst⟩
    · exact ⟨call, mem_append_right _ (mem_singleton_self call), now⟩
  earliest := by
    intro other member
    rcases mem_append.mp member with earlier | last
    · exact (min_le_left _ _).trans (holds.earliest other earlier)
    · rw [mem_singleton.mp last]
      exact min_le_right _ _

def HasRowOf : Option Row → List Call → Prop
  | none, calls => calls = []
  | some row, calls => row.Holds calls

namespace Cluster

def Represents (cluster : Cluster) : Prop :=
  ∀ key, HasRowOf (cluster.table key) (callsFor key cluster.answered)

theorem initial_represents : initial.Represents := fun _ => rfl

variable {cluster : Cluster}

theorem upsert_holds (represents : cluster.Represents) {call : Call} {row : Row}
    (upserted : cluster.table.upsert call = .ok row) :
    row.Holds (callsFor call.clusterKey cluster.answered ++ [call]) := by
  have holds := represents call.clusterKey
  unfold ClusterTable.upsert at upserted
  cases found : cluster.table call.clusterKey with
  | none =>
    rw [found] at holds upserted
    obtain rfl := Except.ok.inj upserted
    rw [show callsFor call.clusterKey cluster.answered = [] from holds]
    exact Row.holds_inserted call
  | some stored =>
    rw [found] at holds upserted
    dsimp only at upserted
    split_ifs at upserted
    obtain rfl := Except.ok.inj upserted
    exact Row.Holds.updated holds call

theorem observeCardinality_ok {table after : ClusterTable} {call : Call} {report : Observation}
    (answered : table.observeCardinality call = .ok (after, report)) :
    ∃ row, table.upsert call = .ok row ∧
      after = Function.update table call.clusterKey (some row) ∧ report = row.report call := by
  unfold ClusterTable.observeCardinality at answered
  split_ifs at answered
  cases upserted : table.upsert call with
  | error error => rw [upserted] at answered; cases answered
  | ok row =>
    rw [upserted] at answered
    cases answered
    exact ⟨row, rfl, rfl, rfl⟩

theorem step_represents (represents : cluster.Represents) (call : Call) :
    (cluster.step call).Represents := by
  unfold step
  cases result : cluster.table.observeCardinality call with
  | error error => exact represents
  | ok observed =>
    rcases observed with ⟨after, report⟩
    rcases observeCardinality_ok result with ⟨row, upserted, rfl, rfl⟩
    intro key
    by_cases same : call.clusterKey = key
    · subst same
      rw [callsFor_append_self]
      simp only [Function.update_self]
      exact upsert_holds represents upserted
    · rw [callsFor_append_of_ne same]
      simp only [Function.update_of_ne (Ne.symm same)]
      exact represents key

theorem run_represents (calls : List Call) : (machine.run initial calls).Represents :=
  Machine.invariant Represents
    (fun _ call represents _ => step_represents represents call) initial_represents
    (machine.admits_of_forall (fun _ _ => trivial) _ calls)

theorem upsert_exists (represents : cluster.Represents) (call : Call)
    (few : cluster.answered.length < maxBigint) : ∃ row, cluster.table.upsert call = .ok row := by
  have holds := represents call.clusterKey
  unfold ClusterTable.upsert
  cases found : cluster.table call.clusterKey with
  | none => exact ⟨_, rfl⟩
  | some row =>
    rw [found] at holds
    have bound : (callsFor call.clusterKey cluster.answered).length ≤ cluster.answered.length :=
      length_filter_le _ _
    have room : row.samples < maxBigint := by
      rw [Row.Holds.samples holds]
      omega
    exact ⟨_, if_pos room⟩

theorem observeCardinality_of_upsert {table : ClusterTable} {call : Call} {row : Row}
    (supported : call.mode.isSupported = true) (upserted : table.upsert call = .ok row) :
    table.observeCardinality call =
      .ok (Function.update table call.clusterKey (some row), row.report call) := by
  simp [ClusterTable.observeCardinality, supported, upserted]

theorem step_answered (represents : cluster.Represents) {call : Call}
    (supported : call.mode.isSupported = true) (few : cluster.answered.length < maxBigint) :
    (cluster.step call).answered = cluster.answered ++ [call] := by
  rcases upsert_exists represents call few with ⟨row, upserted⟩
  rw [step, observeCardinality_of_upsert supported upserted]

theorem run_answered (calls : List Call) (supported : ∀ call ∈ calls, call.mode.isSupported = true)
    (few : calls.length ≤ maxBigint) : (machine.run initial calls).answered = calls := by
  induction calls using reverseRecOn with
  | nil => rfl
  | append_singleton earlier call induction =>
    rw [length_append, length_singleton] at few
    have before := induction (fun other member => supported other (mem_append_left _ member))
      (by omega)
    rw [Machine.run_append, Machine.run_cons, Machine.run_nil]
    have answered := step_answered (run_represents earlier)
      (supported call (mem_append_right _ (mem_singleton_self call)))
      (by rw [before]; omega)
    rw [before] at answered
    exact answered

end Cluster

/-- What the table holds and what a call reports is determined by the set of hashes that were
observed for the key, and the report is exact up to the limit. -/
theorem cluster_of_hashes (calls : List Call) (key : ClusterKey) :
    let cluster := Cluster.machine.run Cluster.initial calls
    let hashes := hashesOf key cluster.answered
    (∀ row, cluster.table key = some row →
      row.registers = registersOf hashes ∧
        row.exactOverflow = decide (exactHashWindow < hashes.card)) ∧
    (∀ call after report, call.clusterKey = key →
      cluster.table.observeCardinality call = .ok (after, report) →
        report.observedUnique = uniqueCount (insert call.hash hashes) ∧
        ((insert call.hash hashes).card ≤ exactHashWindow →
          report.observedUnique = UInt64.ofNat (insert call.hash hashes).card)) ∧
    ((∀ call ∈ calls, call.mode.isSupported = true) → calls.length ≤ maxBigint →
      cluster.answered = calls) := by
  intro cluster hashes
  have represents : cluster.Represents := Cluster.run_represents calls
  refine ⟨fun row found => ?_, fun call after report isKey answered => ?_, Cluster.run_answered calls⟩
  · have holds : row.Holds (callsFor key cluster.answered) := by
      have holds := represents key
      rwa [found] at holds
    exact ⟨holds.sketch.registers, holds.sketch.keeps.overflow_eq⟩
  · subst isKey
    rcases Cluster.observeCardinality_ok answered with ⟨row, upserted, rfl, rfl⟩
    have holds := Cluster.upsert_holds represents upserted
    have set : ((callsFor call.clusterKey cluster.answered ++ [call]).map Call.hash).toFinset =
        insert call.hash hashes := by
      simp [hashes, hashesOf]
    have reported : (row.report call).observedUnique = uniqueCount (insert call.hash hashes) := by
      rw [← set]
      exact holds.sketch.estimate_eq
    refine ⟨reported, fun few => ?_⟩
    rw [reported, uniqueCount, if_pos few]

end TelemetryForge.Cardinality
