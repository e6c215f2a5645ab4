import TelemetryForge.Cardinality.Cluster
import Mathlib.Analysis.SpecialFunctions.Log.Basic

/-! # The in-memory tracker

`policy.Tracker`, which replay and cost simulation use: the same sketch for each key, in a
bounded map whose oldest entry makes room for a new key. -/

namespace TelemetryForge.Cardinality

structure DimensionKey where
  tenant : Bytes
  source : Bytes
  eventType : Bytes
  dimension : Bytes
  windowStart : Int
deriving DecidableEq

structure State where
  registers : Fin registerCount → Nat
  firstSeen : Int
  lastSeen : Int
  samples : UInt64
  exactHashes : List Nat
  exactOverflow : Bool

structure Tracker where
  states : AList fun _ : DimensionKey => State
  maxDimensions : Nat

def defaultMaxDimensions : Nat := 20000

def newTracker (maxDimensions : Int) : Tracker where
  states := ∅
  maxDimensions := if maxDimensions < 1 then defaultMaxDimensions else maxDimensions.toNat

def Call.dimensionKey (call : Call) : DimensionKey where
  tenant := call.tenant
  source := call.source
  eventType := call.eventType
  dimension := call.dimension
  windowStart := Instant.truncate call.now Duration.hour

namespace State

def fresh (now : Int) : State := ⟨fun _ => 0, now, 0, 0, [], false⟩

def addHash (registers : Fin registerCount → Nat) (hash : Nat) : Fin registerCount → Nat :=
  if registers (registerIndex hash) < registerRank hash then
    Function.update registers (registerIndex hash) (registerRank hash)
  else registers

def observeExact (state : State) (hash : Nat) : State :=
  if state.exactOverflow then state
  else if hash ∈ state.exactHashes then state
  else if exactHashWindow ≤ state.exactHashes.length then { state with exactOverflow := true }
  else { state with exactHashes := state.exactHashes ++ [hash] }

def observe (state : State) (hash : Nat) (now : Int) : State :=
  let state := { state with registers := addHash state.registers hash }
  let state := state.observeExact hash
  { state with lastSeen := now, samples := state.samples + 1 }

def sketch (state : State) : HashSketch := ⟨state.registers, state.exactHashes, state.exactOverflow⟩

/-- The part of `Observe` that reports; the window is that of `ObserveCardinality`, which
leaves the number of samples out. -/
def report (state : State) (call : Call) : Observation :=
  let observed :=
    if state.exactOverflow then count state.registers else UInt64.ofNat state.exactHashes.length
  let elapsed := Instant.sub call.now state.firstSeen
  let projected :=
    if 30 * Duration.second ≤ elapsed ∧ elapsed < Duration.hour ∧ 10 ≤ state.samples then
      let projected := observed.toFloat * Float.ofInt Duration.hour / Float.ofInt elapsed
      if observed.toFloat < projected then projected.ceil.toUInt64 else observed
    else observed
  { observedUnique := observed
    projectedUnique := projected
    firstSeen := state.firstSeen
    lastSeen := state.lastSeen
    windowStart := call.dimensionKey.windowStart
    samples := 0
    fingerprint := fingerprintHash call.hash }

end State

namespace Tracker

/-- The loop of `evictOldestLocked` over the map, in the order in which it is iterated. -/
def oldest (tracker : Tracker) (order : List DimensionKey) : Option (DimensionKey × Int) :=
  order.foldl (fun found key =>
      match tracker.states.lookup key with
      | none => found
      | some state =>
        match found with
        | none => some (key, state.lastSeen)
        | some (_, oldest) => if state.lastSeen < oldest then some (key, state.lastSeen) else found)
    none

def evictOldest (tracker : Tracker) (order : List DimensionKey) : Tracker :=
  match tracker.oldest order with
  | none => tracker
  | some (key, _) => { tracker with states := tracker.states.erase key }

/-- `Observe` and the report of `ObserveCardinality`; the order is that of the map if an entry
is evicted. -/
def observe (tracker : Tracker) (order : List DimensionKey) (call : Call) : Tracker × Observation :=
  match tracker.states.lookup call.dimensionKey with
  | some state =>
    let state := state.observe call.hash call.now
    ({ tracker with states := tracker.states.insert call.dimensionKey state }, state.report call)
  | none =>
    let room :=
      if tracker.maxDimensions ≤ tracker.states.keys.length then tracker.evictOldest order
      else tracker
    let state := (State.fresh call.now).observe call.hash call.now
    ({ room with states := room.states.insert call.dimensionKey state }, state.report call)

def hasRoom (tracker : Tracker) (call : Call) : Prop :=
  call.dimensionKey ∈ tracker.states ∨ tracker.states.keys.length < tracker.maxDimensions

def machine : Machine Tracker (List DimensionKey × Call) where
  step tracker action := (tracker.observe action.1 action.2).1
  allowed tracker action := tracker.hasRoom action.2

end Tracker

def callsAt (key : DimensionKey) (calls : List Call) : List Call :=
  calls.filter (·.dimensionKey = key)

structure State.Holds (state : State) (calls : List Call) : Prop where
  sketch : state.sketch.Summarizes (calls.map Call.hash).toFinset
  samples : state.samples = UInt64.ofNat calls.length
  first : calls.head?.map Call.now = some state.firstSeen

namespace State

theorem addHash_eq (registers : Fin registerCount → Nat) (hash : Nat) :
    addHash registers hash = Sketch.raise registers (registerIndex hash) (registerRank hash) := by
  unfold addHash Sketch.raise
  split_ifs with above
  · rw [max_eq_right above.le]
  · rw [max_eq_left (not_lt.mp above), Function.update_eq_self]

theorem sketch_observe (state : State) (hash : Nat) (now : Int) :
    (state.observe hash now).sketch = HashSketch.add state.sketch hash := by
  simp only [observe, State.observeExact, sketch, HashSketch.add, Sketch.add, Sketch.observeExact,
    addHash_eq]
  by_cases overflow : state.exactOverflow = true
  · simp [overflow]
  by_cases present : hash ∈ state.exactHashes
  · simp [overflow, present]
  by_cases full : exactHashWindow ≤ state.exactHashes.length
  · simp [overflow, present, full]
  · simp [overflow, present, full]

theorem samples_observe (state : State) (hash : Nat) (now : Int) :
    (state.observe hash now).samples = state.samples + 1 := by
  simp only [observe, State.observeExact]
  split_ifs <;> rfl

theorem firstSeen_observe (state : State) (hash : Nat) (now : Int) :
    (state.observe hash now).firstSeen = state.firstSeen := by
  simp only [observe, State.observeExact]
  split_ifs <;> rfl

theorem holds_fresh (call : Call) : ((fresh call.now).observe call.hash call.now).Holds [call] where
  sketch := by
    rw [sketch_observe]
    exact Sketch.empty_summarizes.add call.hash
  samples := by
    rw [samples_observe]
    rfl
  first := by
    rw [firstSeen_observe]
    rfl

theorem Holds.observe {state : State} {calls : List Call} (holds : state.Holds calls) (call : Call) :
    (state.observe call.hash call.now).Holds (calls ++ [call]) where
  sketch := by
    have hashes : ((calls ++ [call]).map Call.hash).toFinset =
        insert call.hash (calls.map Call.hash).toFinset := by
      simp
    rw [sketch_observe, hashes]
    exact holds.sketch.add call.hash
  samples := by
    rw [samples_observe, holds.samples]
    simp
  first := by
    rw [firstSeen_observe, ← holds.first]
    cases calls with
    | nil => cases holds.first
    | cons first rest => rfl

theorem report_counts (state : State) (call : Call) :
    (state.report call).observedUnique = state.sketch.estimate ∧
      (state.report call).projectedUnique =
        projectOneHour state.sketch.estimate state.samples state.firstSeen call.now := by
  have observed : (state.report call).observedUnique = state.sketch.estimate := by
    simp only [report, HashSketch.estimate, estimateState, sketch]
    by_cases overflow : state.exactOverflow = true
    · simp [overflow]
    · simp [overflow]
  refine ⟨observed, ?_⟩
  rw [← observed]
  rfl

end State

def HasStateOf : Option State → List Call → Prop
  | none, calls => calls = []
  | some state, calls => state.Holds calls

namespace Tracker

def Represents (tracker : Tracker) (calls : List Call) : Prop :=
  ∀ key, HasStateOf (tracker.states.lookup key) (callsAt key calls)

theorem new_represents (maxDimensions : Int) : (newTracker maxDimensions).Represents [] :=
  fun _ => rfl

theorem observe_spec {tracker : Tracker} {calls : List Call} (represents : tracker.Represents calls)
    (order : List DimensionKey) {call : Call} (room : tracker.hasRoom call) :
    ∃ state : State, state.Holds (callsAt call.dimensionKey calls ++ [call]) ∧
      tracker.observe order call =
        ({ tracker with states := tracker.states.insert call.dimensionKey state },
          state.report call) := by
  have holds := represents call.dimensionKey
  unfold observe
  cases found : tracker.states.lookup call.dimensionKey with
  | some state =>
    rw [found] at holds
    exact ⟨state.observe call.hash call.now, State.Holds.observe holds call, rfl⟩
  | none =>
    rw [found] at holds
    refine ⟨(State.fresh call.now).observe call.hash call.now, ?_, ?_⟩
    · rw [show callsAt call.dimensionKey calls = [] from holds]
      exact State.holds_fresh call
    · have space : ¬tracker.maxDimensions ≤ tracker.states.keys.length := by
        rcases room with present | space
        · exact absurd present (AList.lookup_eq_none.mp found)
        · exact not_le.mpr space
      simp only [if_neg space]

theorem observe_represents {tracker : Tracker} {calls : List Call}
    (represents : tracker.Represents calls) (order : List DimensionKey) {call : Call}
    (room : tracker.hasRoom call) :
    (tracker.observe order call).1.Represents (calls ++ [call]) := by
  rcases observe_spec represents order room with ⟨state, holds, observed⟩
  intro key
  rw [observed]
  by_cases same : call.dimensionKey = key
  · subst same
    simpa [callsAt, List.filter_append, HasStateOf] using holds
  · simpa [callsAt, List.filter_append, same, AList.lookup_insert_ne (Ne.symm same)] using
      represents key

theorem run_represents (maxDimensions : Int) {actions : List (List DimensionKey × Call)}
    (admits : machine.Admits (newTracker maxDimensions) actions) :
    (machine.run (newTracker maxDimensions) actions).Represents (actions.map Prod.snd) := by
  induction actions using List.reverseRecOn with
  | nil => exact new_represents maxDimensions
  | append_singleton earlier last induction =>
    rw [Machine.admits_append] at admits
    rw [Machine.run_append, List.map_append]
    exact observe_represents (induction admits.1) last.1 admits.2.1

end Tracker

/-! ## Replay and production count alike -/

open List

def DimensionKey.inMode (key : DimensionKey) (mode : Mode) : ClusterKey :=
  ⟨key.tenant, mode, key.source, key.eventType, key.dimension, key.windowStart⟩

theorem DimensionKey.inMode_injective (mode : Mode) :
    Function.Injective (DimensionKey.inMode · mode) := by
  intro left right equal
  cases left
  cases right
  simpa [inMode] using equal

structure Call.Plain (mode : Mode) (call : Call) : Prop where
  mode : call.mode = mode
  tenant : call.tenant ≠ []
  time : call.now ≠ 0

variable {mode : Mode}

theorem Call.Plain.clusterNow {call : Call} (plain : call.Plain mode) :
    call.clusterNow = call.now :=
  if_neg plain.time

theorem Call.Plain.clusterKey {call : Call} (plain : call.Plain mode) :
    call.clusterKey = call.dimensionKey.inMode mode := by
  simp [Call.clusterKey, Call.dimensionKey, DimensionKey.inMode, plain.clusterNow, plain.tenant,
    plain.mode]

theorem callsFor_inMode {calls : List Call} (plain : ∀ call ∈ calls, call.Plain mode)
    (key : DimensionKey) : callsFor (key.inMode mode) calls = callsAt key calls := by
  unfold callsFor callsAt
  apply filter_congr
  intro call member
  simp only [(plain call member).clusterKey, (DimensionKey.inMode_injective mode).eq_iff]

theorem Row.Holds.firstSeen_eq {row : Row} {state : State} {calls : List Call}
    (row_holds : row.Holds calls) (state_holds : state.Holds calls)
    (plain : ∀ call ∈ calls, call.Plain mode)
    (ordered : calls.Pairwise fun earlier later => earlier.now ≤ later.now) :
    row.firstSeen = state.firstSeen := by
  cases calls with
  | nil => cases state_holds.first
  | cons first rest =>
    have isFirst : first.now = state.firstSeen := Option.some.inj state_holds.first
    have member : first ∈ first :: rest := mem_cons_self
    rw [← isFirst]
    apply le_antisymm
    · rw [← (plain first member).clusterNow]
      exact row_holds.earliest first member
    · rcases row_holds.first with ⟨earliest, isCall, isEarliest⟩
      rw [isEarliest, (plain earliest isCall).clusterNow]
      rcases mem_cons.mp isCall with rfl | later
      · exact le_rfl
      · exact rel_of_pairwise_cons ordered later

/-- Both trackers report the same counts for every call of a run, as long as the in-memory
tracker evicts nothing and the number of samples is a `BIGINT`. -/
theorem trackers_agree (mode : Mode) (supported : mode.isSupported = true) (maxDimensions : Int)
    (before : List (List DimensionKey × Call)) (order : List DimensionKey) (call : Call)
    (plain : ∀ other ∈ before.map Prod.snd ++ [call], other.Plain mode)
    (ordered : (before.map Prod.snd ++ [call]).Pairwise fun earlier later => earlier.now ≤ later.now)
    (few : before.length < maxBigint)
    (admits : Tracker.machine.Admits (newTracker maxDimensions) (before ++ [(order, call)])) :
    ∃ after report,
      (Cluster.machine.run Cluster.initial (before.map Prod.snd)).table.observeCardinality call =
        .ok (after, report) ∧
      let observed := ((Tracker.machine.run (newTracker maxDimensions) before).observe order call).2
      observed.observedUnique = report.observedUnique ∧
        observed.projectedUnique = report.projectedUnique := by
  rw [Machine.admits_append] at admits
  have isPlain : call.Plain mode := plain call (by simp)
  have plainBefore (other : Call) (member : other ∈ before.map Prod.snd) : other.Plain mode :=
    plain other (mem_append_left _ member)
  -- The shared tracker answers the call.
  have represents := Cluster.run_represents (before.map Prod.snd)
  have answered := Cluster.run_answered (before.map Prod.snd)
    (fun other member => (plainBefore other member).mode ▸ supported)
    (by rw [length_map]; exact few.le)
  rcases Cluster.upsert_exists represents call (by rwa [answered, length_map]) with
    ⟨row, upserted⟩
  have rowHolds := Cluster.upsert_holds represents upserted
  -- The in-memory tracker has the state of the same calls.
  rcases Tracker.observe_spec (Tracker.run_represents maxDimensions admits.1) order admits.2.1 with
    ⟨state, stateHolds, observed⟩
  rw [answered, isPlain.clusterKey, callsFor_inMode plainBefore] at rowHolds
  have same : (callsAt call.dimensionKey (before.map Prod.snd) ++ [call]).Sublist
      (before.map Prod.snd ++ [call]) :=
    List.Sublist.append filter_sublist (List.Sublist.refl _)
  have firstSeen := rowHolds.firstSeen_eq stateHolds
    (fun other member => plain other (same.subset member)) (ordered.sublist same)
  have estimate : state.sketch.estimate = row.sketch.estimate := by
    rw [stateHolds.sketch.estimate_eq, rowHolds.sketch.estimate_eq]
  have counts := state.report_counts call
  refine ⟨_, _, Cluster.observeCardinality_of_upsert (isPlain.mode ▸ supported) upserted, ?_⟩
  rw [observed]
  refine ⟨counts.1.trans estimate, counts.2.trans ?_⟩
  rw [estimate, stateHolds.samples, ← rowHolds.samples, ← firstSeen, ← isPlain.clusterNow]
  rfl

namespace Sample

def call (value : String) (now : Int) : Call where
  contextTenant := ascii "default"
  clock := 63900000000 * Duration.second
  mode := .active
  tenant := ascii "acme"
  source := ascii "api"
  eventType := ascii "request"
  dimension := ascii "user"
  value := ascii value
  now := now

end Sample

theorem trackers_agree_sample :
    ∃ after report,
      (Cluster.machine.run Cluster.initial [Sample.call "a" 1000]).table.observeCardinality
        (Sample.call "b" 2000) = .ok (after, report) ∧
      ((Tracker.machine.run (newTracker 2) [([], Sample.call "a" 1000)]).observe []
        (Sample.call "b" 2000)).2.observedUnique = report.observedUnique := by
  rcases trackers_agree .active rfl 2 [([], Sample.call "a" 1000)] [] (Sample.call "b" 2000)
    (by
      intro other member
      simp only [map_cons, map_nil, cons_append, nil_append, mem_cons,
        not_mem_nil, or_false] at member
      rcases member with rfl | rfl
      · exact ⟨rfl, by decide, by decide⟩
      · exact ⟨rfl, by decide, by decide⟩)
    (by decide) (by decide) ⟨.inr (by decide), .inl (by decide), trivial⟩ with
    ⟨after, report, answered, observed, _⟩
  exact ⟨after, report, answered, observed⟩

/-- Two values in the first hour of the calendar: the first call passes the zero time, so the
shared tracker counts it in the hour of its clock. -/
theorem trackers_differ_at_zero_time :
    (((Tracker.machine.run (newTracker 2) [([], Sample.call "a" 0)]).observe []
        (Sample.call "b" 1000)).2.observedUnique = 2) ∧
      ((Cluster.machine.run Cluster.initial [Sample.call "a" 0]).table.observeCardinality
        (Sample.call "b" 1000)).toOption.map (·.2.observedUnique) = some 1 := by
  decide +kernel

/-! ## The observed count along a window

The count that a key reports, with the logarithm and the harmonic sum over the reals. -/

noncomputable section Estimator

variable {registers before after : Fin registerCount → Nat}

def harmonicSum (registers : Fin registerCount → Nat) : ℝ := ∑ place, (1 / 2) ^ registers place

def zeros (registers : Fin registerCount → Nat) : Nat :=
  (Finset.univ.filter fun place => registers place = 0).card

def rawEstimate (registers : Fin registerCount → Nat) : ℝ :=
  0.709 * registerCount * registerCount / harmonicSum registers

def linearEstimate (registers : Fin registerCount → Nat) : ℝ :=
  registerCount * Real.log (registerCount / zeros registers)

def Linear (registers : Fin registerCount → Nat) : Prop :=
  rawEstimate registers ≤ 2.5 * registerCount ∧ 0 < zeros registers

def rounded (value : ℝ) : Nat := if value < 1 then 1 else ⌊value + 1 / 2⌋₊

open Classical in
def wholeCount (registers : Fin registerCount → Nat) : Nat :=
  rounded (if Linear registers then linearEstimate registers else rawEstimate registers)

theorem wholeCount_linear (linear : Linear registers) :
    wholeCount registers = rounded (linearEstimate registers) := by
  rw [wholeCount, if_pos linear]

theorem wholeCount_raw (raw : ¬ Linear registers) :
    wholeCount registers = rounded (rawEstimate registers) := by
  rw [wholeCount, if_neg raw]

theorem rounded_mono : Monotone rounded := by
  intro lower higher order
  unfold rounded
  split_ifs with lowerSmall higherSmall higherSmall
  · exact le_rfl
  · rw [Nat.one_le_floor_iff]
    linarith
  · linarith
  · exact Nat.floor_mono (by linarith)

theorem harmonicSum_pos (registers : Fin registerCount → Nat) : 0 < harmonicSum registers :=
  Finset.sum_pos (fun _ _ => by positivity) Finset.univ_nonempty

section

variable (grow : before ≤ after)
include grow

theorem harmonicSum_anti : harmonicSum after ≤ harmonicSum before :=
  Finset.sum_le_sum fun place _ =>
    pow_le_pow_of_le_one (by norm_num) (by norm_num) (grow place)

theorem rawEstimate_mono : rawEstimate before ≤ rawEstimate after :=
  div_le_div_of_nonneg_left (by norm_num) (harmonicSum_pos after) (harmonicSum_anti grow)

theorem zeros_anti : zeros after ≤ zeros before := by
  refine Finset.card_le_card fun place member => ?_
  have zero : after place = 0 := (Finset.mem_filter.mp member).2
  have below : before place ≤ after place := grow place
  exact Finset.mem_filter.mpr ⟨Finset.mem_univ place, by omega⟩

theorem Linear.of_le (linear : Linear after) : Linear before :=
  ⟨(rawEstimate_mono grow).trans linear.1, linear.2.trans_le (zeros_anti grow)⟩

theorem linearEstimate_mono (some : 0 < zeros after) :
    linearEstimate before ≤ linearEstimate after := by
  have fewer : (zeros after : ℝ) ≤ zeros before := by exact_mod_cast zeros_anti grow
  have positive : (0 : ℝ) < zeros after := by exact_mod_cast some
  refine mul_le_mul_of_nonneg_left (Real.log_le_log ?_ ?_) (by norm_num)
  · exact div_pos (by norm_num) (positive.trans_le fewer)
  · exact div_le_div_of_nonneg_left (by norm_num) positive fewer

theorem wholeCount_le_of_linear (linear : Linear after) : wholeCount before ≤ wholeCount after := by
  rw [wholeCount_linear linear, wholeCount_linear (linear.of_le grow)]
  exact rounded_mono (linearEstimate_mono grow linear.2)

theorem wholeCount_le_of_raw (raw : ¬ Linear before) : wholeCount before ≤ wholeCount after := by
  rw [wholeCount_raw raw, wholeCount_raw (fun linear => raw (linear.of_le grow))]
  exact rounded_mono (rawEstimate_mono grow)

end

theorem wholeCount_lt_of_linear (linear : Linear registers) : wholeCount registers < 2 ^ 64 := by
  have positive : (1 : ℝ) ≤ zeros registers := by exact_mod_cast linear.2
  have ratio : (registerCount : ℝ) / zeros registers ≤ 64 := by
    rw [div_le_iff₀ (by linarith)]
    norm_num
    exact linear.2
  have logarithm : Real.log (registerCount / zeros registers) ≤ 63 :=
    (Real.log_le_sub_one_of_pos (by positivity)).trans (by linarith)
  have bounded : linearEstimate registers ≤ 4032 := by
    unfold linearEstimate
    norm_num at logarithm ⊢
    linarith
  calc wholeCount registers = rounded (linearEstimate registers) := wholeCount_linear linear
    _ ≤ rounded 4032 := rounded_mono bounded
    _ < 2 ^ 64 := by norm_num [rounded]

end Estimator

/-- The conversion `uint64(f)` of a whole number. Beyond the range of the type the language
leaves its value to the implementation. -/
structure Conversion where
  convert : Nat → Nat
  exact : ∀ value < 2 ^ 64, convert value = value

def Conversion.saturating : Conversion where
  convert value := min value (2 ^ 64 - 1)
  exact _ small := min_eq_left (by omega)

namespace State

variable {conversion : Conversion} {state before after : State}

noncomputable def observed (conversion : Conversion) (state : State) : Nat :=
  if state.exactOverflow then conversion.convert (wholeCount state.registers)
  else state.exactHashes.length

def states (state : State) : List (UInt64 × Int) → List State
  | [] => []
  | (hash, now) :: rest =>
    state.observe hash.toNat now :: states (state.observe hash.toNat now) rest

noncomputable def counts (conversion : Conversion) (state : State)
    (observations : List (UInt64 × Int)) : List Nat :=
  (state.states observations).map (observed conversion)

theorem registers_observe (state : State) (hash : Nat) (now : Int) :
    (state.observe hash now).registers = addHash state.registers hash := by
  simp only [observe, observeExact]
  split_ifs <;> rfl

theorem le_addHash (registers : Fin registerCount → Nat) (hash : Nat) :
    registers ≤ addHash registers hash := by
  unfold addHash
  split_ifs with above
  · exact le_update_iff.mpr ⟨above.le, fun _ _ => le_rfl⟩
  · exact le_rfl

inductive Next (before after : State) : Prop
  | exact (length : before.exactHashes.length ≤ after.exactHashes.length)
      (stays : before.exactOverflow = false) (still : after.exactOverflow = false)
  | overflows (full : before.exactHashes.length = exactHashWindow)
      (fits : before.exactOverflow = false) (overflow : after.exactOverflow = true)
  | estimated (was : before.exactOverflow = true) (is : after.exactOverflow = true)

theorem next_observe (fits : state.exactHashes.length ≤ exactHashWindow) (hash : Nat) (now : Int) :
    Next state (state.observe hash now) := by
  by_cases overflow : state.exactOverflow = true
  · exact .estimated overflow (by simp [observe, observeExact, overflow])
  have exact : state.exactOverflow = false := by simpa using overflow
  by_cases present : hash ∈ state.exactHashes
  · refine .exact ?_ exact ?_ <;> simp [observe, observeExact, exact, present]
  by_cases full : exactHashWindow ≤ state.exactHashes.length
  · exact .overflows (le_antisymm fits full) exact
      (by simp [observe, observeExact, exact, present, full])
  · refine .exact ?_ exact ?_ <;> simp [observe, observeExact, exact, present, full]

theorem length_observe_le (fits : state.exactHashes.length ≤ exactHashWindow) (hash : Nat)
    (now : Int) : (state.observe hash now).exactHashes.length ≤ exactHashWindow := by
  simp only [observe, observeExact]
  split_ifs with overflow present full
  · exact fits
  · exact fits
  · exact fits
  · simp only [List.length_append, List.length_singleton]
    omega

structure Seamless (conversion : Conversion) (before after : State) : Prop where
  overflow : before.exactOverflow = false → after.exactOverflow = true →
    exactHashWindow ≤ conversion.convert (wholeCount after.registers)
  range : before.exactOverflow = true → Linear before.registers → ¬ Linear after.registers →
    rounded (linearEstimate before.registers) ≤
      conversion.convert (rounded (rawEstimate after.registers))
  conversion : before.exactOverflow = true → ¬ Linear before.registers →
    2 ^ 64 ≤ rounded (rawEstimate after.registers) →
    conversion.convert (rounded (rawEstimate before.registers)) ≤
      conversion.convert (rounded (rawEstimate after.registers))

theorem convert_mono {lower higher : Nat} (order : lower ≤ higher) (small : higher < 2 ^ 64) :
    conversion.convert lower ≤ conversion.convert higher := by
  rwa [conversion.exact lower (order.trans_lt small), conversion.exact higher small]

theorem estimated_le_iff (was : before.exactOverflow = true) (is : after.exactOverflow = true)
    (grow : before.registers ≤ after.registers) :
    before.observed conversion ≤ after.observed conversion ↔ Seamless conversion before after := by
  simp only [observed, was, is, if_true]
  by_cases linearAfter : Linear after.registers
  · have linear := linearAfter.of_le grow
    have order : conversion.convert (wholeCount before.registers) ≤
        conversion.convert (wholeCount after.registers) :=
      convert_mono (wholeCount_le_of_linear grow linearAfter) (wholeCount_lt_of_linear linearAfter)
    exact iff_of_true order
      ⟨fun exact => by simp [was] at exact, fun _ _ raw => absurd linearAfter raw,
        fun _ raw => absurd linear raw⟩
  by_cases linear : Linear before.registers
  · rw [conversion.exact _ (wholeCount_lt_of_linear linear), wholeCount_linear linear,
      wholeCount_raw linearAfter]
    exact ⟨fun order => ⟨fun exact => by simp [was] at exact, fun _ _ _ => order,
      fun _ raw => absurd linear raw⟩, fun seamless => seamless.range was linear linearAfter⟩
  · constructor
    · intro order
      rw [wholeCount_raw linear, wholeCount_raw linearAfter] at order
      exact ⟨fun exact => by simp [was] at exact, fun _ raw => absurd raw linear,
        fun _ _ _ => order⟩
    · intro seamless
      by_cases small : wholeCount after.registers < 2 ^ 64
      · exact convert_mono (wholeCount_le_of_raw grow linear) small
      · rw [wholeCount_raw linearAfter] at small
        rw [wholeCount_raw linear, wholeCount_raw linearAfter]
        exact seamless.conversion was linear (not_lt.mp small)

theorem observed_le_iff (next : Next before after) (grow : before.registers ≤ after.registers) :
    before.observed conversion ≤ after.observed conversion ↔ Seamless conversion before after := by
  cases next with
  | exact length stays still =>
    simp only [observed, stays, still, Bool.false_eq_true, if_false]
    exact iff_of_true length ⟨fun _ overflow => by simp [still] at overflow,
      fun overflow => by simp [stays] at overflow, fun overflow => by simp [stays] at overflow⟩
  | overflows full fits overflow =>
    simp only [observed, fits, overflow, Bool.false_eq_true, if_false, if_true, full]
    exact ⟨fun order => ⟨fun _ _ => order, fun estimated => by simp [fits] at estimated,
      fun estimated => by simp [fits] at estimated⟩,
      fun seamless => seamless.overflow fits overflow⟩
  | estimated was is => exact estimated_le_iff was is grow

theorem observed_observe_iff (fits : state.exactHashes.length ≤ exactHashWindow) (hash : Nat)
    (now : Int) :
    state.observed conversion ≤ (state.observe hash now).observed conversion ↔
      Seamless conversion state (state.observe hash now) := by
  refine observed_le_iff (next_observe fits hash now) ?_
  rw [registers_observe]
  exact le_addHash state.registers hash

theorem isChain_states_iff (fits : state.exactHashes.length ≤ exactHashWindow)
    (observations : List (UInt64 × Int)) : (state :: state.states observations).IsChain
        (fun before after => before.observed conversion ≤ after.observed conversion) ↔
      (state :: state.states observations).IsChain (Seamless conversion) := by
  induction observations generalizing state with
  | nil => exact iff_of_true (.singleton _) (.singleton _)
  | cons observation rest induction =>
    rw [states, List.isChain_cons_cons, List.isChain_cons_cons]
    exact and_congr (observed_observe_iff fits _ _) (induction (length_observe_le fits _ _))

end State

theorem rounded_eq_one {value : ℝ} (small : value < 3 / 2) : rounded value = 1 := by
  unfold rounded
  split_ifs with below
  · rfl
  · rw [Nat.floor_eq_iff (by linarith)]
    constructor
    · norm_num
      linarith
    · norm_num
      linarith

theorem wholeCount_single (rank : Nat) :
    wholeCount (fun place => if place = 0 then rank + 1 else 0) = 1 := by
  set registers : Fin registerCount → Nat := fun place => if place = 0 then rank + 1 else 0
    with isRegisters
  have empty : zeros registers = 63 := by
    have others : (Finset.univ.filter fun place => registers place = 0) =
        Finset.univ.erase (0 : Fin registerCount) := by
      ext place
      simp [isRegisters]
    rw [zeros, others, Finset.card_erase_of_mem (Finset.mem_univ _), Finset.card_fin]
    rfl
  have sum : 63 ≤ harmonicSum registers := by
    rw [harmonicSum, Fin.sum_univ_succ]
    simp [isRegisters]
  have linear : Linear registers := by
    refine ⟨?_, by omega⟩
    rw [rawEstimate, div_le_iff₀ (harmonicSum_pos registers)]
    norm_num
    linarith
  have logarithm := Real.log_le_sub_one_of_pos (show (0 : ℝ) < 64 / 63 by norm_num)
  rw [wholeCount_linear linear, linearEstimate, empty]
  refine rounded_eq_one ?_
  norm_num at logarithm ⊢
  linarith

namespace Sample

def collisions : List (UInt64 × Int) := (List.range 17).map fun place => (64 * place.toUInt64, 0)

def collided : State :=
  collisions.foldl (fun state observation => state.observe observation.1.toNat observation.2)
    (State.fresh 0)

theorem collided_registers : collided.registers = fun place => if place = 0 then 58 + 1 else 0 := by
  funext place
  revert place
  decide +kernel

end Sample

end TelemetryForge.Cardinality
