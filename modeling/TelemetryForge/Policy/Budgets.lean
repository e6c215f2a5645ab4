import TelemetryForge.Cardinality.Local
import TelemetryForge.Policy.ReportTable

/-! # Budgets

What the engine reports for a budget when it counts in memory. -/

namespace TelemetryForge.Policy.Engine

open List

open Cardinality (Observation)

variable {τ υ : Type}

section Active

variable {engine : Engine τ υ} {advance : τ → Observe → τ × Observation} {now : Int}
  {session session' : Session τ υ}

def advanced (advance : τ → Observe → τ × Observation) (state : τ) (call : Observe) : τ :=
  (advance state call).1

theorem observe_active_eq
    (total : engine.activeTracker = fun state call => .ok (advance state call))
    (wrap : Bytes → EngineError) (call : Observe) (session : Session τ υ) :
    engine.observe wrap .active call session =
      .ok (Session.note { session with active := (advance session.active call).1 }
        (.observed .active call), (advance session.active call).2) := by
  simp only [observe, total]
  rfl

variable [Strings]

theorem evaluateBudget_tracker
    (total : engine.activeTracker = fun state call => .ok (advance state call))
    {policy : Policy} {event : Event} {budget : Budget}
    (evaluated : engine.evaluateBudget policy .active event now session budget = .ok session') :
    session'.active = advanced advance session.active (budgetCall event budget now) := by
  rcases evaluateBudget_observes evaluated with ⟨answer, isObserved, reported⟩
  rw [observe_active_eq total] at isObserved
  cases isObserved
  exact reported.tracker

theorem evaluateDimension_tracker
    (total : engine.activeTracker = fun state call => .ok (advance state call))
    {event : Event} {reached reached' : Session τ υ × Marks} {entry : Bytes × Bytes}
    (evaluated : engine.evaluateDimension event now reached entry = .ok reached') :
    reached'.1.active =
      advanced advance reached.1.active (dimensionCall event entry.1 entry.2 now) := by
  rcases evaluateDimension_observes evaluated with ⟨wrap, answer, isObserved, reported⟩
  rw [observe_active_eq total] at isObserved
  cases isObserved
  exact reported.tracker

def activeCalls (policy : Policy) (event : Event) (now : Int) : List Observe :=
  ((policy.matchingBudgets event.source event.type).map fun budget => budgetCall event budget now) ++
    event.tags.entries.map fun entry => dimensionCall event entry.1 entry.2 now

theorem evaluateEvent_tracker
    (total : engine.activeTracker = fun state call => .ok (advance state call)) {event out : Event}
    (evaluated : engine.evaluateEvent event now session = .ok (session', out)) :
    session'.active =
      (activeCalls engine.active event now).foldl (advanced advance) session.active := by
  rcases evaluateEvent_observes evaluated with
    ⟨first, second, third, isFirst, shadow, looped, recorded⟩
  have budgets := foldlM_projection (fun reached : Session τ υ => reached.active)
    (fun state budget => advanced advance state (budgetCall event budget now))
    (fun _ _ _ _ stepped => evaluateBudget_tracker total stepped) isFirst
  rw [activeCalls, foldl_append, foldl_map, foldl_map, ← budgets,
    ← shadow.tracker, recorded.tracker]
  exact foldlM_projection (fun reached : Session τ υ × Marks => reached.1.active)
    (fun state entry => advanced advance state (dimensionCall event entry.1 entry.2 now))
    (fun _ _ _ _ stepped => evaluateDimension_tracker total stepped) looped

/-- One turn of `evaluateBudgets`, with the status that it reports unless that is held back. -/
def evaluateBudgetStatus (engine : Engine τ υ) (policy : Policy) (event : Event) (now : Int)
    (reached : Session τ υ × List BudgetStatus) (budget : Budget) :
    Except EngineError (Session τ υ × List BudgetStatus) := do
  let (session, observation) ← engine.observe (.observeBudget budget.name) .active
    (budgetCall event budget now) reached.1
  let status := budgetStatus policy .active event budget now observation
  let session ← engine.report .recordBudget status.reportKey now (10 * Duration.second)
    (.budget status) session
  return (session, reached.2 ++ [status])

def statuses (engine : Engine τ υ) : Session τ υ → List Call → Except EngineError (List BudgetStatus)
  | _, [] => .ok []
  | session, call :: rest => do
    let (_, here) ← (engine.active.matchingBudgets call.event.source call.event.type).foldlM
      (engine.evaluateBudgetStatus engine.active call.event call.evaluatedAt) (session, [])
    let (session, _) ← engine.evaluateAt call.event call.now call.clock session
    let later ← engine.statuses session rest
    return here ++ later

end Active

open Cardinality (callsAt uniqueCount DimensionKey)

section Memory

def memoryCall (observe : Observe) : Cardinality.Call :=
  ⟨[], 0, .active, observe.tenant, observe.source, observe.eventType, observe.dimension,
    observe.value, observe.now⟩

def memoryKey (observe : Observe) : DimensionKey := (memoryCall observe).dimensionKey

/-- `ObserveCardinality` of the in-memory tracker, whose order matters to evictions only. -/
def observeMemory (tracker : Cardinality.Tracker) (observe : Observe) :
    Cardinality.Tracker × Observation :=
  tracker.observe tracker.states.keys (memoryCall observe)

def memoryTracker : Tracker Cardinality.Tracker := fun tracker observe =>
  .ok (observeMemory tracker observe)

def keyCount (calls : List Observe) : Nat := (calls.map memoryKey).toFinset.card

def countOf (calls : List Observe) (observe : Observe) : UInt64 :=
  uniqueCount ((callsAt (memoryKey observe) (calls.map memoryCall)).map Cardinality.Call.hash).toFinset

structure Tracks (tracker : Cardinality.Tracker) (capacity : Nat) (done : List Observe) : Prop where
  represents : tracker.Represents (done.map memoryCall)
  capacity : tracker.maxDimensions = capacity

variable {tracker : Cardinality.Tracker} {capacity : Nat} {done : List Observe}

section

variable (tracks : Tracks tracker capacity done)
include tracks

theorem Tracks.mem_states_iff (key : DimensionKey) :
    key ∈ tracker.states ↔ key ∈ done.map memoryKey := by
  have holds := tracks.represents key
  rw [← AList.lookup_isSome]
  have found : key ∈ done.map memoryKey ↔ callsAt key (done.map memoryCall) ≠ [] := by
    simp only [callsAt, ne_eq, filter_eq_nil_iff, mem_map, memoryKey]
    simp
  rw [found]
  cases lookup : tracker.states.lookup key with
  | none =>
    rw [lookup] at holds
    simpa [Cardinality.HasStateOf] using holds
  | some state =>
    rw [lookup] at holds
    have first := Cardinality.State.Holds.first holds
    simp only [Option.isSome_some, true_iff]
    intro none
    rw [none] at first
    cases first

theorem Tracks.hasRoom {observe : Observe}
    (below : keyCount (done ++ [observe]) ≤ capacity) :
    tracker.hasRoom (memoryCall observe) := by
  by_cases present : memoryKey observe ∈ tracker.states
  · exact .inl present
  · right
    have new : memoryKey observe ∉ (done.map memoryKey).toFinset := by
      rw [mem_toFinset, ← tracks.mem_states_iff]
      exact present
    have size : keyCount (done ++ [observe]) = (done.map memoryKey).toFinset.card + 1 := by
      rw [keyCount, map_append, toFinset_append, Finset.union_comm]
      exact Finset.card_insert_of_notMem new
    have known : tracker.states.keys.length ≤ (done.map memoryKey).toFinset.card := by
      rw [← toFinset_card_of_nodup tracker.states.keys_nodup]
      refine Finset.card_le_card fun key member => ?_
      rw [mem_toFinset] at member ⊢
      exact (tracks.mem_states_iff key).mp member
    rw [tracks.capacity]
    omega

theorem Tracks.observe {observe : Observe}
    (below : keyCount (done ++ [observe]) ≤ capacity) :
    Tracks (observeMemory tracker observe).1 capacity (done ++ [observe]) ∧
      (observeMemory tracker observe).2.observedUnique = countOf (done ++ [observe]) observe := by
  have room := tracks.hasRoom below
  rcases Cardinality.Tracker.observe_spec tracks.represents tracker.states.keys room with
    ⟨state, holds, observed⟩
  refine ⟨⟨?_, ?_⟩, ?_⟩
  · rw [map_append]
    exact Cardinality.Tracker.observe_represents tracks.represents _ room
  · rw [observeMemory, observed]
    exact tracks.capacity
  · have calls : callsAt (memoryKey observe) ((done ++ [observe]).map memoryCall) =
        callsAt (memoryCall observe).dimensionKey (done.map memoryCall) ++ [memoryCall observe] := by
      rw [map_append]
      refine (filter_append _ _).trans (congrArg (callsAt _ _ ++ ·) ?_)
      exact filter_cons_of_pos (decide_eq_true rfl)
    rw [observeMemory, observed, (state.report_counts _).1, holds.sketch.estimate_eq, countOf, calls]

theorem Tracks.advance {calls : List Observe}
    (below : keyCount (done ++ calls) ≤ capacity) :
    Tracks (calls.foldl (advanced observeMemory) tracker) capacity (done ++ calls) := by
  induction calls generalizing tracker done with
  | nil => simpa using tracks
  | cons call rest induction =>
    have first : keyCount (done ++ [call]) ≤ capacity := by
      refine (Finset.card_le_card ?_).trans below
      intro key
      simp only [map_append, toFinset_append, map_cons, toFinset_cons,
        Finset.mem_union, Finset.mem_insert, map_nil, toFinset_nil]
      tauto
    have later := induction (tracks.observe first).1 (by simpa using below)
    simpa [advanced] using later

end

end Memory

structure Count where
  tenant : Bytes
  budget : Bytes
  unique : UInt64
deriving DecidableEq

def statusCount (status : BudgetStatus) : Count :=
  ⟨status.tenantID, status.budgetName, status.observedUnique⟩

section Counts

variable [Strings]

def eventCounts (event : Event) (now : Int) : (done : List Observe) → List Budget → List Count
  | _, [] => []
  | done, budget :: rest =>
    let call := budgetCall event budget now
    ⟨event.tenantID, budget.name, countOf (done ++ [call]) call⟩ ::
      eventCounts event now (done ++ [call]) rest

def runCounts (policy : Policy) : (done : List Observe) → List Call → List Count
  | _, [] => []
  | done, call :: rest =>
    eventCounts call.event call.evaluatedAt done
        (policy.matchingBudgets call.event.source call.event.type) ++
      runCounts policy (done ++ activeCalls policy call.event call.evaluatedAt) rest

def runCalls (policy : Policy) (calls : List Call) : List Observe :=
  calls.flatMap fun call => activeCalls policy call.event call.evaluatedAt

variable {υ : Type} {engine : Engine Cardinality.Tracker υ} {capacity : Nat}

omit [Strings] in
theorem report_succeeds (faultless : engine.Faultless) (wrap : Bytes → EngineError)
    (key : ReportKey) (now interval : Int) (entry : Entry) (session : Session Cardinality.Tracker υ) :
    ∃ session', engine.report wrap key now interval entry session = .ok session' := by
  unfold report
  cases given : engine.recorder with
  | none => exact ⟨session, rfl⟩
  | some recorder =>
    dsimp only
    split_ifs
    · have accepted := faultless.recorder recorder given
      exact ⟨_, bind_eq_ok.mpr ⟨(), by rw [accepted]; rfl, rfl⟩⟩
    · exact ⟨_, rfl⟩

omit [Strings] in
theorem keyCount_append_mono (done : List Observe) {few more : List Observe}
    (subset : few ⊆ more) : keyCount (done ++ few) ≤ keyCount (done ++ more) := by
  simp only [keyCount, map_append, toFinset_append]
  refine Finset.card_le_card (Finset.union_subset_union_right fun key member => ?_)
  rw [mem_toFinset] at member ⊢
  exact map_subset memoryKey subset member

section

variable (tracked : engine.activeTracker = memoryTracker)
include tracked

theorem evaluateBudgetStatus_counts
    (faultless : engine.Faultless) (policy : Policy) (event : Event) (now : Int) (budget : Budget)
    {session : Session Cardinality.Tracker υ} {done : List Observe}
    (tracks : Tracks session.active capacity done)
    (below : keyCount (done ++ [budgetCall event budget now]) ≤ capacity)
    (before : List BudgetStatus) :
    ∃ next status,
      engine.evaluateBudgetStatus policy event now (session, before) budget =
          .ok (next, before ++ [status]) ∧
        Tracks next.active capacity (done ++ [budgetCall event budget now]) ∧
        statusCount status = ⟨event.tenantID, budget.name,
          countOf (done ++ [budgetCall event budget now]) (budgetCall event budget now)⟩ := by
  rcases tracks.observe below with ⟨after, count⟩
  have total : engine.activeTracker = fun state call => .ok (observeMemory state call) := tracked
  have observed := observe_active_eq total (.observeBudget budget.name)
    (budgetCall event budget now) session
  set status := budgetStatus policy .active event budget now
    (observeMemory session.active (budgetCall event budget now)).2 with isStatus
  rcases report_succeeds faultless .recordBudget status.reportKey now (10 * Duration.second)
    (.budget status) (Session.note { session with
      active := (observeMemory session.active (budgetCall event budget now)).1 }
      (.observed .active (budgetCall event budget now))) with ⟨next, reported⟩
  refine ⟨next, status, bind_eq_ok.mpr ⟨_, observed, bind_eq_ok.mpr ⟨next, reported, rfl⟩⟩, ?_, ?_⟩
  · rw [(report_reports reported).tracker]
    exact after
  · rw [← count]
    rfl

theorem evaluateBudgetStatuses_counts
    (faultless : engine.Faultless) (policy : Policy) (event : Event) (now : Int)
    (budgets : List Budget) {session : Session Cardinality.Tracker υ} {done : List Observe}
    (tracks : Tracks session.active capacity done)
    (below : keyCount (done ++ budgets.map fun budget => budgetCall event budget now) ≤ capacity)
    (before : List BudgetStatus) :
    ∃ session' here,
      budgets.foldlM (engine.evaluateBudgetStatus policy event now) (session, before) =
          .ok (session', before ++ here) ∧
        here.map statusCount = eventCounts event now done budgets := by
  induction budgets generalizing session done before with
  | nil => exact ⟨session, [], by simp [Pure.pure, Except.pure], rfl⟩
  | cons budget rest induction =>
    rcases evaluateBudgetStatus_counts tracked faultless policy event now budget tracks
      ((keyCount_append_mono done (by simp)).trans below) before with
      ⟨next, status, stepped, nextTracks, count⟩
    rcases induction nextTracks (by simpa using below) (before ++ [status]) with
      ⟨session', here, looped, counts⟩
    refine ⟨session', status :: here, ?_, ?_⟩
    · rw [append_assoc, singleton_append] at looped
      rw [foldlM_cons, stepped]
      exact looped
    · rw [map_cons, counts, eventCounts, count]

theorem statuses_counts
    (faultless : engine.Faultless) (calls : List Call)
    {session : Session Cardinality.Tracker υ} {done : List Observe}
    (tracks : Tracks session.active capacity done)
    (below : keyCount (done ++ runCalls engine.active calls) ≤ capacity) :
    ∃ all, engine.statuses session calls = .ok all ∧
      all.map statusCount = runCounts engine.active done calls := by
  induction calls generalizing session done with
  | nil => exact ⟨[], rfl, rfl⟩
  | cons call rest induction =>
    have here : keyCount (done ++ activeCalls engine.active call.event call.evaluatedAt) ≤
        capacity := by
      exact (keyCount_append_mono done (by simp [runCalls])).trans below
    rcases evaluateBudgetStatuses_counts tracked faultless engine.active call.event
      call.evaluatedAt (engine.active.matchingBudgets call.event.source call.event.type) tracks
      ((keyCount_append_mono done (subset_append_left _ _)).trans here) [] with ⟨_, statuses, looped, counts⟩
    rcases evaluateEvent_both faultless call.event (Alike.refl session) with
      ⟨⟨next, out⟩, _, evaluated, _⟩
    have nextTracks : Tracks next.active capacity
        (done ++ activeCalls engine.active call.event call.evaluatedAt) := by
      rw [evaluateEvent_tracker tracked evaluated]
      exact tracks.advance here
    rcases induction nextTracks (by simpa [runCalls] using below) with ⟨later, isLater, laterCounts⟩
    refine ⟨statuses ++ later, ?_, ?_⟩
    · exact bind_eq_ok.mpr ⟨_, looped, bind_eq_ok.mpr ⟨_, evaluated,
        bind_eq_ok.mpr ⟨later, isLater, rfl⟩⟩⟩
    · rw [map_append, counts, laterCounts, runCounts]

end

end Counts

section Isolation

def budgetKey (tenant name : Bytes) (window : Int) : DimensionKey :=
  ⟨tenant, ascii "__budget__", name, ascii "__series__", window⟩

def reportedFor (tenant name : Bytes) (counts : List Count) : List UInt64 :=
  (counts.filter fun count => count.tenant = tenant ∧ count.budget = name).map Count.unique

def SameBudgetCalls (tenant name : Bytes) (left right : List Observe) : Prop :=
  ∀ window, callsAt (budgetKey tenant name window) (left.map memoryCall) =
    callsAt (budgetKey tenant name window) (right.map memoryCall)

variable {tenant name : Bytes} {left right : List Observe}

theorem callsAt_append (key : DimensionKey) (first second : List Observe) :
    callsAt key ((first ++ second).map memoryCall) =
      callsAt key (first.map memoryCall) ++ callsAt key (second.map memoryCall) := by
  rw [map_append]
  exact filter_append _ _

section

variable (same : SameBudgetCalls tenant name left right)
include same

theorem SameBudgetCalls.append
    (calls : List Observe) : SameBudgetCalls tenant name (left ++ calls) (right ++ calls) := by
  intro window
  rw [callsAt_append, callsAt_append, same window]

theorem SameBudgetCalls.append_left
    {calls : List Observe}
    (foreign : ∀ call ∈ calls, ∀ window, memoryKey call ≠ budgetKey tenant name window) :
    SameBudgetCalls tenant name (left ++ calls) right := by
  intro window
  have none : callsAt (budgetKey tenant name window) (calls.map memoryCall) = [] := by
    refine filter_eq_nil_iff.mpr ?_
    rw [forall_mem_map]
    exact fun call member same => foreign call member window (of_decide_eq_true same)
  rw [callsAt_append, none, append_nil, same window]

theorem SameBudgetCalls.countOf_eq
    {call : Observe} {window : Int} (key : memoryKey call = budgetKey tenant name window) :
    countOf (left ++ [call]) call = countOf (right ++ [call]) call := by
  rw [countOf, countOf, key, same.append [call] window]

end

variable [Strings]

theorem reportedFor_eventCounts (same : SameBudgetCalls tenant name left right) (event : Event)
    (now : Int) (budgets : List Budget) :
    reportedFor tenant name (eventCounts event now left budgets) =
      reportedFor tenant name (eventCounts event now right budgets) := by
  induction budgets generalizing left right with
  | nil => rfl
  | cons budget rest induction =>
    have later := induction (same.append [budgetCall event budget now])
    simp only [reportedFor] at later
    by_cases ours : event.tenantID = tenant ∧ budget.name = name
    · have key : memoryKey (budgetCall event budget now) =
          budgetKey tenant name (Instant.truncate now Duration.hour) := by
        rw [← ours.1, ← ours.2]
        rfl
      simp only [reportedFor, eventCounts, filter_cons, decide_eq_true ours, if_true,
        map_cons, same.countOf_eq key, later]
    · simp only [reportedFor, eventCounts, filter_cons, decide_eq_false ours,
        Bool.false_eq_true, if_false, later]

theorem reportedFor_eventCounts_foreign {event : Event} {budgets : List Budget}
    (foreign : ∀ budget ∈ budgets, ¬(event.tenantID = tenant ∧ budget.name = name)) (now : Int)
    (done : List Observe) : reportedFor tenant name (eventCounts event now done budgets) = [] := by
  induction budgets generalizing done with
  | nil => rfl
  | cons budget rest induction =>
    rw [forall_mem_cons] at foreign
    have later := induction foreign.2 (done ++ [budgetCall event budget now])
    simp only [reportedFor] at later
    simp only [reportedFor, eventCounts, filter_cons, decide_eq_false foreign.1,
      Bool.false_eq_true, if_false, later]

def Concerns (event : Event) (tenant : Bytes) (budget : Budget) : Prop :=
  event.tenantID = tenant ∧ glob budget.source event.source = true ∧
    glob budget.type event.type = true

omit [Strings] in
def Impersonates (event : Event) (tenant name : Bytes) : Prop :=
  event.tenantID = tenant ∧ event.source = ascii "__budget__" ∧ event.type = name ∧
    (event.tags.find? (ascii "__series__")).isSome = true

theorem activeCalls_foreign {policy : Policy} {event : Event}
    (foreign : ∀ budget ∈ policy.matchingBudgets event.source event.type,
      ¬(event.tenantID = tenant ∧ budget.name = name))
    (honest : ¬Impersonates event tenant name) (now : Int) :
    ∀ call ∈ activeCalls policy event now, ∀ window,
      memoryKey call ≠ budgetKey tenant name window := by
  intro call member window same
  rcases mem_append.mp member with member | member
  · rcases mem_map.mp member with ⟨budget, isBudget, rfl⟩
    have parts := DimensionKey.mk.inj same
    exact foreign budget isBudget ⟨parts.1, parts.2.2.1⟩
  · rcases mem_map.mp member with ⟨entry, isEntry, rfl⟩
    rcases DimensionKey.mk.inj same with ⟨tenants, sources, types, dimensions, _⟩
    refine honest ⟨tenants, sources, types, ?_⟩
    have found := (event.tags.find?_eq_some_iff entry.1 entry.2).mpr isEntry
    rw [show entry.1 = ascii "__series__" from dimensions] at found
    rw [found]
    rfl

theorem reportedFor_runCounts (policy : Policy) {budget : Budget}
    (unique : ∀ other ∈ policy.budgets, other.name = budget.name → other = budget)
    {marked : List (Call × Bool)}
    (others : ∀ entry ∈ marked, entry.2 = false → ¬Concerns entry.1.event tenant budget ∧
      ¬Impersonates entry.1.event tenant budget.name)
    (same : SameBudgetCalls tenant budget.name left right) :
    reportedFor tenant budget.name (runCounts policy left (marked.map Prod.fst)) =
      reportedFor tenant budget.name
        (runCounts policy right ((marked.filter Prod.snd).map Prod.fst)) := by
  have split (first second : List Count) : reportedFor tenant budget.name (first ++ second) =
      reportedFor tenant budget.name first ++ reportedFor tenant budget.name second := by
    simp [reportedFor]
  induction marked generalizing left right with
  | nil => rfl
  | cons entry rest induction =>
    rcases entry with ⟨call, kept⟩
    rw [forall_mem_cons] at others
    cases kept with
    | true =>
      rw [filter_cons_of_pos rfl, map_cons, map_cons, runCounts, runCounts, split,
        split, reportedFor_eventCounts same, induction others.2 (same.append _)]
    | false =>
      rcases others.1 rfl with ⟨unconcerned, honest⟩
      have foreign : ∀ other ∈ policy.matchingBudgets call.event.source call.event.type,
          ¬(call.event.tenantID = tenant ∧ other.name = budget.name) := by
        rintro other member ⟨tenants, names⟩
        rw [matchingBudgets, mem_filter, Bool.and_eq_true] at member
        rw [unique other member.1 names] at member
        exact unconcerned ⟨tenants, member.2⟩
      rw [filter_cons_of_neg (by simp), map_cons, runCounts, split,
        reportedFor_eventCounts_foreign foreign, nil_append,
        induction others.2 (same.append_left (activeCalls_foreign foreign honest _))]

theorem validateBudgets_names {seen : List Bytes} {index : Nat} {budgets : List Budget}
    (valid : validateBudgets seen index budgets = .ok ()) :
    (budgets.map fun budget => trimSpace budget.name).Nodup ∧
      ∀ budget ∈ budgets, trimSpace budget.name ∉ seen := by
  induction budgets generalizing seen index with
  | nil => simp
  | cons budget rest induction =>
    rw [validateBudgets, andThen_eq_ok] at valid
    rcases induction valid.2 with ⟨nodup, fresh⟩
    have new : trimSpace budget.name ∉ seen := by
      have checks := valid.1
      simp only [Budget.validate, andThen_eq_ok, refuse_eq_ok] at checks
      exact checks.2.1
    refine ⟨?_, forall_mem_cons.mpr ⟨new, fun other member inSeen =>
      fresh other member (mem_cons_of_mem _ inSeen)⟩⟩
    rw [map_cons, nodup_cons]
    refine ⟨fun member => ?_, nodup⟩
    rcases mem_map.mp member with ⟨other, isOther, same⟩
    exact fresh other isOther (same ▸ mem_cons_self)

theorem budget_unique {policy : Policy} (valid : policy.validate = .ok ()) {budget : Budget}
    (member : budget ∈ policy.budgets) :
    ∀ other ∈ policy.budgets, other.name = budget.name → other = budget := by
  have budgets : validateBudgets [] 0 policy.budgets = .ok () := by
    simp only [validate, andThen_eq_ok] at valid
    exact valid.2.2.2.2.2.2
  intro other isOther names
  exact inj_on_of_nodup_map (validateBudgets_names budgets).1 isOther member
    (congrArg trimSpace names)

/-- Below the eviction bound, removing events that do not concern a budget leaves everything
that is reported for it unchanged, unless one of them impersonates the budget. -/
theorem budget_isolated {υ : Type} (engine : Engine Cardinality.Tracker υ)
    (tracked : engine.activeTracker = memoryTracker) (faultless : engine.Faultless)
    (valid : engine.active.validate = .ok ()) (maxDimensions : Int) (shadow : υ)
    (tenant : Bytes) (budget : Budget) (member : budget ∈ engine.active.budgets)
    (marked : List (Call × Bool)) (below : keyCount (runCalls engine.active (marked.map Prod.fst)) ≤
      (Cardinality.newTracker maxDimensions).maxDimensions)
    (others : ∀ entry ∈ marked, entry.2 = false → ¬Concerns entry.1.event tenant budget)
    (honest : ∀ entry ∈ marked, entry.2 = false → ¬Impersonates entry.1.event tenant budget.name) :
    ∃ full reduced,
      engine.statuses (.initial (Cardinality.newTracker maxDimensions) shadow)
          (marked.map Prod.fst) = .ok full ∧
        engine.statuses (.initial (Cardinality.newTracker maxDimensions) shadow)
          ((marked.filter Prod.snd).map Prod.fst) = .ok reduced ∧
        reportedFor tenant budget.name (full.map statusCount) =
          reportedFor tenant budget.name (reduced.map statusCount) := by
  have start : Tracks (Session.initial (Cardinality.newTracker maxDimensions) shadow).active
      (Cardinality.newTracker maxDimensions).maxDimensions [] :=
    ⟨Cardinality.Tracker.new_represents maxDimensions, rfl⟩
  have fewer : runCalls engine.active ((marked.filter Prod.snd).map Prod.fst) ⊆
      runCalls engine.active (marked.map Prod.fst) := by
    intro call isCall
    rcases mem_flatMap.mp isCall with ⟨kept, isKept, asked⟩
    exact mem_flatMap.mpr ⟨kept, (filter_sublist.map Prod.fst).subset isKept, asked⟩
  rcases statuses_counts tracked faultless (marked.map Prod.fst) start (by simpa using below) with
    ⟨full, isFull, fullCounts⟩
  rcases statuses_counts tracked faultless ((marked.filter Prod.snd).map Prod.fst) start
    (by simpa using (keyCount_append_mono [] fewer).trans below) with
    ⟨reduced, isReduced, reducedCounts⟩
  refine ⟨full, reduced, isFull, isReduced, ?_⟩
  rw [fullCounts, reducedCounts]
  exact reportedFor_runCounts engine.active (budget_unique valid member)
    (fun entry isEntry removed => ⟨others entry isEntry removed, honest entry isEntry removed⟩)
    fun _ => rfl

end Isolation

end TelemetryForge.Policy.Engine

namespace TelemetryForge.Policy

namespace Sample

def budget : Budget := ⟨ascii "spend", ascii "api", [], 10, 50, 80⟩

def budgeted : Engine Cardinality.Tracker Unit where
  active := ⟨ascii "p", ascii "1", 100, .allow, [], [], [budget]⟩
  activeTracker := Engine.memoryTracker
  shadow := none
  shadowTracker := crossing
  recorder := none
  maxReportEntries := 100

theorem budgeted_faultless : budgeted.Faultless where
  active _ _ := ⟨_, rfl⟩
  shadow _ _ := ⟨_, rfl⟩
  recorder _ given := nomatch given

def intruder : Event :=
  { Event.zero with
    source := ascii "__budget__", type := ascii "spend"
    tags := SortedMap.empty.insert (ascii "__series__") (ascii "x") }

def other : Event := { Event.zero with source := ascii "web", type := ascii "request" }

def fresh : Session Cardinality.Tracker Unit := .initial (Cardinality.newTracker 100) ()

end Sample

theorem budget_isolated_sample : letI := Sample.strings
    ∃ full reduced,
      Sample.budgeted.statuses Sample.fresh [⟨Sample.other, 1, 0⟩, ⟨Sample.event, 2, 0⟩] = .ok full ∧
        Sample.budgeted.statuses Sample.fresh [⟨Sample.event, 2, 0⟩] = .ok reduced ∧
        Engine.reportedFor [] (ascii "spend") (full.map Engine.statusCount) =
          Engine.reportedFor [] (ascii "spend") (reduced.map Engine.statusCount) := by
  let _ := Sample.strings
  exact Sample.budgeted.budget_isolated rfl Sample.budgeted_faultless (by decide +kernel) 100 () []
    Sample.budget List.mem_cons_self
    [(⟨Sample.other, 1, 0⟩, false), (⟨Sample.event, 2, 0⟩, true)] (by decide +kernel)
    (by
      intro entry member removed concerns
      rcases List.mem_cons.mp member with rfl | member
      · exact absurd concerns.2.1 (by decide +kernel)
      · rcases List.mem_singleton.mp member with rfl
        cases removed)
    (by
      intro entry member removed impersonates
      rcases List.mem_cons.mp member with rfl | member
      · exact absurd impersonates.2.1 (by decide +kernel)
      · rcases List.mem_singleton.mp member with rfl
        cases removed)

/-- The budget counts two series after the intruder and one without it. -/
theorem budget_impersonated : letI := Sample.strings
    Sample.budgeted.active.validate = .ok () ∧
      ¬Engine.Concerns Sample.intruder [] Sample.budget ∧
      ∃ full reduced,
        Sample.budgeted.statuses Sample.fresh
            [⟨Sample.intruder, 1, 0⟩, ⟨Sample.event, 2, 0⟩] = .ok full ∧
          Sample.budgeted.statuses Sample.fresh [⟨Sample.event, 2, 0⟩] = .ok reduced ∧
          Engine.reportedFor [] (ascii "spend") (full.map Engine.statusCount) = [2] ∧
          Engine.reportedFor [] (ascii "spend") (reduced.map Engine.statusCount) = [1] := by
  let _ := Sample.strings
  refine ⟨by decide +kernel, fun concerns => absurd concerns.2.1 (by decide +kernel), ?_⟩
  have two : (Sample.budgeted.statuses Sample.fresh
      [⟨Sample.intruder, 1, 0⟩, ⟨Sample.event, 2, 0⟩]).map (fun all =>
        Engine.reportedFor [] (ascii "spend") (all.map Engine.statusCount)) = .ok [2] := by
    decide +kernel
  have one : (Sample.budgeted.statuses Sample.fresh [⟨Sample.event, 2, 0⟩]).map (fun all =>
      Engine.reportedFor [] (ascii "spend") (all.map Engine.statusCount)) = .ok [1] := by
    decide +kernel
  rcases map_eq_ok.mp two with ⟨full, isFull, fullCounts⟩
  rcases map_eq_ok.mp one with ⟨reduced, isReduced, reducedCounts⟩
  exact ⟨full, reduced, isFull, isReduced, fullCounts, reducedCounts⟩

end TelemetryForge.Policy
