import TelemetryForge.Foundation.SortedMap
import TelemetryForge.Foundation.Strings

/-! # Kernel metrics

The eBPF agent polls running totals of kernel counters and publishes how far each of them has
come since the last total it has made durable. -/

namespace TelemetryForge.Ebpf

open List Option

structure Config where
  source : Bytes
  tenantID : Bytes
  edgeID : Bytes

def nonempty (value fallback : Bytes) : Bytes :=
  if trimSpace value = [] then fallback else trimSpace value

def metricName (signal : Bytes) : Bytes :=
  if signal = ascii "process_exec" then ascii "kernel.process.exec"
  else if signal = ascii "socket_connect" then ascii "kernel.socket.connect"
  else if signal = ascii "tcp_retransmit" then ascii "kernel.tcp.retransmit"
  else ascii "kernel." ++ signal.map fun byte => if byte = 95 then 46 else byte

structure Metric where
  id : Bytes
  tenantID : Bytes
  source : Bytes
  type : Bytes
  timestamp : Int
  signal : Bytes
  edge : Bytes
  delta : Nat
deriving DecidableEq

def eventID (config : Config) (signal : Bytes) (total : Nat) : Bytes :=
  ascii "ebpf:" ++ nonempty config.edgeID (ascii "edge") ++ ascii ":" ++ signal ++ ascii ":" ++
    decimal total

def metric (config : Config) (timestamp : Int) (signal : Bytes) (total delta : Nat) : Metric where
  id := eventID config signal total
  tenantID := nonempty config.tenantID (ascii "default")
  source := config.source
  type := metricName signal
  timestamp := timestamp
  signal := signal
  edge := nonempty config.edgeID (ascii "unknown")
  delta := delta

/-- One round: what the backend answers, the clock, and for each signal whether its event
becomes durable and whether publishing it reports an error. -/
structure Poll where
  snapshot : Option (Int × SortedMap Bytes Nat)
  now : Int
  durable : Bytes → Bool
  fails : Bytes → Bool

structure Agent where
  totals : SortedMap Bytes Nat
  persistedTotals : SortedMap Bytes Nat
  publishedEvents : Nat
  publishErrors : Nat
  snapshotErrors : Nat
  lastSnapshotAt : Int
  published : List (Metric × Nat)

def newAgent : Agent := ⟨.empty, .empty, 0, 0, 0, 0, []⟩

def baseFor (persisted total : Nat) : Nat := if total < persisted then 0 else persisted

namespace Agent

def publishSignal (config : Config) (poll : Poll) (timestamp : Int) (agent : Agent)
    (entry : Bytes × Nat) : Agent :=
  let signal := entry.1
  let total := entry.2
  let base := baseFor (agent.persistedTotals.getD signal 0) total
  if total = base then agent
  else
    let event := metric config timestamp signal total (total - base)
    let agent := if poll.durable signal then
        { agent with
          persistedTotals := agent.persistedTotals.insert signal total
          publishedEvents := agent.publishedEvents + 1
          published := agent.published ++ [(event, total)] }
      else agent
    if poll.fails signal then { agent with publishErrors := agent.publishErrors + 1 } else agent

def poll (config : Config) (agent : Agent) (poll : Poll) : Agent :=
  match poll.snapshot with
  | none => { agent with snapshotErrors := agent.snapshotErrors + 1 }
  | some snapshot =>
    let timestamp := if snapshot.1 = 0 then poll.now else snapshot.1
    snapshot.2.entries.foldl (publishSignal config poll timestamp)
      { agent with totals := snapshot.2, lastSnapshotAt := timestamp }

def account (agent : Agent) (signal : Bytes) : Nat × Nat :=
  (agent.persistedTotals.getD signal 0,
    ((agent.published.filter fun event => event.1.signal == signal).map (·.1.delta)).sum)

end Agent

def Poll.reading? (poll : Poll) (signal : Bytes) : Option Nat :=
  poll.snapshot.bind fun snapshot => snapshot.2.find? signal

def reports (persisted total : Nat) : Bool := total ≠ baseFor persisted total

def settle (durable : Bool) (total : Nat) (account : Nat × Nat) : Nat × Nat :=
  if durable && reports account.1 total then
    (total, account.2 + (total - baseFor account.1 total))
  else account

namespace Agent

theorem account_publishSignal (config : Config) (poll : Poll) (timestamp : Int) (agent : Agent)
    (entry : Bytes × Nat) (signal : Bytes) :
    (agent.publishSignal config poll timestamp entry).account signal =
      if entry.1 = signal then settle (poll.durable signal) entry.2 (agent.account signal)
      else agent.account signal := by
  rcases entry with ⟨name, total⟩
  simp only [publishSignal, settle, reports]
  by_cases same : name = signal
  · subst same
    simp only [account, if_true]
    by_cases reported : total = baseFor (agent.persistedTotals.getD name 0) total
    · rw [if_pos reported]
      simp [← reported]
    · rw [if_neg reported]
      simp only [SortedMap.getD] at reported ⊢
      cases poll.durable name <;> cases poll.fails name <;> simp [reported, metric]
  · simp only [if_neg same, account]
    split_ifs <;> simp [SortedMap.getD, metric, same, Ne.symm same]

theorem account_foldl_absent (config : Config) (poll : Poll) (timestamp : Int) {signal : Bytes}
    {entries : List (Bytes × Nat)} (absent : ∀ entry ∈ entries, entry.1 ≠ signal) (agent : Agent) :
    (entries.foldl (publishSignal config poll timestamp) agent).account signal =
      agent.account signal := by
  induction entries generalizing agent with
  | nil => rfl
  | cons entry rest induction =>
    rw [forall_mem_cons] at absent
    rw [foldl_cons, induction absent.2, account_publishSignal, if_neg absent.1]

theorem account_poll (config : Config) (agent : Agent) (poll : Poll) (signal : Bytes) :
    (agent.poll config poll).account signal =
      (poll.reading? signal).elim (agent.account signal) fun total =>
        settle (poll.durable signal) total (agent.account signal) := by
  rw [Agent.poll, Poll.reading?]
  cases poll.snapshot with
  | none => rfl
  | some snapshot =>
    simp only [bind_some]
    cases found : snapshot.2.find? signal with
    | none =>
      rw [account_foldl_absent _ _ _ ((snapshot.2.find?_eq_none_iff signal).mp found)]
      rfl
    | some total =>
      have member := (snapshot.2.find?_eq_some_iff signal total).mp found
      rcases append_of_mem member with ⟨before, after, split⟩
      have distinct := snapshot.2.nodup_keys
      rw [split, map_append, map_cons, nodup_append, nodup_cons] at distinct
      have absentBefore : ∀ entry ∈ before, entry.1 ≠ signal := fun entry isBefore =>
        distinct.2.2 _ (mem_map_of_mem isBefore) _ mem_cons_self
      have absentAfter : ∀ entry ∈ after, entry.1 ≠ signal := by
        rintro entry isAfter rfl
        exact distinct.2.1.1 (mem_map.mpr ⟨entry, isAfter, rfl⟩)
      rw [split, foldl_append, foldl_cons, account_foldl_absent _ _ _ absentAfter,
        account_publishSignal, if_pos rfl, account_foldl_absent _ _ _ absentBefore]
      rfl

end Agent

def increase (previous : Nat) : List Nat → Nat
  | [] => 0
  | current :: rest =>
    (if current < previous then current else current - previous) + increase current rest

def pending (persisted previous : Nat) : Nat :=
  if previous < persisted then previous else previous - persisted

/-- The counter starts again while something is pending, or it has started again unnoticed:
it is back above the durable total. -/
def loses (persisted previous current : Nat) : Bool :=
  (current < previous && pending persisted previous ≠ 0) ||
    (previous < persisted && persisted ≤ current)

def lossless (config : Config) (signal : Bytes) : Agent → (previous : Nat) → List Poll → Bool
  | _, _, [] => true
  | agent, previous, poll :: rest =>
    (poll.reading? signal).all (fun current =>
        !loses (agent.persistedTotals.getD signal 0) previous current) &&
      lossless config signal (agent.poll config poll) ((poll.reading? signal).getD previous) rest

theorem settle_step {persisted sum previous increase : Nat}
    (bounded : sum + pending persisted previous ≤ increase) (durable : Bool) (current : Nat) :
    let next := settle durable current (persisted, sum)
    let increase' := increase + if current < previous then current else current - previous
    next.2 + pending next.1 current ≤ increase' ∧
      (next.2 + pending next.1 current = increase' ↔
        sum + pending persisted previous = increase ∧
          loses persisted previous current = false) := by
  simp only [settle, reports, baseFor, loses, pending, Bool.or_eq_false_iff,
    Bool.and_eq_false_iff, decide_eq_false_iff_not] at bounded ⊢
  cases durable <;> split_ifs at bounded ⊢ <;> simp_all <;> omega

def readings (signal : Bytes) (polls : List Poll) : List Nat :=
  polls.filterMap (·.reading? signal)

theorem account_run (config : Config) (signal : Bytes) (polls : List Poll) (agent : Agent)
    {previous increased : Nat}
    (bounded : (agent.account signal).2 + pending (agent.account signal).1 previous ≤ increased) :
    let account := (polls.foldl (Agent.poll config) agent).account signal
    let last := (readings signal polls).getLastD previous
    account.2 + pending account.1 last ≤ increased + increase previous (readings signal polls) ∧
      (account.2 + pending account.1 last = increased + increase previous (readings signal polls) ↔
        (agent.account signal).2 + pending (agent.account signal).1 previous = increased ∧
          lossless config signal agent previous polls = true) := by
  induction polls generalizing agent previous increased with
  | nil => simpa [readings, increase, lossless] using bounded
  | cons poll rest induction =>
    have next := Agent.account_poll config agent poll signal
    rw [foldl_cons, lossless]
    cases read : poll.reading? signal with
    | none =>
      have skipped : readings signal (poll :: rest) = readings signal rest :=
        filterMap_cons_none read
      rw [read, elim_none] at next
      rw [← next] at bounded ⊢
      rw [skipped, all_none, getD_none, Bool.true_and]
      exact induction _ bounded
    | some current =>
      have taken : readings signal (poll :: rest) = current :: readings signal rest :=
        filterMap_cons_some read
      rw [read, elim_some] at next
      rcases settle_step bounded (poll.durable signal) current with ⟨bounded', same⟩
      rw [← next] at bounded' same
      have continues := induction _ bounded'
      rw [same, and_assoc, Nat.add_assoc] at continues
      simp only [taken, getLastD_cons, increase, all_some, getD_some,
        Bool.and_eq_true, Bool.not_eq_true']
      exact continues

def run (config : Config) (polls : List Poll) : Agent := polls.foldl (Agent.poll config) newAgent

/-- After a poll that publishes the signal durably, the durable deltas add up to the increase
exactly when no reading so far has lost anything. -/
theorem accounted_iff (config : Config) (signal : Bytes) (polls : List Poll) (poll : Poll)
    (total : Nat) (read : poll.reading? signal = some total) (durable : poll.durable signal = true)
    (reported : reports ((run config polls).persistedTotals.getD signal 0) total = true) :
    ((run config (polls ++ [poll])).account signal).2 =
        increase 0 (readings signal (polls ++ [poll])) ↔
      lossless config signal newAgent 0 (polls ++ [poll]) = true := by
  have persisted :
      (((polls ++ [poll]).foldl (Agent.poll config) newAgent).account signal).1 = total := by
    rw [foldl_append, foldl_cons, foldl_nil, Agent.account_poll, read,
      elim_some, settle, durable, Bool.true_and]
    exact congrArg Prod.fst (if_pos reported)
  have last : (readings signal (polls ++ [poll])).getLastD 0 = total := by
    simp only [readings, filterMap_append, filterMap_cons, read, filterMap_nil, getLastD_concat]
  have accounts := (account_run config signal (polls ++ [poll]) newAgent
    (show 0 + pending 0 0 ≤ 0 by decide)).2
  have settled : pending total total = 0 := by simp [pending]
  simp only [persisted, last, settled, Nat.add_zero, Nat.zero_add] at accounts
  exact accounts.trans (and_iff_right rfl)

namespace Sample

def config : Config := ⟨ascii "telemetryforge-ebpf", [], ascii "edge-1"⟩

def reading (timestamp : Int) (total : Nat) : Poll :=
  ⟨some (timestamp, SortedMap.empty.insert (ascii "exec") total), timestamp, fun _ => true,
    fun _ => false⟩

end Sample

theorem accounted_iff_sample :
    ((run Sample.config [Sample.reading 1 5, Sample.reading 2 3]).account (ascii "exec")).2 =
      increase 0 (readings (ascii "exec") [Sample.reading 1 5, Sample.reading 2 3]) :=
  (accounted_iff Sample.config (ascii "exec") [Sample.reading 1 5] (Sample.reading 2 3) 3
    (by decide) rfl (by decide +kernel)).mpr (by decide +kernel)

/-- The counter starts again and is read at zero, which publishes nothing. The durable total
stays at five, and of the six that follow only one is published. -/
theorem not_accounted_zero :
    let polls := [Sample.reading 1 5, Sample.reading 2 0, Sample.reading 3 6]
    ((run Sample.config polls).account (ascii "exec")).2 = 6 ∧
      increase 0 (readings (ascii "exec") polls) = 11 := by
  decide +kernel

inductive Step
  | poll (poll : Poll)
  | restart

def Agent.step (config : Config) (agent : Agent) : Step → Agent
  | .poll poll => agent.poll config poll
  | .restart => { newAgent with published := agent.published }

def runSteps (config : Config) (steps : List Step) : Agent :=
  steps.foldl (Agent.step config) newAgent

/-- `WriteEvent`: an event whose tenant and ID are known already is dropped. -/
def writeEvent (rows : List Metric) (event : Metric) : List Metric :=
  if rows.any fun row => row.tenantID == event.tenantID && row.id == event.id then rows
  else rows ++ [event]

def stored (events : List Metric) : List Metric := events.foldl writeEvent []

theorem eventID_eq_iff (config : Config) {signal other : Bytes} {total total' : Nat} :
    eventID config signal total = eventID config other total' ↔ signal = other ∧ total = total' := by
  have colon : ascii ":" = [58] := rfl
  simp only [eventID, colon, append_assoc, singleton_append, append_cancel_left_eq]
  constructor
  · intro same
    rcases eq_of_delimited_end (show isDigit 58 = false by decide) (decimal_all_digits _)
      (decimal_all_digits _) same with ⟨signals, totals⟩
    exact ⟨(cons.inj signals).2, decimal_injective totals⟩
  · rintro ⟨rfl, rfl⟩
    rfl

def Reports (config : Config) (entry : Metric × Nat) : Prop :=
  entry.1 = metric config entry.1.timestamp entry.1.signal entry.2 entry.1.delta

def Consistent (first second : Metric × Nat) : Prop :=
  first.1.signal = second.1.signal → first.2 = second.2 →
    first.1.delta = second.1.delta ∧ first.1.timestamp = second.1.timestamp

instance consistent_symm : Std.Symm Consistent :=
  ⟨fun _ _ agree signal total => (agree signal.symm total.symm).imp Eq.symm Eq.symm⟩

theorem reports_poll (config : Config) {agent : Agent}
    (reports : ∀ entry ∈ agent.published, Reports config entry) (poll : Poll) :
    ∀ entry ∈ (agent.poll config poll).published, Reports config entry := by
  rw [Agent.poll]
  cases poll.snapshot with
  | none => exact reports
  | some snapshot =>
    refine foldlRecOn snapshot.2.entries _
      (motive := fun agent : Agent => ∀ entry ∈ agent.published, Reports config entry) reports ?_
    intro agent reports reading _ entry member
    rw [Agent.publishSignal] at member
    split_ifs at member <;> try exact reports entry member
    all_goals
      rcases mem_append.mp member with old | new
      · exact reports entry old
      · rw [mem_singleton.mp new]
        rfl

theorem reports_run (config : Config) (steps : List Step) :
    ∀ entry ∈ (runSteps config steps).published, Reports config entry := by
  refine foldlRecOn steps _
    (motive := fun agent : Agent => ∀ entry ∈ agent.published, Reports config entry) nofun ?_
  rintro agent reports (poll | _) _
  · exact reports_poll config reports poll
  · exact reports

theorem exists_stored (events : List Metric) : (∀ row ∈ stored events, row ∈ events) ∧
      ∀ event ∈ events, ∃ row ∈ stored events, row.id = event.id := by
  induction events using reverseRecOn with
  | nil => exact ⟨nofun, nofun⟩
  | append_singleton events last induction =>
    rcases induction with ⟨rows, found⟩
    have step : stored (events ++ [last]) = writeEvent (stored events) last := by
      simp [stored]
    rw [step, writeEvent]
    split_ifs with known
    · refine ⟨fun row member => mem_append_left _ (rows row member), ?_⟩
      intro event member
      rcases mem_append.mp member with old | new
      · exact found event old
      · rw [mem_singleton.mp new]
        rcases any_eq_true.mp known with ⟨row, member, same⟩
        simp only [Bool.and_eq_true, beq_iff_eq] at same
        exact ⟨row, member, same.2⟩
    · constructor
      · intro row member
        rcases mem_append.mp member with old | new
        · exact mem_append_left _ (rows row old)
        · exact mem_append_right _ new
      · intro event member
        rcases mem_append.mp member with old | new
        · rcases found event old with ⟨row, member, same⟩
          exact ⟨row, mem_append_left _ member, same⟩
        · exact ⟨event, mem_append_right _ new, rfl⟩

end TelemetryForge.Ebpf
