import TelemetryForge.Replication.Manager
import TelemetryForge.Wal.Marks

/-! # Receipts

`PublishWithReceipt`: an event is appended to the local log and then replicated, and the
receipt says how far it came. -/

namespace TelemetryForge.Edge

open Replication

structure Receipt where
  persisted : Bool
  edgeSequence : Nat
  replicationSatisfied : Bool
deriving DecidableEq

inductive PublishError
  | append (error : Bytes)
  | replication (reason : Bytes)
deriving DecidableEq

def publishWithReceipt (replicator : Option Manager) (appended : Except Bytes Record)
    (arrivals : List Arrival) : Receipt × Option PublishError :=
  match appended with
  | .error error => (⟨false, 0, false⟩, some (.append error))
  | .ok record =>
    let receipt : Receipt := ⟨true, record.edgeSequence, replicator.isNone⟩
    match replicator with
    | none => (receipt, none)
    | some manager =>
      match (manager.replicate record arrivals).error with
      | some reason => (receipt, some (.replication reason))
      | none => ({ receipt with replicationSatisfied := true }, none)

theorem publishWithReceipt_satisfied_iff (manager : Manager) (record : Record)
    (arrivals : List Arrival) :
    (publishWithReceipt (some manager) (.ok record) arrivals).1.replicationSatisfied = true ↔
      (manager.replicate record arrivals).error = none := by
  simp only [publishWithReceipt]
  cases (manager.replicate record arrivals).error <;> simp

/-- In every accepted configuration but the local mode with a quorum of more than one node,
`Replicate` returns no error exactly when its result is satisfied, which is when the collected
acknowledgements meet the policy, and receipts follow it. -/
theorem replicate_reports_iff (manager : Manager) (record : Record) (arrivals : List Arrival) :
    let outcome := manager.replicate record arrivals
    ((outcome.error = none ↔ outcome.result.satisfied = true) ∧
      (outcome.result.satisfied = true ↔
        Meets manager.config (reportedNodes manager.config outcome.collected)) ∧
      ((publishWithReceipt (some manager) (.ok record) arrivals).1.replicationSatisfied = true →
        outcome.result.satisfied = true)) ↔
    ¬(manager.config.mode = .local ∧ 1 < manager.config.quorum) := by
  intro outcome
  rw [publishWithReceipt_satisfied_iff]
  constructor
  · rintro ⟨reports, _⟩
    exact (manager.replicate_error_iff record arrivals).mp reports
  · intro sound
    have reports := (manager.replicate_error_iff record arrivals).mpr sound
    exact ⟨reports, manager.replicate_satisfied_iff record arrivals, reports.mp⟩

namespace Sample

def node (id region : String) : Node :=
  ⟨ascii id, ascii "http://edge", ⟨ascii "aws", ascii region, ascii "a"⟩⟩

def config : Config :=
  ⟨node "edge-a" "us-east-1", [node "edge-b" "us-east-1"], .local, 2, 0, []⟩

def record : Record :=
  ⟨[], 0, ascii "edge-a", ascii "telemetry", 1, 1, .zero, [], 0, [], [], Event.zero⟩

end Sample

/-- The configuration is accepted, and a publish is reported as replicated to a quorum of two
although only the local node has the record. -/
theorem local_quorum_unsatisfied :
    ∃ manager, newManager Sample.config = .ok manager ∧
      (manager.replicate Sample.record []).error = none ∧
      (manager.replicate Sample.record []).result.satisfied = false ∧
      (publishWithReceipt (some manager) (.ok Sample.record) []).1.replicationSatisfied = true :=
  ⟨_, newManager_eq_ok (by decide +kernel) (by decide +kernel), by decide +kernel,
    by decide +kernel, by decide +kernel⟩

end TelemetryForge.Edge

/-! ## Replay at the edge

The loop of the publisher reads a batch of pending records, replicates them up to the first
failure, publishes those and commits them one by one up to the first result that is missing or
an error. Appends run beside it, and the process may end or die at any point, also inside a
commit. Releases, waiting times and counters do not touch what is committed. -/

namespace TelemetryForge.Edge

open Json Wal Program List

/-- What the calls of a round return, by their position in the batch; `true` stands for a nil
error. -/
structure Round where
  batchSize : Int
  replicate : Nat → Bool
  batching : Bool
  batchResults : List Bool
  publish : Nat → Bool

def leading (succeeds : Nat → Bool) : Nat → List Record → List Record
  | _, [] => []
  | index, record :: rest =>
    if succeeds index then record :: leading succeeds (index + 1) rest else []

/-- The results of single calls. The calls end with the first that fails; the entries behind it
stay nil. -/
def singleResults (succeeds : Nat → Bool) : Nat → List Record → List Bool
  | _, [] => []
  | index, _ :: rest =>
    if succeeds index then true :: singleResults succeeds (index + 1) rest
    else false :: rest.map fun _ => true

structure Published where
  delivered : List Record
  results : List Bool

def publishBatch (round : Round) (records : List Record) : Published :=
  if round.batching = true ∧ 1 < records.length then
    ⟨(records.zip round.batchResults).filterMap fun (record, succeeded) =>
        if succeeded then some record else none,
      round.batchResults⟩
  else ⟨leading round.publish 0 records, singleResults round.publish 0 records⟩

def committable : List Record → List Bool → List Record
  | record :: rest, true :: results => record :: committable rest results
  | _, _ => []

theorem committable_singleResults (succeeds : Nat → Bool) (index : Nat) (records : List Record) :
    committable records (singleResults succeeds index records) =
      leading succeeds index records := by
  induction records generalizing index with
  | nil => rfl
  | cons record rest induction =>
    rw [singleResults, leading]
    split_ifs
    · rw [committable, induction]
    · rfl

theorem mem_of_mem_committable {records : List Record} {results : List Bool} {record : Record}
    (member : record ∈ committable records results) : (record, true) ∈ records.zip results := by
  induction records generalizing results with
  | nil => simp [committable] at member
  | cons head rest induction =>
    rcases results with _ | ⟨_ | _, results⟩
    · simp [committable] at member
    · simp [committable] at member
    · rw [committable, mem_cons] at member
      rw [zip_cons_cons, mem_cons]
      rcases member with rfl | member
      · exact .inl rfl
      · exact .inr (induction member)

theorem delivered_of_committable {round : Round} {records : List Record} {record : Record}
    (member : record ∈ committable records (publishBatch round records).results) :
    record ∈ (publishBatch round records).delivered := by
  rw [publishBatch] at member ⊢
  split_ifs at member ⊢
  · rw [mem_filterMap]
    exact ⟨(record, true), mem_of_mem_committable member, rfl⟩
  · rw [committable_singleResults] at member
    exact member

variable [FloatText] [Ed25519]

structure Replay where
  host : Host
  ready : List Record
  replicated : List Record
  delivered : List Record

abbrev OtherAction := { action : Action // ∀ sequence, action ≠ .commit sequence }

inductive ReplayStep
  | round (round : Round)
  | commits
  | does (action : OtherAction)
  | dies (action : OtherAction) (point : Nat) (kept : Bytes → Nat)
  | diesCommitting (point : Nat) (kept : Bytes → Nat)

namespace Replay

def restarts : Action → Bool
  | .opening _ _ => true
  | _ => false

def die (config : Config) (replay : Replay) (action : Action) (point : Nat) (kept : Bytes → Nat) :
    Replay :=
  { replay with
    host := { replay.host with
      store := none
      directory := replay.host.wreck config action point kept }
    ready := [] }

def step (config : Config) (replicator : Bool) (replay : Replay) : ReplayStep → Replay
  | .round round =>
    match replay.host.store with
    | none => replay
    | some store =>
      let outcome := pending round.batchSize store replay.host.directory
      let host := replay.host.finish outcome []
      match outcome.result with
      | .error _ => { replay with host := host }
      | .ok records =>
        let batch := if replicator then leading round.replicate 0 records else records
        let published := publishBatch round batch
        { host := host
          ready := committable batch published.results
          replicated := replay.replicated ++ if replicator then batch else []
          delivered := replay.delivered ++ published.delivered }
  | .commits =>
    match replay.ready with
    | [] => replay
    | record :: rest =>
      { replay with
        host := replay.host.act config (.commit record.edgeSequence)
        ready :=
          if (replay.host.told (.commit record.edgeSequence)).isEmpty then [] else rest }
  | .does action =>
    { replay with
      host := replay.host.act config action
      ready := if restarts action then [] else replay.ready }
  | .dies action point kept => replay.die config action point kept
  | .diesCommitting point kept =>
    match replay.ready with
    | [] => replay
    | record :: _ => replay.die config (.commit record.edgeSequence) point kept

def run (config : Config) (replicator : Bool) (disk : Directory) (steps : List ReplayStep) :
    Replay :=
  steps.foldl (step config replicator) ⟨.start disk, [], [], []⟩

omit [FloatText] [Ed25519] in
def Covered (replicator : Bool) (replay : Replay) (sequence : Nat) : Prop :=
  ∃ record ∈ replay.delivered, record.edgeSequence = sequence ∧
    (replicator = true → record ∈ replay.replicated)

omit [FloatText] [Ed25519] in
def Committed (replay : Replay) (sequence : Nat) : Prop :=
  (∃ store, replay.host.store = some store ∧ sequence ≤ store.committed) ∨
    ∃ committed, replay.host.directory.mark = some committed ∧ sequence ≤ committed

variable {config : Config} {replicator : Bool} {replay : Replay}

theorem die_store_ne (config : Config) (replay : Replay) (action : Action) (point : Nat)
    (kept : Bytes → Nat) (store : Store) :
    (replay.die config action point kept).host.store ≠ some store := by
  rw [die]
  simp

theorem die_change (config : Config) (replay : Replay) (action : Action) (point : Nat)
    (kept : Bytes → Nat) :
    Stays replay.host (replay.die config action point kept).host ∨
      ∃ sequence, action = .commit sequence ∧
        Moves sequence replay.host (replay.die config action point kept).host := by
  have gone := die_store_ne config replay action point kept
  rcases wreck_cases config replay.host action point kept with same | ⟨passed, member, same⟩
  · exact .inl ⟨same, fun store found => absurd found (gone store)⟩
  · by_cases commits : ∃ sequence, action = .commit sequence
    · rcases commits with ⟨sequence, rfl⟩
      rw [Host.passes] at member
      split at member
      · cases member
      · rename_i store found
        rcases (commit_ensures_mark sequence store replay.host.directory).along passed member with
          ⟨next, checkpoint⟩
        exact .inr ⟨sequence, rfl, ⟨store, found, next, same.trans checkpoint⟩,
          fun store found => absurd found (gone store)⟩
    · have other : ∀ sequence, action ≠ .commit sequence :=
        fun sequence equal => commits ⟨sequence, equal⟩
      exact .inl ⟨same.trans (passes_checkpoint config replay.host other passed member),
        fun store found => absurd found (gone store)⟩

theorem step_host (config : Config) (replicator : Bool) (replay : Replay) (step : ReplayStep) :
    Stays replay.host (replay.step config replicator step).host ∨
      ∃ record ∈ replay.ready,
        Moves record.edgeSequence replay.host (replay.step config replicator step).host := by
  cases step with
  | round round =>
    left
    rw [Replay.step]
    split
    · exact Stays.refl _
    · rename_i store found
      have stays := stays_finish found (pending_neutral round.batchSize) []
      dsimp only
      split
      · exact stays
      · exact stays
  | commits =>
    rw [Replay.step]
    split
    · exact .inl (Stays.refl _)
    · rename_i record rest batch
      rcases act_commit_change config replay.host record.edgeSequence with stays | moves
      · exact .inl stays
      · exact .inr ⟨record, by simp [batch], moves⟩
  | does action => exact .inl (stays_act config replay.host action.2)
  | dies action point kept =>
    rcases die_change config replay action point kept with stays | ⟨sequence, isCommit, _⟩
    · exact .inl stays
    · exact absurd isCommit (action.2 sequence)
  | diesCommitting point kept =>
    rw [Replay.step]
    split
    · exact .inl (Stays.refl _)
    · rename_i record rest batch
      rcases die_change config replay (.commit record.edgeSequence) point kept with
        stays | ⟨sequence, isCommit, moves⟩
      · exact .inl stays
      · cases isCommit
        exact .inr ⟨record, by simp [batch], moves⟩

omit [FloatText] [Ed25519] in
def Settled (replicator : Bool) (replay : Replay) (record : Record) : Prop :=
  record ∈ replay.delivered ∧ (replicator = true → record ∈ replay.replicated)

variable (config) in
theorem step_settled {record : Record} (settled : replay.Settled replicator record)
    (step : ReplayStep) : (replay.step config replicator step).Settled replicator record := by
  cases step with
  | round round =>
    rw [Replay.step]
    split
    · exact settled
    · dsimp only
      split
      · exact settled
      · exact ⟨mem_append_left _ settled.1,
          fun configured => mem_append_left _ (settled.2 configured)⟩
  | commits =>
    rw [Replay.step]
    split <;> exact settled
  | does action => exact settled
  | dies action point kept => exact settled
  | diesCommitting point kept =>
    rw [Replay.step]
    split <;> exact settled

variable (config) in
theorem step_ready (ready : ∀ record ∈ replay.ready, replay.Settled replicator record)
    (step : ReplayStep) : ∀ record ∈ (replay.step config replicator step).ready,
      (replay.step config replicator step).Settled replicator record := by
  have earlier : ∀ record ∈ replay.ready,
      (replay.step config replicator step).Settled replicator record :=
    fun record member => step_settled config (ready record member) step
  intro record member
  cases step with
  | round round =>
    revert earlier
    rw [Replay.step] at member ⊢
    split at member
    · exact fun earlier => earlier record member
    · dsimp only at member ⊢
      split at member
      · exact fun earlier => earlier record member
      · intro _
        refine ⟨mem_append_right _ (delivered_of_committable member), fun configured => ?_⟩
        refine mem_append_right _ ?_
        have published := of_mem_zip (mem_of_mem_committable member)
        simp only [configured, if_true] at published ⊢
        exact published.1
  | commits =>
    apply earlier
    rw [Replay.step] at member
    split at member
    · exact member
    · rename_i head rest batch
      rw [batch]
      dsimp only at member
      split_ifs at member
      · cases member
      · exact mem_cons_of_mem _ member
  | does action =>
    apply earlier
    rw [Replay.step] at member
    dsimp only at member
    split_ifs at member
    · cases member
    · exact member
  | dies action point kept => cases member
  | diesCommitting point kept =>
    apply earlier
    rw [Replay.step] at member
    split at member
    · exact member
    · cases member

structure Sound (replicator : Bool) (base : Nat) (replay : Replay) : Prop where
  ready : ∀ record ∈ replay.ready, replay.Settled replicator record
  covered : ∀ sequence, base < sequence → replay.Committed sequence →
    replay.Covered replicator sequence
  agrees : ∀ store committed, replay.host.store = some store →
    replay.host.directory.mark = some committed → store.committed = committed

variable (config) in
theorem step_covered {sequence : Nat} (covered : replay.Covered replicator sequence)
    (step : ReplayStep) : (replay.step config replicator step).Covered replicator sequence := by
  rcases covered with ⟨record, delivered, same, replicated⟩
  have settled := step_settled config ⟨delivered, replicated⟩ step
  exact ⟨record, settled.1, same, settled.2⟩

theorem step_sound {base : Nat} (sound : replay.Sound replicator base) (step : ReplayStep) :
    (replay.step config replicator step).Sound replicator base := by
  have ready := step_ready config sound.ready step
  rcases step_host config replicator replay step with stays | ⟨record, member, moves⟩
  · have marks := mark_of_checkpoint stays.checkpoint
    refine ⟨ready, fun sequence above committed => ?_, fun store committed found marked => ?_⟩
    · refine step_covered config (sound.covered sequence above ?_) step
      rcases committed with ⟨store, found, bound⟩ | ⟨committed, marked, bound⟩
      · rcases stays.committed store found with ⟨before, held, same⟩ | marked
        · exact .inl ⟨before, held, same ▸ bound⟩
        · exact .inr ⟨store.committed, marked, bound⟩
      · exact .inr ⟨committed, marks ▸ marked, bound⟩
    · rw [marks] at marked
      rcases stays.committed store found with ⟨before, held, same⟩ | read
      · rw [same]
        exact sound.agrees before committed held marked
      · rw [marked] at read
        exact (Option.some.inj read).symm
  · rcases moves.moved with ⟨before, held, next, _⟩
    refine ⟨ready, fun sequence above committed => ?_, fun store committed found marked => ?_⟩
    · have bound : sequence ≤ record.edgeSequence := by
        rcases committed with ⟨store, found, bound⟩ | ⟨committed, marked, bound⟩
        · rw [moves.committed store found] at bound
          exact bound
        · rw [moves.mark_eq marked] at bound
          exact bound
      rcases Nat.lt_or_eq_of_le bound with earlier | rfl
      · have known : replay.Committed sequence := .inl ⟨before, held, by omega⟩
        exact step_covered config (sound.covered sequence above known) step
      · have settled := step_settled config (sound.ready record member) step
        exact ⟨record, settled.1, rfl, settled.2⟩
    · rw [moves.committed store found, moves.mark_eq marked]

theorem run_sound (config : Config) (replicator : Bool) (disk : Directory)
    (steps : List ReplayStep) :
    (run config replicator disk steps).Sound replicator (disk.mark.getD 0) := by
  induction steps using reverseRecOn with
  | nil =>
    have noStore (store : Store) :
        (run config replicator disk []).host.store ≠ some store := by
      simp [run, Host.start]
    have noBatch : (run config replicator disk []).ready = [] := rfl
    refine ⟨fun record member => ?_, fun sequence above committed => ?_,
      fun store committed found => absurd found (noStore store)⟩
    · rw [noBatch] at member
      cases member
    rcases committed with ⟨store, found, _⟩ | ⟨committed, marked, bound⟩
    · exact absurd found (noStore store)
    · have base : disk.mark = some committed := marked
      rw [base, Option.getD_some] at above
      omega
  | append_singleton steps last induction =>
    rw [run, foldl_append]
    exact step_sound induction last

end Replay

end TelemetryForge.Edge
