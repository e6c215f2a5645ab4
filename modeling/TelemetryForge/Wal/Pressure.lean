import TelemetryForge.Wal.Budget

/-! # Disk pressure

Only the files of a log that is not all committed can put a store under pressure, if the
maximum has room for two segments: what is left of a committed log is at most one segment
and the header of the next. -/

namespace TelemetryForge.Wal

open Json Program

variable [FloatText] [Ed25519] {edgeID : Bytes} {log : Log edgeID} {secret : Bytes}
  {store : Store} {disk : Directory}

omit [FloatText] [Ed25519] in
def Store.Drained (store : Store) : Prop := store.committed + 1 = store.nextSequence

section

variable (running : Running log secret store disk)
include running

theorem Running.drained_iff :
    store.Drained ↔ log.committed = log.last := by
  rw [Store.Drained, running.held.committed, running.held.nextSequence, Nat.add_right_cancel_iff]

theorem Running.size_le_of_drained
    (tidy : log.Tidy) (budgeted : Budgeted store disk) (drained : store.Drained) :
    store.totalBytes ≤ store.segmentBytes ∨
      store.totalBytes ≤ store.segmentBytes + segmentHeaderBytes ∧
        store.currentSize = segmentHeaderBytes := by
  rcases running.writing.active with ⟨segment, active, _, size⟩
  rcases tidy (running.drained_iff.mp drained) with none | ⟨last, retained, empty⟩
  · left
    apply budgeted.single
    simp [running.held.segments, Log.summaries, active, none]
  · right
    have bytes : segment.bytes.length = segmentHeaderBytes := by
      rw [Log.activeRecords, active] at empty
      simp only [Option.map_some, Option.getD_some] at empty
      simp [Segment.bytes, empty, segmentHeader, segmentHeaderBytes, ascii]
    have member : ((last.summary true).sized) ∈ store.ledger := by
      simp [Store.ledger, running.held.segments, Log.summaries, retained]
    have fits := budgeted.within _ (budgeted.files.mem_iff.mp member)
    have length : (last.summary true).sized.2 = last.toSegment.bytes.length := rfl
    rw [length] at fits
    rw [running.held.totalBytes, Log.size, retained, active, size, bytes]
    simp only [List.map_cons, List.map_nil, List.sum_cons, List.sum_nil, Option.map_some,
      Option.getD_some, bytes]
    exact ⟨by push_cast; omega, trivial⟩

theorem Running.not_full_of_drained
    (tidy : log.Tidy) (budgeted : Budgeted store disk)
    (roomy : 2 * store.segmentBytes ≤ store.maxBytes) (drained : store.Drained)
    {frameBytes : Nat} (alone : (frameBytes + segmentHeaderBytes : Nat) ≤ store.segmentBytes) :
    ¬store.Full frameBytes := by
  have left := running.size_le_of_drained tidy budgeted drained
  have positive := budgeted.positive
  rintro (full | ⟨⟨_, used⟩, full⟩) <;> push_cast at alone <;> omega

end

def Relieved (store : Store) : Prop := store.pressure = true → ¬store.Drained

omit [FloatText] [Ed25519] in
theorem commit_pressure (sequence : Nat) :
    Ensures (commit sequence) store disk (fun _ => True) fun _ store' _ =>
      store'.failed = none → store'.pressure = true →
        store' = store ∨ store'.segments.length ≤ 1 ∨ store'.maxBytes ≤ store'.totalBytes := by
  have unchanged : store.failed = none → store.pressure = true → store = store ∨
      store.segments.length ≤ 1 ∨ store.maxBytes ≤ store.totalBytes := fun _ _ => .inl rfl
  apply Ensures.getState
  split
  · exact Ensures.fail unchanged
  split
  · exact Ensures.fail unchanged
  split
  · exact Ensures.pure unchanged
  split
  · exact Ensures.fail unchanged
  split
  · exact Ensures.fail unchanged
  apply Ensures.bind
  apply Ensures.noting
  apply Ensures.getState
  apply Ensures.write trivial
  apply Ensures.modify_then
  apply Ensures.noting
  apply Ensures.getState
  split
  · rename_i empty
    have none : store.segments = [] := List.getLast?_eq_none_iff.mp empty
    exact Ensures.pure fun _ _ => .inr (.inl (by simp [none]))
  split
  · rename_i short
    exact Ensures.pure fun _ _ => .inr (.inl short)
  apply Ensures.bind
  apply (compactFrom_last _).imp
  rintro result store' disk' ⟨kept, rfl, _⟩
  apply Ensures.modify
  intro _ pressed
  right
  right
  by_contra room
  simp [not_le.mp room] at pressed

theorem act_relieved {config : Config} {host : Host} {history history' : History}
    (roomy : 2 * config.segmentBytes ≤ config.maximum)
    (holds : Holds edgeID host history) (inBudget : InBudget config host)
    (relieved : ∀ store, host.store = some store → store.closed = false → Relieved store)
    (action : Action) (holds' : Holds edgeID (host.act config action) history') :
    ∀ store, (host.act config action).store = some store → store.closed = false →
      Relieved store := by
  intro store' found' opened'
  by_cases closed : ∀ store, host.store = some store → store.closed = true
  · rcases act_idle config closed action with idle | ⟨generated, clock, rfl⟩
    · rw [idle] at found'
      exact relieved store' found' opened'
    have opens := openStore_opens inBudget.within generated clock
    rw [Host.act_opening closed, Host.reopen] at found'
    split at found'
    · rename_i result
      cases found'
      intro pressed
      cases (opens.budgeted result).2.unpressed.symm.trans pressed
    · cases found'
  simp only [not_forall, Bool.not_eq_true] at closed
  rcases closed with ⟨store, found, opened⟩
  rcases holds.running found opened with ⟨log, secret, _, tidy, running⟩
  rcases inBudget.budgeted store found with ⟨budgeted, segmentBytes, maxBytes⟩
  rcases holds'.running found' opened' with ⟨log', secret', _, tidy', running'⟩
  rcases (act_inBudget inBudget action).1.budgeted store' found' with
    ⟨budgeted', segmentBytes', maxBytes'⟩
  cases action with
  | opening generated clock =>
    have same : host.act config (.opening generated clock) = host := by
      simp [Host.act, found, opened]
    rw [same] at found'
    exact relieved store' found' opened'
  | append topic event clock =>
    rw [Host.act_append found] at found'
    rcases append_cases topic event clock running with
      ⟨failure, _, outcome⟩ | ⟨record, payload, prepared, full, outcome⟩ |
      ⟨other, before, disk', record, payload, writes, prepared, _, serving, _, outcome⟩
    · rw [outcome] at found'
      cases found'
      exact relieved store found opened
    · rw [outcome] at found'
      cases found'
      intro _ drained
      exact running.not_full_of_drained tidy budgeted (by rw [segmentBytes, maxBytes]; exact roomy)
        drained (prepare_ok prepared).alone full
    · rw [outcome] at found'
      rcases serving.writing.active with ⟨segment, _, current, _⟩
      have noted := (@writeRecord_current segment.name before disk' current record
        payload).post.2.1
      cases found'
      intro _ drained
      change (writeRecord record payload before disk').state.committed + 1 =
        (writeRecord record payload before disk').state.nextSequence at drained
      simp only [noted, Store.noteAppended, serving.held.committed,
        serving.held.nextSequence] at drained
      have known : other.committed ≤ other.last := other.known
      omega
  | commit sequence =>
    rw [Host.act_commit found] at found'
    cases found'
    intro pressed drained
    rcases (commit_pressure sequence).post running'.held.failed pressed with
      same | single | full
    · rw [same] at pressed drained
      exact relieved store found opened pressed drained
    · have several := budgeted'.pressed (by rw [segmentBytes', maxBytes']; exact roomy) pressed
      omega
    · have left := running'.size_le_of_drained tidy' budgeted' drained
      have positive := budgeted'.positive
      rw [segmentBytes'] at left positive
      rw [maxBytes'] at full
      omega
  | close clock =>
    rw [Host.act_close found] at found'
    cases found'
    cases (close_ensures running clock).post.2.1.symm.trans opened'

variable {config : Config}

theorem run_relieved (accepted : config.check = .ok ())
    (roomy : 2 * config.segmentBytes ≤ config.maximum) (actions : List Action)
    (scannable : ∀ record ∈ (Host.run config .empty actions).returned, Scannable record) :
    ∀ store, (Host.run config .empty actions).store = some store → store.closed = false →
      Relieved store := by
  induction actions using List.reverseRecOn with
  | nil => simp [Host.run, Host.start]
  | append_singleton actions action induction =>
    have earlier : ∀ record ∈ (Host.run config .empty actions).returned, Scannable record := by
      intro record member
      apply scannable
      rw [Host.run_concat]
      exact (Host.returned_prefix_act config _ action).subset member
    rcases (run_replays accepted actions earlier).1 with ⟨history, _, holds⟩
    rcases (run_replays accepted _ scannable).1 with ⟨history', _, holds'⟩
    rw [Host.run_concat] at holds' ⊢
    exact act_relieved roomy holds (run_inBudget config actions) (induction earlier) action holds'

/-- With room for two segments, a store whose records are all committed is ready and
accepts every record that fits in a segment. -/
theorem pressure_run (accepted : config.check = .ok ())
    (roomy : 2 * config.segmentBytes ≤ config.maximum) (actions : List Action)
    (scannable : ∀ record ∈ (Host.run config .empty actions).returned, Scannable record)
    (found : (Host.run config .empty actions).store = some store) (opened : store.closed = false)
    (drained : store.committed = (stats store).lastSequence) :
    ready store = .ok () ∧
      ∀ topic event clock record payload,
        store.prepare topic event clock.accepted = .ok (record, payload) →
        (append topic event clock store (Host.run config .empty actions).directory).result =
          .ok record := by
  rcases (run_replays accepted actions scannable).1 with ⟨history, _, holds⟩
  rcases holds.running found opened with ⟨log, secret, _, tidy, running⟩
  rcases (run_inBudget config actions).budgeted store found with
    ⟨budgeted, segmentBytes, maxBytes⟩
  have all : store.Drained := by
    rw [Store.Drained, drained]
    change store.nextSequence - 1 + 1 = store.nextSequence
    rw [running.held.nextSequence]
    omega
  have relieved : store.pressure = false := by
    have holds := run_relieved accepted roomy actions scannable store found opened
    by_contra pressed
    exact holds (by simpa using pressed) all
  constructor
  · have left := running.size_le_of_drained tidy budgeted all
    have positive := budgeted.positive
    have room : ¬store.maxBytes ≤ store.totalBytes := by
      rw [segmentBytes] at left positive
      rw [maxBytes]
      omega
    simp [ready, opened, running.held.failed, relieved, room]
  · intro topic event clock record payload prepared
    rcases append_cases topic event clock running with
      ⟨failure, rejected, _⟩ | ⟨other, payload', prepared', full, _⟩ |
      ⟨other, before, disk', record', payload', writes, prepared', _, serving, _, outcome⟩
    · rw [rejected] at prepared
      cases prepared
    · exact absurd full (running.not_full_of_drained tidy budgeted
        (by rw [segmentBytes, maxBytes]; exact roomy) all (prepare_ok prepared').alone)
    · rw [prepared] at prepared'
      cases prepared'
      rw [outcome]
      exact writeRecord_result serving record payload

omit [FloatText] [Ed25519] in
theorem pressure_run_sample : ∃ store,
    (Sample.host Sample.config (Sample.twice.take 2 ++ [.commit 1])).store = some store ∧
      store.committed = 1 ∧ ready store = .ok () := by
  have holds : (Sample.host Sample.config (Sample.twice.take 2 ++ [.commit 1])).store.any
      (fun store => store.closed = false ∧
        store.committed = (@stats Sample.signatures store).lastSequence ∧
        store.committed = 1) = true := by
    decide +kernel
  simp only [Option.any_eq_true, decide_eq_true_eq] at holds
  rcases holds with ⟨store, found, opened, drained, committed⟩
  have scannable : ∀ record ∈
      (Sample.host Sample.config (Sample.twice.take 2 ++ [.commit 1])).returned,
      @Scannable Sample.floatText record := by
    decide +kernel
  exact ⟨store, found, committed, (@pressure_run Sample.floatText Sample.signatures store
    Sample.config (by decide) (by decide) _ scannable found opened drained).1⟩

omit [FloatText] [Ed25519] in
/-- A maximum of one segment: the first record fills it, the second meets the full disk,
and the pressure stays when the first is committed. -/
theorem pressure_stays : Sample.narrow.check = .ok () ∧
    ∃ store, (Sample.host Sample.narrow Sample.twice).store = some store ∧
      store.closed = false ∧ store.committed = (@stats Sample.signatures store).lastSequence ∧
      ready store = .error .diskPressure := by
  have holds : (Sample.host Sample.narrow Sample.twice).store.any (fun store =>
      store.closed = false ∧ store.committed = (@stats Sample.signatures store).lastSequence ∧
        ready store = .error .diskPressure) = true := by
    decide +kernel
  exact ⟨by decide, by simpa only [Option.any_eq_true, decide_eq_true_eq] using holds⟩

end TelemetryForge.Wal
