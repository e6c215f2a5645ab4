import TelemetryForge.Wal.Recovery

/-! # Runs of a store on one directory

A host opens a store on a directory, calls it, closes it and opens it again. -/

namespace TelemetryForge.Wal

open Json Program List

variable [FloatText] [Ed25519]

inductive Action
  | opening (generated : Bytes) (clock : Clock)
  | append (topic : Bytes) (event : Event) (clock : Clock)
  | commit (sequence : Nat)
  | close (clock : Clock)

structure Host where
  store : Option Store
  directory : Directory
  returned : List Record
  refused : Bool

namespace Host

def start (disk : Directory) : Host := ⟨none, disk, [], false⟩

omit [FloatText] [Ed25519] in
def finish (host : Host) {α : Type} (outcome : Outcome Store Directory Failure α)
    (records : List Record) : Host :=
  { host with
    store := some outcome.state
    directory := outcome.disk
    returned := host.returned ++ records }

def reopen (config : Config) (generated : Bytes) (clock : Clock) (host : Host) : Host :=
  let outcome := openStore config generated clock host.directory
  match outcome.result with
  | .ok () => { host with store := some outcome.state, directory := outcome.disk }
  | .error _ => { host with store := none, directory := outcome.disk, refused := true }

/-- Opening needs that no store is open; calls need that there is one. -/
def act (config : Config) (host : Host) : Action → Host
  | .opening generated clock =>
    match host.store with
    | none => host.reopen config generated clock
    | some store => if store.closed then host.reopen config generated clock else host
  | .append topic event clock =>
    match host.store with
    | none => host
    | some store =>
      let outcome := append topic event clock store host.directory
      host.finish outcome outcome.result.toOption.toList
  | .commit sequence =>
    match host.store with
    | none => host
    | some store => host.finish (commit sequence store host.directory) []
  | .close clock =>
    match host.store with
    | none => host
    | some store => host.finish (close clock store host.directory) []

section
variable {config : Config} {host : Host} {store : Store}

theorem act_opening (closed : ∀ store, host.store = some store → store.closed = true)
    (generated : Bytes) (clock : Clock) :
    host.act config (.opening generated clock) = host.reopen config generated clock := by
  rcases found : host.store with _ | store
  · simp [act, found]
  · simp [act, found, closed store found]

section

variable (found : host.store = some store)
include found

theorem act_busy (opened : store.closed = false)
    (generated : Bytes) (clock : Clock) : host.act config (.opening generated clock) = host := by
  simp [act, found, opened]

theorem act_append (topic : Bytes) (event : Event)
    (clock : Clock) : host.act config (.append topic event clock) =
      host.finish (append topic event clock store host.directory)
        (append topic event clock store host.directory).result.toOption.toList := by
  simp [act, found]

theorem act_commit (sequence : Nat) :
    host.act config (.commit sequence) = host.finish (commit sequence store host.directory) [] := by
  simp [act, found]

theorem act_close (clock : Clock) :
    host.act config (.close clock) = host.finish (close clock store host.directory) [] := by
  simp [act, found]

end

end

def run (config : Config) (disk : Directory) (actions : List Action) : Host :=
  actions.foldl (act config) (start disk)

theorem run_concat (config : Config) (disk : Directory) (actions : List Action)
    (action : Action) : run config disk (actions ++ [action]) =
      (run config disk actions).act config action := by
  simp [run]

theorem returned_prefix_act (config : Config) (host : Host) (action : Action) :
    host.returned <+: (host.act config action).returned := by
  cases action with
  | opening generated clock =>
    have reopened : (host.reopen config generated clock).returned = host.returned := by
      rw [reopen]
      split <;> rfl
    simp only [act]
    split
    · rw [reopened]
    · split_ifs
      · rw [reopened]
      · exact prefix_rfl
  | append topic event clock =>
    simp only [act]
    split
    · exact prefix_rfl
    · exact prefix_append _ _
  | commit sequence =>
    simp only [act]
    split
    · exact prefix_rfl
    · exact prefix_append _ _
  | close clock =>
    simp only [act]
    split
    · exact prefix_rfl
    · exact prefix_append _ _

end Host

/-! ## A sample -/

namespace Sample

omit [FloatText] [Ed25519]

@[reducible] def floatText : FloatText := .ofBits

@[reducible] def signatures : Ed25519 where
  publicKey _ := List.replicate 32 0
  sign _ _ := List.replicate 64 0
  verify _ _ _ := true
  publicKey_length _ := by simp
  sign_length _ _ := by simp
  verify_sign _ _ := rfl

def now : Now := ⟨⟨⟨2024, 1, 2, 3, 4, 5, 0⟩, 0, by decide⟩, rfl, by decide, by decide⟩

def clock : Clock := ⟨now, fun _ => now⟩

def event : Event :=
  { Event.zero with
    source := ascii "pump"
    type := ascii "reading"
    timestamp := now.time
    schemaVersion := ascii "1" }

def config : Config := ⟨ascii "edge", 0, 0⟩

def misnamed : Config := ⟨[0xFF], 0, 0⟩

def host (config : Config) (actions : List Action) : Host :=
  @Host.run floatText signatures config .empty actions

end Sample

def Stores (edgeID : Bytes) (history : History) (disk : Directory) : Prop :=
  ∃ (log : Log edgeID) (tail secret : Bytes), log.history = history ∧ log.Tidy ∧
    Image log tail secret disk

def Holds (edgeID : Bytes) (host : Host) (history : History) : Prop :=
  (∃ store secret, host.store = some store ∧ ∃ log : Log edgeID, log.history = history ∧
    log.Tidy ∧ Running log secret store host.directory) ∨
  (∀ store ∈ host.store, store.closed = true) ∧ Stores edgeID history host.directory

theorem Holds.running {edgeID : Bytes} {host : Host} {history : History} {store : Store}
    (holds : Holds edgeID host history) (found : host.store = some store)
    (opened : store.closed = false) : ∃ (log : Log edgeID) (secret : Bytes),
      log.history = history ∧ log.Tidy ∧ Running log secret store host.directory := by
  rcases holds with ⟨other, secret, found', log, same, tidy, running⟩ | ⟨closed, _⟩
  · rw [found] at found'
    cases found'
    exact ⟨log, secret, same, tidy, running⟩
  · have shut := closed store found
    rw [opened] at shut
    cases shut

theorem stores_empty (edgeID : Bytes) : Stores edgeID ⟨0, [], 0, .empty⟩ .empty :=
  ⟨.initial, [], [], rfl, fun _ => .inl rfl, image_empty []⟩

omit [Ed25519] in
inductive Advance (edgeID : Bytes) (history : History) : List Record → History → Prop
  | stays : Advance edgeID history [] history
  | appends (topic : Bytes) (event : Event) (record : Record)
      (issued : Issued edgeID history topic event record) (scannable : Scannable record) :
      Advance edgeID history [record] (history.append record.reread)
  | commits (sequence : Nat) (later : history.committed ≤ sequence)
      (step : sequence ≤ history.committed + 1) (known : sequence ≤ history.last) :
      Advance edgeID history [] (history.commit sequence)

variable {edgeID : Bytes} {host : Host} {history : History} {config : Config}

structure Advanced (edgeID : Bytes) (host : Host) (history : History) (after : Host) : Prop where
  advance : ∃ records next, after.returned = host.returned ++ records ∧
    Advance edgeID history records next ∧ Holds edgeID after next
  refused : after.refused = host.refused

theorem advanced_stays (holds : Holds edgeID host history) : Advanced edgeID host history host :=
  ⟨⟨[], history, by simp, .stays, holds⟩, rfl⟩

section Closed

variable {store : Store} {disk : Directory} (closed : store.closed = true)

include closed

theorem append_closed (topic : Bytes) (event : Event) (clock : Clock) :
    append topic event clock store disk = ⟨.error .closed, store, disk, []⟩ := by
  simp only [append, getState_bind, Store.prepare, closed, if_true]
  rfl

omit [FloatText] [Ed25519] in
theorem commit_closed (sequence : Nat) :
    commit sequence store disk = ⟨.error .closed, store, disk, []⟩ := by
  simp only [commit, getState_bind, closed, if_true]
  rfl

theorem close_closed (clock : Clock) :
    close clock store disk = ⟨.ok (), store, disk, []⟩ := by
  simp only [close, getState_bind, closed, if_true]
  rfl

end Closed

theorem act_closed {store : Store} (found : host.store = some store)
    (closed : store.closed = true) {action : Action}
    (calls : ∀ generated clock, action ≠ .opening generated clock) :
    host.act config action = host := by
  rcases host with ⟨held, disk, returned, refused⟩
  simp only at found
  subst found
  cases action with
  | opening generated clock => exact absurd rfl (calls generated clock)
  | append topic event clock =>
    simp [Host.act, append_closed closed, Host.finish, Except.toOption]
  | commit sequence => simp [Host.act, commit_closed closed, Host.finish]
  | close clock => simp [Host.act, close_closed closed, Host.finish]

theorem act_idle (config : Config)
    (closed : ∀ store, host.store = some store → store.closed = true) (action : Action) :
    host.act config action = host ∨ ∃ generated clock, action = .opening generated clock := by
  by_cases calls : ∀ generated clock, action ≠ .opening generated clock
  · left
    rcases found : host.store with _ | store
    · cases action with
      | opening generated clock => exact absurd rfl (calls generated clock)
      | append topic event clock => simp [Host.act, found]
      | commit sequence => simp [Host.act, found]
      | close clock => simp [Host.act, found]
    · exact act_closed found (closed store found) calls
  · right
    simpa only [not_forall, not_not] using calls

section

variable (accepted : config.check = .ok ())
include accepted

theorem reopen_advanced
    (edge : trimSpace config.edgeID = edgeID) (stored : Stores edgeID history host.directory)
    (generated : Bytes) (clock : Clock) :
    Advanced edgeID host history (host.reopen config generated clock) := by
  rcases stored with ⟨log, tail, found, rfl, tidy, image⟩
  rcases (load_ensures accepted edge image generated clock).post with
    ⟨result, secret, other, resumes, running⟩
  have opened : (openStore config generated clock host.directory).result = .ok () := result
  have reopened : host.reopen config generated clock = { host with
      store := some (openStore config generated clock host.directory).state
      directory := (openStore config generated clock host.directory).disk } := by
    simp only [Host.reopen, opened]
  rw [reopened]
  exact ⟨⟨[], log.history, by simp, .stays, .inl ⟨_, secret, rfl, other, resumes.history,
    resumes.tidy tidy, running⟩⟩, rfl⟩

theorem act_advanced
    (edge : trimSpace config.edgeID = edgeID) (nonblank : trimSpace edgeID ≠ [])
    (holds : Holds edgeID host history) (action : Action)
    (scannable : ∀ record ∈ (host.act config action).returned, Scannable record) :
    Advanced edgeID host history (host.act config action) := by
  rcases holds with ⟨store, secret, found, log, same, tidy, running⟩ | ⟨closed, stored⟩
  · have serves : Holds edgeID host history :=
      .inl ⟨store, secret, found, log, same, tidy, running⟩
    cases action with
    | opening generated clock =>
      rw [Host.act_busy found running.writing.opened]
      exact advanced_stays serves
    | append topic event clock =>
      rw [Host.act_append found] at scannable ⊢
      have scans : ∀ record, (append topic event clock store host.directory).result =
          .ok record → Scannable record := by
        intro record result
        apply scannable
        simp [Host.finish, result, Except.toOption]
      have post := (append_ensures running nonblank scans).post
      refine ⟨?_, rfl⟩
      rcases result : (append topic event clock store host.directory).result with failure | record
      · simp only [result] at post
        exact ⟨[], history, rfl, .stays, .inl ⟨_, secret, rfl, log, same, tidy, post⟩⟩
      · simp only [result] at post
        rcases post with ⟨issued, ⟨other, extended, running'⟩, _⟩
        rw [same] at issued extended
        exact ⟨[record], _, rfl, .appends topic event record issued (scans record result),
          .inl ⟨_, secret, rfl, other, extended, other.tidy_of_appended extended
            (same ▸ log.history_known), running'⟩⟩
    | commit sequence =>
      rw [Host.act_commit found]
      have post := (commit_ensures running sequence).post
      refine ⟨?_, rfl⟩
      rcases result : (commit sequence store host.directory).result with failure | done
      · simp only [result] at post
        exact ⟨[], history, rfl, .stays, .inl ⟨_, secret, rfl, log, same, tidy, post⟩⟩
      · simp only [result] at post
        rcases post with ⟨step, known, other, history', tidy', running'⟩
        have committed : log.committed = history.committed := congrArg History.committed same
        have within : log.committed ≤ log.history.last := log.history_known
        rw [committed] at step history' within
        rw [same] at known history' within
        have settled : other.Tidy := tidy'.elim (fun unchanged => unchanged ▸ tidy) id
        exact ⟨[], _, rfl, .commits (max history.committed sequence) (le_max_left _ _)
          (by omega) (by omega), .inl ⟨_, secret, rfl, other, history', settled, running'⟩⟩
    | close clock =>
      rw [Host.act_close found]
      rcases (close_ensures running clock).post with ⟨_, closed, other, closes, image, _⟩
      refine ⟨⟨[], history, rfl, .stays, .inr ⟨?_, other, [], secret, ?_, closes.tidy tidy,
        image⟩⟩, rfl⟩
      · intro store' member
        cases member
        exact closed
      · rw [closes.history, same]
  · have holds : Holds edgeID host history := .inr ⟨closed, stored⟩
    rcases act_idle config closed action with idle | ⟨generated, clock, rfl⟩
    · rw [idle]
      exact advanced_stays holds
    · rw [Host.act_opening closed]
      exact reopen_advanced accepted edge stored generated clock

omit [FloatText] [Ed25519] in
theorem nonblank_of_check :
    trimSpace (trimSpace config.edgeID) ≠ [] := by
  rw [Config.check, ite_error_eq_ok] at accepted
  rw [trimSpace_trimSpace]
  exact accepted.1

theorem run_holds {initial : History} {disk : Directory}
    (stored : Stores (trimSpace config.edgeID) initial disk)
    (property : List Record → History → Prop) (initially : property [] initial)
    (step : ∀ returned history records next, property returned history →
      Advance (trimSpace config.edgeID) history records next →
      property (returned ++ records) next) (actions : List Action)
    (scannable : ∀ record ∈ (Host.run config disk actions).returned, Scannable record) :
    (∃ history, property (Host.run config disk actions).returned history ∧
      Holds (trimSpace config.edgeID) (Host.run config disk actions) history) ∧
      (Host.run config disk actions).refused = false := by
  induction actions using reverseRecOn with
  | nil => exact ⟨⟨initial, initially, .inr ⟨by simp [Host.run, Host.start], stored⟩⟩, rfl⟩
  | append_singleton actions action induction =>
    rw [Host.run_concat] at scannable ⊢
    have earlier := Host.returned_prefix_act config (Host.run config disk actions) action
    rcases induction (fun record member => scannable record (earlier.subset member)) with
      ⟨⟨history, holds, held⟩, accepts⟩
    rcases act_advanced accepted rfl (nonblank_of_check accepted) held action scannable with
      ⟨⟨records, next, returned, advance, held'⟩, refused⟩
    refine ⟨⟨next, ?_, held'⟩, refused.trans accepts⟩
    rw [returned]
    exact step _ _ _ _ holds advance

end

structure Replays (returned : List Record) (history : History) : Prop where
  base : history.base = 0
  records : history.records = returned.map Record.reread
  sequences : returned.map Record.edgeSequence = List.range' 1 returned.length
  unchanged : ∀ record ∈ returned, record.reread = { record with event := record.event.reread } ∧
    record.reread.marshal = record.marshal

omit [Ed25519] in
theorem Replays.advance {returned records : List Record} {next : History}
    (replays : Replays returned history) (advance : Advance edgeID history records next) :
    Replays (returned ++ records) next := by
  cases advance with
  | stays =>
    rw [append_nil]
    exact replays
  | appends topic event record issued scannable =>
    have last : history.last = returned.length := by
      rw [History.last, replays.base, replays.records, length_map, Nat.zero_add]
    have readable := scannable.readable
    refine ⟨replays.base, by simp [History.append, replays.records], ?_, ?_⟩
    · simp [replays.sequences, issued.next, last, range'_concat, Nat.add_comm]
    · rw [forall_mem_append]
      refine ⟨replays.unchanged, ?_⟩
      intro other member
      rw [mem_singleton] at member
      subst member
      refine ⟨issued.appended.reread_eq readable.edgeID readable.topic, ?_⟩
      rw [(issued.appended.reread readable).marshal, issued.appended.marshal]
  | commits sequence later step known =>
    rw [append_nil]
    exact ⟨replays.base, replays.records, replays.sequences, replays.unchanged⟩

theorem run_replays (accepted : config.check = .ok ()) (actions : List Action)
    (scannable : ∀ record ∈ (Host.run config .empty actions).returned, Scannable record) :
    (∃ history, Replays (Host.run config .empty actions).returned history ∧
      Holds (trimSpace config.edgeID) (Host.run config .empty actions) history) ∧
      (Host.run config .empty actions).refused = false :=
  run_holds accepted (stores_empty _) Replays ⟨rfl, rfl, rfl, by simp⟩
    (fun _ _ _ _ replays advance => replays.advance advance) actions scannable

omit [FloatText] [Ed25519] in
theorem above_reread (committed : Nat) (records : List Record) :
    above committed (records.map Record.reread) = (above committed records).map Record.reread :=
  filter_map ..

namespace Sample

omit [FloatText] [Ed25519]

def twice : List Action :=
  [.opening [1] clock, .append (ascii "t") event clock, .append (ascii "t") event clock, .commit 1]

theorem twice_returned : (Sample.host Sample.config twice).returned.length = 2 ∧
    ∀ record ∈ (Sample.host Sample.config twice).returned, @Scannable floatText record ∧
      ((@Record.digestedTexts floatText record).dedup.map Sha256.sum256).Nodup ∧
      record.event = event := by
  decide +kernel

end Sample

end TelemetryForge.Wal
