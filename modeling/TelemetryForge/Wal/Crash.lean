import TelemetryForge.Wal.Run

/-! # Crashes

A process may die between any two writes of a call. What it had not synced is cut, and the next
one opens the directory that is left. -/

namespace TelemetryForge.Wal

open Json Program

variable [FloatText] [Ed25519]

/-- A call that returns, or one during which the process dies after `point` writes, when
`kept name` bytes of what was not yet synced of a file survive. -/
inductive Step
  | does (action : Action)
  | crashes (action : Action) (point : Nat) (kept : Bytes → Nat)

inductive Note
  | appended (record : Record)
  | appending (record : Record)
  | committed (sequence : Nat)
  | committing (sequence : Nat)

namespace Host

def passes (config : Config) (host : Host) : Action → List Directory
  | .opening generated clock =>
    match host.store with
    | none => (openStore config generated clock host.directory).writes
    | some store =>
      if store.closed then (openStore config generated clock host.directory).writes else []
  | .append topic event clock =>
    match host.store with
    | none => []
    | some store => (Wal.append topic event clock store host.directory).writes
  | .commit sequence =>
    match host.store with
    | none => []
    | some store => (Wal.commit sequence store host.directory).writes
  | .close clock =>
    match host.store with
    | none => []
    | some store => (Wal.close clock store host.directory).writes

def told (host : Host) : Action → List Note
  | .append topic event clock =>
    match host.store with
    | none => []
    | some store =>
      match (Wal.append topic event clock store host.directory).result with
      | .ok record => [.appended record]
      | .error _ => []
  | .commit sequence =>
    match host.store with
    | none => []
    | some store =>
      match (Wal.commit sequence store host.directory).result with
      | .ok () => [.committed sequence]
      | .error _ => []
  | _ => []

def inFlight (host : Host) : Action → List Note
  | .append topic event clock =>
    match host.store with
    | none => []
    | some store =>
      match (Wal.append topic event clock store host.directory).result with
      | .ok record => [.appending record]
      | .error _ => []
  | .commit sequence => [.committing sequence]
  | _ => []

def wreck (config : Config) (host : Host) (action : Action) (point : Nat) (kept : Bytes → Nat) :
    Directory :=
  (((host.directory :: host.passes config action)[point]?).getD host.directory).crash kept

end Host

structure Machine where
  host : Host
  notes : List Note

namespace Machine

def step (config : Config) (machine : Machine) : Step → Machine
  | .does action =>
    ⟨machine.host.act config action, machine.notes ++ machine.host.told action⟩
  | .crashes action point kept =>
    ⟨{ machine.host with
        store := none
        directory := machine.host.wreck config action point kept },
      machine.notes ++ machine.host.inFlight action⟩

def run (config : Config) (steps : List Step) : Machine :=
  steps.foldl (step config) ⟨.start .empty, []⟩

theorem run_concat (config : Config) (steps : List Step) (last : Step) :
    run config (steps ++ [last]) = (run config steps).step config last := by
  simp [run]

def Spared (config : Config) (machine : Machine) : Step → Prop
  | .does _ => True
  | .crashes action point kept => Headed (machine.host.wreck config action point kept)

end Machine

inductive Explains : List Note → List Record → Nat → Prop
  | start : Explains [] [] 0
  | appended {notes records committed} (record : Record) :
      Explains notes records committed →
      Explains (notes ++ [.appended record]) (records ++ [record]) committed
  | lost {notes records committed} (record : Record) :
      Explains notes records committed →
      Explains (notes ++ [.appending record]) records committed
  | kept {notes records committed} (record : Record) :
      Explains notes records committed →
      Explains (notes ++ [.appending record]) (records ++ [record]) committed
  | committed {notes records committed} (sequence : Nat) :
      Explains notes records committed →
      Explains (notes ++ [.committed sequence]) records (max committed sequence)
  | undone {notes records committed} (sequence : Nat) :
      Explains notes records committed →
      Explains (notes ++ [.committing sequence]) records committed
  | done {notes records committed} :
      Explains notes records committed → committed + 1 ≤ records.length →
      Explains (notes ++ [.committing (committed + 1)]) records (committed + 1)

def Keeps (edgeID : Bytes) (host : Host) (history : History) : Prop :=
  (∃ store secret, host.store = some store ∧ ∃ log : Log edgeID, log.history = history ∧
    Running log secret store host.directory) ∨
  (∀ store, host.store = some store → store.closed = true) ∧
    ∃ (log : Log edgeID) (tail secret : Bytes), log.history = history ∧
      Image log tail secret host.directory

omit [Ed25519] in
structure Chronicle (notes : List Note) (history : History) (records : List Record) : Prop where
  explains : Explains notes records history.committed
  base : history.base = 0
  scanned : history.records = records.map Record.reread
  unchanged : ∀ record ∈ records, record.reread = { record with event := record.event.reread } ∧
    record.reread.marshal = record.marshal

variable {edgeID : Bytes} {host : Host} {history : History} {config : Config} {notes : List Note}
  {records : List Record}

section

variable (chronicle : Chronicle notes history records)
include chronicle

section

omit [Ed25519]

theorem Chronicle.last : history.last = records.length := by
  rw [History.last, chronicle.base, chronicle.scanned, List.length_map, Nat.zero_add]

theorem Chronicle.append {topic : Bytes}
    {event : Event} {record : Record} (issued : Issued edgeID history topic event record)
    (scannable : Scannable record) {notes' : List Note}
    (explains : Explains notes' (records ++ [record]) history.committed) :
    Chronicle notes' (history.append record.reread) (records ++ [record]) where
  explains := explains
  base := chronicle.base
  scanned := by simp [History.append, chronicle.scanned]
  unchanged := by
    rw [List.forall_mem_append, List.forall_mem_singleton]
    have readable := scannable.readable
    refine ⟨chronicle.unchanged, issued.appended.reread_eq readable.edgeID readable.topic, ?_⟩
    rw [(issued.appended.reread readable).marshal, issued.appended.marshal]

theorem Chronicle.commit {sequence : Nat}
    {notes' : List Note} (explains : Explains notes' records sequence) :
    Chronicle notes' (history.commit sequence) records :=
  ⟨explains, chronicle.base, chronicle.scanned, chronicle.unchanged⟩

theorem Chronicle.stays : Chronicle (notes ++ []) history records := by
  rw [List.append_nil]
  exact chronicle

end

end

theorem told_idle (closed : ∀ store, host.store = some store → store.closed = true)
    (action : Action) : host.told action = [] := by
  cases action with
  | opening generated clock => rfl
  | append topic event clock =>
    rw [Host.told]
    split
    · rfl
    · rename_i store found
      simp only [append_closed (closed store found)]
  | commit sequence =>
    rw [Host.told]
    split
    · rfl
    · rename_i store found
      simp only [commit_closed (closed store found)]
  | close clock => rfl

section

variable (accepted : config.check = .ok ()) (edge : trimSpace config.edgeID = edgeID)

include accepted edge

theorem openStore_keeps {log : Log edgeID} {tail secret : Bytes} {directory : Directory}
    (image : Image log tail secret directory) (generated : Bytes) (clock : Clock) :
    (openStore config generated clock directory).result = .ok () ∧
      ∃ (other : Log edgeID) (secret : Bytes), other.history = log.history ∧
        Running other secret (openStore config generated clock directory).state
          (openStore config generated clock directory).disk := by
  rcases (load_ensures accepted edge image generated clock).post with
    ⟨result, secret, other, resumes, running⟩
  exact ⟨result, other, secret, resumes.history, running⟩

theorem act_keeps (nonblank : trimSpace edgeID ≠ []) (keeps : Keeps edgeID host history)
    (chronicle : Chronicle notes history records) (action : Action)
    (scannable : ∀ record, .appended record ∈ host.told action → Scannable record) :
    (∃ history' records', Chronicle (notes ++ host.told action) history' records' ∧
      Keeps edgeID (host.act config action) history') ∧
      (host.act config action).refused = host.refused := by
  rcases keeps with ⟨store, secret, found, log, rfl, running⟩ | ⟨closed, log, tail, secret, rfl, image⟩
  · cases action with
    | opening generated clock =>
      rw [Host.act_busy found running.writing.opened]
      exact ⟨⟨log.history, records, chronicle.stays, .inl ⟨store, secret, found, log, rfl, running⟩⟩,
        rfl⟩
    | append topic event clock =>
      rw [Host.act_append found]
      simp only [Host.told, found] at scannable ⊢
      refine ⟨?_, rfl⟩
      have scans : ∀ record, (append topic event clock store host.directory).result =
          .ok record → Scannable record := by
        intro record result
        apply scannable
        simp [result]
      have post := (append_ensures running nonblank scans).post
      rcases result : (append topic event clock store host.directory).result with failure | record
      · simp only [result] at post
        exact ⟨_, _, chronicle.stays, .inl ⟨_, secret, rfl, log, rfl, post⟩⟩
      · simp only [result] at post
        rcases post with ⟨issued, ⟨other, extended, running'⟩, _⟩
        exact ⟨_, _, chronicle.append issued (scans record result)
          (.appended record chronicle.explains), .inl ⟨_, secret, rfl, other, extended, running'⟩⟩
    | commit sequence =>
      rw [Host.act_commit found]
      simp only [Host.told, found]
      refine ⟨?_, rfl⟩
      have post := (commit_ensures running sequence).post
      rcases result : (commit sequence store host.directory).result with failure | done
      · simp only [result] at post
        exact ⟨_, _, chronicle.stays, .inl ⟨_, secret, rfl, log, rfl, post⟩⟩
      · simp only [result] at post
        rcases post with ⟨_, _, other, committed, _, running'⟩
        exact ⟨_, _, chronicle.commit (.committed sequence chronicle.explains),
          .inl ⟨_, secret, rfl, other, committed, running'⟩⟩
    | close clock =>
      rw [Host.act_close found]
      rcases (close_ensures running clock).post with ⟨_, closed, other, closes, image, _⟩
      refine ⟨⟨_, _, chronicle.stays, .inr ⟨?_, other, [], secret, closes.history, image⟩⟩, rfl⟩
      intro store' member
      cases member
      exact closed
  · rcases act_idle config closed action with idle | ⟨generated, clock, rfl⟩
    · rw [idle]
      rw [told_idle closed action]
      exact ⟨⟨_, _, chronicle.stays, .inr ⟨closed, log, tail, secret, rfl, image⟩⟩, rfl⟩
    · rw [Host.act_opening closed]
      rcases openStore_keeps accepted edge image generated clock with
        ⟨result, other, secret', same, running⟩
      simp only [Host.reopen, result]
      exact ⟨⟨_, _, chronicle.stays, .inl ⟨_, secret', rfl, other, same, running⟩⟩, trivial⟩

omit edge accepted in
theorem Chronicle.interrupted (chronicle : Chronicle notes history records) (action : Action) :
    Chronicle (notes ++ host.inFlight action) history records := by
  refine ⟨?_, chronicle.base, chronicle.scanned, chronicle.unchanged⟩
  have stays : Explains (notes ++ []) records history.committed := by
    rw [List.append_nil]
    exact chronicle.explains
  cases action with
  | opening generated clock => exact stays
  | append topic event clock =>
    rw [Host.inFlight]
    split
    · exact stays
    · split
      · exact .lost _ chronicle.explains
      · exact stays
  | commit sequence => exact .undone sequence chronicle.explains
  | close clock => exact stays

omit edge accepted in
theorem passes_closed (closed : ∀ store, host.store = some store → store.closed = true)
    {action : Action} (calls : ∀ generated clock, action ≠ .opening generated clock)
    {disk : Directory} : disk ∉ host.passes config action := by
  cases action with
  | opening generated clock => exact absurd rfl (calls generated clock)
  | append topic event clock | commit sequence | close clock =>
    rcases found : host.store with _ | store
    · simp [Host.passes, found]
    · simp [Host.passes, found, append_closed, commit_closed, close_closed, closed store found]

theorem pass_keeps (nonblank : trimSpace edgeID ≠ []) (keeps : Keeps edgeID host history)
    (chronicle : Chronicle notes history records) (action : Action)
    (scannable : ∀ record, .appending record ∈ host.inFlight action → Scannable record)
    {disk : Directory} (passed : disk ∈ host.passes config action) :
    Survives (fun log : Log edgeID => ∃ records',
      Chronicle (notes ++ host.inFlight action) log.history records') disk := by
  have unchanged {directory : Directory} (survives : Survives (fun log : Log edgeID =>
      log.history = history) directory) : Survives (fun log : Log edgeID => ∃ records',
        Chronicle (notes ++ host.inFlight action) log.history records') directory := by
    intro kept headed
    rcases survives kept headed with ⟨log, tail, secret, image, same⟩
    exact ⟨log, tail, secret, image, records, same ▸ chronicle.interrupted action⟩
  rcases keeps with ⟨store, secret, found, log, rfl, running⟩ | ⟨closed, log, tail, secret, rfl, image⟩
  · cases action with
    | opening generated clock =>
      simp [Host.passes, found, running.writing.opened] at passed
    | append topic event clock =>
      simp only [Host.passes, found] at passed
      have scans : ∀ record, (append topic event clock store host.directory).result =
          .ok record → Scannable record := by
        intro record result
        apply scannable
        simp [Host.inFlight, found, result]
      have ensures := append_ensures running nonblank scans
      intro kept headed
      rcases ensures.along disk passed kept headed with ⟨other, tail, secret', image, allowed⟩
      refine ⟨other, tail, secret', image, ?_⟩
      rcases allowed with same | ⟨record, result, extended⟩
      · exact ⟨records, same ▸ chronicle.interrupted _⟩
      · have post := ensures.post
        simp only [result] at post
        refine ⟨records ++ [record], ?_⟩
        rw [extended]
        refine chronicle.append post.1 (scans record result) ?_
        simp only [Host.inFlight, found, result]
        exact .kept record chronicle.explains
    | commit sequence =>
      simp only [Host.passes, found] at passed
      intro kept headed
      rcases (commit_ensures running sequence).along disk passed kept headed with
        ⟨other, tail, secret', image, allowed⟩
      refine ⟨other, tail, secret', image, records, ?_⟩
      rcases allowed with same | ⟨next, known, committed⟩
      · exact same ▸ chronicle.interrupted _
      · rw [committed]
        apply chronicle.commit
        rw [chronicle.last] at known
        subst next
        exact .done chronicle.explains known
    | close clock =>
      simp only [Host.passes, found] at passed
      exact unchanged ((close_ensures running clock).along disk passed)
  · cases action with
    | opening generated clock =>
      have opens : disk ∈ (openStore config generated clock host.directory).writes := by
        rcases found : host.store with _ | store
        · simpa [Host.passes, found] using passed
        · simpa [Host.passes, found, closed store found] using passed
      exact unchanged ((load_ensures accepted edge image generated clock).along disk opens)
    | append topic event clock => exact absurd passed (passes_closed closed (by simp))
    | commit sequence => exact absurd passed (passes_closed closed (by simp))
    | close clock => exact absurd passed (passes_closed closed (by simp))

theorem wreck_keeps (nonblank : trimSpace edgeID ≠ []) (keeps : Keeps edgeID host history)
    (chronicle : Chronicle notes history records) (action : Action) (point : Nat)
    (kept : Bytes → Nat)
    (scannable : ∀ record, .appending record ∈ host.inFlight action → Scannable record)
    (headed : Headed (host.wreck config action point kept)) :
    ∃ (log : Log edgeID) (tail secret : Bytes) (records' : List Record),
      Image log tail secret (host.wreck config action point kept) ∧
      Chronicle (notes ++ host.inFlight action) log.history records' := by
  have before : ∃ (log : Log edgeID) (tail secret : Bytes), log.history = history ∧
      Image log tail secret host.directory := by
    rcases keeps with ⟨store, secret, _, log, same, running⟩ | ⟨_, stored⟩
    · exact ⟨log, [], secret, same, running.image⟩
    · exact stored
  have whole : (host.directory.crash kept) = host.directory ∧ ∃ (log : Log edgeID)
      (tail secret : Bytes) (records' : List Record), Image log tail secret host.directory ∧
        Chronicle (notes ++ host.inFlight action) log.history records' := by
    rcases before with ⟨log, tail, secret, rfl, image⟩
    exact ⟨crash_of_settled image.settled kept, log, tail, secret, records, image,
      chronicle.interrupted action⟩
  rcases found : (host.directory :: host.passes config action)[point]? with _ | disk
  · have spot : host.wreck config action point kept = host.directory.crash kept := by
      rw [Host.wreck, found, Option.getD_none]
    rw [spot, whole.1]
    exact whole.2
  · have spot : host.wreck config action point kept = disk.crash kept := by
      rw [Host.wreck, found, Option.getD_some]
    rw [spot] at headed ⊢
    rcases List.mem_cons.mp (List.mem_of_getElem? found) with rfl | passed
    · rw [whole.1]
      exact whole.2
    · rcases pass_keeps accepted edge nonblank keeps chronicle action scannable passed kept
        headed with ⟨log, tail, secret, image, records', chronicle'⟩
      exact ⟨log, tail, secret, records', image, chronicle'⟩

end

structure Recovers (edgeID : Bytes) (machine : Machine) : Prop where
  holds : ∃ history records, Chronicle machine.notes history records ∧
    Keeps edgeID machine.host history
  accepts : machine.host.refused = false

def Machine.Writes (machine : Machine) (record : Record) : Prop :=
  .appended record ∈ machine.notes ∨ .appending record ∈ machine.notes

theorem step_recovers {machine : Machine} (accepted : config.check = .ok ())
    (recovers : Recovers (trimSpace config.edgeID) machine) (step : Step)
    (spared : machine.Spared config step)
    (scannable : ∀ record, (machine.step config step).Writes record → Scannable record) :
    Recovers (trimSpace config.edgeID) (machine.step config step) := by
  have nonblank := nonblank_of_check accepted
  rcases recovers with ⟨⟨history, records, chronicle, keeps⟩, accepts⟩
  cases step with
  | does action =>
    rcases act_keeps accepted rfl nonblank keeps chronicle action (fun record told =>
      scannable record (.inl (List.mem_append_right _ told))) with ⟨holds, refused⟩
    exact ⟨by
      rcases holds with ⟨history', records', chronicle', keeps'⟩
      exact ⟨history', records', chronicle', keeps'⟩, refused.trans accepts⟩
  | crashes action point kept =>
    rcases wreck_keeps accepted rfl nonblank keeps chronicle action point kept
      (fun record flying => scannable record (.inr (List.mem_append_right _ flying))) spared with
      ⟨log, tail, secret, records', image, chronicle'⟩
    exact ⟨⟨log.history, records', chronicle', .inr ⟨by simp [Machine.step], log, tail, secret, rfl,
      image⟩⟩, accepts⟩

theorem run_recovers (accepted : config.check = .ok ()) (steps : List Step)
    (spared : ∀ before step after, steps = before ++ step :: after →
      (Machine.run config before).Spared config step)
    (scannable : ∀ record, (Machine.run config steps).Writes record → Scannable record) :
    Recovers (trimSpace config.edgeID) (Machine.run config steps) := by
  induction steps using List.reverseRecOn with
  | nil =>
    refine ⟨⟨⟨0, [], 0, .empty⟩, [], ⟨.start, rfl, rfl, by simp⟩, .inr ⟨by simp [Machine.run,
      Host.start], .initial, [], [], rfl, image_empty []⟩⟩, rfl⟩
  | append_singleton steps step induction =>
    rw [Machine.run_concat] at scannable ⊢
    have earlier : ∀ record, (Machine.run config steps).Writes record →
        ((Machine.run config steps).step config step).Writes record := by
      intro record writes
      cases step with
      | does action =>
        exact writes.imp (List.mem_append_left _) (List.mem_append_left _)
      | crashes action point kept =>
        exact writes.imp (List.mem_append_left _) (List.mem_append_left _)
    have recovers := induction (fun before other after split => spared before other
      (after ++ [step]) (by simp [split])) (fun record writes => scannable record
        (earlier record writes))
    exact step_recovers accepted recovers step (spared steps step [] rfl) scannable

namespace Sample

omit [FloatText] [Ed25519]

def torn : List Step :=
  [.does (.opening [1] clock), .crashes (.append (ascii "t") event clock) 1 fun _ => 3]

def machine (steps : List Step) : Machine := @Machine.run floatText signatures Sample.config steps

def scans : Note → Bool
  | .appended record => @decide (@Scannable floatText record) _
  | .appending record => @decide (@Scannable floatText record) _
  | _ => true

theorem scannable_of_scans {steps : List Step} (all : (machine steps).notes.all scans = true)
    {record : Record} (writes : (machine steps).Writes record) : @Scannable floatText record := by
  rw [List.all_eq_true] at all
  rcases writes with told | flying
  · exact of_decide_eq_true (all _ told)
  · exact of_decide_eq_true (all _ flying)

theorem torn_facts : (machine torn).notes.length = 1 ∧ (machine torn).notes.all scans = true ∧
    (machine torn).host.store.isNone = true ∧
    ∀ entry ∈ (machine torn).host.directory.segments.entries,
      segmentHeaderBytes ≤ entry.2.content.length := by
  decide +kernel

end Sample

end TelemetryForge.Wal
