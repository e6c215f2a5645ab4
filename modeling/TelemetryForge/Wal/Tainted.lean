import TelemetryForge.Wal.Spoiled

/-! # Runs with records that cannot be read back

Without a condition on the records, a host serves its log or is tainted: it has returned a
record that no scan will find, and its directory has a spoiled segment. -/

namespace TelemetryForge.Wal

open Json Program List

variable [FloatText] [Ed25519]

/-- A host with a spoiled segment, whose store has these counters if it is open. -/
structure Tainted (name : Bytes) (sources : SortedMap Bytes Nat) (host : Host) : Prop where
  spoiled : SpoiledAt name host.directory
  stuck : ∀ store, host.store = some store → store.closed = false →
    Stuck name store host.directory ∧ store.sourceSequence = sources

inductive Continues (sources : SortedMap Bytes Nat) : List Record → SortedMap Bytes Nat → Prop
  | nothing : Continues sources [] sources
  | record (record : Record)
      (next : record.sourceSequence = sources.getD (sourceKey record.event) 0 + 1) :
      Continues sources [record] (sources.insert (sourceKey record.event) record.sourceSequence)

variable {name : Bytes} {sources : SortedMap Bytes Nat} {host : Host} {config : Config}
  {edgeID : Bytes} {history : History}

theorem act_tainted (tainted : Tainted name sources host) (action : Action) :
    ∃ records sources', (host.act config action).returned = host.returned ++ records ∧
      Continues sources records sources' ∧ Tainted name sources' (host.act config action) := by
  have unchanged : ∃ records sources', host.returned = host.returned ++ records ∧
      Continues sources records sources' ∧ Tainted name sources' host :=
    ⟨[], sources, by simp, .nothing, tainted⟩
  have reopened (generated : Bytes) (clock : Clock) : ∃ records sources',
      (host.reopen config generated clock).returned = host.returned ++ records ∧
      Continues sources records sources' ∧
      Tainted name sources' (host.reopen config generated clock) := by
    rcases openStore_spoiled tainted.spoiled config generated clock with ⟨kept, failure, result⟩
    simp only [Host.reopen, result]
    exact ⟨[], sources, by simp, .nothing, kept, by simp⟩
  by_cases closed : ∀ store, host.store = some store → store.closed = true
  · rcases act_idle config closed action with idle | ⟨generated, clock, rfl⟩
    · rw [idle]
      exact unchanged
    · rw [Host.act_opening closed]
      exact reopened generated clock
  simp only [not_forall, Bool.not_eq_true] at closed
  rcases closed with ⟨store, found, opened⟩
  rcases tainted.stuck store found opened with ⟨stuck, same⟩
  cases action with
  | opening generated clock => simpa [Host.act, found, opened] using unchanged
  | append topic event clock =>
    simp only [Host.act, found]
    have post := (append_stuck stuck topic event clock).post
    rcases result : (append topic event clock store host.directory).result with failure | record
    · rw [result] at post
      refine ⟨[], sources, rfl, .nothing, post.1.spoiled, ?_⟩
      rintro store' ⟨⟩ _
      exact ⟨post.1, post.2.trans same⟩
    · rw [result] at post
      have counted := post.2.2
      refine ⟨[record], _, rfl, .record record (by rw [counted.source, same]), post.1.spoiled, ?_⟩
      rintro store' ⟨⟩ _
      exact ⟨post.1, by rw [counted.noted, same]⟩
  | commit sequence =>
    simp only [Host.act, found]
    have post := (commit_stuck stuck sequence).post
    refine ⟨[], sources, rfl, .nothing, post.1.spoiled, ?_⟩
    rintro store' ⟨⟩ _
    exact ⟨post.1, post.2.1.trans same⟩
  | close clock =>
    simp only [Host.act, found]
    have post := (close_stuck stuck clock).post
    refine ⟨[], sources, rfl, .nothing, post.2, ?_⟩
    rintro store' ⟨⟩ stillOpen
    rw [post.1] at stillOpen
    cases stillOpen

section

omit [Ed25519]

structure Found (record : Record) : Prop where
  readable : record.Readable
  fits : record.encoded.length ≤ maxFrameBytes

instance (record : Record) : Decidable (Found record) :=
  decidable_of_iff (record.Readable ∧ record.encoded.length ≤ maxFrameBytes)
    ⟨fun ⟨readable, fits⟩ => ⟨readable, fits⟩, fun found => ⟨found.readable, found.fits⟩⟩

theorem Found.scannable {record : Record} (found : Found record)
    (next : record.edgeSequence + 1 < 2 ^ 64) : Scannable record :=
  ⟨found.readable, found.fits, next⟩

end

variable {log : Log edgeID} {disk : Directory}

theorem append_spoils {secret : Bytes} {store : Store}
    (running : Running log secret store disk) (nonblank : trimSpace edgeID ≠ [])
    {topic : Bytes} {event : Event} {clock : Clock} {record : Record}
    (returned : (append topic event clock store disk).result = .ok record)
    (free : CollisionFree record.digested) (lost : ¬Found record) :
    ∃ name, Stuck name (append topic event clock store disk).state
        (append topic event clock store disk).disk ∧
      (append topic event clock store disk).state.current = some name ∧
      Counted store record (append topic event clock store disk).state := by
  rcases append_cases topic event clock running with
    ⟨failure, _, outcome⟩ | ⟨_, _, _, _, outcome⟩ |
    ⟨other, store', disk', written, payload, writes, prepared, has, running', _, outcome⟩
  · rw [outcome] at returned
    cases returned
  · rw [outcome] at returned
    cases returned
  obtain rfl : written = record := by
    rw [outcome, writeRecord_result running'] at returned
    exact Except.ok.inj returned
  rcases running'.writing.active with ⟨segment, active, current, _⟩
  have ends := (@writeRecord_current segment.name store' disk' current written payload).post
  have file := running'.image.find_active active
  rw [append_nil] at file
  rcases (prepare_ok prepared).appended running.held nonblank with
    ⟨appended, _, ⟨_, sameEvent⟩, _, source, _⟩
  have spoiled : Spoiled (segment.bytes ++ FrameLog.frame payload) := by
    apply segment.spoiled appended free
    rintro ⟨readable, fits⟩
    exact lost ⟨readable, by rwa [encoded_eq appended.marshal]⟩
  have sources : store'.sourceSequence = store.sourceSequence := by
    rw [running'.held.sources, running.held.sources]
    exact congrArg History.sources has
  have spoils : SpoiledAt segment.name (disk'.changeFile segment.name
      (File.sync ∘ File.append (FrameLog.frame payload))) := by
    refine ⟨⟨segment.bytes ++ FrameLog.frame payload, []⟩, ?_, by simpa [File.content] using spoiled⟩
    simp [Directory.changeFile, file, File.append, File.sync, File.content]
  rw [outcome]
  simp only [ends.2.1, ends.2.2]
  refine ⟨segment.name, ⟨spoils, ?_, .inl current⟩, current, ?_, ?_⟩
  · have last : store'.segments.getLast? = some (segment.summary false) := by
      rw [running'.held.segments, Log.summaries, active]
      simp
    rw [noteAppended_last last]
    exact ⟨_, getLast?_concat, rfl, Nat.succ_ne_zero _, rfl⟩
  · rw [source, running.held.sources, sameEvent]
  · simp [Store.noteAppended, sources]

section

omit [FloatText] [Ed25519]

def ofSource (key : Bytes) (records : List Record) : List Record :=
  records.filter fun record => sourceKey record.event = key

def Counts (returned : List Record) (sources : SortedMap Bytes Nat) : Prop :=
  ∀ key, (ofSource key returned).map Record.sourceSequence = List.range' 1 (sources.getD key 0)

theorem Counts.continues {returned records : List Record} {sources' : SortedMap Bytes Nat}
    (counts : Counts returned sources) (continues : Continues sources records sources') :
    Counts (returned ++ records) sources' := by
  cases continues with
  | nothing =>
    rw [append_nil]
    exact counts
  | record record next =>
    intro key
    have before := counts key
    simp only [ofSource, filter_append, map_append, SortedMap.getD,
      SortedMap.find?_insert] at before ⊢
    rw [before]
    by_cases same : key = sourceKey record.event
    · subst same
      simp [next, SortedMap.getD, range'_concat]
      omega
    · simp [same, Ne.symm same]

end

omit [Ed25519] in
theorem Advance.continues {records : List Record} {next : History}
    (advance : Advance edgeID history records next) :
    Continues history.sources records next.sources := by
  cases advance with
  | stays => exact .nothing
  | appends topic event record issued scannable =>
    have readable := scannable.readable
    have unchanged := issued.appended.reread_eq readable.edgeID readable.topic
    have sources : (history.append record.reread).sources =
        history.sources.insert (sourceKey record.event) record.sourceSequence := by
      rw [History.append, unchanged]
      simp only [sourceKey_reread readable.event]
    rw [sources]
    exact .record record (by rw [issued.source, issued.about.2])
  | commits sequence later step known => exact .nothing

def Sound (edgeID : Bytes) (host : Host) : Prop :=
  (∃ history, Holds edgeID host history ∧ Replays host.returned history ∧
    Counts host.returned history.sources ∧ ∀ record ∈ host.returned, Found record) ∨
  ∃ name sources, Tainted name sources host ∧ Counts host.returned sources ∧
    ∃ record ∈ host.returned, ¬Found record

theorem act_returned (config : Config) (host : Host) (action : Action) :
    (host.act config action).returned = host.returned ∨
      ∃ store topic event clock record, host.store = some store ∧
        action = .append topic event clock ∧
        (append topic event clock store host.directory).result = .ok record ∧
        host.act config action =
          host.finish (append topic event clock store host.directory) [record] := by
  have reopened (generated : Bytes) (clock : Clock) :
      (host.reopen config generated clock).returned = host.returned := by
    rw [Host.reopen]
    split <;> rfl
  rcases found : host.store with _ | store
  · left
    cases action with
    | opening generated clock => simp [Host.act, found, reopened]
    | append topic event clock => simp [Host.act, found]
    | commit sequence => simp [Host.act, found]
    | close clock => simp [Host.act, found]
  cases action with
  | opening generated clock =>
    left
    simp only [Host.act, found]
    split <;> simp [reopened]
  | append topic event clock =>
    rcases result : (append topic event clock store host.directory).result with failure | record
    · left
      simp [Host.act, found, result, Host.finish, Except.toOption]
    · right
      refine ⟨store, topic, event, clock, record, rfl, rfl, result, ?_⟩
      simp [Host.act, found, result, Except.toOption]
  | commit sequence =>
    left
    simp [Host.act, found, Host.finish]
  | close clock =>
    left
    simp [Host.act, found, Host.finish]

theorem append_opened {store : Store} {topic : Bytes} {event : Event}
    {clock : Clock} {record : Record}
    (returned : (append topic event clock store disk).result = .ok record) :
    store.closed = false := by
  rw [append, getState_bind] at returned
  rcases prepared : store.prepare topic event clock.accepted with failure | ⟨written, payload⟩
  · rw [prepared] at returned
    cases returned
  · exact (prepare_ok prepared).serving.1

theorem append_next {secret : Bytes} {store : Store}
    (running : Running log secret store disk) {topic : Bytes} {event : Event} {clock : Clock}
    {record : Record} (returned : (append topic event clock store disk).result = .ok record) :
    record.edgeSequence = log.last + 1 := by
  rcases append_cases topic event clock running with
    ⟨failure, _, outcome⟩ | ⟨_, _, _, _, outcome⟩ |
    ⟨other, store', disk', written, payload, writes, prepared, _, running', _, outcome⟩
  · rw [outcome] at returned
    cases returned
  · rw [outcome] at returned
    cases returned
  obtain rfl : written = record := by
    rw [outcome, writeRecord_result running'] at returned
    exact Except.ok.inj returned
  rcases (prepare_ok prepared).built with ⟨hash, _, rfl⟩
  exact running.held.nextSequence

theorem act_sound_of_found (accepted : config.check = .ok ())
    (edge : trimSpace config.edgeID = edgeID) (holds : Holds edgeID host history)
    (replays : Replays host.returned history) (counts : Counts host.returned history.sources)
    (action : Action) (scannable : ∀ record ∈ (host.act config action).returned, Scannable record) :
    Sound edgeID (host.act config action) := by
  have nonblank : trimSpace edgeID ≠ [] := edge ▸ nonblank_of_check accepted
  rcases (act_advanced accepted edge nonblank holds action scannable).advance with
    ⟨records, next, returned, advance, holds'⟩
  refine .inl ⟨next, holds', ?_, ?_, ?_⟩
  · rw [returned]
    exact replays.advance advance
  · rw [returned]
    exact counts.continues advance.continues
  · intro record member
    exact ⟨(scannable record member).readable, (scannable record member).fits⟩

omit [Ed25519] in
theorem Replays.scannable {returned : List Record} (replays : Replays returned history)
    (bound : returned.length + 1 < 2 ^ 64) (found : ∀ record ∈ returned, Found record) :
    ∀ record ∈ returned, Scannable record := by
  intro record member
  refine (found record member).scannable ?_
  have sequence : record.edgeSequence ∈ returned.map Record.edgeSequence :=
    mem_map_of_mem member
  rw [replays.sequences, mem_range'_1] at sequence
  omega

omit [Ed25519] in
theorem Replays.last_eq {returned : List Record}
    (replays : Replays returned log.history) : log.last = returned.length := by
  rw [← log.chained_records.2.1, History.last, replays.base, replays.records, length_map,
    Nat.zero_add]

theorem act_sound (accepted : config.check = .ok ()) (edge : trimSpace config.edgeID = edgeID)
    (sound : Sound edgeID host) (action : Action)
    (free : ∀ record ∈ (host.act config action).returned, CollisionFree record.digested)
    (bound : (host.act config action).returned.length + 1 < 2 ^ 64) :
    Sound edgeID (host.act config action) := by
  have nonblank : trimSpace edgeID ≠ [] := edge ▸ nonblank_of_check accepted
  rcases sound with ⟨history, holds, replays, counts, found⟩ |
    ⟨name, sources, tainted, counts, record, member, lost⟩
  · rcases act_returned config host action with same |
      ⟨store, topic, event, clock, record, present, rfl, result, after⟩
    · apply act_sound_of_found accepted edge holds replays counts
      rw [same] at bound ⊢
      exact replays.scannable bound found
    rcases holds with ⟨other, secret, served, log, rfl, tidy, running⟩ | ⟨closed, _⟩
    · obtain rfl : other = store := by
        rw [present] at served
        exact (Option.some.inj served).symm
      have last := replays.last_eq
      rw [after] at free bound
      simp only [Host.finish, length_append, length_singleton] at bound
      by_cases finds : Found record
      · apply act_sound_of_found accepted edge (.inl ⟨_, _, served, log, rfl, tidy, running⟩) replays
          counts
        rw [after]
        simp only [Host.finish, forall_mem_append, forall_mem_singleton]
        refine ⟨replays.scannable (by omega) found, finds.scannable ?_⟩
        rw [append_next running result, last]
        omega
      · rw [after]
        rcases append_spoils running nonblank result (free record (by simp [Host.finish])) finds with
          ⟨name, stuck, _, counted⟩
        have noted := counted.noted
        have source := counted.source
        rw [running.held.sources] at noted source
        refine .inr ⟨name, _, ⟨stuck.spoiled, ?_⟩, counts.continues (.record record source), record,
          by simp [Host.finish], finds⟩
        rintro store' ⟨⟩ _
        exact ⟨stuck, noted⟩
    · have opened := append_opened result
      rw [closed store present] at opened
      cases opened
  · rcases act_tainted tainted action with ⟨records, sources', returned, continues, tainted'⟩
    refine .inr ⟨name, sources', tainted', ?_, record, ?_, lost⟩
    · rw [returned]
      exact counts.continues continues
    · rw [returned]
      exact mem_append_left _ member

theorem run_sound (accepted : config.check = .ok ()) (actions : List Action)
    (free : ∀ record ∈ (Host.run config .empty actions).returned, CollisionFree record.digested)
    (bound : (Host.run config .empty actions).returned.length + 1 < 2 ^ 64) :
    Sound (trimSpace config.edgeID) (Host.run config .empty actions) := by
  induction actions using reverseRecOn with
  | nil =>
    refine .inl ⟨_, .inr ⟨by simp [Host.run, Host.start], stores_empty _⟩,
      ⟨rfl, rfl, rfl, ?_⟩, ?_, ?_⟩
    · simp [Host.run, Host.start]
    · intro key
      rfl
    · simp [Host.run, Host.start]
  | append_singleton actions action induction =>
    rw [Host.run_concat] at free bound ⊢
    have earlier := Host.returned_prefix_act config (Host.run config .empty actions) action
    have shorter := earlier.length_le
    exact act_sound accepted rfl
      (induction (fun record member => free record (earlier.subset member)) (by omega))
      action free bound

omit [FloatText] [Ed25519] in
theorem sourceKey_eq_iff {event : Event} {tenant source : Bytes}
    (eventPlain : 0x00 ∉ event.tenantID) (plain : 0x00 ∉ tenant) :
    sourceKey event = tenant ++ 0x00 :: source ↔
      event.tenantID = tenant ∧ event.source = source := by
  have upTo {text : Bytes} (rest : Bytes) (absent : 0x00 ∉ text) :
      (text ++ 0x00 :: rest).takeWhile (· != 0x00) = text := by
    rw [takeWhile_append_of_pos]
    · simp
    · intro byte member
      rw [bne_iff_ne]
      rintro rfl
      exact absent member
  rw [sourceKey]
  constructor
  · intro equal
    have tenants := congrArg (takeWhile (· != 0x00)) equal
    rw [upTo _ eventPlain, upTo _ plain] at tenants
    rw [tenants, append_cancel_left_eq, cons.injEq] at equal
    exact ⟨tenants, equal.2⟩
  · rintro ⟨rfl, rfl⟩
    rfl

end TelemetryForge.Wal
