import TelemetryForge.Wal.Ledger

/-! # The space budget

Opening a directory recounts its files and may start a segment, for whose header it does
not check that there is room. With that room, no run exceeds the maximum. -/

namespace TelemetryForge.Wal

open Json Program

variable [FloatText] [Ed25519] {store : Store} {directory : Directory}

section

omit [FloatText] [Ed25519]

structure Shrinks (directory directory' : Directory) : Prop where
  size : directory'.size ≤ directory.size
  count : directory'.sizes.length = directory.sizes.length
  each : ∀ limit, (∀ entry ∈ directory.sizes, entry.2 ≤ limit) →
    ∀ entry ∈ directory'.sizes, entry.2 ≤ limit

theorem Shrinks.of_sizes {directory' : Directory} (same : directory'.sizes = directory.sizes) :
    Shrinks directory directory' :=
  ⟨by rw [Directory.size, same, Directory.size], by rw [same], fun limit => by rw [same]; exact id⟩

theorem Shrinks.trans {middle directory' : Directory} (first : Shrinks directory middle)
    (second : Shrinks middle directory') : Shrinks directory directory' :=
  ⟨second.size.trans first.size, second.count.trans first.count,
    fun limit within => second.each limit (first.each limit within)⟩

theorem shrinks_changeFile {change : File → File}
    (shorter : ∀ file, (change file).content.length ≤ file.content.length) :
    Shrinks directory (directory.changeFile name change) := by
  refine ⟨?_, by simp [Directory.sizes, Directory.changeFile, SortedMap.entries_adjust], ?_⟩
  · simp only [Directory.size, Directory.sizes, Directory.changeFile, SortedMap.entries_adjust,
      List.map_map]
    apply List.sum_le_sum
    intro entry member
    simp only [Function.comp_apply]
    split_ifs
    · exact_mod_cast shorter entry.2
    · exact le_rfl
  · intro limit within entry member
    simp only [Directory.sizes, Directory.changeFile, SortedMap.entries_adjust, List.map_map,
      List.mem_map, Function.comp_apply] at member
    rcases member with ⟨file, listed, rfl⟩
    have before : (file.2.content.length : Int) ≤ limit := within _ (List.mem_map_of_mem listed)
    simp only
    split_ifs
    · have short := shorter file.2
      omega
    · exact before

def put (name : Bytes) (size : Int) (entry : Bytes × Int) : Bytes × Int :=
  (entry.1, if entry.1 = name then size else entry.2)

theorem map_put_of_nodup {before after : List (Bytes × Int)} {old : Int}
    (distinct : ((before ++ (name, old) :: after).map Prod.fst).Nodup) (size : Int) :
    (before ++ (name, old) :: after).map (put name size) = before ++ (name, size) :: after := by
  rw [List.map_append, List.map_cons, List.nodup_append, List.nodup_cons] at distinct
  have absent {entries : List (Bytes × Int)} (others : ∀ entry ∈ entries, entry.1 ≠ name) :
      entries.map (put name size) = entries := by
    conv_rhs => rw [← List.map_id entries]
    apply List.map_congr_left
    intro entry member
    simp [put, others entry member]
  rw [List.map_append, List.map_cons, absent, absent]
  · simp [put]
  · intro entry member same
    exact distinct.2.1.1 (List.mem_map.mpr ⟨entry, member, same⟩)
  · intro entry member
    exact distinct.2.2 entry.1 (List.mem_map_of_mem member) name List.mem_cons_self

theorem sizes_changeFile_put {file : File} (found : directory.segments.find? name = some file)
    (change : File → File) : (directory.changeFile name change).sizes =
      directory.sizes.map (put name (change file).content.length) := by
  simp only [Directory.sizes, Directory.changeFile, SortedMap.entries_adjust, List.map_map]
  apply List.map_congr_left
  intro entry member
  simp only [Function.comp_apply, put, Prod.mk.injEq, true_and]
  split_ifs with same
  · have listed := (directory.segments.find?_eq_some_iff entry.1 entry.2).mpr member
    rw [same, found] at listed
    rw [Option.some.inj listed]
  · rfl

structure Recounts (store : Store) (directory : Directory) (rest : List (Bytes × Int)) : Prop where
  sizes : directory.sizes = store.ledger ++ rest
  total : store.totalBytes = (store.ledger.map Prod.snd).sum

theorem sized_foldl_note (records : List Record) (segment : SegmentMeta) :
    (records.foldl SegmentMeta.note segment).sized = segment.sized := by
  induction records generalizing segment with
  | nil => rfl
  | cons record rest induction => exact induction (segment.note record)

end

theorem recoverSegment_budget {size : Int} {rest : List (Bytes × Int)}
    (recounts : Recounts store directory ((name, size) :: rest)) (seals : List Seal) (last : Bool)
    (previous : Nat) :
    Ensures (recoverSegment seals name last previous) store directory (fun _ => True)
      fun result store' directory' => Shrinks directory directory' ∧
        ∀ reached, result = .ok reached → Recounts store' directory' rest ∧ store' = { store with
            sourceSequence := store'.sourceSequence, lastLineageHash := store'.lastLineageHash
            lastSegmentRoot := store'.lastSegmentRoot, sealedSegments := store'.sealedSegments
            segments := store'.segments, totalBytes := store'.totalBytes } := by
  apply Ensures.bind
  apply (scanSegment_changes name last).imp
  rintro result store' directory' ⟨rfl, change, rfl, shorter, scans⟩
  have shrinks : Shrinks directory (directory.changeFile name change) := shrinks_changeFile shorter
  cases result with
  | error failure => exact ⟨shrinks, fun _ equal => by cases equal⟩
  | ok scanned =>
    rcases scans scanned rfl with ⟨file, found, length⟩
    have sizes : (directory.changeFile name change).sizes =
        (store'.ledger ++ [(name, (scanned.size : Int))]) ++ rest := by
      have distinct := nodup_sizes directory
      rw [recounts.sizes] at distinct
      rw [sizes_changeFile_put found, recounts.sizes, map_put_of_nodup distinct, length]
      simp
    have noted (finalHash : Bytes) (stamp : Option Seal) :
        Recounts (store'.noteSegment name scanned finalHash stamp)
          (directory.changeFile name change) rest := by
      have ledger : (store'.noteSegment name scanned finalHash stamp).ledger =
          store'.ledger ++ [(name, (scanned.size : Int))] := by
        simp only [Store.noteSegment, Store.ledger, List.map_append, List.map_cons, List.map_nil,
          sized_foldl_note]
        rfl
      refine ⟨by rw [ledger]; exact sizes, ?_⟩
      rw [ledger, List.map_append, List.sum_append, ← recounts.total]
      simp [Store.noteSegment]
    apply Ensures.getState
    split
    · exact Ensures.fail ⟨shrinks, fun _ equal => by cases equal⟩
    split
    · exact Ensures.fail ⟨shrinks, fun _ equal => by cases equal⟩
    split
    · exact Ensures.modify_then (Ensures.pure ⟨shrinks, fun _ _ => ⟨noted _ _, rfl⟩⟩)
    split
    · exact Ensures.fail ⟨shrinks, fun _ equal => by cases equal⟩
    · exact Ensures.modify_then (Ensures.pure ⟨shrinks, fun _ _ => ⟨noted _ _, rfl⟩⟩)

theorem recoverSegments_budget (seals : List Seal) {rest : List (Bytes × Int)}
    (recounts : Recounts store directory rest) (previous : Nat) :
    Ensures (recoverSegments seals (rest.map Prod.fst) previous) store directory (fun _ => True)
      fun result store' directory' => Shrinks directory directory' ∧
        ∀ reached, result = .ok reached → Recounts store' directory' [] ∧ store' = { store with
            sourceSequence := store'.sourceSequence, lastLineageHash := store'.lastLineageHash
            lastSegmentRoot := store'.lastSegmentRoot, sealedSegments := store'.sealedSegments
            segments := store'.segments, totalBytes := store'.totalBytes } := by
  induction rest generalizing store directory previous with
  | nil => exact Ensures.pure ⟨.of_sizes rfl, fun _ _ => ⟨recounts, rfl⟩⟩
  | cons entry others induction =>
    apply Ensures.bind
    apply (recoverSegment_budget recounts seals _ previous).imp
    rintro (failure | reached) store' directory' ⟨shrinks, post⟩
    · exact ⟨shrinks, fun _ equal => by cases equal⟩
    · rcases post reached rfl with ⟨recounts', rest'⟩
      apply (induction recounts' reached).imp
      rintro result store'' directory'' ⟨shrinks', post'⟩
      refine ⟨shrinks.trans shrinks', fun again equal => ?_⟩
      rcases post' again equal with ⟨recounts'', rest''⟩
      refine ⟨recounts'', ?_⟩
      rw [rest'', rest']

omit [FloatText] [Ed25519] in
structure Fresh (config : Config) (store : Store) : Prop where
  segmentBytes : store.segmentBytes = config.segmentBytes
  maxBytes : store.maxBytes = config.maximum
  unpressed : store.pressure = false

structure Opens (config : Config) (directory : Directory) (result : Except Failure Unit)
    (store : Store) (directory' : Directory) : Prop where
  grows : Shrinks directory directory' ∨
    directory'.sizes.length = directory.sizes.length + 1 ∧
      directory'.size ≤ directory.size + segmentHeaderBytes
  within : ∀ entry ∈ directory'.sizes, entry.2 ≤ config.segmentBytes
  budgeted : result = .ok () → Budgeted store directory' ∧ Fresh config store

variable {config : Config}

omit [FloatText] [Ed25519] in
theorem Opens.of_sizes {store' : Store} {directory' : Directory} (result : Except Failure Unit)
    (budgeted : Budgeted store' directory') (limits : Fresh config store')
    (sizes : directory'.sizes = directory.sizes) : Opens config directory result store' directory' :=
  ⟨.inl (.of_sizes sizes), limits.segmentBytes ▸ budgeted.within, fun _ => ⟨budgeted, limits⟩⟩

omit [FloatText] [Ed25519] in
theorem createSegment_opens {store' : Store} {directory' : Directory}
    (budgeted : Budgeted store' directory') (limits : Fresh config store')
    (sizes : directory'.sizes = directory.sizes) (sequence : Nat) :
    Ensures (createSegment sequence) store' directory' (fun _ => True)
      fun result store'' directory'' => Opens config directory result store'' directory'' := by
  apply (createSegment_budget budgeted sequence).imp
  rintro (failure | done) store'' directory'' post
  · rcases post with ⟨rfl, rfl⟩
    exact .of_sizes _ budgeted limits sizes
  · rcases post with ⟨created, segment, rfl⟩
    have total := created.totalBytes
    have before := budgeted.totalBytes
    have count := created.files.length_eq
    have countBefore := budgeted.files.length_eq
    simp only [Store.ledger, List.length_map, List.length_append, List.length_singleton]
      at count countBefore
    refine ⟨.inr ⟨by rw [← sizes]; omega, ?_⟩, ?_, fun _ =>
      ⟨created, limits.segmentBytes, limits.maxBytes, limits.unpressed⟩⟩
    · rw [← total, before, Directory.size, Directory.size, sizes]
    · rw [← limits.segmentBytes]
      exact created.within

theorem resume_opens (budgeted : Budgeted store directory) (limits : Fresh config store)
    (clock : Clock) : Ensures (resume clock) store directory (fun _ => True)
      fun result store' directory' => Opens config directory result store' directory' := by
  apply Ensures.getState
  split
  · exact createSegment_opens budgeted limits rfl _
  rename_i last found
  -- The segments before the last are sealed one by one; the last entry does not change.
  have indexed : store.segments[store.segments.length - 1]? = some last := by
    rw [← List.getLast?_eq_getElem?, found]
  apply Ensures.bind
  have step (index : Nat) (inside : index ∈ List.range (store.segments.length - 1)) (state : Store)
      (disk : Directory) (holds : SealsOnly store directory state disk ∧
        state.segments[store.segments.length - 1]? = some last) :
      Ensures (sealPredecessor clock index) state disk (fun _ => True) fun _ state disk =>
        SealsOnly store directory state disk ∧
          state.segments[store.segments.length - 1]? = some last := by
    apply Ensures.getState
    split
    · exact Ensures.pure holds
    rename_i segment present
    apply (sealSegment_budget present clock).imp
    rintro result state' disk' ⟨seals, others⟩
    have different : store.segments.length - 1 ≠ index := by
      have less := List.mem_range.mp inside
      omega
    exact ⟨holds.1.trans seals, (others _ different).trans holds.2⟩
  apply (Ensures.forEach_keeps (fun state disk => SealsOnly store directory state disk ∧
    state.segments[store.segments.length - 1]? = some last) step ⟨⟨rfl, rfl, rfl⟩, indexed⟩).imp
  rintro result before disk ⟨seals, last'⟩
  have budgeted' := seals.budgeted budgeted
  have limits' : Fresh config before := by
    rw [seals.rest]
    exact ⟨limits.segmentBytes, limits.maxBytes, limits.unpressed⟩
  cases result with
  | error failure => exact .of_sizes _ budgeted' limits' seals.sizes
  | ok done =>
    apply Ensures.bind
    apply (scanSegment_reads last.path).imp
    rintro (failure | scanned) _ _ ⟨rfl, rfl⟩
    · exact .of_sizes _ budgeted' limits' seals.sizes
    change Ensures _ _ _ _ _
    simp only
    split
    · apply Ensures.bind
      apply (sealSegment_budget last' clock).imp
      rintro result after disk' ⟨seals', _⟩
      have both := seals.trans seals'
      have limits'' : Fresh config after := by
        rw [both.rest]
        exact ⟨limits.segmentBytes, limits.maxBytes, limits.unpressed⟩
      cases result with
      | error failure => exact .of_sizes _ (both.budgeted budgeted) limits'' both.sizes
      | ok done => exact createSegment_opens (both.budgeted budgeted) limits'' both.sizes _
    · apply Ensures.modify
      refine .of_sizes _ ⟨budgeted'.files, budgeted'.total, ?_, budgeted'.within,
        budgeted'.positive, budgeted'.pressed⟩
        ⟨limits'.segmentBytes, limits'.maxBytes, limits'.unpressed⟩ seals.sizes
      rintro name ⟨⟩
      have final : store.ledger.getLast? = some (last.path, last.size) := by
        rw [Store.ledger, List.getLast?_map, found]
        rfl
      exact seals.ledger ▸ final

section

omit [FloatText] [Ed25519]

theorem Config.segmentBytes_positive (config : Config) :
    (segmentHeaderBytes : Int) < config.segmentBytes := by
  simp only [Config.segmentBytes, segmentHeaderBytes, FrameLog.headerBytes, defaultSegmentBytes]
  split_ifs <;> omega

theorem Config.maximum_nonneg (config : Config) : 0 ≤ config.maximum := by
  simp only [Config.maximum, defaultMaxBytes]
  split_ifs <;> omega

theorem Opens.failed {directory' : Directory} (failure : Failure) (shrinks : Shrinks directory directory')
    (within : ∀ entry ∈ directory.sizes, entry.2 ≤ config.segmentBytes) :
    Opens config directory (.error failure) store directory' :=
  ⟨.inl shrinks, shrinks.each _ within, fun equal => by cases equal⟩

theorem Opens.after {middle directory' : Directory} {result : Except Failure Unit}
    (opens : Opens config middle result store directory') (shrinks : Shrinks directory middle) :
    Opens config directory result store directory' := by
  refine ⟨?_, opens.within, opens.budgeted⟩
  rcases opens.grows with further | ⟨count, size⟩
  · exact .inl (shrinks.trans further)
  · have before := shrinks.size
    exact .inr ⟨by rw [count, shrinks.count], by omega⟩

theorem settle_counts (names : List Bytes) (previous : Nat) :
    Ensures (settle names previous) store directory (fun _ => True)
      fun _ store' directory' => (∃ next, store' = { store with nextSequence := next }) ∧
        directory' = directory := by
  apply Ensures.modify_then
  apply Ensures.modify_then
  apply Ensures.getState
  exact Ensures.ite (fun _ => Ensures.fail ⟨⟨_, rfl⟩, rfl⟩) fun _ => Ensures.pure ⟨⟨_, rfl⟩, rfl⟩

end

theorem recover_opens (within : ∀ entry ∈ directory.sizes, entry.2 ≤ config.segmentBytes)
    (segments : store.segments = []) (totalBytes : store.totalBytes = 0)
    (current : store.current = none) (pressure : store.pressure = false)
    (limits : Fresh config store)
    (clock : Clock) : Ensures (recover clock) store directory (fun _ => True)
      fun result store' directory' => Opens config directory result store' directory' := by
  have unchanged : Shrinks directory directory := .of_sizes rfl
  apply Ensures.getDisk
  apply Ensures.getState
  apply Ensures.bind
  apply Ensures.lift
  split
  · apply Ensures.bind
    apply Ensures.lift
    split
    · rename_i start _
      apply Ensures.modify_then
      apply Ensures.bind
      have recounts : Recounts { store with
          lastLineageHash := start.hash, lastSegmentRoot := start.root,
          sealedSegments := start.count } directory directory.sizes :=
        ⟨by simp [Store.ledger, segments], by simp [Store.ledger, segments, totalBytes]⟩
      have names : directory.segments.entries.map Prod.fst = directory.sizes.map Prod.fst := by
        simp [Directory.sizes]
      rw [names]
      apply (recoverSegments_budget _ recounts start.sequence).imp
      rintro (failure | reached) store' directory' ⟨shrinks, post⟩
      · exact .failed failure shrinks within
      rcases post reached rfl with ⟨⟨sizes, total⟩, rest⟩
      rw [List.append_nil] at sizes
      have budgeted (next : Nat) : Budgeted { store' with nextSequence := next } directory' := by
        refine ⟨.of_eq sizes.symm, total, ?_, ?_, ?_, ?_⟩
        · intro name found
          rw [rest] at found
          cases current.symm.trans found
        · rw [rest]
          exact limits.segmentBytes ▸ shrinks.each _ within
        · rw [rest]
          exact limits.segmentBytes ▸ config.segmentBytes_positive
        · intro _ pressed
          rw [rest] at pressed
          cases pressure.symm.trans pressed
      have limits' (next : Nat) : Fresh config { store' with nextSequence := next } := by
        rw [rest]
        exact ⟨limits.segmentBytes, limits.maxBytes, limits.unpressed⟩
      apply Ensures.bind
      apply (settle_counts (directory.sizes.map Prod.fst) reached).imp
      rintro (failure | _) store'' directory'' ⟨⟨next, rfl⟩, rfl⟩
      · exact .failed failure shrinks within
      · apply (resume_opens (budgeted next) (limits' next) clock).imp
        exact fun result store''' directory''' opens => opens.after shrinks
    · exact .failed _ unchanged within
  · exact .failed _ unchanged within

theorem openStore_opens (within : ∀ entry ∈ directory.sizes, entry.2 ≤ config.segmentBytes)
    (generated : Bytes) (clock : Clock) :
    Opens config directory (openStore config generated clock directory).result
      (openStore config generated clock directory).state
      (openStore config generated clock directory).disk := by
  have ensures : Ensures (load config generated clock) config.initial directory (fun _ => True)
      fun result store' directory' => Opens config directory result store' directory' := by
    apply Ensures.bind
    apply Ensures.lift
    split
    · apply Ensures.bind
      apply (loadOrCreateSigner_segments generated).imp
      rintro result signed directory' ⟨same, rest⟩
      have sizes : directory'.sizes = directory.sizes := by
        rw [Directory.sizes, same, Directory.sizes]
      cases result with
      | error failure => exact .failed failure (.of_sizes sizes) within
      | ok done =>
        apply Ensures.bind
        apply loadCheckpoint_segments.imp
        rintro (failure | done) loaded directory' ⟨rfl, rest'⟩
        · exact .failed failure (.of_sizes sizes) within
        rw [rest] at rest'
        have within' : ∀ entry ∈ directory'.sizes, entry.2 ≤ config.segmentBytes :=
          sizes ▸ within
        apply (recover_opens within' (by rw [rest']; rfl) (by rw [rest']; rfl)
          (by rw [rest']; rfl) (by rw [rest']; rfl) (by rw [rest']; exact ⟨rfl, rfl, rfl⟩) clock).imp
        exact fun result store' directory'' opens => opens.after (.of_sizes sizes)
    · exact .failed _ (.of_sizes rfl) within
  exact ensures.post

structure InBudget (config : Config) (host : Host) : Prop where
  budgeted : ∀ store, host.store = some store → Budgeted store host.directory ∧
    store.segmentBytes = config.segmentBytes ∧ store.maxBytes = config.maximum
  within : ∀ entry ∈ host.directory.sizes, entry.2 ≤ config.segmentBytes

/-- An action stays within the maximum unless it is an Open that starts a segment. -/
def Spends (config : Config) (host : Host) (action : Action) : Prop :=
  (host.act config action).directory.size ≤ max host.directory.size config.maximum ∨
    (∃ generated clock, action = .opening generated clock) ∧
      host.directory.sizes.length < (host.act config action).directory.sizes.length ∧
      (host.act config action).directory.size ≤ host.directory.size + segmentHeaderBytes

variable {host : Host}

section

variable (inBudget : InBudget config host)
include inBudget

omit [FloatText] [Ed25519] in
theorem InBudget.finish (found : host.store = some store)
    {α : Type} (outcome : Outcome Store Directory Failure α) (records : List Record)
    (keeps : KeepsBudget store outcome.state outcome.disk) :
    InBudget config (host.finish outcome records) ∧
      (host.finish outcome records).directory.size ≤ max host.directory.size config.maximum := by
  rcases inBudget.budgeted store found with ⟨budgeted, segmentBytes, maxBytes⟩
  rcases keeps with ⟨budgeted', limits, total⟩
  refine ⟨⟨?_, ?_⟩, ?_⟩
  · rintro store' ⟨⟩
    exact ⟨budgeted', limits.segmentBytes.trans segmentBytes, limits.maxBytes.trans maxBytes⟩
  · rw [← segmentBytes, ← limits.segmentBytes]
    exact budgeted'.within
  · change outcome.disk.size ≤ _
    rw [← budgeted'.totalBytes, ← budgeted.totalBytes, ← maxBytes]
    exact total

theorem reopen_inBudget (generated : Bytes) (clock : Clock) :
    InBudget config (host.reopen config generated clock) ∧
      ((host.reopen config generated clock).directory.size ≤ host.directory.size ∨
        host.directory.sizes.length <
            (host.reopen config generated clock).directory.sizes.length ∧
          (host.reopen config generated clock).directory.size ≤
            host.directory.size + segmentHeaderBytes) := by
  have opens := openStore_opens inBudget.within generated clock
  rcases result : (openStore config generated clock host.directory).result with failure | done
  all_goals
    simp only [Host.reopen, result]
    refine ⟨⟨?_, opens.within⟩, ?_⟩
  · simp
  · rcases opens.grows with shrinks | ⟨longer, header⟩
    · exact .inl shrinks.size
    · exact .inr ⟨by omega, header⟩
  · rintro store ⟨⟩
    rcases opens.budgeted result with ⟨budgeted, fresh⟩
    exact ⟨budgeted, fresh.segmentBytes, fresh.maxBytes⟩
  · rcases opens.grows with shrinks | ⟨longer, header⟩
    · exact .inl shrinks.size
    · exact .inr ⟨by omega, header⟩

theorem act_inBudget (action : Action) :
    InBudget config (host.act config action) ∧ Spends config host action := by
  have unchanged (same : host.act config action = host) :
      InBudget config (host.act config action) ∧ Spends config host action := by
    rw [Spends, same]
    exact ⟨inBudget, .inl (le_max_left _ _)⟩
  by_cases closed : ∀ store, host.store = some store → store.closed = true
  · rcases act_idle config closed action with idle | ⟨generated, clock, rfl⟩
    · exact unchanged idle
    rw [Spends, Host.act_opening closed]
    rcases reopen_inBudget inBudget generated clock with ⟨inBudget', smaller | grows⟩
    · exact ⟨inBudget', .inl (smaller.trans (le_max_left _ _))⟩
    · exact ⟨inBudget', .inr ⟨⟨generated, clock, rfl⟩, grows⟩⟩
  simp only [not_forall, Bool.not_eq_true] at closed
  rcases closed with ⟨store, found, opened⟩
  have budgeted := (inBudget.budgeted store found).1
  cases action with
  | opening generated clock => exact unchanged (by simp [Host.act, found, opened])
  | append topic event clock =>
    rw [Spends, Host.act_append found]
    exact (inBudget.finish found _ _ (append_budget budgeted topic event clock).post).imp_right .inl
  | commit sequence =>
    rw [Spends, Host.act_commit found]
    exact (inBudget.finish found _ _ (commit_budget budgeted sequence).post).imp_right .inl
  | close clock =>
    rw [Spends, Host.act_close found]
    exact (inBudget.finish found _ _ (close_budget budgeted clock).post).imp_right .inl

end

theorem run_inBudget (config : Config) (actions : List Action) :
    InBudget config (Host.run config .empty actions) := by
  induction actions using List.reverseRecOn with
  | nil => exact ⟨by simp [Host.run, Host.start], by
      simp [Host.run, Host.start, Directory.sizes, Directory.empty, SortedMap.empty]⟩
  | append_singleton actions action induction =>
    rw [Host.run_concat]
    exact (act_inBudget induction action).1

theorem restart_grows {log : Log edgeID} {secret : Bytes} (accepted : config.check = .ok ())
    (edge : trimSpace config.edgeID = edgeID) (found : host.store = some store)
    (running : Running log secret store host.directory)
    (used : segmentHeaderBytes < store.currentSize) (closing : Clock) (generated : Bytes)
    (opening : Clock) : ∃ store', ((host.act config (.close closing)).act config
      (.opening generated opening)).store = some store' ∧
      store'.totalBytes = store.totalBytes + segmentHeaderBytes := by
  rcases running.writing.active with ⟨segment, active, _, size⟩
  have nonempty : segment.records ≠ [] := by
    intro empty
    simp [size, Segment.bytes, empty, FrameLog.frames, segmentHeader, segmentHeaderBytes,
      ascii] at used
  rcases (close_ensures running closing).post with ⟨_, done, other, closes, image, _⟩
  rw [Host.act_close found, Host.act_opening (by rintro _ ⟨⟩; exact done)]
  rcases (load_ensures accepted edge image generated opening).post with
    ⟨result, secret', final, resumes, running'⟩
  have opened : (openStore config generated opening
    (close closing store host.directory).disk).result = .ok () := result
  refine ⟨_, by simp only [Host.reopen, Host.finish, opened]; rfl, ?_⟩
  refine running'.held.totalBytes.trans ?_
  rw [running.held.totalBytes]
  cases closes with
  | empty other active' empty =>
    rw [active] at active'
    cases active'
    exact absurd empty nonempty
  | sealed other active' nonempty' now =>
    rcases running'.writing.active with ⟨_, active'', _, _⟩
    cases resumes with
    | same => cases active''
    | started inactive => rw [size_start, size_close, Nat.cast_add]
    | rotated other active₃ _ _ => cases active₃

namespace Sample

omit [FloatText] [Ed25519]

def narrow : Config := ⟨ascii "edge", 459, 459⟩

def restarts : List Action := twice.take 2 ++ [.close clock, .opening [1] clock]

theorem narrow_fills : ∃ store, (Sample.host narrow (twice.take 2)).store = some store ∧
    store.closed = false ∧ store.currentSize = 459 ∧ store.totalBytes = 459 := by
  have holds : (Sample.host narrow (twice.take 2)).store.any (fun store =>
      store.closed = false ∧ store.currentSize = 459 ∧ store.totalBytes = 459) = true := by
    decide +kernel
  simpa only [Option.any_eq_true, decide_eq_true_eq] using holds

theorem narrow_scannable : ∀ record ∈ (Sample.host narrow (twice.take 2)).returned,
    @Scannable floatText record := by
  decide +kernel

end Sample

end TelemetryForge.Wal
