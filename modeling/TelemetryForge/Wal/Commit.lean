import TelemetryForge.Wal.Append

/-! # Committing, replaying and closing

A commit moves the committed sequence by one and removes the segments that it has
made superfluous, oldest first. What a replay returns are the records above it. -/

namespace TelemetryForge.Wal

open Json Program List

variable [FloatText] [Ed25519] {edgeID : Bytes} {log : Log edgeID} {secret : Bytes}
  {store : Store} {disk : Directory} {allowed : Log edgeID → Prop}

structure Compacted (log final : Log edgeID) : Prop where
  base : final.base = log.base
  sealed : final.sealed = log.sealed
  finish : final.finish = log.finish
  active : final.active = log.active
  committed : final.committed = log.committed
  sources : final.sources = log.sources

section

omit [Ed25519]

theorem Compacted.history {final : Log edgeID} (compacted : Compacted log final) :
    final.history = log.history := by
  simp only [Log.history, Log.records, Log.activeRecords, compacted.base, compacted.sealed,
    compacted.active, compacted.committed, compacted.sources]

theorem Compacted.trans {middle final : Log edgeID} (first : Compacted log middle)
    (second : Compacted middle final) : Compacted log final :=
  ⟨second.base.trans first.base, second.sealed.trans first.sealed,
    second.finish.trans first.finish, second.active.trans first.active,
    second.committed.trans first.committed, second.sources.trans first.sources⟩

theorem Compacted.refl (log : Log edgeID) : Compacted log log := ⟨rfl, rfl, rfl, rfl, rfl, rfl⟩

theorem compacted_drop {segment : SealedSegment edgeID} {rest : List (SealedSegment edgeID)}
    (retained : log.retained = segment :: rest) (done : segment.last ≤ log.committed) :
    Compacted log (log.drop segment rest retained done) :=
  ⟨rfl, by simp [Log.sealed, Log.drop, retained], rfl, rfl, rfl, rfl⟩

end

theorem image_drop (image : Image log [] secret disk) {segment : SealedSegment edgeID}
    {rest : List (SealedSegment edgeID)} (retained : log.retained = segment :: rest)
    (done : segment.last ≤ log.committed) :
    Image (log.drop segment rest retained done) [] secret (disk.removeFile segment.name) where
  files := by
    have files := image.files
    rw [Log.files, Log.retainedFiles, retained, map_cons, cons_append] at files
    exact SortedMap.erase_first files
  seals := by
    rw [Log.sealFiles, (compacted_drop retained done).sealed]
    exact image.seals
  checkpoint := by
    rw [Log.history_drop]
    exact image.checkpoint
  privateKey := by
    rw [(compacted_drop retained done).sealed]
    exact image.privateKey
  publicKey := image.publicKey
  torn := torn_nil

omit [FloatText] [Ed25519] in
theorem compactFrom_keep {path : Bytes} {segments : List SegmentMeta} {along : Directory → Prop}
    (kept : ∀ segment ∈ segments, segment.path = path ∨ store.committed < segment.last) :
    Yields (compactFrom path segments) store disk along segments store disk := by
  induction segments with
  | nil => exact Yields.pure []
  | cons segment rest induction =>
    rw [forall_mem_cons] at kept
    have stays : ¬(segment.path ≠ path ∧ segment.recordCount > 0 ∧
        segment.last ≤ store.committed) := by
      rintro ⟨other, _, done⟩
      rcases kept.1 with same | later
      · exact other same
      · omega
    apply Ensures.getState
    simp only [if_neg stays]
    exact (induction kept.2).bind (Yields.pure _)

section

omit [Ed25519]

theorem summary_sealed (segment : SealedSegment edgeID) :
    (segment.summary true).last = segment.last ∧ (segment.summary true).recordCount > 0 := by
  simp [Segment.summary, segment.nonempty, length_pos_iff]

private theorem retained_later {segment : SealedSegment edgeID}
    {rest : List (SealedSegment edgeID)} (retained : log.retained = segment :: rest)
    (stays : ¬segment.last ≤ log.committed) :
    ∀ other ∈ log.retained, log.committed < other.last := by
  intro other member
  have linked := log.linked
  rw [retained] at linked member
  rcases linked_append.mp linked with ⟨middle, _, _, linked⟩
  rcases mem_cons.mp member with rfl | member
  · omega
  · have bounds := ((linked_bounds linked).2 other member).1
    have grows := other.before_lt_last
    change segment.last ≤ other.before at bounds
    omega

private theorem first_name_lt {first : SealedSegment edgeID} {rest : List (SealedSegment edgeID)}
    {segment : Segment edgeID} (retained : log.retained = first :: rest)
    (active : log.active = some segment) : first.name < segment.name := by
  have bounds := (linked_bounds log.linked).2 first (by simp [retained])
  have grows := first.before_lt_last
  have continues := (log.continues segment active).1
  have small := log.finish_facts.1
  exact segmentName_lt (by omega) (by omega)

end

theorem compactFrom_ensures {segment : Segment edgeID} (active : log.active = some segment)
    (image : Image log [] secret disk) (keyed : disk.privateKey = some secret)
    (committed : store.committed = log.committed) (totalBytes : store.totalBytes = log.size)
    (allows : ∀ final, Compacted log final → allowed final) :
    Ensures (compactFrom segment.name log.summaries) store disk (Survives allowed)
      fun result store' disk' => ∃ final : Log edgeID, Compacted log final ∧
        (∀ segment ∈ final.retained, log.committed < segment.last) ∧
        result = .ok final.summaries ∧ store' = { store with totalBytes := (final.size : Int) } ∧
        Image final [] secret disk' ∧ disk'.privateKey = some secret := by
  -- Induction on the retained segments; the log drops its oldest one in each step.
  induction remaining : log.retained generalizing log store disk with
  | nil =>
    have kept : ∀ summary ∈ log.summaries,
        summary.path = segment.name ∨ store.committed < summary.last := by
      simp [Log.summaries, remaining, active, Segment.summary]
    apply (compactFrom_keep kept).imp
    rintro result store' disk' ⟨rfl, rfl, rfl⟩
    exact ⟨log, .refl log, by simp [remaining], rfl, by rw [← totalBytes], image, keyed⟩
  | cons first rest induction =>
    by_cases done : first.last ≤ log.committed
    · have compacted := compacted_drop remaining done
      have visits : log.summaries =
          first.summary true :: (log.drop first rest remaining done).summaries := by
        simp [Log.summaries, remaining, Log.drop]
      have dropped := image_drop image remaining done
      have goes : (first.summary true).path ≠ segment.name ∧
          (first.summary true).recordCount > 0 ∧
          (first.summary true).last ≤ store.committed := by
        refine ⟨?_, (summary_sealed first).2, ?_⟩
        · exact (first_name_lt remaining active).ne
        · rw [(summary_sealed first).1, committed]
          exact done
      have smaller : store.totalBytes - (first.summary true).size =
          (log.drop first rest remaining done).size := by
        simp only [totalBytes, Log.size, Log.drop, remaining, Segment.summary, map_cons, sum_cons]
        push_cast
        ring
      rw [visits]
      apply Ensures.getState
      simp only [if_pos goes]
      apply Ensures.write_then (Survives.of_image dropped (allows _ compacted))
      apply Ensures.modify_then
      have later := @induction (log.drop first rest remaining done)
        { store with totalBytes := store.totalBytes - (first.summary true).size }
        (disk.removeFile first.name) active dropped keyed committed smaller
        (fun final further => allows final (compacted.trans further)) rfl
      apply later.imp
      rintro result store' disk' ⟨final, further, later, ends, rfl, image', keyed'⟩
      exact ⟨final, compacted.trans further, later, ends, rfl, image', keyed'⟩
    · have later := retained_later remaining done
      have kept : ∀ summary ∈ log.summaries,
          summary.path = segment.name ∨ store.committed < summary.last := by
        rw [Log.summaries, active, forall_mem_append, forall_mem_map, committed]
        refine ⟨?_, by simp [Segment.summary]⟩
        intro other member
        rw [(summary_sealed other).1]
        exact .inr (later other member)
      apply (compactFrom_keep kept).imp
      rintro result store' disk' ⟨rfl, rfl, rfl⟩
      exact ⟨log, .refl log, later, rfl, by rw [← totalBytes], image, keyed⟩

omit [Ed25519] in
theorem held_compacted {final : Log edgeID} (compacted : Compacted log final)
    (held : Held log secret store) {pressure : Bool} :
    Held final secret { store with
      totalBytes := (final.size : Int), segments := final.summaries, pressure := pressure } where
  edge := held.edge
  segments := rfl
  totalBytes := rfl
  nextSequence := by
    rw [(Log.continues_of_history compacted.history).1]
    exact held.nextSequence
  sources := by
    rw [compacted.sources]
    exact held.sources
  committed := by
    rw [compacted.committed]
    exact held.committed
  failed := held.failed
  signer := held.signer
  hash := by
    rw [(Log.continues_of_history compacted.history).2]
    exact held.hash
  root := by
    rw [compacted.finish]
    exact held.root
  count := by
    rw [compacted.sealed]
    exact held.count

theorem compact_ensures (running : Running log secret store disk)
    (allows : ∀ final, Compacted log final → allowed final) :
    Ensures compact store disk (Survives allowed) fun result store' disk' =>
      result = .ok () ∧ ∃ final, Compacted log final ∧ final.Tidy ∧
        Running final secret store' disk' := by
  rcases running with ⟨held, ⟨opened, segment, active, current, size⟩, image, keyed⟩
  have last : store.segments.getLast? = some (segment.summary false) := by
    simp [held.segments, Log.summaries, active]
  apply Ensures.getState
  simp only [last]
  split_ifs with short
  · have none : log.retained = [] := by
      simp only [held.segments, Log.summaries, active, length_append, length_map,
        Option.toList_some, length_singleton] at short
      exact length_eq_zero_iff.mp (by omega)
    exact Ensures.pure ⟨rfl, log, .refl log, fun _ => .inl none, held,
      ⟨opened, segment, active, current, size⟩, image, keyed⟩
  rw [held.segments]
  apply Ensures.bind
  apply (compactFrom_ensures active image keyed held.committed held.totalBytes allows).imp
  rintro result store' disk' ⟨final, compacted, later, rfl, rfl, image', keyed'⟩
  apply Ensures.modify
  rw [← compacted.committed] at later
  exact ⟨rfl, final, compacted, Log.tidy_of_later later, held_compacted compacted held,
    ⟨opened, segment, compacted.active.trans active, current, size⟩, image', keyed'⟩

theorem image_commit (image : Image log [] secret disk) {sequence : Nat}
    (later : log.committed ≤ sequence) (known : sequence ≤ log.last) :
    Image (log.commit sequence later known) [] secret (disk.putCheckpoint
      (Checkpoint.marshal ⟨format, checkpointVersion, sequence, log.sources⟩)) where
  files := image.files
  seals := image.seals
  checkpoint := by
    rcases image.checkpoint with ⟨_, _, merges, _⟩
    rw [Log.history_commit]
    exact ⟨log.sources, image.portable, merges.commit sequence,
      .inr ⟨known.trans_lt (Nat.lt_of_succ_lt log.last_lt), rfl⟩⟩
  privateKey := image.privateKey
  publicKey := image.publicKey
  torn := torn_nil

omit [Ed25519] in
def Log.CommittedOrNot (log : Log edgeID) (sequence : Nat) (other : Log edgeID) : Prop :=
  other.history = log.history ∨ sequence = log.committed + 1 ∧ sequence ≤ log.history.last ∧
    other.history = log.history.commit sequence

theorem commit_ensures (running : Running log secret store disk) (sequence : Nat) :
    Ensures (commit sequence) store disk (Survives (log.CommittedOrNot sequence))
      fun result store' disk' =>
        match result with
        | .ok () => sequence ≤ log.committed + 1 ∧ sequence ≤ log.history.last ∧
            ∃ other, other.history = log.history.commit (max log.committed sequence) ∧
              (other = log ∨ other.Tidy) ∧ Running other secret store' disk'
        | .error _ => Running log secret store' disk' := by
  have serves := running
  rcases running with ⟨held, writing, image, keyed⟩
  have known : log.committed ≤ log.last := log.known
  have length : log.history.last = log.last := log.chained_records.2.1
  apply Ensures.getState
  simp only [writing.opened, Bool.false_eq_true, if_false, held.failed, held.committed,
    held.nextSequence]
  split_ifs with done gap unknown
  · refine Ensures.pure ⟨by omega, by omega, log, ?_, .inl rfl, serves⟩
    rw [max_eq_left done]
    rfl
  · exact Ensures.fail serves
  · exact Ensures.fail serves
  have next : sequence = log.committed + 1 := not_not.mp gap
  have later : log.committed ≤ sequence := by omega
  have appended : sequence ≤ log.last := by omega
  have committed := image_commit image later appended
  rw [← held.sources] at committed
  have allows (final : Log edgeID)
      (compacted : Compacted (log.commit sequence later appended) final) :
      log.CommittedOrNot sequence final :=
    .inr ⟨next, by omega, compacted.history⟩
  apply Ensures.bind
  apply Ensures.noting
  apply Ensures.getState
  apply Ensures.write (Survives.of_image committed (allows _ (.refl _)))
  apply Ensures.modify_then
  have running : Running (log.commit sequence later appended) secret
      { store with committed := sequence } (disk.putCheckpoint
        (Checkpoint.marshal ⟨format, checkpointVersion, sequence, store.sourceSequence⟩)) :=
    ⟨{ held with committed := rfl }, ⟨writing.opened, writing.active⟩, committed, keyed⟩
  apply Ensures.noting
  apply (compact_ensures running allows).imp
  rintro result store' disk' ⟨rfl, final, compacted, tidy, running'⟩
  refine ⟨by omega, by omega, final, ?_, .inr tidy, running'⟩
  rw [max_eq_right later]
  exact compacted.history

section Replay

omit [FloatText] [Ed25519]

def takeLimit (limit : Int) (records : List Record) : List Record :=
  if 0 < limit then records.take limit.toNat else records

theorem takeLimit_of_room {limit : Int} {records : List Record}
    (room : 0 < limit → (records.length : Int) < limit) : takeLimit limit records = records := by
  rw [takeLimit]
  split_ifs with limited
  · have short := room limited
    exact take_of_length_le (by omega)
  · rfl

theorem takeLimit_append {limit : Int} {records : List Record} (limited : 0 < limit)
    (full : limit ≤ records.length) (rest : List Record) :
    takeLimit limit (records ++ rest) = takeLimit limit records := by
  rw [takeLimit, takeLimit, if_pos limited, if_pos limited, take_append_of_le_length (by omega)]

theorem takePending_eq (committed : Nat) (limit : Int) (records result : List Record)
    (room : 0 < limit → (result.length : Int) < limit) :
    takePending committed limit records result =
      (takeLimit limit (result ++ above committed records),
        decide (0 < limit ∧ limit ≤ ((result ++ above committed records).length : Int))) := by
  induction records generalizing result with
  | nil =>
    have within : ¬(0 < limit ∧ limit ≤ (result.length : Int)) := fun ⟨limited, full⟩ =>
      absurd (room limited) (by omega)
    simp [takePending, above, takeLimit_of_room room, within]
  | cons record rest induction =>
    simp only [takePending]
    split_ifs with old full
    · rw [induction result room, above_cons_of_le old]
    · have taken := above_cons_of_lt (Nat.not_le.mp old) rest
      have split : result ++ record :: above committed rest =
          (result ++ [record]) ++ above committed rest := by simp
      have within := room full.1
      have exactly : takeLimit limit (result ++ [record]) = result ++ [record] := by
        rw [takeLimit, if_pos full.1]
        exact take_of_length_le (by
          rw [length_append, length_singleton]
          omega)
      rw [taken, split, takeLimit_append full.1 full.2, exactly]
      have enough : limit ≤ ((result ++ [record] ++ above committed rest).length : Int) := by
        have := full.2
        rw [length_append]
        push_cast
        omega
      rw [decide_eq_true ⟨full.1, enough⟩]
    · have taken := above_cons_of_lt (Nat.not_le.mp old) rest
      rw [induction (result ++ [record]) (fun limited => by
        have := not_and.mp full limited
        omega), taken]
      simp

end Replay

omit [Ed25519] in
theorem pendingFrom_yields {along : Directory → Prop} (committed : Nat) (limit : Int)
    (segments : List (Segment edgeID × Bool)) (found : ∀ entry ∈ segments,
      disk.segments.find? entry.1.name = some ⟨entry.1.bytes, []⟩) (result : List Record)
    (room : 0 < limit → (result.length : Int) < limit) :
    Yields (pendingFrom committed limit (segments.map fun entry => entry.1.summary entry.2) result)
      store disk along
      (takeLimit limit (result ++ above committed (segments.flatMap fun entry => entry.1.records)))
      store disk := by
  induction segments generalizing result with
  | nil =>
    have all : takeLimit limit (result ++ above committed []) = result := by
      rw [above, filter_nil, append_nil, takeLimit_of_room room]
    rw [flatMap_nil, all]
    exact Yields.pure result
  | cons entry rest induction =>
    rw [forall_mem_cons] at found
    apply (scanSegment_yields found.1 false).bind
    simp only [takePending_eq committed limit entry.1.records result room, flatMap_cons,
      above_append, ← append_assoc]
    split_ifs with full
    · rw [decide_eq_true_eq] at full
      rw [takeLimit_append full.1 full.2]
      exact Yields.pure _
    · have within : 0 < limit →
          ((result ++ above committed entry.1.records).length : Int) < limit := by
        intro limited
        have := not_and.mp (fun reached => full (decide_eq_true reached)) limited
        omega
      rw [takeLimit_of_room within]
      exact induction found.2 _ within

namespace Log

omit [Ed25519]

def present (log : Log edgeID) : List (Segment edgeID × Bool) :=
  log.retained.map (fun segment => (segment.toSegment, true)) ++
    log.active.toList.map fun segment => (segment, false)

theorem summaries_eq (log : Log edgeID) :
    log.summaries = log.present.map fun entry => entry.1.summary entry.2 := by
  simp [summaries, present, Function.comp_def]

theorem uncommitted_eq (log : Log edgeID) :
    above log.committed (log.present.flatMap fun entry => entry.1.records) =
      log.history.uncommitted := by
  have present : log.present.flatMap (fun entry => entry.1.records) =
      log.retained.flatMap (fun segment => segment.records) ++ log.activeRecords := by
    rcases active : log.active with _ | segment
    all_goals simp [Log.present, activeRecords, active, flatMap_map]
  have old : above log.committed (log.dropped.flatMap fun segment => segment.records) = [] := by
    rw [above, filter_eq_nil_iff]
    intro record member
    rcases mem_flatMap.mp member with ⟨segment, dropped, member⟩
    have bound := segment.sequence_le record member
    have settled := log.settled segment dropped
    simp only [decide_eq_true_eq]
    omega
  change _ = above log.committed log.records
  rw [present, records, sealed, flatMap_append, append_assoc,
    above_append _ (flatMap _ log.dropped), old, nil_append]

end Log

theorem pending_yields (running : Running log secret store disk) {along : Directory → Prop}
    (limit : Int) :
    Yields (pending limit) store disk along (takeLimit limit log.history.uncommitted) store
      disk := by
  rcases running with ⟨held, writing, image, keyed⟩
  have found : ∀ entry ∈ log.present,
      disk.segments.find? entry.1.name = some ⟨entry.1.bytes, []⟩ := by
    rw [Log.present, forall_mem_append, forall_mem_map, forall_mem_map]
    refine ⟨fun segment member => image.find_retained member, fun segment member => ?_⟩
    have active := image.find_active (Option.mem_toList.mp member)
    rwa [append_nil] at active
  apply Ensures.getState
  simp only [writing.opened, Bool.false_eq_true, if_false, held.failed, held.committed,
    held.segments, log.summaries_eq]
  have yields := @pendingFrom_yields _ edgeID store disk along log.committed limit
    log.present found [] (fun limited => by simpa using limited)
  rwa [nil_append, log.uncommitted_eq] at yields

section

omit [Ed25519]

/-- Closing seals the segment being written, unless it is empty. -/
inductive Log.Closes (log : Log edgeID) : Log edgeID → Prop
  | empty (segment : Segment edgeID) (active : log.active = some segment)
      (empty : segment.records = []) : Closes log log
  | sealed (segment : Segment edgeID) (active : log.active = some segment)
      (nonempty : segment.records ≠ []) (now : Now) :
      Closes log (log.close segment active nonempty now)

theorem Log.Closes.history {other : Log edgeID} (closes : log.Closes other) :
    other.history = log.history := by
  cases closes with
  | empty segment active empty => rfl
  | sealed segment active nonempty now => exact log.history_close active nonempty now

theorem Log.Closes.tidy {other : Log edgeID} (closes : log.Closes other) (tidy : log.Tidy) :
    other.Tidy := by
  cases closes with
  | empty segment active empty => exact tidy
  | sealed segment active nonempty now => exact tidy_close tidy active nonempty now

end

theorem close_ensures (running : Running log secret store disk) (clock : Clock) :
    Ensures (close clock) store disk
      (Survives fun other : Log edgeID => other.history = log.history)
      fun result store' disk' => result = .ok () ∧ store'.closed = true ∧
        ∃ other : Log edgeID, log.Closes other ∧
          Image other [] secret disk' ∧ disk'.privateKey = some secret := by
  rcases running with ⟨held, ⟨opened, segment, active, current, size⟩, image, keyed⟩
  have file := image.find_active active
  rw [append_nil] at file
  apply Ensures.getState
  simp only [opened, Bool.false_eq_true, if_false, current]
  apply Ensures.modify_then
  apply Ensures.write_then
  · rw [changeFile_sync file]
    exact .of_image image rfl
  rw [changeFile_sync file]
  apply Ensures.modify_then
  have heldClosed : Held log secret { store with closed := true, current := none } :=
    { held with }
  by_cases empty : segment.records = []
  · have last : store.segments.getLast? = some (segment.summary false) := by
      simp [held.segments, Log.summaries, active]
    apply Ensures.getState
    simp only [last, sealSegment, Segment.summary, empty, length_nil, true_or, if_true]
    exact Ensures.pure ⟨rfl, rfl, log, .empty segment active empty, image, keyed⟩
  · have has := log.history_close active empty (clock.sealing segment.name)
    apply (sealLast_ensures active empty image keyed heldClosed has).imp
    rintro result store' disk' ⟨rfl, _, closed, _, keyed', image'⟩
    exact ⟨rfl, closed, _, .sealed segment active empty _, image', keyed'⟩

end TelemetryForge.Wal
