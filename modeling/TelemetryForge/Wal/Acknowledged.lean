import TelemetryForge.Wal.Tainted

/-! # Acknowledged records

What a scan finds of a record that an append has returned. -/

namespace TelemetryForge.Wal

open Json Program

variable [FloatText]

def scanCurrent : Call Scanned := do
  let store ← getState
  match store.current with
  | none => fail (.message "no segment is open")
  | some name => scanSegment name false

variable {edgeID name : Bytes} {store : Store} {disk : Directory} {record : Record}

theorem scanCurrent_endsWith (ends : EndsWith edgeID record store disk) :
    ∃ scanned, (scanCurrent store disk).result = .ok scanned ∧
      scanned.records.getLast? = some record := by
  rcases ends with ⟨segment, current, file, last⟩
  refine ⟨⟨segment.records, segment.bytes.length, false⟩, ?_, last⟩
  have yields : Yields (scanSegment segment.name false) store disk (fun _ => True) _ _ _ :=
    scanSegment_yields file false
  rw [scanCurrent, getState_bind, current]
  exact yields.post.1

theorem scanCurrent_stuck (stuck : Stuck name store disk) (current : store.current = some name) :
    ∃ failure, (scanCurrent store disk).result = .error failure := by
  rw [scanCurrent, getState_bind, current]
  exact (@scanSegment_spoiled _ name store disk (fun _ => True) stuck.spoiled false).post.1

theorem pendingFrom_spoiled (spoiled : SpoiledAt name disk) (committed : Nat)
    {segments : List SegmentMeta} (visits : ∃ segment ∈ segments, segment.path = name)
    (found : List Record) :
    Ensures (pendingFrom committed 0 segments found) store disk (fun _ => True)
      fun result _ _ => ∃ failure, result = .error failure := by
  induction segments generalizing found with
  | nil => simp at visits
  | cons segment rest induction =>
    apply Ensures.bind
    by_cases same : segment.path = name
    · rw [same]
      apply (scanSegment_spoiled spoiled false).imp
      rintro result store' disk' ⟨⟨failure, rfl⟩, _⟩
      exact ⟨failure, rfl⟩
    · apply (scanSegment_reads segment.path).imp
      rintro (failure | scanned) store' disk' ⟨rfl, rfl⟩
      · exact ⟨failure, rfl⟩
      · have later : ∃ segment ∈ rest, segment.path = name := by
          rcases visits with ⟨other, member, path⟩
          rcases List.mem_cons.mp member with rfl | member
          · exact absurd path same
          · exact ⟨other, member, path⟩
        simp only [takePending_eq committed 0 scanned.records found (by simp)]
        simpa using induction later _

theorem pending_stuck (stuck : Stuck name store disk) :
    ∃ failure, (pending 0 store disk).result = .error failure := by
  have ensures : Ensures (pending 0) store disk (fun _ => True)
      fun result _ _ => ∃ failure, result = .error failure := by
    rcases stuck.last with ⟨segment, last, path, _⟩
    apply Ensures.getState
    split
    · exact Ensures.fail ⟨_, rfl⟩
    split
    · exact Ensures.fail ⟨_, rfl⟩
    · exact pendingFrom_spoiled stuck.spoiled store.committed
        ⟨segment, List.mem_of_getLast? last, path⟩ []
  exact ensures.post

variable [Ed25519] {config : Config} {host : Host} {topic : Bytes} {event : Event} {clock : Clock}

theorem append_outcome (accepted : config.check = .ok ())
    (edge : trimSpace config.edgeID = edgeID) (sound : Sound edgeID host)
    (opened : host.store = some store)
    (returned : (append topic event clock store host.directory).result = .ok record)
    (free : CollisionFree record.digested) (bound : host.returned.length + 2 < 2 ^ 64) :
    (∀ other ∈ host.returned ++ [record], Found other) ∧
      record.reread = { record with event := record.event.reread } ∧
      (∃ history secret, Serves edgeID history secret
        (append topic event clock store host.directory).state
        (append topic event clock store host.directory).disk) ∧
      EndsWith edgeID record.reread (append topic event clock store host.directory).state
        (append topic event clock store host.directory).disk ∨
    (∃ other ∈ host.returned ++ [record], ¬Found other) ∧
      ∃ name, Stuck name (append topic event clock store host.directory).state
          (append topic event clock store host.directory).disk ∧
        (append topic event clock store host.directory).state.current = some name := by
  have nonblank : trimSpace edgeID ≠ [] := edge ▸ nonblank_of_check accepted
  have stillOpen := append_opened returned
  rcases sound with ⟨history, holds, replays, _, found⟩ |
    ⟨name, sources, tainted, _, other, member, lost⟩
  · rcases holds with ⟨same, secret, served, log, rfl, _, running⟩ | ⟨closed, _⟩
    · obtain rfl : same = store := by
        rw [opened] at served
        exact (Option.some.inj served).symm
      by_cases finds : Found record
      · have scannable : Scannable record := by
          refine finds.scannable ?_
          rw [append_next running returned, replays.last_eq]
          omega
        have post := (append_ensures running nonblank (by
          intro again result
          rw [returned] at result
          cases result
          exact scannable)).post
        simp only [returned] at post
        rcases post with ⟨issued, serves, ends⟩
        refine .inl ⟨?_, issued.appended.reread_eq finds.readable.edgeID finds.readable.topic,
          ⟨_, secret, serves⟩, ends⟩
        rw [List.forall_mem_append, List.forall_mem_singleton]
        exact ⟨found, finds⟩
      · rcases append_spoils running nonblank returned free finds with ⟨name, stuck, current, _⟩
        exact .inr ⟨⟨record, by simp, finds⟩, name, stuck, current⟩
    · rw [closed store opened] at stillOpen
      cases stillOpen
  · have post := (append_stuck (tainted.stuck store opened stillOpen).1 topic event clock).post
    rw [returned] at post
    exact .inr ⟨⟨other, List.mem_append_left _ member, lost⟩, name, post.1, post.2.1⟩

namespace Sample

omit [FloatText] [Ed25519]

def garbled : Event := { Sample.event with source := [0xFF] }

/-- The first append to a new log succeeds, and `found` tells whether a scan finds the
record. -/
def appends (config : Config) (event : Event) (found : Bool) : Bool :=
  match Sample.host config (twice.take 1) with
  | ⟨some store, disk, [], _⟩ =>
    match (@append floatText signatures (ascii "t") event Sample.clock store disk).result with
    | .ok record => decide (@Found floatText record) == found &&
        decide ((@Record.digestedTexts floatText record).dedup.map Sha256.sum256).Nodup
    | .error _ => false
  | _ => false

theorem appends_spec {config : Config} {event : Event} {found : Bool}
    (holds : appends config event found = true) :
    (Sample.host config (twice.take 1)).returned = [] ∧
      ∃ store record, (Sample.host config (twice.take 1)).store = some store ∧
        (@append floatText signatures (ascii "t") event Sample.clock store
          (Sample.host config (twice.take 1)).directory).result = .ok record ∧
        (@Found floatText record ↔ found = true) ∧
        CollisionFree (@Record.digested floatText record) := by
  unfold appends at holds
  generalize Sample.host config (twice.take 1) = host at holds
  rcases host with ⟨_ | store, disk, _ | ⟨first, others⟩, refused⟩
  all_goals simp only [Bool.false_eq_true] at holds
  split at holds
  · rename_i record result
    simp only [Bool.and_eq_true, beq_iff_eq, decide_eq_true_eq] at holds
    refine ⟨rfl, store, record, rfl, result, ?_, ?_⟩
    · rw [← holds.1, decide_eq_true_eq]
    · exact @Record.collisionFree_of_nodup floatText record holds.2
  · cases holds

theorem appends_stuck {config : Config} {event : Event} (accepted : config.check = .ok ())
    (holds : appends config event false = true) : ∃ store record name,
    (Sample.host config (twice.take 1)).store = some store ∧
      let after := @append floatText signatures (ascii "t") event Sample.clock store
        (Sample.host config (twice.take 1)).directory
      after.result = .ok record ∧ @Stuck floatText name after.state after.disk ∧
        after.state.current = some name := by
  rcases appends_spec holds with ⟨none, store, record, opened, returned, found, free⟩
  have sound : @Sound floatText signatures (trimSpace config.edgeID)
      (Sample.host config (twice.take 1)) := by
    refine @run_sound floatText signatures config accepted (twice.take 1) ?_ ?_
    · intro other member
      rw [show (@Host.run floatText signatures config .empty (twice.take 1)).returned = []
        from none] at member
      cases member
    · rw [show (@Host.run floatText signatures config .empty (twice.take 1)).returned = []
        from none]
      decide
  have short : (Sample.host config (twice.take 1)).returned.length + 2 < 2 ^ 64 := by
    rw [none]
    decide
  rcases @append_outcome floatText _ store record signatures config _ _ event Sample.clock accepted
    rfl sound opened returned free short with ⟨all, _⟩ | ⟨_, name, stuck, current⟩
  · have readable := found.mp (all record (by simp))
    cases readable
  · exact ⟨store, record, name, opened, returned, stuck, current⟩

end Sample

end TelemetryForge.Wal
