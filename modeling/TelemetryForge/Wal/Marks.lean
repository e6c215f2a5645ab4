import TelemetryForge.Wal.Crash

/-! # Who moves the checkpoint

Only `Commit` moves the committed sequence, and only by one; every other call leaves it and the
checkpoint file alone, whatever is in the directory. -/

namespace TelemetryForge.Wal

open Json Program List Option

variable [FloatText] [Ed25519]

omit [FloatText] [Ed25519] in
def Directory.mark (disk : Directory) : Option Nat :=
  match disk.checkpoint with
  | none => some 0
  | some payload => (Checkpoint.unmarshal payload).map Checkpoint.committedSequence

def Neutral {α : Type} (call : Call α) : Prop :=
  ∀ committed checkpoint, Preserves (fun store => store.committed = committed)
    (fun disk => disk.checkpoint = checkpoint) call

omit [FloatText] [Ed25519] in
theorem fail_committed (failure : Failure) (store : Store) :
    (store.fail failure).committed = store.committed := by
  unfold Store.fail
  split_ifs <;> rfl

omit [FloatText] [Ed25519] in
theorem Neutral.noting {α : Type} {call : Call α} (neutral : Neutral call) :
    Neutral (call.noting Store.fail) := by
  intro committed checkpoint
  apply Preserves.noting (neutral committed checkpoint)
  intro failure store same
  rw [fail_committed]
  exact same

omit [Ed25519] in
theorem scanSegment_neutral (name : Bytes) (recoverTail : Bool) :
    Neutral (scanSegment name recoverTail) := by
  intro committed checkpoint
  apply Preserves.getDisk
  intro disk
  split
  · exact Preserves.fail _
  split
  · exact Preserves.fail _
  refine Preserves.ite (Preserves.pure _) (Preserves.ite ?_ (Preserves.ite (Preserves.fail _) (Preserves.fail _)))
  exact Preserves.bind (Preserves.write fun _ same => same) fun _ => Preserves.pure _

omit [FloatText] [Ed25519] in
theorem createSegment_neutral (first : Nat) : Neutral (createSegment first) := by
  intro committed checkpoint
  apply Preserves.getDisk
  intro disk
  refine Preserves.ite (Preserves.fail _) ?_
  refine Preserves.bind (Preserves.write fun _ same => same) fun _ => ?_
  refine Preserves.bind (Preserves.write fun _ same => same) fun _ => ?_
  refine Preserves.bind (Preserves.write fun _ same => same) fun _ => ?_
  exact Preserves.modify fun _ same => same

omit [FloatText] [Ed25519] in
theorem writeSeal_neutral (name : Bytes) (stamp : Seal) : Neutral (writeSeal name stamp) := by
  intro committed checkpoint
  apply Preserves.getDisk
  intro disk
  split
  · exact Preserves.fail _
  · exact Preserves.ite (Preserves.fail _) (Preserves.write fun _ same => same)

theorem sealSegment_neutral (index : Nat) (segment : SegmentMeta) (clock : Clock) :
    Neutral (sealSegment index segment clock) := by
  intro committed checkpoint
  refine Preserves.ite (Preserves.pure _) ?_
  apply Preserves.bind (scanSegment_neutral _ _ _ _)
  intro scanned
  split
  · exact Preserves.fail _
  split
  · split
    · exact Preserves.fail _
    apply Preserves.getState
    intro store
    split
    · exact Preserves.fail _
    · exact Preserves.bind (writeSeal_neutral _ _ _ _) fun _ => Preserves.modify fun _ same => same
  · exact Preserves.pure _

theorem sealLast_neutral (clock : Clock) : Neutral (sealLast clock) := by
  intro committed checkpoint
  apply Preserves.getState
  intro store
  split
  · exact Preserves.pure _
  · exact sealSegment_neutral _ _ _ _ _

theorem rotate_neutral (next : Nat) (clock : Clock) : Neutral (rotate next clock) := by
  intro committed checkpoint
  apply Preserves.getState
  intro store
  split
  · exact createSegment_neutral _ _ _
  · refine Preserves.bind (Preserves.write fun _ same => same) fun _ => ?_
    refine Preserves.bind (Preserves.modify fun _ same => same) fun _ => ?_
    exact Preserves.bind (sealLast_neutral _ _ _) fun _ => createSegment_neutral _ _ _

section

omit [FloatText] [Ed25519]

theorem writeFrame_neutral (payload : Bytes) : Neutral (writeFrame payload) := by
  intro committed checkpoint
  apply Preserves.getState
  intro store
  split
  · exact Preserves.fail _
  · refine Preserves.bind (Preserves.write fun _ same => same) fun _ => ?_
    refine Preserves.bind (Preserves.write fun _ same => same) fun _ => ?_
    exact Preserves.write fun _ same => same

theorem writeRecord_neutral (record : Record) (payload : Bytes) :
    Neutral (writeRecord record payload) := by
  intro committed checkpoint
  refine Preserves.bind ((writeFrame_neutral payload).noting _ _) fun _ => ?_
  exact Preserves.bind (Preserves.modify fun _ same => same) fun _ => Preserves.pure _

theorem underPressure_neutral : Neutral underPressure := by
  intro committed checkpoint
  exact Preserves.bind (Preserves.modify fun _ same => same) fun _ => Preserves.fail _

end

theorem append_neutral (topic : Bytes) (event : Event) (clock : Clock) :
    Neutral (append topic event clock) := by
  intro committed checkpoint
  apply Preserves.getState
  intro store
  split
  · exact Preserves.fail _
  · refine Preserves.ite (underPressure_neutral _ _) (Preserves.ite
      (Preserves.ite (underPressure_neutral _ _) ?_) (writeRecord_neutral _ _ _ _))
    exact Preserves.bind ((rotate_neutral _ _).noting _ _) fun _ => writeRecord_neutral _ _ _ _

theorem close_neutral (clock : Clock) : Neutral (close clock) := by
  intro committed checkpoint
  apply Preserves.getState
  intro store
  refine Preserves.ite (Preserves.pure _) ?_
  refine Preserves.bind (Preserves.modify fun _ same => same) fun _ => ?_
  split
  · exact Preserves.pure _
  · refine Preserves.bind (Preserves.write fun _ same => same) fun _ => ?_
    exact Preserves.bind (Preserves.modify fun _ same => same) fun _ => sealLast_neutral _ _ _

omit [Ed25519] in
theorem pending_neutral (limit : Int) : Neutral (pending limit) := by
  intro committed checkpoint
  apply Preserves.getState
  intro store
  refine Preserves.ite (Preserves.fail _) ?_
  split
  · exact Preserves.fail _
  have collects (segments : List SegmentMeta) (result : List Record) :
      Preserves (fun store => store.committed = committed)
        (fun disk => disk.checkpoint = checkpoint)
        (pendingFrom store.committed limit segments result) := by
    induction segments generalizing result with
    | nil => exact Preserves.pure _
    | cons segment rest induction =>
      apply Preserves.bind (scanSegment_neutral _ _ _ _)
      intro scanned
      exact Preserves.ite (Preserves.pure _) (induction _)
  exact collects _ _

omit [FloatText] in
theorem loadOrCreateSigner_neutral (generated : Bytes) : Neutral (loadOrCreateSigner generated) := by
  intro committed checkpoint
  apply Preserves.getDisk
  intro disk
  split
  · exact Preserves.fail _
  · refine Preserves.bind (Preserves.write fun _ same => same) fun _ => ?_
    exact Preserves.bind (Preserves.write fun _ same => same) fun _ => Preserves.modify fun _ same => same
  · exact Preserves.ite (Preserves.fail _) (Preserves.modify fun _ same => same)
  · exact Preserves.bind (Preserves.write fun _ same => same) fun _ => Preserves.modify fun _ same => same

theorem recoverSegment_neutral (seals : List Seal) (name : Bytes) (last : Bool) (previous : Nat) :
    Neutral (recoverSegment seals name last previous) := by
  intro committed checkpoint
  apply Preserves.bind (scanSegment_neutral _ _ _ _)
  intro scanned
  apply Preserves.getState
  intro store
  split
  · exact Preserves.fail _
  split
  · exact Preserves.fail _
  split
  · exact Preserves.bind (Preserves.modify fun _ same => same) fun _ => Preserves.pure _
  · split
    · exact Preserves.fail _
    · exact Preserves.bind (Preserves.modify fun _ same => same) fun _ => Preserves.pure _

theorem recoverSegments_neutral (seals : List Seal) (names : List Bytes) (previous : Nat) :
    Neutral (recoverSegments seals names previous) := by
  intro committed checkpoint
  induction names generalizing previous with
  | nil => exact Preserves.pure _
  | cons name rest induction =>
    exact Preserves.bind (recoverSegment_neutral _ _ _ _ _ _) induction

omit [FloatText] [Ed25519] in
theorem settle_neutral (names : List Bytes) (previous : Nat) : Neutral (settle names previous) := by
  intro committed checkpoint
  refine Preserves.bind (Preserves.modify fun _ same => same) fun _ => ?_
  refine Preserves.bind (Preserves.modify fun _ same => same) fun _ => ?_
  apply Preserves.getState
  intro store
  exact Preserves.ite (Preserves.fail _) (Preserves.pure _)

theorem sealPredecessor_neutral (clock : Clock) (index : Nat) :
    Neutral (sealPredecessor clock index) := by
  intro committed checkpoint
  apply Preserves.getState
  intro store
  split
  · exact Preserves.pure _
  · exact sealSegment_neutral _ _ _ _ _

theorem resume_neutral (clock : Clock) : Neutral (resume clock) := by
  intro committed checkpoint
  apply Preserves.getState
  intro store
  split
  · exact createSegment_neutral _ _ _
  · refine Preserves.bind
      (Preserves.forEach (fun index => sealPredecessor_neutral clock index _ _) _) fun _ => ?_
    apply Preserves.bind (scanSegment_neutral _ _ _ _)
    intro scanned
    refine Preserves.ite ?_ (Preserves.modify fun _ same => same)
    exact Preserves.bind (sealSegment_neutral _ _ _ _ _) fun _ => createSegment_neutral _ _ _

theorem recover_neutral (clock : Clock) : Neutral (recover clock) := by
  intro committed checkpoint
  apply Preserves.getDisk
  intro disk
  apply Preserves.getState
  intro store
  refine Preserves.bind (Preserves.lift _) fun seals => ?_
  refine Preserves.bind (Preserves.lift _) fun start => ?_
  refine Preserves.bind (Preserves.modify fun _ same => same) fun _ => ?_
  refine Preserves.bind (recoverSegments_neutral _ _ _ _ _) fun previous => ?_
  exact Preserves.bind (settle_neutral _ _ _ _) fun _ => resume_neutral _ _ _

theorem load_ensures_mark (config : Config) (generated : Bytes) (clock : Clock) (disk : Directory) :
    Ensures (load config generated clock) config.initial disk
      (fun passed => passed.checkpoint = disk.checkpoint)
      fun result store last => last.checkpoint = disk.checkpoint ∧
        (result = .ok () → disk.mark = some store.committed) := by
  apply Ensures.bind
  apply Ensures.lift
  rcases config.check with failure | _
  · exact ⟨rfl, nofun⟩
  apply Ensures.bind
  apply (loadOrCreateSigner_neutral generated 0 disk.checkpoint config.initial disk rfl
    rfl).imp
  rintro (failure | _) store signed ⟨fresh, same⟩
  · exact ⟨same, nofun⟩
  apply Ensures.bind
  apply Ensures.getDisk
  rw [same]
  have recovers {store : Store} (marked : disk.mark = some store.committed) :
      Ensures (recover clock) store signed
        (fun passed => passed.checkpoint = disk.checkpoint)
        fun result store last => last.checkpoint = disk.checkpoint ∧
          (result = .ok () → disk.mark = some store.committed) := by
    apply (recover_neutral clock store.committed disk.checkpoint store signed rfl same).imp
    rintro result store' last ⟨unchanged, lastSame⟩
    exact ⟨lastSame, fun _ => by rw [unchanged]; exact marked⟩
  rcases held : disk.checkpoint with _ | payload
  · apply Ensures.pure
    rw [← held]
    exact recovers (by rw [Directory.mark, held, fresh])
  · dsimp only
    rcases read : Checkpoint.unmarshal payload with _ | checkpoint
    · exact Ensures.fail ⟨same.trans held, nofun⟩
    · apply Ensures.ite
      · intro _
        exact Ensures.fail ⟨same.trans held, nofun⟩
      · intro _
        apply Ensures.modify
        rw [← held]
        refine recovers ?_
        rw [Directory.mark, held]
        simp [read]

omit [FloatText] [Ed25519] in
theorem compactFrom_neutral (currentPath : Bytes) (segments : List SegmentMeta) :
    Neutral (compactFrom currentPath segments) := by
  intro committed checkpoint
  induction segments with
  | nil => exact Preserves.pure _
  | cons segment rest induction =>
    apply Preserves.getState
    intro store
    refine Preserves.ite ?_ ?_
    · refine Preserves.bind (Preserves.write fun _ same => same) fun _ => ?_
      exact Preserves.bind (Preserves.modify fun _ same => same) fun _ => induction
    · exact Preserves.bind induction fun _ => Preserves.pure _

omit [FloatText] [Ed25519] in
theorem compact_neutral : Neutral compact := by
  intro committed checkpoint
  apply Preserves.getState
  intro store
  split
  · exact Preserves.pure _
  · refine Preserves.ite (Preserves.pure _) ?_
    exact Preserves.bind (compactFrom_neutral _ _ _ _) fun _ => Preserves.modify fun _ same => same

def Store.checkpointAt (store : Store) (sequence : Nat) : Bytes :=
  Checkpoint.marshal ⟨format, checkpointVersion, sequence, store.sourceSequence⟩

omit [FloatText] [Ed25519] in
theorem commit_ensures_mark (sequence : Nat) (store : Store) (disk : Directory) :
    Ensures (commit sequence) store disk
      (fun passed => sequence = store.committed + 1 ∧
        passed.checkpoint = some (store.checkpointAt sequence))
      fun _ store' last =>
        store'.committed = store.committed ∧ last.checkpoint = disk.checkpoint ∨
        sequence = store.committed + 1 ∧ store'.committed = sequence ∧
          last.checkpoint = some (store.checkpointAt sequence) := by
  apply Ensures.getState
  split
  · exact Ensures.fail (.inl ⟨rfl, rfl⟩)
  split
  · exact Ensures.fail (.inl ⟨rfl, rfl⟩)
  split
  · exact Ensures.pure (.inl ⟨rfl, rfl⟩)
  split
  · exact Ensures.fail (.inl ⟨rfl, rfl⟩)
  rename_i next
  rw [not_not] at next
  split
  · exact Ensures.fail (.inl ⟨rfl, rfl⟩)
  apply Ensures.bind
  apply Ensures.noting
  apply Ensures.getState
  apply Ensures.write ⟨next, rfl⟩
  apply Ensures.modify_then
  apply (compact_neutral.noting sequence (some (store.checkpointAt sequence)) _ _ rfl rfl).mono
  · exact fun _ same => ⟨next, same⟩
  · rintro _ store' last ⟨committed, checkpoint⟩
    exact .inr ⟨next, committed, checkpoint⟩

omit [FloatText] [Ed25519] in
theorem unmarshal_committed {committed : Nat} {sources : SortedMap Bytes Nat}
    {checkpoint : Checkpoint} (read : Checkpoint.unmarshal
      (Checkpoint.marshal ⟨format, checkpointVersion, committed, sources⟩) = some checkpoint) :
    checkpoint.committedSequence = committed := by
  have written (limit : Nat) := Checkpoint.members_written
    ⟨format, checkpointVersion, committed, sources⟩ (show 0 ≤ checkpointVersion by decide) limit
  rw [Checkpoint.unmarshal, Checkpoint.marshal,
    firstValue_renderIndented (written_structTokens (written 9998)), bind_some,
    indent_tokens, decodeStruct_tokens _ _ _ (written 9999)] at read
  simp only [Checkpoint.members, flatten_cons, flatten_nil, append_nil, foldlM_append, foldlM_cons,
    foldlM_nil, Pure.pure, Bind.bind, bind_eq_some_iff, some.injEq, exists_eq_right] at read
  rcases read with ⟨first, _, second, _, third, isSet, last⟩
  have sequence : third.committedSequence = committed := by
    simp only [Checkpoint.setField, decodeUint64_natTokens] at isSet
    split_ifs at isSet
    · cases isSet
      rfl
    · cases isSet
  rw [← sequence]
  unfold optionalField at last
  split_ifs at last
  · simp only [foldlM_cons, foldlM_nil, Pure.pure, Bind.bind, bind_eq_some_iff,
      Checkpoint.setField, map_eq_some_iff, some.injEq, exists_eq_right] at last
    rcases last with ⟨map, _, rfl⟩
    rfl
  · cases last
    rfl

theorem passes_checkpoint (config : Config) (host : Host) {action : Action}
    (other : ∀ sequence, action ≠ .commit sequence) :
    ∀ passed ∈ host.passes config action, passed.checkpoint = host.directory.checkpoint := by
  intro passed member
  cases action with
  | opening generated clock =>
    have opens := (load_ensures_mark config generated clock host.directory).along
    rw [Host.passes] at member
    split at member
    · exact opens passed member
    · split_ifs at member
      · exact opens passed member
      · cases member
  | append topic event clock =>
    rw [Host.passes] at member
    split at member
    · cases member
    · rename_i store _
      exact (append_neutral topic event clock store.committed _ store host.directory rfl
        rfl).along passed member
  | commit sequence => exact absurd rfl (other sequence)
  | close clock =>
    rw [Host.passes] at member
    split at member
    · cases member
    · rename_i store _
      exact (close_neutral clock store.committed _ store host.directory rfl rfl).along passed member

structure Stays (host after : Host) : Prop where
  checkpoint : after.directory.checkpoint = host.directory.checkpoint
  committed : ∀ store, after.store = some store →
    (∃ before, host.store = some before ∧ store.committed = before.committed) ∨
      host.directory.mark = some store.committed

omit [FloatText] [Ed25519] in
theorem Stays.refl (host : Host) : Stays host host :=
  ⟨rfl, fun store found => .inl ⟨store, found, rfl⟩⟩

omit [FloatText] [Ed25519] in
theorem stays_finish {host : Host} {store : Store} (found : host.store = some store) {α : Type}
    {call : Call α} (neutral : Neutral call) (records : List Record) :
    Stays host (host.finish (call store host.directory) records) := by
  have kept := (neutral store.committed host.directory.checkpoint store host.directory rfl rfl).post
  refine ⟨kept.2, fun after same => .inl ⟨store, found, ?_⟩⟩
  rw [← some.inj same]
  exact kept.1

theorem stays_reopen (config : Config) (generated : Bytes) (clock : Clock) (host : Host) :
    Stays host (host.reopen config generated clock) := by
  rcases (load_ensures_mark config generated clock host.directory).post with ⟨same, marked⟩
  rw [Host.reopen]
  split
  · rename_i result
    refine ⟨same, fun store found => .inr ?_⟩
    rw [← some.inj found]
    exact marked result
  · exact ⟨same, fun store found => absurd found (by simp)⟩

theorem stays_act (config : Config) (host : Host) {action : Action}
    (other : ∀ sequence, action ≠ .commit sequence) : Stays host (host.act config action) := by
  cases action with
  | opening generated clock =>
    rw [Host.act]
    split
    · exact stays_reopen config generated clock host
    · split_ifs
      · exact stays_reopen config generated clock host
      · exact Stays.refl host
  | append topic event clock =>
    rw [Host.act]
    split
    · exact Stays.refl host
    · rename_i store found
      exact stays_finish found (append_neutral topic event clock) _
  | commit sequence => exact absurd rfl (other sequence)
  | close clock =>
    rw [Host.act]
    split
    · exact Stays.refl host
    · rename_i store found
      exact stays_finish found (close_neutral clock) _

structure Moves (sequence : Nat) (host after : Host) : Prop where
  moved : ∃ store, host.store = some store ∧ sequence = store.committed + 1 ∧
    after.directory.checkpoint = some (store.checkpointAt sequence)
  committed : ∀ store, after.store = some store → store.committed = sequence

theorem act_commit_change (config : Config) (host : Host) (sequence : Nat) :
    Stays host (host.act config (.commit sequence)) ∨
      Moves sequence host (host.act config (.commit sequence)) := by
  rcases found : host.store with _ | store
  · left
    simp only [Host.act, found]
    exact Stays.refl host
  · rw [Host.act_commit found]
    rcases (commit_ensures_mark sequence store host.directory).post with
      ⟨committed, checkpoint⟩ | ⟨next, committed, checkpoint⟩
    · refine .inl ⟨checkpoint, fun after same => .inl ⟨store, found, ?_⟩⟩
      rw [← some.inj same]
      exact committed
    · refine .inr ⟨⟨store, found, next, checkpoint⟩, fun after same => ?_⟩
      rw [← some.inj same]
      exact committed

omit [FloatText] [Ed25519] in
theorem mark_of_checkpoint {left right : Directory} (same : left.checkpoint = right.checkpoint) :
    left.mark = right.mark := by
  rw [Directory.mark, Directory.mark, same]

omit [FloatText] [Ed25519] in
theorem Moves.mark_eq {sequence : Nat} {host after : Host} (moves : Moves sequence host after)
    {committed : Nat} (marked : after.directory.mark = some committed) : committed = sequence := by
  rcases moves.moved with ⟨store, _, _, checkpoint⟩
  rw [Directory.mark, checkpoint] at marked
  rcases map_eq_some_iff.mp marked with ⟨read, unmarshalled, rfl⟩
  exact unmarshal_committed unmarshalled

theorem wreck_cases (config : Config) (host : Host) (action : Action) (point : Nat)
    (kept : Bytes → Nat) :
    (host.wreck config action point kept).checkpoint = host.directory.checkpoint ∨
      ∃ passed ∈ host.passes config action,
        (host.wreck config action point kept).checkpoint = passed.checkpoint := by
  rw [Host.wreck]
  rcases reached : (host.directory :: host.passes config action)[point]? with _ | disk
  · exact .inl rfl
  · rcases mem_cons.mp (mem_of_getElem? reached) with rfl | member
    · exact .inl rfl
    · exact .inr ⟨disk, member, rfl⟩

end TelemetryForge.Wal
