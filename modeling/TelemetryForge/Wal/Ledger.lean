import TelemetryForge.Wal.Spoiled

/-! # The account of the segment files

The store counts the bytes of its segment files. The count is exact whatever the records
are, and appending, committing and closing keep it within the configured maximum. -/

namespace TelemetryForge.Wal

open Json Program List

def Directory.sizes (disk : Directory) : List (Bytes × Int) :=
  disk.segments.entries.map fun entry => (entry.1, (entry.2.content.length : Int))

def Directory.size (disk : Directory) : Int := (disk.sizes.map Prod.snd).sum

def SegmentMeta.sized (segment : SegmentMeta) : Bytes × Int := (segment.path, segment.size)

@[simp] theorem SegmentMeta.sized_fst (segment : SegmentMeta) : segment.sized.1 = segment.path :=
  rfl

@[simp] theorem SegmentMeta.sized_snd (segment : SegmentMeta) : segment.sized.2 = segment.size :=
  rfl

def Store.ledger (store : Store) : List (Bytes × Int) := store.segments.map SegmentMeta.sized

def bump (name : Bytes) (bytes : Int) (entry : Bytes × Int) : Bytes × Int :=
  (entry.1, if entry.1 = name then entry.2 + bytes else entry.2)

variable {name : Bytes} {store : Store} {disk : Directory} {ledger : List (Bytes × Int)}

theorem nodup_sizes (disk : Directory) : (disk.sizes.map Prod.fst).Nodup := by
  rw [Directory.sizes, map_map]
  exact disk.segments.nodup_keys

theorem map_bump_of_absent (absent : ∀ entry ∈ ledger, entry.1 ≠ name) (bytes : Int) :
    ledger.map (bump name bytes) = ledger := by
  induction ledger with
  | nil => rfl
  | cons entry rest induction =>
    rw [forall_mem_cons] at absent
    rw [map_cons, induction absent.2, bump, if_neg absent.1]

theorem map_bump_last {size : Int} (distinct : ((ledger ++ [(name, size)]).map Prod.fst).Nodup)
    (bytes : Int) : (ledger ++ [(name, size)]).map (bump name bytes) =
      ledger ++ [(name, size + bytes)] := by
  have absent : ∀ entry ∈ ledger, entry.1 ≠ name := by
    rw [map_append, nodup_append] at distinct
    intro entry member
    exact distinct.2.2 entry.1 (mem_map_of_mem member) name (by simp)
  rw [map_append, map_bump_of_absent absent]
  simp [bump]

theorem sizes_changeFile {change : File → File} {bytes : Nat}
    (grows : ∀ file, (change file).content.length = file.content.length + bytes) :
    (disk.changeFile name change).sizes = disk.sizes.map (bump name bytes) := by
  simp only [Directory.sizes, Directory.changeFile, SortedMap.entries_adjust, map_map]
  apply map_congr_left
  intro entry member
  simp only [Function.comp_apply, bump, Prod.mk.injEq, true_and]
  split_ifs
  · rw [grows]
    push_cast
    rfl
  · rfl

theorem sizes_createFile (absent : disk.segments.find? name = none) :
    (disk.createFile name).sizes.Perm ((name, 0) :: disk.sizes) :=
  (SortedMap.insert_perm absent ⟨[], []⟩).map _

theorem sizes_removeFile (disk : Directory) (name : Bytes) : (disk.removeFile name).sizes =
      disk.sizes.filter fun entry => decide (entry.1 ≠ name) := by
  simp only [Directory.sizes, Directory.removeFile, SortedMap.entries_erase, filter_map]
  congr 1
  apply filter_congr
  intro entry member
  rw [Function.comp_apply, decide_eq_decide]

structure Budgeted (store : Store) (directory : Directory) : Prop where
  files : store.ledger.Perm directory.sizes
  total : store.totalBytes = (store.ledger.map Prod.snd).sum
  current : ∀ name, store.current = some name →
    store.ledger.getLast? = some (name, store.currentSize)
  within : ∀ entry ∈ directory.sizes, entry.2 ≤ store.segmentBytes
  positive : (segmentHeaderBytes : Int) < store.segmentBytes
  pressed : 2 * store.segmentBytes ≤ store.maxBytes → store.pressure = true →
    1 < store.segments.length

theorem Budgeted.totalBytes (budgeted : Budgeted store disk) :
    store.totalBytes = disk.size := by
  rw [budgeted.total, Directory.size]
  exact (budgeted.files.map Prod.snd).sum_eq

theorem Budgeted.nodup (budgeted : Budgeted store disk) : (store.ledger.map Prod.fst).Nodup :=
  (budgeted.files.map Prod.fst).nodup_iff.mpr (nodup_sizes disk)

theorem sum_le_of_single {limit : Int} (within : ∀ entry ∈ ledger, entry.2 ≤ limit)
    (positive : 0 < limit) (single : ledger.length ≤ 1) :
    (ledger.map Prod.snd).sum ≤ limit := by
  rcases ledger with _ | ⟨first, _ | ⟨second, rest⟩⟩
  · simpa using positive.le
  · simpa using within first (by simp)
  · simp at single

theorem Budgeted.single (budgeted : Budgeted store disk)
    (single : store.segments.length ≤ 1) : store.totalBytes ≤ store.segmentBytes := by
  have positive := budgeted.positive
  rw [budgeted.total]
  refine sum_le_of_single ?_ (by omega) (by simpa [Store.ledger] using single)
  exact fun entry member => budgeted.within entry (budgeted.files.mem_iff.mp member)

structure SameLimits (store store' : Store) : Prop where
  segmentBytes : store'.segmentBytes = store.segmentBytes
  maxBytes : store'.maxBytes = store.maxBytes

theorem Budgeted.congr {store' : Store} {disk' : Directory}
    (budgeted : Budgeted store disk) (ledger : store'.ledger = store.ledger)
    (total : store'.totalBytes = store.totalBytes) (current : store'.current = none ∨
      store'.current = store.current ∧ store'.currentSize = store.currentSize)
    (limits : SameLimits store store') (pressure : store'.pressure = store.pressure)
    (sizes : disk'.sizes = disk.sizes) : Budgeted store' disk' where
  files := by
    rw [ledger, sizes]
    exact budgeted.files
  total := by
    rw [total, ledger]
    exact budgeted.total
  current := by
    intro name found
    rcases current with none | ⟨same, size⟩
    · rw [none] at found
      cases found
    · rw [ledger, size]
      exact budgeted.current name (same ▸ found)
  within := by
    rw [sizes, limits.segmentBytes]
    exact budgeted.within
  positive := by
    rw [limits.segmentBytes]
    exact budgeted.positive
  pressed := by
    have length : store'.segments.length = store.segments.length := by
      simpa [Store.ledger] using congrArg length ledger
    rw [limits.segmentBytes, limits.maxBytes, pressure, length]
    exact budgeted.pressed

theorem Budgeted.fail (budgeted : Budgeted store disk) (failure : Failure) :
    Budgeted (store.fail failure) disk ∧ SameLimits store (store.fail failure) ∧
      (store.fail failure).totalBytes = store.totalBytes := by
  rw [Store.fail]
  split
  · exact ⟨budgeted.congr rfl rfl (.inr ⟨rfl, rfl⟩) ⟨rfl, rfl⟩ rfl rfl, ⟨rfl, rfl⟩, rfl⟩
  · exact ⟨budgeted, ⟨rfl, rfl⟩, rfl⟩

theorem SameLimits.trans {store' store'' : Store} (first : SameLimits store store')
    (second : SameLimits store' store'') : SameLimits store store'' :=
  ⟨second.segmentBytes.trans first.segmentBytes, second.maxBytes.trans first.maxBytes⟩

variable [FloatText]

def KeepsBudget (store store' : Store) (disk : Directory) : Prop :=
  Budgeted store' disk ∧ SameLimits store store' ∧
    store'.totalBytes ≤ max store.totalBytes store.maxBytes

section

omit [FloatText]

theorem Budgeted.keeps (budgeted : Budgeted store disk) : KeepsBudget store store disk :=
  ⟨budgeted, ⟨rfl, rfl⟩, le_max_left _ _⟩

theorem header_grows (file : File) : ((File.sync ∘ File.append segmentHeader) file).content.length =
    file.content.length + segmentHeaderBytes := by
  have header : segmentHeader.length = segmentHeaderBytes := rfl
  simp only [Function.comp_apply, File.sync, File.append, File.content, append_nil,
    length_append, header]
  omega

theorem createSegment_budget (budgeted : Budgeted store disk) (sequence : Nat) :
    Ensures (createSegment sequence) store disk (fun _ => True) fun result store' disk' =>
        match result with
        | .ok () => Budgeted store' disk' ∧ ∃ segment : SegmentMeta,
            store' = { store with
              current := some (segmentName sequence)
              currentSize := segmentHeaderBytes
              totalBytes := store.totalBytes + segmentHeaderBytes
              segments := store.segments ++ [segment] }
        | .error _ => store' = store ∧ disk' = disk := by
  apply Ensures.getDisk
  simp only
  split
  · exact Ensures.fail ⟨rfl, rfl⟩
  rename_i absent
  have absent : disk.segments.find? (segmentName sequence) = none := by simpa using absent
  refine Ensures.write_then trivial (Ensures.write_then trivial (Ensures.write_then trivial ?_))
  apply Ensures.modify
  rw [changeFile_changeFile]
  have notListed : ∀ entry ∈ disk.sizes, entry.1 ≠ segmentName sequence := by
    have different := (disk.segments.find?_eq_none_iff _).mp absent
    intro entry member
    rcases mem_map.mp member with ⟨file, listed, rfl⟩
    exact different file listed
  have sizes : ((disk.createFile (segmentName sequence)).changeFile (segmentName sequence)
      (File.sync ∘ File.append segmentHeader)).sizes.Perm
      ((segmentName sequence, (segmentHeaderBytes : Int)) :: disk.sizes) := by
    have grown := (sizes_createFile absent).map (bump (segmentName sequence) segmentHeaderBytes)
    rw [map_cons, map_bump_of_absent notListed] at grown
    rw [sizes_changeFile header_grows]
    simpa [bump] using grown
  have ledger (segment : SegmentMeta)
      (sized : segment.sized = (segmentName sequence, (segmentHeaderBytes : Int))) :
      (store.segments ++ [segment]).map SegmentMeta.sized =
        store.ledger ++ [(segmentName sequence, (segmentHeaderBytes : Int))] := by
    simp [Store.ledger, sized]
  refine ⟨⟨?_, ?_, ?_, ?_, budgeted.positive, ?_⟩, _, rfl⟩
  · rw [Store.ledger, ledger _ rfl]
    exact (perm_append_singleton _ _).trans ((budgeted.files.cons _).trans sizes.symm)
  · rw [Store.ledger, ledger _ rfl]
    simp [budgeted.total]
  · rintro name ⟨⟩
    rw [Store.ledger, ledger _ rfl, getLast?_concat]
  · intro entry member
    rcases mem_cons.mp (sizes.mem_iff.mp member) with rfl | member
    · exact budgeted.positive.le
    · exact budgeted.within entry member
  · intro large pressure
    have several := budgeted.pressed large pressure
    simp only [length_append, length_singleton]
    omega

end

variable [Ed25519]

section

omit [FloatText] [Ed25519]

structure SealsOnly (store : Store) (directory : Directory) (store' : Store)
    (directory' : Directory) : Prop where
  ledger : store'.ledger = store.ledger
  sizes : directory'.sizes = directory.sizes
  rest : store' = { store with
    segments := store'.segments, lastSegmentRoot := store'.lastSegmentRoot
    sealedSegments := store'.sealedSegments }

theorem SealsOnly.budgeted {store' : Store} {disk' : Directory}
    (seals : SealsOnly store disk store' disk') (budgeted : Budgeted store disk) :
    Budgeted store' disk' := by
  have rest := seals.rest
  refine budgeted.congr seals.ledger ?_ (.inr ⟨?_, ?_⟩) ⟨?_, ?_⟩ ?_ seals.sizes <;> rw [rest]

theorem SealsOnly.trans {store' store'' : Store} {disk' disk'' : Directory}
    (first : SealsOnly store disk store' disk') (second : SealsOnly store' disk' store'' disk'') :
    SealsOnly store disk store'' disk'' := by
  refine ⟨second.ledger.trans first.ledger, second.sizes.trans first.sizes, ?_⟩
  rw [second.rest, first.rest]

end

theorem sealSegment_budget {index : Nat} {segment : SegmentMeta}
    (found : store.segments[index]? = some segment) (clock : Clock) :
    Ensures (sealSegment index segment clock) store disk (fun _ => True)
      fun _ store' disk' => SealsOnly store disk store' disk' ∧
        ∀ other, other ≠ index → store'.segments[other]? = store.segments[other]? := by
  have unchanged : SealsOnly store disk store disk ∧
      ∀ other, other ≠ index → store.segments[other]? = store.segments[other]? :=
    ⟨⟨rfl, rfl, rfl⟩, fun _ _ => rfl⟩
  have ledger (sealed : SegmentMeta) (same : sealed.sized = segment.sized) :
      (store.segments.set index sealed).map SegmentMeta.sized = store.ledger := by
    rcases List.getElem?_eq_some_iff.mp found with ⟨inside, rfl⟩
    have listed : (store.segments.get ⟨index, inside⟩).sized =
        (store.segments.map SegmentMeta.sized).get ⟨index, by simpa using inside⟩ := by
      simp
    rw [List.map_set, same]
    exact listed ▸ List.set_getElem_self _
  rw [sealSegment]
  split
  · exact Ensures.pure unchanged
  apply Ensures.bind
  apply (scanSegment_reads segment.path).imp
  rintro (failure | scanned) store' disk' ⟨rfl, rfl⟩
  · exact unchanged
  change Ensures _ _ _ _ _
  split
  · exact Ensures.fail unchanged
  split
  · split
    · exact Ensures.fail unchanged
    · apply Ensures.getState
      split
      · exact Ensures.fail unchanged
      · apply Ensures.bind
        apply Ensures.getDisk
        split
        · exact Ensures.fail unchanged
        split
        · exact Ensures.fail unchanged
        · apply Ensures.write trivial
          apply Ensures.modify
          refine ⟨⟨ledger _ rfl, rfl, rfl⟩, fun other different => ?_⟩
          exact List.getElem?_set_ne (Ne.symm different)
  · exact Ensures.pure unchanged

theorem sealLast_budget (clock : Clock) :
    Ensures (sealLast clock) store disk (fun _ => True)
      fun _ store' disk' => SealsOnly store disk store' disk' := by
  apply Ensures.getState
  split
  · exact Ensures.pure ⟨rfl, rfl, rfl⟩
  · rename_i segment last
    apply (sealSegment_budget (by rw [← getLast?_eq_getElem?, last]) clock).imp
    exact fun _ _ _ post => post.1

omit [FloatText] [Ed25519] in
theorem sizes_sync (disk : Directory) (name : Bytes) :
    (disk.changeFile name File.sync).sizes = disk.sizes := by
  have grows (file : File) : (File.sync file).content.length = file.content.length + 0 := by
    simp [File.sync, File.content]
  have same (entry : Bytes × Int) : bump name (0 : Nat) entry = entry := by
    simp [bump]
  rw [sizes_changeFile grows, map_congr_left (fun entry _ => same entry), map_id']

theorem rotate_budget (budgeted : Budgeted store disk) (next : Nat) (clock : Clock) :
    Ensures (rotate next clock) store disk (fun _ => True)
      fun result store' disk' => Budgeted store' disk' ∧ SameLimits store store' ∧
        match result with
        | .ok () => store'.currentSize = segmentHeaderBytes ∧
            store'.totalBytes = store.totalBytes + segmentHeaderBytes
        | .error _ => store'.totalBytes = store.totalBytes := by
  have creates {other : Store} {disk' : Directory} (budgeted' : Budgeted other disk')
      (limits : SameLimits store other) (total : other.totalBytes = store.totalBytes) :
      Ensures (createSegment next) other disk' (fun _ => True)
        fun result store' disk' => Budgeted store' disk' ∧ SameLimits store store' ∧
          match result with
          | .ok () => store'.currentSize = segmentHeaderBytes ∧
              store'.totalBytes = store.totalBytes + segmentHeaderBytes
          | .error _ => store'.totalBytes = store.totalBytes := by
    apply (createSegment_budget budgeted' next).imp
    rintro (failure | _) store' disk' post
    · rcases post with ⟨rfl, rfl⟩
      exact ⟨budgeted', limits, total⟩
    · rcases post with ⟨created, segment, rfl⟩
      exact ⟨created, ⟨limits.segmentBytes, limits.maxBytes⟩, rfl, by rw [← total]⟩
  apply Ensures.getState
  split
  · exact creates budgeted ⟨rfl, rfl⟩ rfl
  rename_i name current
  apply Ensures.write_then trivial
  apply Ensures.modify_then
  have left : Budgeted { store with current := none } (disk.changeFile name File.sync) :=
    budgeted.congr rfl rfl (.inl rfl) ⟨rfl, rfl⟩ rfl (sizes_sync disk name)
  apply Ensures.bind
  apply (sealLast_budget clock).imp
  intro result store' disk' seals
  have budgeted' := seals.budgeted left
  have rest := seals.rest
  have limits : SameLimits store store' := ⟨by rw [rest], by rw [rest]⟩
  have total : store'.totalBytes = store.totalBytes := by rw [rest]
  cases result with
  | error failure => exact ⟨budgeted', limits, total⟩
  | ok done => exact creates budgeted' limits total

omit [FloatText] [Ed25519] in
theorem frame_grows (payload : Bytes) (file : File) :
    ((File.sync ∘ File.append (FrameLog.frame payload)) file).content.length =
      file.content.length + (FrameLog.headerBytes + payload.length) := by
  simp only [Function.comp_apply, File.sync, File.append, File.content, append_nil,
    length_append, FrameLog.frame_length]
  omega

omit [FloatText] [Ed25519] in
theorem writeRecord_budget (budgeted : Budgeted store disk) (record : Record) {payload : Bytes}
    (fits : store.currentSize + (FrameLog.headerBytes + payload.length : Nat) ≤ store.segmentBytes) :
    Ensures (writeRecord record payload) store disk (fun _ => True)
      fun _ store' disk' => Budgeted store' disk' ∧ SameLimits store store' ∧
        (store'.totalBytes = store.totalBytes ∨ store'.totalBytes =
          store.totalBytes + (FrameLog.headerBytes + payload.length : Nat)) := by
  rcases current : store.current with _ | name
  · -- Without an open segment nothing is written.
    apply Ensures.bind
    apply Ensures.noting
    apply Ensures.getState
    simp only [current]
    exact Ensures.fail ⟨(budgeted.fail _).1, (budgeted.fail _).2.1, .inl (budgeted.fail _).2.2⟩
  · apply (writeRecord_current current record payload).imp
    rintro result store' disk' ⟨rfl, rfl, rfl⟩
    have listed := budgeted.current name current
    rcases eq_nil_or_concat' store.segments with empty | ⟨initial, last, shape⟩
    · simp [Store.ledger, empty] at listed
    have final : last.sized = (name, store.currentSize) := by
      simpa [Store.ledger, shape] using listed
    have before : store.ledger = initial.map SegmentMeta.sized ++ [(name, store.currentSize)] := by
      simp [Store.ledger, shape, final]
    have after : (store.noteAppended record (FrameLog.headerBytes + payload.length)).ledger =
        initial.map SegmentMeta.sized ++
          [(name, store.currentSize + (FrameLog.headerBytes + payload.length : Nat))] := by
      have path : last.path = name := (Prod.mk.inj final).1
      rw [Store.ledger, noteAppended_last (by rw [shape, getLast?_concat]), shape,
        dropLast_concat, map_append]
      simp [SegmentMeta.sized, path]
    have grown : (store.noteAppended record (FrameLog.headerBytes + payload.length)).ledger =
        store.ledger.map (bump name (FrameLog.headerBytes + payload.length : Nat)) := by
      have distinct := budgeted.nodup
      rw [before] at distinct ⊢
      rw [after, map_bump_last distinct]
    have files : (store.noteAppended record (FrameLog.headerBytes + payload.length)).ledger.Perm
        (disk.changeFile name (File.sync ∘ File.append (FrameLog.frame payload))).sizes := by
      rw [grown, sizes_changeFile (frame_grows payload)]
      exact budgeted.files.map _
    refine ⟨⟨files, ?_, ?_, ?_, budgeted.positive, ?_⟩, ⟨rfl, rfl⟩, .inr rfl⟩
    · have total := budgeted.total
      rw [before, map_append, sum_append] at total
      rw [after, map_append, sum_append]
      change store.totalBytes + _ = _
      rw [total, Int.add_assoc]
      simp
    · intro other found
      obtain rfl : name = other := Option.some.inj (current.symm.trans found)
      rw [after, getLast?_concat]
      rfl
    · intro entry member
      rw [← files.mem_iff, after, mem_append, mem_singleton] at member
      rcases member with member | rfl
      · refine budgeted.within entry (budgeted.files.mem_iff.mp ?_)
        rw [before]
        exact mem_append_left _ member
      · exact fits
    · intro large pressure
      have several := budgeted.pressed large pressure
      simpa [Store.noteAppended] using several

theorem append_budget (budgeted : Budgeted store disk) (topic : Bytes) (event : Event)
    (clock : Clock) : Ensures (append topic event clock) store disk (fun _ => True)
      fun _ store' disk' => KeepsBudget store store' disk' := by
  apply Ensures.getState
  rcases prepared : store.prepare topic event clock.accepted with failure | ⟨record, payload⟩
  · exact Ensures.fail budgeted.keeps
  have alone := (prepare_ok prepared).alone
  have pressed (full : store.maxBytes <
      store.totalBytes + segmentHeaderBytes + (FrameLog.headerBytes + payload.length : Nat)) :
      Ensures underPressure store disk (fun _ => True)
        fun _ store' disk' => KeepsBudget store store' disk' := by
    apply Ensures.modify_then
    refine Ensures.fail ⟨⟨budgeted.files, budgeted.total, budgeted.current, budgeted.within,
      budgeted.positive, ?_⟩, ⟨rfl, rfl⟩, le_max_left _ _⟩
    intro large _
    by_contra single
    have small := budgeted.single (by simpa using single)
    simp only at large
    omega
  simp only
  split_ifs with full rotates fullRotated
  · exact pressed (by omega)
  · exact pressed (by omega)
  · apply Ensures.bind
    apply Ensures.noting
    apply (rotate_budget budgeted record.edgeSequence clock).imp
    rintro (failure | done) store' disk' ⟨budgeted', limits, post⟩
    · rcases budgeted'.fail failure with ⟨failed, limits', total⟩
      refine ⟨failed, limits.trans limits', ?_⟩
      rw [total, post]
      exact le_max_left _ _
    · have room : store'.currentSize + (FrameLog.headerBytes + payload.length : Nat) ≤
          store'.segmentBytes := by
        rw [post.1, limits.segmentBytes]
        omega
      apply (writeRecord_budget budgeted' record room).imp
      rintro result store'' disk'' ⟨budgeted'', limits', total⟩
      exact ⟨budgeted'', limits.trans limits', le_max_of_le_right (by omega)⟩
  · have room : store.currentSize + (FrameLog.headerBytes + payload.length : Nat) ≤
        store.segmentBytes := by omega
    apply (writeRecord_budget budgeted record room).imp
    rintro result store' disk' ⟨budgeted', limits, total⟩
    refine ⟨budgeted', limits, ?_⟩
    rcases total with same | grown
    · exact le_max_of_le_left same.le
    · exact le_max_of_le_right (by omega)

section

omit [FloatText] [Ed25519]

theorem sizes_nonneg {entry : Bytes × Int} (member : entry ∈ disk.sizes) : 0 ≤ entry.2 := by
  rcases mem_map.mp member with ⟨file, _, rfl⟩
  exact Int.natCast_nonneg _

theorem filter_ledger {others rest : List SegmentMeta} {segment : SegmentMeta}
    (distinct : (((others ++ segment :: rest).map SegmentMeta.sized).map Prod.fst).Nodup) :
    ((others ++ segment :: rest).map SegmentMeta.sized).filter
        (fun entry => decide (entry.1 ≠ segment.path)) =
      (others ++ rest).map SegmentMeta.sized := by
  rw [map_map, map_append, map_cons, nodup_append, nodup_cons] at distinct
  have before : ∀ other ∈ others, other.path ≠ segment.path := fun other member =>
    distinct.2.2 other.path (mem_map_of_mem member) segment.path mem_cons_self
  have after : ∀ other ∈ rest, other.path ≠ segment.path := fun other member same =>
    distinct.2.1.1 (mem_map.mpr ⟨other, member, same⟩)
  rw [map_append, filter_append, map_cons, filter_cons_of_neg (by simp), map_append]
  congr 1
  · rw [filter_eq_self]
    intro entry member
    rcases mem_map.mp member with ⟨other, listed, rfl⟩
    exact decide_eq_true (before other listed)
  · rw [filter_eq_self]
    intro entry member
    rcases mem_map.mp member with ⟨other, listed, rfl⟩
    exact decide_eq_true (after other listed)

theorem compactFrom_budget {others segments : List SegmentMeta}
    (files : ((others ++ segments).map SegmentMeta.sized).Perm disk.sizes) :
    Ensures (compactFrom name segments) store disk (fun _ => True)
      fun result store' disk' => ∃ kept, result = .ok kept ∧
        ((others ++ kept).map SegmentMeta.sized).Perm disk'.sizes ∧
        (∀ entry ∈ disk'.sizes, entry ∈ disk.sizes) ∧
        store'.totalBytes ≤ store.totalBytes ∧
        store'.totalBytes + (segments.map SegmentMeta.size).sum =
          store.totalBytes + (kept.map SegmentMeta.size).sum := by
  induction segments generalizing others store disk with
  | nil => exact Ensures.pure ⟨[], rfl, files, fun _ member => member, le_rfl, rfl⟩
  | cons segment rest induction =>
    apply Ensures.getState
    split_ifs with removed
    · apply Ensures.write_then trivial
      apply Ensures.modify_then
      have remaining : ((others ++ rest).map SegmentMeta.sized).Perm
          (disk.removeFile segment.path).sizes := by
        rw [sizes_removeFile]
        refine .trans (.of_eq ?_) (files.filter _)
        exact (filter_ledger (List.Perm.nodup_iff (files.map Prod.fst) |>.mpr
          (nodup_sizes disk))).symm
      apply (induction remaining).imp
      rintro result store' disk' ⟨kept, rfl, files', fewer, less, total⟩
      simp only at less total
      refine ⟨kept, rfl, files', ?_, ?_, ?_⟩
      · intro entry member
        have listed := fewer entry member
        rw [sizes_removeFile] at listed
        exact mem_of_mem_filter listed
      · have nonneg : 0 ≤ segment.size := sizes_nonneg (files.mem_iff.mp
          (mem_map_of_mem (mem_append_right others mem_cons_self)))
        omega
      · simp only [map_cons, sum_cons]
        omega
    · apply Ensures.bind
      have remaining : (((others ++ [segment]) ++ rest).map SegmentMeta.sized).Perm disk.sizes := by
        simpa using files
      apply (induction remaining).imp
      rintro result store' disk' ⟨kept, rfl, files', fewer, less, total⟩
      refine Ensures.pure ⟨segment :: kept, rfl, by simpa using files', fewer, less, ?_⟩
      simp only [map_cons, sum_cons]
      omega

theorem compact_budget (budgeted : Budgeted store disk) :
    Ensures compact store disk (fun _ => True)
      fun _ store' disk' => KeepsBudget store store' disk' := by
  apply Ensures.getState
  split
  · exact Ensures.pure budgeted.keeps
  rename_i last found
  split
  · exact Ensures.pure budgeted.keeps
  have files : (([] ++ store.segments).map SegmentMeta.sized).Perm disk.sizes := budgeted.files
  apply Ensures.bind
  apply ((compactFrom_budget files).and (compactFrom_last store.segments)).imp
  rintro result store' disk' ⟨⟨kept, rfl, files', fewer, less, total⟩,
    again, same, _, _, ends, rest⟩
  cases same
  apply Ensures.modify
  have lists : ({ store' with
      segments := kept
      pressure := if store'.totalBytes < store'.maxBytes then false else store'.pressure } :
      Store).ledger = kept.map SegmentMeta.sized := rfl
  have counted : store'.totalBytes = (kept.map SegmentMeta.size).sum := by
    have before := budgeted.total
    rw [Store.ledger, map_map] at before
    change store.totalBytes = (store.segments.map SegmentMeta.size).sum at before
    omega
  have limits : SameLimits store store' := ⟨by rw [rest], by rw [rest]⟩
  have within : ∀ entry ∈ disk'.sizes, entry.2 ≤ store'.segmentBytes := by
    rw [limits.segmentBytes]
    exact fun entry member => budgeted.within entry (fewer entry member)
  refine ⟨⟨files', ?_, ?_, within, ?_, ?_⟩, ⟨limits.segmentBytes, limits.maxBytes⟩,
    le_max_of_le_left less⟩
  · rw [lists, map_map]
    exact counted
  · intro name current
    have current : store.current = some name := by
      rw [rest] at current
      exact current
    have size : store'.currentSize = store.currentSize := by rw [rest]
    have before := budgeted.current name current
    rw [Store.ledger, getLast?_map, found] at before
    rw [lists, getLast?_map, ends last found rfl]
    simp only [size]
    exact before
  · rw [limits.segmentBytes]
    exact budgeted.positive
  · intro large pressure
    by_contra single
    have positive := budgeted.positive
    have small : store'.totalBytes ≤ store'.segmentBytes := by
      have listed : ∀ entry ∈ kept.map SegmentMeta.sized, entry.2 ≤ store'.segmentBytes :=
        fun entry member => within entry (files'.mem_iff.mp member)
      have sum := sum_le_of_single listed (by rw [limits.segmentBytes]; omega)
        (by simpa using single)
      rw [map_map] at sum
      exact counted ▸ sum
    have room : store'.totalBytes < store'.maxBytes := by
      have positive' := limits.segmentBytes
      simp only at large
      omega
    simp [room] at pressure

theorem commit_budget (budgeted : Budgeted store disk) (sequence : Nat) :
    Ensures (commit sequence) store disk (fun _ => True)
      fun _ store' disk' => KeepsBudget store store' disk' := by
  apply Ensures.getState
  split
  · exact Ensures.fail budgeted.keeps
  split
  · exact Ensures.fail budgeted.keeps
  split
  · exact Ensures.pure budgeted.keeps
  split
  · exact Ensures.fail budgeted.keeps
  split
  · exact Ensures.fail budgeted.keeps
  apply Ensures.bind
  apply Ensures.noting
  apply Ensures.getState
  apply Ensures.write trivial
  apply Ensures.modify_then
  apply Ensures.noting
  have advanced : Budgeted { store with committed := sequence }
      (disk.putCheckpoint (Checkpoint.marshal ⟨format, checkpointVersion, sequence,
        store.sourceSequence⟩)) :=
    budgeted.congr rfl rfl (.inr ⟨rfl, rfl⟩) ⟨rfl, rfl⟩ rfl rfl
  apply (compact_budget advanced).imp
  rintro (failure | _) store' disk' ⟨budgeted', limits, total⟩
  · rcases budgeted'.fail failure with ⟨failed, limits', same⟩
    exact ⟨failed, ⟨limits'.segmentBytes.trans limits.segmentBytes,
      limits'.maxBytes.trans limits.maxBytes⟩, same ▸ total⟩
  · exact ⟨budgeted', ⟨limits.segmentBytes, limits.maxBytes⟩, total⟩

end

theorem close_budget (budgeted : Budgeted store disk) (clock : Clock) :
    Ensures (close clock) store disk (fun _ => True)
      fun _ store' disk' => KeepsBudget store store' disk' := by
  apply Ensures.getState
  split
  · exact Ensures.pure ⟨budgeted, ⟨rfl, rfl⟩, le_max_left _ _⟩
  apply Ensures.modify_then
  split
  · exact Ensures.pure ⟨budgeted.congr rfl rfl (.inr ⟨rfl, rfl⟩) ⟨rfl, rfl⟩ rfl rfl,
      ⟨rfl, rfl⟩, le_max_left _ _⟩
  rename_i name current
  apply Ensures.write_then trivial
  apply Ensures.modify_then
  have left : Budgeted { store with closed := true, current := none }
      (disk.changeFile name File.sync) :=
    budgeted.congr rfl rfl (.inl rfl) ⟨rfl, rfl⟩ rfl (sizes_sync disk name)
  apply (sealLast_budget clock).imp
  intro result store' disk' seals
  have rest := seals.rest
  exact ⟨seals.budgeted left, ⟨by rw [rest], by rw [rest]⟩, le_max_of_le_left (by rw [rest])⟩

end TelemetryForge.Wal
