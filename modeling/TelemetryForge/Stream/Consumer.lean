import TelemetryForge.Foundation.Bytes
import TelemetryForge.Foundation.CompletedPrefix
import TelemetryForge.Foundation.Machine

/-! # The Kafka consumer

`stream.KafkaConsumer`: the loop that polls batches and hands records to the worker pool, the
workers, and the coordinator that decides what to commit. Each step is one action of the loop
or of one worker; they interleave as they like. The lists at the end of the state say what has
happened and are read by no step. -/

namespace TelemetryForge.Stream

open CompletedPrefix

structure PartitionKey where
  topic : Bytes
  partition : Int
deriving DecidableEq

structure Record where
  key : PartitionKey
  offset : Int
  value : Bytes
deriving DecidableEq

abbrev Pending := List (Tracked Int)

/-- What `Ack` leaves behind, the offset that it asked Kafka to commit, and whether it
succeeds. -/
structure Acked where
  pending : Pending
  commit : Option Int
  ok : Bool
deriving DecidableEq

def ack (pending : Pending) (offset : Int) (committed : Bool) : Acked :=
  if (pending.any fun entry => decide (entry.position = offset)) = false then
    ⟨pending, none, false⟩
  else
    let marked := markDone offset pending
    match highest marked with
    | none => ⟨marked, none, true⟩
    | some commit =>
      if committed then ⟨remaining marked, some commit, true⟩
      else ⟨marked, some commit, false⟩

inductive Front
  | idle
  | checked
  | registered (record : Record)
  | deadLettered (record : Record)
deriving DecidableEq

inductive Phase
  | running
  | failed
  | processed
  | deadLettered
deriving DecidableEq

structure Consumer where
  partitions : PartitionKey → Pending
  batch : List Record
  front : Front
  jobs : List (Record × Phase)
  cancelled : Bool
  returned : Bool
  polled : List Record
  processed : List Record
  deadLettered : List Record
  commits : List (PartitionKey × Int)

namespace Consumer

def initial : Consumer := ⟨fun _ => [], [], .idle, [], false, false, [], [], [], []⟩

def acked (consumer : Consumer) (record : Record) (committed : Bool) : Acked :=
  ack (consumer.partitions record.key) record.offset committed

def acknowledge (consumer : Consumer) (record : Record) (committed : Bool) : Consumer :=
  let acked := consumer.acked record committed
  { consumer with
    partitions := Function.update consumer.partitions record.key acked.pending
    commits := consumer.commits ++ (acked.commit.map fun offset => (record.key, offset)).toList }

def register (consumer : Consumer) (record : Record) : Consumer :=
  { consumer with
    partitions := Function.update consumer.partitions record.key
      (CompletedPrefix.register (consumer.partitions record.key) record.offset) }

def abandonBatch (consumer : Consumer) (returns : Bool) : Consumer :=
  { consumer with batch := [], front := .idle, returned := consumer.returned || returns }

def setPhase (jobs : List (Record × Phase)) (record : Record) (phase next : Phase) :
    List (Record × Phase) :=
  jobs.map fun job => if job = (record, phase) then (record, next) else job

end Consumer

inductive Action
  | poll (records : List Record) (failed : Bool)
  | check
  | register
  | publishMalformed (published : Bool)
  | ackMalformed (committed : Bool)
  | submit (accepted returns : Bool)
  | stop (returns : Bool)
  | process (record : Record) (succeeded : Bool)
  | deadLetter (record : Record) (published : Bool)
  | ackJob (record : Record) (phase : Phase) (committed : Bool)
  | cancel
deriving DecidableEq

namespace Consumer

def step (consumer : Consumer) : Action → Consumer
  | .poll records failed =>
    { consumer with
      polled := consumer.polled ++ records
      batch := if failed then [] else records
      returned := consumer.returned || failed }
  | .check => { consumer with front := .checked }
  | .register =>
    match consumer.batch with
    | [] => consumer
    | record :: rest =>
      { consumer.register record with batch := rest, front := .registered record }
  | .publishMalformed published =>
    match consumer.front with
    | .registered record =>
      if published then
        { consumer with
          front := .deadLettered record
          deadLettered := consumer.deadLettered ++ [record] }
      else consumer.abandonBatch true
    | _ => consumer
  | .ackMalformed committed =>
    match consumer.front with
    | .deadLettered record =>
      let after := consumer.acknowledge record committed
      if (consumer.acked record committed).ok then { after with front := .idle }
      else after.abandonBatch true
    | _ => consumer
  | .submit accepted returns =>
    match consumer.front with
    | .registered record =>
      if accepted then
        { consumer with front := .idle, jobs := consumer.jobs ++ [(record, .running)] }
      else consumer.abandonBatch returns
    | _ => consumer
  | .stop returns => consumer.abandonBatch returns
  | .process record succeeded =>
    if succeeded then
      { consumer with
        jobs := setPhase consumer.jobs record .running .processed
        processed := consumer.processed ++ [record] }
    else { consumer with jobs := setPhase consumer.jobs record .running .failed }
  | .deadLetter record published =>
    if published then
      { consumer with
        jobs := setPhase consumer.jobs record .failed .deadLettered
        deadLettered := consumer.deadLettered ++ [record] }
    else { consumer with jobs := consumer.jobs.erase (record, .failed), cancelled := true }
  | .ackJob record phase committed =>
    let after := consumer.acknowledge record committed
    { after with
      jobs := consumer.jobs.erase (record, phase)
      cancelled := consumer.cancelled || !(consumer.acked record committed).ok }
  | .cancel => { consumer with cancelled := true }

def Increasing (records : List Record) : Prop :=
  records.Pairwise fun earlier later => earlier.key = later.key → earlier.offset < later.offset

instance (records : List Record) : Decidable (Increasing records) :=
  inferInstanceAs (Decidable (List.Pairwise _ _))

def Allowed (isEvent : Record → Bool) (consumer : Consumer) : Action → Prop
  | .poll records _ =>
    -- A batch is polled after every job of the batch before it is done.
    consumer.returned = false ∧ consumer.front = .idle ∧ consumer.batch = [] ∧
      consumer.jobs = [] ∧ Increasing (consumer.polled ++ records)
  | .check =>
    consumer.returned = false ∧ consumer.cancelled = false ∧ consumer.front = .idle ∧
      consumer.batch ≠ []
  | .register => consumer.front = .checked ∧ consumer.batch ≠ []
  | .publishMalformed _ => ∃ record, consumer.front = .registered record ∧ isEvent record = false
  | .ackMalformed _ => ∃ record, consumer.front = .deadLettered record
  | .submit accepted _ =>
    (∃ record, consumer.front = .registered record ∧ isEvent record = true) ∧
      (accepted = false → consumer.cancelled = true)
  | .stop _ => consumer.front = .idle ∧ consumer.cancelled = true
  | .process record _ => (record, .running) ∈ consumer.jobs
  | .deadLetter record _ => (record, .failed) ∈ consumer.jobs
  | .ackJob record phase _ =>
    (phase = .processed ∨ phase = .deadLettered) ∧ (record, phase) ∈ consumer.jobs
  | .cancel => True

instance decidableRegistered (front : Front) (holds : Record → Prop) [DecidablePred holds] :
    Decidable (∃ record, front = .registered record ∧ holds record) :=
  match front with
  | .registered record => decidable_of_iff (holds record) (by simp)
  | .idle | .checked | .deadLettered _ => isFalse (by simp)

instance decidableDeadLettered (front : Front) :
    Decidable (∃ record, front = .deadLettered record) :=
  match front with
  | .deadLettered record => isTrue ⟨record, rfl⟩
  | .idle | .checked | .registered _ => isFalse (by simp)

instance decidableAllowed (isEvent : Record → Bool) (consumer : Consumer) (action : Action) :
    Decidable (Allowed isEvent consumer action) := by
  cases action <;> unfold Allowed <;> infer_instance

def machine (isEvent : Record → Bool) : Machine Consumer Action := ⟨step, Allowed isEvent⟩

instance (isEvent : Record → Bool) (consumer : Consumer) (action : Action) :
    Decidable ((machine isEvent).allowed consumer action) :=
  decidableAllowed isEvent consumer action

end Consumer

/-! ## Commits are safe

For every partition the coordinator's list accounts for the records that were polled: those
already committed, those that are tracked, and those that the loop has yet to register. -/

open List

namespace Consumer

def offsetsAt (key : PartitionKey) (records : List Record) : List Int :=
  (records.filter fun record => decide (record.key = key)).map Record.offset

theorem mem_offsetsAt {key : PartitionKey} {records : List Record} {offset : Int} :
    offset ∈ offsetsAt key records ↔
      ∃ record ∈ records, record.key = key ∧ record.offset = offset := by
  simp only [offsetsAt, mem_map, mem_filter, decide_eq_true_eq, and_assoc]

theorem offsetsAt_append (key : PartitionKey) (first second : List Record) :
    offsetsAt key (first ++ second) = offsetsAt key first ++ offsetsAt key second := by
  simp [offsetsAt]

theorem offsetsAt_cons_self (record : Record) (rest : List Record) :
    offsetsAt record.key (record :: rest) = record.offset :: offsetsAt record.key rest := by
  simp [offsetsAt]

theorem offsetsAt_cons_of_ne {key : PartitionKey} {record : Record} (other : record.key ≠ key)
    (rest : List Record) : offsetsAt key (record :: rest) = offsetsAt key rest := by
  simp [offsetsAt, other]

theorem Increasing.offsetsAt {records : List Record} (increasing : Increasing records)
    (key : PartitionKey) : (offsetsAt key records).Pairwise (· < ·) := by
  rw [Consumer.offsetsAt, pairwise_map]
  refine (List.Pairwise.filter _ increasing).imp_of_mem ?_
  intro earlier later isEarlier isLater before
  have earlierKey := of_decide_eq_true (mem_filter.mp isEarlier).2
  have laterKey := of_decide_eq_true (mem_filter.mp isLater).2
  exact before (earlierKey.trans laterKey.symm)

def commitsAt (key : PartitionKey) (commits : List (PartitionKey × Int)) : List Int :=
  (commits.filter fun commit => decide (commit.1 = key)).map Prod.snd

theorem commitsAt_append_self (key : PartitionKey) (commits : List (PartitionKey × Int))
    (offset : Option Int) :
    commitsAt key (commits ++ (offset.map fun offset => (key, offset)).toList) =
      commitsAt key commits ++ offset.toList := by
  cases offset <;> simp [commitsAt]

theorem commitsAt_append_of_ne {key other : PartitionKey} (different : other ≠ key)
    (commits : List (PartitionKey × Int)) (offset : Option Int) :
    commitsAt key (commits ++ (offset.map fun offset => (other, offset)).toList) =
      commitsAt key commits := by
  cases offset <;> simp [commitsAt, different]

def settledRecords (consumer : Consumer) : List Record :=
  consumer.processed ++ consumer.deadLettered

variable {deadLettered : List Record}

theorem settledRecords_subset {consumer : Consumer}
    (published : consumer.deadLettered ⊆ deadLettered) :
    consumer.settledRecords ⊆ consumer.processed ++ deadLettered :=
  append_subset.mpr ⟨subset_append_left _ _,
    List.Subset.trans published (subset_append_right _ _)⟩

def Live (consumer : Consumer) : Prop :=
  consumer.front ≠ .idle ∨ consumer.cancelled = false ∧ consumer.returned = false

def Accounts (consumer : Consumer) (key : PartitionKey) : Prop :=
  ∃ dropped unregistered,
    Covers (offsetsAt key consumer.polled) dropped unregistered
      (· ∈ offsetsAt key consumer.settledRecords) (commitsAt key consumer.commits)
      (consumer.partitions key) ∧
    (commitsAt key consumer.commits).Pairwise (· ≤ ·) ∧
    (consumer.Live → unregistered = offsetsAt key consumer.batch)

def Front.record? : Front → Option Record
  | .idle | .checked => none
  | .registered record | .deadLettered record => some record

structure Safe (consumer : Consumer) : Prop where
  increasing : Increasing consumer.polled
  accounts : ∀ key, consumer.Accounts key
  batch : consumer.batch ⊆ consumer.polled
  front : ∀ record, Front.record? consumer.front = some record → record ∈ consumer.polled
  jobs : ∀ job ∈ consumer.jobs, job.1 ∈ consumer.polled
  settled : consumer.settledRecords ⊆ consumer.polled
  frontSettled : ∀ record, consumer.front = .deadLettered record → record ∈ consumer.settledRecords
  jobsSettled : ∀ job ∈ consumer.jobs, job.2 = .processed ∨ job.2 = .deadLettered →
    job.1 ∈ consumer.settledRecords

theorem Safe.initial : Consumer.initial.Safe where
  increasing := .nil
  accounts _ := ⟨[], [], .empty _, .nil, fun _ => rfl⟩
  batch := List.Subset.refl _
  front _ found := by cases found
  jobs := nofun
  settled := List.Subset.refl _
  frontSettled _ found := by cases found
  jobsSettled := nofun

theorem covers_ack {arrived dropped unregistered commits : List Int} {settled : Int → Prop}
    {pending : Pending} (covers : Covers arrived dropped unregistered settled commits pending)
    (ordered : commits.Pairwise (· ≤ ·)) {offset : Int} (isSettled : settled offset)
    (committed : Bool) :
    ∃ dropped', Covers arrived dropped' unregistered settled
        (commits ++ (ack pending offset committed).commit.toList)
        (ack pending offset committed).pending ∧
      (commits ++ (ack pending offset committed).commit.toList).Pairwise (· ≤ ·) := by
  by_cases unknown : (pending.any fun entry => decide (entry.position = offset)) = false
  · rw [ack, if_pos unknown]
    exact ⟨dropped, by simpa using covers, by simpa using ordered⟩
  · have marked := covers.markDone isSettled
    rw [ack, if_neg unknown]
    dsimp only
    cases found : highest (markDone offset pending) with
    | none => exact ⟨dropped, by simpa using marked, by simpa using ordered⟩
    | some commit =>
      have sorted : (commits ++ [commit]).Pairwise (· ≤ ·) := by
        rw [pairwise_append]
        refine ⟨ordered, pairwise_singleton _ _, fun earlier member later isLater => ?_⟩
        rw [mem_singleton.mp isLater]
        exact marked.commit_le_highest found member
      cases committed with
      | false => exact ⟨dropped, marked.commit_failed found, sorted⟩
      | true => exact ⟨_, marked.commit_succeeded found, sorted⟩

variable {consumer : Consumer} {isEvent : Record → Bool}

theorem Accounts.acknowledge {key : PartitionKey} (accounts : consumer.Accounts key)
    {record : Record} (settled : record ∈ consumer.settledRecords) (committed : Bool) :
    (consumer.acknowledge record committed).Accounts key := by
  rcases accounts with ⟨dropped, unregistered, covers, ordered, live⟩
  by_cases same : record.key = key
  · subst same
    rcases covers_ack covers ordered (mem_offsetsAt.mpr ⟨record, settled, rfl, rfl⟩) committed with
      ⟨dropped', covers', ordered'⟩
    have commits : commitsAt record.key (consumer.acknowledge record committed).commits =
        commitsAt record.key consumer.commits ++
          (ack (consumer.partitions record.key) record.offset committed).commit.toList := by
      rw [Consumer.acknowledge, acked]
      exact commitsAt_append_self record.key consumer.commits _
    have pending : (consumer.acknowledge record committed).partitions record.key =
        (ack (consumer.partitions record.key) record.offset committed).pending :=
      Function.update_self _ _ _
    refine ⟨dropped', unregistered, ?_, ?_, live⟩
    · rw [commits, pending]
      exact covers'
    · rw [commits]
      exact ordered'
  · have commits : commitsAt key (consumer.acknowledge record committed).commits =
        commitsAt key consumer.commits := commitsAt_append_of_ne same _ _
    have pending : (consumer.acknowledge record committed).partitions key =
        consumer.partitions key := Function.update_of_ne (Ne.symm same) _ _
    refine ⟨dropped, unregistered, ?_, ?_, live⟩
    · rw [commits, pending]
      exact covers
    · rw [commits]
      exact ordered

theorem Accounts.frame {key : PartitionKey} (accounts : consumer.Accounts key)
    {after : Consumer} (partitions : after.partitions = consumer.partitions)
    (commits : after.commits = consumer.commits) (polled : after.polled = consumer.polled)
    (settled : consumer.settledRecords ⊆ after.settledRecords)
    (live : after.Live → consumer.Live ∧ after.batch = consumer.batch) : after.Accounts key := by
  rcases accounts with ⟨dropped, unregistered, covers, ordered, wasLive⟩
  refine ⟨dropped, unregistered, ?_, ?_, fun isLive => ?_⟩
  · rw [partitions, commits, polled]
    refine covers.settle fun offset member => ?_
    rcases mem_offsetsAt.mp member with ⟨record, isSettled, same⟩
    exact mem_offsetsAt.mpr ⟨record, settled isSettled, same⟩
  · rw [commits]
    exact ordered
  · rw [(live isLive).2]
    exact wasLive (live isLive).1

theorem Accounts.register {key : PartitionKey} (accounts : consumer.Accounts key)
    {record : Record} {rest : List Record} (batch : consumer.batch = record :: rest)
    (live : consumer.Live) {front : Front} :
    ({ consumer.register record with batch := rest, front := front } : Consumer).Accounts key := by
  rcases accounts with ⟨dropped, unregistered, covers, ordered, wasLive⟩
  have next := wasLive live
  rw [batch] at next
  by_cases same : record.key = key
  · subst same
    rw [offsetsAt_cons_self] at next
    subst next
    refine ⟨dropped, offsetsAt record.key rest, ?_, ordered, fun _ => rfl⟩
    have pending : (consumer.register record).partitions record.key =
        CompletedPrefix.register (consumer.partitions record.key) record.offset :=
      Function.update_self _ _ _
    rw [show ({ consumer.register record with batch := rest, front := front } : Consumer).partitions
      record.key = _ from pending]
    exact covers.register
  · rw [offsetsAt_cons_of_ne same] at next
    refine ⟨dropped, unregistered, ?_, ordered, fun _ => next⟩
    have pending : (consumer.register record).partitions key = consumer.partitions key :=
      Function.update_of_ne (Ne.symm same) _ _
    rw [show ({ consumer.register record with batch := rest, front := front } : Consumer).partitions
      key = _ from pending]
    exact covers

section Steps

variable (safe : consumer.Safe)
include safe

theorem Safe.abandonBatch {returns : Bool} (ends : consumer.cancelled = true ∨ returns = true) :
    (consumer.abandonBatch returns).Safe where
  increasing := safe.increasing
  accounts key := by
    refine (safe.accounts key).frame rfl rfl rfl (List.Subset.refl _) fun live => ?_
    rcases live with moving | ⟨running, staying⟩
    · exact absurd rfl moving
    · have stays : (consumer.returned || returns) = false := staying
      have runs : consumer.cancelled = false := running
      rcases ends with stopped | stopped <;> simp [stopped] at runs stays
  batch := nil_subset _
  front _ found := by cases found
  jobs := safe.jobs
  settled := safe.settled
  frontSettled _ found := by cases found
  jobsSettled := safe.jobsSettled

theorem Safe.acknowledge {record : Record} (settled : record ∈ consumer.settledRecords)
    (committed : Bool) : (consumer.acknowledge record committed).Safe where
  increasing := safe.increasing
  accounts key := (safe.accounts key).acknowledge settled committed
  batch := safe.batch
  front := safe.front
  jobs := safe.jobs
  settled := safe.settled
  frontSettled := safe.frontSettled
  jobsSettled := safe.jobsSettled

theorem Safe.poll {records : List Record} {failed : Bool}
    (allowed : Allowed isEvent consumer (.poll records failed)) :
    (consumer.step (.poll records failed)).Safe := by
  rcases allowed with ⟨staying, idle, done, noJobs, increasing⟩
  refine ⟨increasing, fun key => ?_, ?_, ?_, ?_, ?_, ?_, ?_⟩
  · rcases safe.accounts key with ⟨dropped, unregistered, covers, ordered, live⟩
    have arrived : offsetsAt key (consumer.polled ++ records) =
        offsetsAt key consumer.polled ++ offsetsAt key records := offsetsAt_append ..
    have sorted := increasing.offsetsAt key
    rw [arrived] at sorted
    refine ⟨dropped, unregistered ++ offsetsAt key records, ?_, ordered, fun isLive => ?_⟩
    · have extended := covers.arrive sorted
      rw [← arrived] at extended
      exact extended
    · rcases isLive with moving | ⟨running, stays⟩
      · exact absurd idle moving
      · have succeeded : failed = false := (Bool.or_eq_false_iff.mp stays).2
        have nothing := live (.inr ⟨running, staying⟩)
        rw [done] at nothing
        rw [nothing, step, succeeded]
        rfl
  · cases failed with
    | true => exact nil_subset _
    | false => exact subset_append_right _ _
  · intro record found
    exact mem_append_left _ (safe.front record found)
  · intro job member
    exact mem_append_left _ (safe.jobs job member)
  · exact List.Subset.trans safe.settled (subset_append_left _ _)
  · exact safe.frontSettled
  · exact safe.jobsSettled

theorem Safe.register (allowed : Allowed isEvent consumer .register) :
    (consumer.step .register).Safe := by
  rcases allowed with ⟨checked, _⟩
  rw [step]
  split
  next => exact safe
  next record rest batch =>
    have live : consumer.Live := .inl (by rw [checked]; decide)
    have inBatch : record :: rest ⊆ consumer.polled := by
      rw [← batch]
      exact safe.batch
    refine ⟨safe.increasing, fun key => (safe.accounts key).register batch live, ?_, ?_,
      safe.jobs, safe.settled, ?_, safe.jobsSettled⟩
    · exact fun other member => inBatch (mem_cons_of_mem _ member)
    · intro other found
      cases found
      exact inBatch mem_cons_self
    · intro other found
      cases found

variable {jobs : List (Record × Phase)}

theorem Safe.advance (live : consumer.Live) {front : Front}
    (known : ∀ record, Front.record? front = some record → record ∈ consumer.polled)
    (published : consumer.deadLettered ⊆ deadLettered) (polled : deadLettered ⊆ consumer.polled)
    (frontSettled : ∀ record, front = .deadLettered record → record ∈ deadLettered)
    (added : ∀ job ∈ jobs, job ∈ consumer.jobs ∨ job.1 ∈ consumer.polled ∧ job.2 = .running) :
    ({ consumer with
      front := front, deadLettered := deadLettered, jobs := jobs } : Consumer).Safe where
  increasing := safe.increasing
  accounts key := by
    refine (safe.accounts key).frame rfl rfl rfl ?_ fun _ => ⟨live, rfl⟩
    exact settledRecords_subset published
  batch := safe.batch
  front := known
  jobs job member := by
    rcases added job member with before | ⟨isPolled, _⟩
    · exact safe.jobs job before
    · exact isPolled
  settled := append_subset.mpr ⟨(append_subset.mp safe.settled).1, polled⟩
  frontSettled record found := mem_append_right _ (frontSettled record found)
  jobsSettled job member finished := by
    rcases added job member with before | ⟨_, running⟩
    · exact settledRecords_subset published (safe.jobsSettled job before finished)
    · rcases finished with finished | finished <;> rw [running] at finished <;> cases finished

theorem Safe.work {processed : List Record}
    {cancelled : Bool} (cancels : consumer.cancelled = true → cancelled = true)
    (more : consumer.settledRecords ⊆ processed ++ deadLettered)
    (polled : processed ++ deadLettered ⊆ consumer.polled)
    (known : ∀ job ∈ jobs, job.1 ∈ consumer.polled)
    (finished : ∀ job ∈ jobs, job.2 = .processed ∨ job.2 = .deadLettered →
      job.1 ∈ processed ++ deadLettered) :
    ({ consumer with
      processed := processed, deadLettered := deadLettered, jobs := jobs,
      cancelled := cancelled } : Consumer).Safe where
  increasing := safe.increasing
  accounts key := by
    refine (safe.accounts key).frame rfl rfl rfl more fun live => ⟨?_, rfl⟩
    rcases live with moving | ⟨running, staying⟩
    · exact .inl moving
    · refine .inr ⟨?_, staying⟩
      cases wasCancelled : consumer.cancelled with
      | false => rfl
      | true => exact absurd (cancels wasCancelled) (by simpa using running)
  batch := safe.batch
  front := safe.front
  jobs := known
  settled := polled
  frontSettled record found := more (safe.frontSettled record found)
  jobsSettled := finished

theorem Safe.publishMalformed {published : Bool}
    (allowed : Allowed isEvent consumer (.publishMalformed published)) :
    (consumer.step (.publishMalformed published)).Safe := by
  rcases allowed with ⟨record, registered, _⟩
  have known := safe.front record (by rw [registered]; rfl)
  have live : consumer.Live := .inl (by rw [registered]; nofun)
  simp only [step, registered]
  cases published with
  | false => exact safe.abandonBatch (.inr rfl)
  | true =>
    have polled := (append_subset.mp safe.settled).2
    refine safe.advance live ?_ (subset_append_left _ _) ?_ ?_ fun job => .inl
    · intro other found
      cases found
      exact known
    · exact append_subset.mpr ⟨polled, cons_subset.mpr ⟨known, nil_subset _⟩⟩
    · intro other found
      cases found
      exact mem_append_right _ mem_cons_self

theorem Safe.ackMalformed {committed : Bool}
    (allowed : Allowed isEvent consumer (.ackMalformed committed)) :
    (consumer.step (.ackMalformed committed)).Safe := by
  rcases allowed with ⟨record, deadLettered⟩
  have after := safe.acknowledge (safe.frontSettled record deadLettered) committed
  have live : (consumer.acknowledge record committed).Live :=
    .inl (by rw [show (consumer.acknowledge record committed).front = _ from deadLettered]; nofun)
  simp only [step, deadLettered]
  split_ifs with succeeded
  · refine after.advance live nofun (List.Subset.refl _) ?_ nofun fun job => .inl
    exact (append_subset.mp after.settled).2
  · exact after.abandonBatch (.inr rfl)

theorem Safe.submit {accepted returns : Bool}
    (allowed : Allowed isEvent consumer (.submit accepted returns)) :
    (consumer.step (.submit accepted returns)).Safe := by
  rcases allowed with ⟨⟨record, registered, _⟩, cancelled⟩
  have known := safe.front record (by rw [registered]; rfl)
  have live : consumer.Live := .inl (by rw [registered]; nofun)
  simp only [step, registered]
  cases accepted with
  | false => exact safe.abandonBatch (.inl (cancelled rfl))
  | true =>
    refine safe.advance live nofun (List.Subset.refl _) ?_ nofun fun job member => ?_
    · exact (append_subset.mp safe.settled).2
    · rcases mem_append.mp member with before | new
      · exact .inl before
      · cases mem_singleton.mp new
        exact .inr ⟨known, rfl⟩

omit safe in
theorem forall_setPhase {record : Record} {phase next : Phase}
    {property : Record × Phase → Prop} (before : ∀ job ∈ jobs, property job)
    (changed : property (record, next)) : ∀ job ∈ setPhase jobs record phase next, property job := by
  intro job member
  rcases mem_map.mp member with ⟨old, isJob, rfl⟩
  split_ifs with same
  · exact changed
  · exact before old isJob

theorem Safe.process {record : Record} {succeeded : Bool}
    (allowed : Allowed isEvent consumer (.process record succeeded)) :
    (consumer.step (.process record succeeded)).Safe := by
  have known := safe.jobs _ allowed
  have ⟨processedKnown, deadLetteredKnown⟩ := append_subset.mp safe.settled
  cases succeeded with
  | false =>
    refine safe.work id (List.Subset.refl _) safe.settled ?_ ?_
    · exact forall_setPhase safe.jobs known
    · refine forall_setPhase safe.jobsSettled fun finished => ?_
      rcases finished with finished | finished <;> cases finished
  | true =>
    have more : consumer.settledRecords ⊆
        (consumer.processed ++ [record]) ++ consumer.deadLettered :=
      append_subset.mpr ⟨List.Subset.trans (subset_append_left _ _)
        (subset_append_left _ _), subset_append_right _ _⟩
    refine safe.work id more ?_ ?_ ?_
    · exact append_subset.mpr ⟨append_subset.mpr
        ⟨processedKnown, cons_subset.mpr ⟨known, nil_subset _⟩⟩, deadLetteredKnown⟩
    · exact forall_setPhase safe.jobs known
    · exact forall_setPhase (fun job before finished => more (safe.jobsSettled job before finished))
        fun _ => mem_append_left _ (mem_append_right _ mem_cons_self)

theorem Safe.deadLetter {record : Record} {published : Bool}
    (allowed : Allowed isEvent consumer (.deadLetter record published)) :
    (consumer.step (.deadLetter record published)).Safe := by
  have known := safe.jobs _ allowed
  have ⟨processedKnown, deadLetteredKnown⟩ := append_subset.mp safe.settled
  cases published with
  | false =>
    refine safe.work (fun _ => rfl) (List.Subset.refl _) safe.settled ?_ ?_
    · exact fun job member => safe.jobs job (mem_of_mem_erase member)
    · exact fun job member => safe.jobsSettled job (mem_of_mem_erase member)
  | true =>
    have more := settledRecords_subset (subset_append_left consumer.deadLettered [record])
    refine safe.work id more ?_ ?_ ?_
    · exact append_subset.mpr ⟨processedKnown, append_subset.mpr
        ⟨deadLetteredKnown, cons_subset.mpr ⟨known, nil_subset _⟩⟩⟩
    · exact forall_setPhase safe.jobs known
    · exact forall_setPhase (fun job before finished => more (safe.jobsSettled job before finished))
        fun _ => mem_append_right _ (mem_append_right _ mem_cons_self)

theorem Safe.ackJob {record : Record} {phase : Phase} {committed : Bool}
    (allowed : Allowed isEvent consumer (.ackJob record phase committed)) :
    (consumer.step (.ackJob record phase committed)).Safe := by
  rcases allowed with ⟨finished, isJob⟩
  have after := safe.acknowledge (safe.jobsSettled _ isJob finished) committed
  refine after.work ?_ (List.Subset.refl _) after.settled ?_ ?_
  · intro cancelled
    rw [show consumer.cancelled = true from cancelled]
    rfl
  · exact fun job member => safe.jobs job (mem_of_mem_erase member)
  · exact fun job member => safe.jobsSettled job (mem_of_mem_erase member)

theorem Safe.step {action : Action} (allowed : Allowed isEvent consumer action) :
    (consumer.step action).Safe := by
  have polled := (append_subset.mp safe.settled).2
  cases action with
  | poll records failed => exact safe.poll allowed
  | check =>
    have live : consumer.Live := .inr ⟨allowed.2.1, allowed.1⟩
    exact safe.advance live nofun (List.Subset.refl _) polled nofun fun job => .inl
  | register => exact safe.register allowed
  | publishMalformed published => exact safe.publishMalformed allowed
  | ackMalformed committed => exact safe.ackMalformed allowed
  | submit accepted returns => exact safe.submit allowed
  | stop returns => exact safe.abandonBatch (.inl allowed.2)
  | process record succeeded => exact safe.process allowed
  | deadLetter record published => exact safe.deadLetter allowed
  | ackJob record phase committed => exact safe.ackJob allowed
  | cancel =>
    exact safe.work (fun _ => rfl) (List.Subset.refl _) safe.settled safe.jobs safe.jobsSettled

end Steps

theorem safe_of_run {actions : List Action}
    (admits : (machine isEvent).Admits Consumer.initial actions) :
    ((machine isEvent).run Consumer.initial actions).Safe := by
  refine Machine.invariant Safe ?_ Safe.initial admits
  intro consumer action safe allowed
  exact safe.step allowed

theorem Increasing.eq_of_offset {records : List Record} (increasing : Increasing records)
    {first second : Record} (isFirst : first ∈ records) (isSecond : second ∈ records)
    (key : first.key = second.key) (offset : first.offset = second.offset) : first = second := by
  rcases getElem_of_mem isFirst with ⟨i, iInside, rfl⟩
  rcases getElem_of_mem isSecond with ⟨j, jInside, rfl⟩
  have before := pairwise_iff_getElem.mp increasing
  rcases Nat.lt_trichotomy i j with earlier | rfl | later
  · have below := before i j iInside jInside earlier key
    omega
  · rfl
  · have below := before j i jInside iInside later key.symm
    omega

/-- In every run of the loop, the workers and the coordinator, a commit of an offset covers no
record of its partition that is neither processed nor dead-lettered, and the offsets committed
for a partition never decrease. -/
theorem commits_settled {actions : List Action}
    (admits : (machine isEvent).Admits Consumer.initial actions) :
    let consumer := (machine isEvent).run Consumer.initial actions
    (∀ key offset, (key, offset) ∈ consumer.commits →
      ∀ record ∈ consumer.polled, record.key = key → record.offset ≤ offset →
        record ∈ consumer.processed ∨ record ∈ consumer.deadLettered) ∧
    ∀ key, (commitsAt key consumer.commits).Pairwise (· ≤ ·) := by
  intro consumer
  have safe : consumer.Safe := safe_of_run admits
  refine ⟨?_, ?_⟩
  · intro key offset member record isPolled same below
    rcases safe.accounts key with ⟨_, _, covers, _⟩
    have isCommit : offset ∈ commitsAt key consumer.commits :=
      mem_map.mpr ⟨_, mem_filter.mpr ⟨member, decide_eq_true rfl⟩, rfl⟩
    have isSettled := covers.settled_of_commit isCommit
      (mem_offsetsAt.mpr ⟨record, isPolled, same, rfl⟩) below
    rcases mem_offsetsAt.mp isSettled with ⟨other, otherSettled, otherKey, otherOffset⟩
    have equal := safe.increasing.eq_of_offset (safe.settled otherSettled) isPolled
      (otherKey.trans same.symm) otherOffset
    rw [← equal]
    exact mem_append.mp otherSettled
  · intro key
    rcases safe.accounts key with ⟨_, _, _, ordered, _⟩
    exact ordered

private def outOfOrder : List Action :=
  let first : Record := ⟨⟨[1], 0⟩, 5, []⟩
  let second : Record := ⟨⟨[1], 0⟩, 6, []⟩
  [.poll [first, second] false, .check, .register, .submit true false, .check, .register,
    .submit true false, .process second true, .ackJob second .processed true,
    .process first false, .deadLetter first true, .ackJob first .deadLettered true]

private theorem outOfOrder_admitted :
    (machine fun _ => true).Admits Consumer.initial outOfOrder := by
  decide

theorem commits_settled_out_of_order : (machine fun _ => true).Admits Consumer.initial outOfOrder ∧
      ((machine fun _ => true).run Consumer.initial outOfOrder).commits = [(⟨[1], 0⟩, 6)] ∧
      ∀ record ∈ ((machine fun _ => true).run Consumer.initial outOfOrder).polled,
        record ∈ ((machine fun _ => true).run Consumer.initial outOfOrder).processed ∨
          record ∈ ((machine fun _ => true).run Consumer.initial outOfOrder).deadLettered := by
  have commits : ((machine fun _ => true).run Consumer.initial outOfOrder).commits =
      [(⟨[1], 0⟩, 6)] := by decide
  refine ⟨outOfOrder_admitted, commits, fun record member => ?_⟩
  have known : record.key = ⟨[1], 0⟩ ∧ record.offset ≤ 6 := by
    revert record member
    decide
  refine (commits_settled outOfOrder_admitted).1 ⟨[1], 0⟩ 6 ?_ record member known.1 known.2
  rw [commits]
  exact mem_cons_self

end Consumer

end TelemetryForge.Stream
