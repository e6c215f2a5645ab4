import Mathlib

/-! # The callbacks of a job

`handleJob` processes an event with retries and then calls back: `Failure` for an event that
cannot be processed, `Ack` or `Nack`, and `Done` at the end. A callback that a job does not
have is not called. -/

namespace TelemetryForge.Worker

class Errors (ε : Type) where
  isTransient : ε → Bool
  join : ε → ε → ε
  exhausted : ε

structure Job (α ε : Type) where
  event : α
  ack : Option (Option ε)
  hasNack : Bool
  failure : Option (Option ε)
  hasDone : Bool

inductive Call (α ε : Type)
  | failure (event : α) (error : ε) (attempts : Int)
  | ack
  | nack (error : ε)
  | done
deriving DecidableEq

inductive Outcome
  | failed
  | ackFailed
  | dlq
  | success
deriving DecidableEq

structure Attempts (α ε : Type) where
  process : Int → Except ε α
  wait : Int → Option ε

variable {α ε : Type} [Errors ε]

def retryFrom (attempts : Attempts α ε) (maxAttempts : Int) : (left : Nat) → Except ε α × Int
  | 0 => (.error Errors.exhausted, maxAttempts)
  | left + 1 =>
    let attempt := maxAttempts - left
    match attempts.process attempt with
    | .ok processed => (.ok processed, attempt)
    | .error error =>
      if !Errors.isTransient error || attempt = maxAttempts then (.error error, attempt)
      else
        match attempts.wait attempt with
        | some cancelled => (.error cancelled, attempt)
        | none => retryFrom attempts maxAttempts left

def processWithRetry (attempts : Attempts α ε) (maxAttempts : Int) : Except ε α × Int :=
  retryFrom attempts maxAttempts maxAttempts.toNat

namespace Job

omit [Errors ε] in
def nack (job : Job α ε) (error : ε) : List (Call α ε) :=
  if job.hasNack then [.nack error] else []

def acknowledge (job : Job α ε) : Bool × List (Call α ε) :=
  match job.ack with
  | none => (true, [])
  | some none => (true, [.ack])
  | some (some error) => (false, .ack :: job.nack error)

def handle (job : Job α ε) (attempts : Attempts α ε) (maxAttempts : Int) :
    Outcome × List (Call α ε) :=
  match processWithRetry attempts maxAttempts with
  | (.ok _, _) =>
    let acked := job.acknowledge
    (if acked.1 then .success else .ackFailed, acked.2)
  | (.error error, attempt) =>
    match job.failure with
    | none => (.failed, job.nack error)
    | some (some failureErr) =>
      (.failed, .failure job.event error attempt :: job.nack (Errors.join error failureErr))
    | some none =>
      let acked := job.acknowledge
      if acked.1 then (.dlq, .failure job.event error attempt :: acked.2)
      else (.ackFailed, .failure job.event error attempt :: acked.2 ++ job.nack error)

def handleJob (job : Job α ε) (attempts : Attempts α ε) (maxAttempts : Int) :
    Outcome × List (Call α ε) :=
  let handled := job.handle attempts maxAttempts
  (handled.1, handled.2 ++ if job.hasDone then [.done] else [])

end Job

def Call.isNack : Call α ε → Bool
  | .nack _ => true
  | _ => false

def Call.isAck : Call α ε → Bool
  | .ack => true
  | _ => false

/-- A job that has no `Ack` is acknowledged where `Ack` would be called. -/
def Outcome.acknowledged : Outcome → Bool
  | .success | .dlq => true
  | _ => false

/-- What a job is promised about its callbacks. -/
structure Notifies (job : Job α ε) (attempts : Attempts α ε) (maxAttempts : Int) : Prop where
  done : ∃ others, Call.done ∉ others ∧
    (job.handleJob attempts maxAttempts).2 = others ++ if job.hasDone then [.done] else []
  ackOnce : (job.handleJob attempts maxAttempts).2.countP Call.isAck ≤ 1
  ackAfter : ∀ before after, (job.handleJob attempts maxAttempts).2 = before ++ .ack :: after →
    (∃ processed, (processWithRetry attempts maxAttempts).1 = .ok processed) ∨
      job.failure = some none ∧ ∃ error attempt, .failure job.event error attempt ∈ before
  nack : job.hasNack = true → (job.handleJob attempts maxAttempts).2.countP Call.isNack =
    if (job.handleJob attempts maxAttempts).1.acknowledged then 0 else 1

/-- The dead letter has been recorded, and then the acknowledgement fails. -/
def Rejected (job : Job α ε) (attempts : Attempts α ε) (maxAttempts : Int) : Prop :=
  (∃ error, (processWithRetry attempts maxAttempts).1 = .error error) ∧
    job.failure = some none ∧ ∃ error, job.ack = some (some error)

section Calls

variable (job : Job α ε) (attempts : Attempts α ε) (maxAttempts : Int)

theorem done_not_mem_handle : Call.done ∉ (job.handle attempts maxAttempts).2 := by
  have nack (error : ε) : Call.done ∉ job.nack error := by
    unfold Job.nack
    split <;> simp
  have acked : Call.done ∉ job.acknowledge.2 := by
    unfold Job.acknowledge
    split <;> simp [nack]
  unfold Job.handle
  split
  · exact acked
  · split
    · exact nack _
    · simp [nack]
    · dsimp only
      split <;> simp [acked, nack]

omit [Errors ε] in
theorem countP_nack (error : ε) : (job.nack error).countP Call.isAck = 0 ∧
    (job.nack error).countP Call.isNack = if job.hasNack then 1 else 0 := by
  unfold Job.nack
  split <;> simp [Call.isAck, Call.isNack]

omit [Errors ε] in
theorem countP_acknowledge : job.acknowledge.2.countP Call.isAck ≤ 1 ∧
    (job.hasNack = true →
      job.acknowledge.2.countP Call.isNack = if job.acknowledge.1 then 0 else 1) := by
  unfold Job.acknowledge
  split <;> simp +contextual [List.countP_cons, Call.isAck, Call.isNack, countP_nack]

theorem countP_handleJob {counted : Call α ε → Bool} (notDone : counted .done = false) :
    (job.handleJob attempts maxAttempts).2.countP counted =
      (job.handle attempts maxAttempts).2.countP counted := by
  rw [Job.handleJob, List.countP_append]
  split <;> simp [notDone]

theorem handle_ackOnce : (job.handle attempts maxAttempts).2.countP Call.isAck ≤ 1 := by
  have acked := (countP_acknowledge job).1
  unfold Job.handle
  split
  · exact acked
  · split
    · simp [countP_nack]
    · simp [Call.isAck, countP_nack]
    · dsimp only
      split <;> simpa [Call.isAck, countP_nack] using acked

theorem handle_ackAfter {before after : List (Call α ε)}
    (split : (job.handleJob attempts maxAttempts).2 = before ++ .ack :: after) :
    (∃ processed, (processWithRetry attempts maxAttempts).1 = .ok processed) ∨
      job.failure = some none ∧ ∃ error attempt, .failure job.event error attempt ∈ before := by
  have called : Call.ack ∈ (job.handleJob attempts maxAttempts).2 := by simp [split]
  rcases ran : processWithRetry attempts maxAttempts with ⟨error | processed, attempt⟩
  · right
    rcases recorded : job.failure with _ | _ | failureErr
    · simp [Job.handleJob, Job.handle, ran, recorded, Job.nack] at called
    · -- `Failure` is the first call.
      refine ⟨rfl, error, attempt, ?_⟩
      rcases before with _ | ⟨first, before⟩
      · simp only [Job.handleJob, Job.handle, ran, recorded] at split
        split_ifs at split <;> simp at split
      · simp only [Job.handleJob, Job.handle, ran, recorded] at split
        split_ifs at split <;> simp_all
    · simp [Job.handleJob, Job.handle, ran, recorded, Job.nack] at called
  · exact .inl ⟨processed, rfl⟩

end Calls

/-- The promises are kept unless a recorded dead letter cannot be acknowledged. Then the helper
calls `Nack` for the acknowledgement, and `handleJob` calls it again for the processing. -/
theorem notifies_iff (job : Job α ε) (attempts : Attempts α ε) (maxAttempts : Int) :
    Notifies job attempts maxAttempts ↔
      ¬(job.hasNack = true ∧ Rejected job attempts maxAttempts) := by
  constructor
  · rintro notifies ⟨hasNack, ⟨error, failed⟩, recorded, ackError, rejected⟩
    have once := notifies.nack hasNack
    rw [countP_handleJob _ _ _ rfl] at once
    rcases ran : processWithRetry attempts maxAttempts with ⟨result, attempt⟩
    rw [ran] at failed
    subst failed
    simp [Job.handleJob, Job.handle, Job.acknowledge, Job.nack, ran, recorded, rejected, hasNack,
      List.countP_cons, Call.isNack, Outcome.acknowledged] at once
  · intro accepted
    refine ⟨⟨_, done_not_mem_handle job attempts maxAttempts, rfl⟩, ?_,
      fun _ _ => handle_ackAfter job attempts maxAttempts, ?_⟩
    · rw [countP_handleJob _ _ _ rfl]
      exact handle_ackOnce job attempts maxAttempts
    · intro hasNack
      have acked := (countP_acknowledge job).2 hasNack
      rw [countP_handleJob _ _ _ rfl, Job.handleJob]
      rcases ran : processWithRetry attempts maxAttempts with ⟨error | processed, attempt⟩
      · rcases recorded : job.failure with _ | _ | failureErr
        · simp [Job.handle, ran, recorded, countP_nack, hasNack, Outcome.acknowledged]
        · have succeeds : job.acknowledge.1 = true := by
            by_contra fails
            refine accepted ⟨hasNack, ⟨error, by rw [ran]⟩, recorded, ?_⟩
            rcases rejected : job.ack with _ | _ | ackError
            · simp [Job.acknowledge, rejected] at fails
            · simp [Job.acknowledge, rejected] at fails
            · exact ⟨ackError, rfl⟩
          rw [succeeds] at acked
          simp [Job.handle, ran, recorded, succeeds, acked, Call.isNack, Outcome.acknowledged]
        · simp [Job.handle, ran, recorded, countP_nack, hasNack, Call.isNack, Outcome.acknowledged]
      · simp only [Job.handle, ran, acked]
        split_ifs <;> simp_all [Outcome.acknowledged]

/-- The event cannot be processed, its dead letter is recorded, and the acknowledgement
fails: `Nack` is called twice. -/
theorem not_notifies_rejected :
    let _ : Errors Nat := ⟨fun _ => false, (· + ·), 0⟩
    let job : Job Unit Nat := ⟨(), some (some 2), true, some none, true⟩
    let attempts : Attempts Unit Nat := ⟨fun _ => .error 1, fun _ => none⟩
    (job.handleJob attempts 3).2 = [.failure () 1 1, .ack, .nack 2, .nack 1, .done] ∧
      ¬Notifies job attempts 3 := by
  intro _ job attempts
  refine ⟨rfl, fun notifies => ?_⟩
  have once : 2 = 1 := notifies.nack rfl
  omega

end TelemetryForge.Worker
