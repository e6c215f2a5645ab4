import TelemetryForge.Policy.Shadow
import TelemetryForge.Router.Dispatch

/-! # Quarantined events and the router

The policy stage marks the events that it quarantines with a tag, and the routing stage plans
what the policy stage returns. -/

namespace TelemetryForge.Router

open Policy (Engine Session Finding)

def Marked (event : Event) : Prop :=
  event.tags.find? Engine.quarantinedTag = some (ascii "true")

instance (event : Event) : Decidable (Marked event) :=
  inferInstanceAs (Decidable (_ = _))

namespace Sample

def planner : Planner where
  active :=
    { name := ascii "routes"
      version := ascii "1"
      destinations := [⟨ascii "archive", true, 0, 0, 0, []⟩]
      rules := [⟨ascii "all", [], [], [], [], .empty, [ascii "archive"], false⟩]
      fallbackDestination := [] }
  shadow := none

@[reducible] def floatText : Json.FloatText := .ofBits

def processed : Event :=
  { Policy.Sample.event with
    tags := (SortedMap.empty.insert Engine.quarantinedTag (ascii "true")).insert
      Engine.quarantineDimensionsTag (ascii "host") }

def key : DeliveryKey := ⟨ascii "default", ascii "e1", ascii "archive"⟩

end Sample

/-! ## Marks of lanes whose lease expired

The updates of a mark name the row and nothing of the claim, so a lane whose row was claimed
again overwrites what the later lane has written. -/

open Option

namespace Outbox

theorem deliveries_updateDelivery (outbox : Outbox) (key other : DeliveryKey) (change : Row → Row) :
    (outbox.updateDelivery key change).deliveries other =
      if other = key then (outbox.deliveries key).map change else outbox.deliveries other := by
  unfold updateDelivery
  by_cases same : other = key
  · simp [same]
  · simp [same]

structure Extends (before after : Outbox) : Prop where
  kept : ∀ key row, before.deliveries key = some row → after.deliveries key = some row
  fresh : ∀ key row, before.deliveries key = none → after.deliveries key = some row →
    row.status = .pending
  deadLetters : after.deadLetters = before.deadLetters

namespace Extends

theorem refl (outbox : Outbox) : Extends outbox outbox where
  kept _ _ found := found
  fresh _ _ absent found := by simp [absent] at found
  deadLetters := rfl

theorem trans {before middle after : Outbox} (first : Extends before middle)
    (second : Extends middle after) : Extends before after where
  kept key row found := second.kept key row (first.kept key row found)
  fresh key row absent found := by
    cases between : middle.deliveries key with
    | none => exact second.fresh key row between found
    | some held =>
      have same := second.kept key held between
      rw [found] at same
      cases same
      exact first.fresh key row absent between
  deadLetters := second.deadLetters.trans first.deadLetters

theorem insertDelivery (outbox : Outbox) (key : DeliveryKey) (event : Event)
    (decision : Decision) (now : Int) :
    Extends outbox (outbox.insertDelivery key (pendingRow event decision now)) where
  kept other row found := by
    rw [deliveries_insertDelivery]
    by_cases same : other = key
    · subst same
      simp [found]
    · rw [if_neg same, found]
  fresh other row absent found := by
    rw [deliveries_insertDelivery] at found
    by_cases same : other = key
    · subst same
      rw [if_pos rfl, absent] at found
      cases found
      rfl
    · rw [if_neg same, absent] at found
      cases found
  deadLetters := by
    unfold Outbox.insertDelivery
    split <;> rfl

theorem enqueueDecisions (contextTenant : Bytes) (event : Event) (now : Int)
    (decisions : List Decision) (outbox : Outbox) :
    Extends outbox (decisions.foldl (enqueueDecision contextTenant event now) outbox) := by
  induction decisions generalizing outbox with
  | nil => exact refl outbox
  | cons decision rest induction =>
    exact (insertDelivery outbox _ event decision now).trans (induction _)

theorem enqueueRoutingPlan [Json.FloatText] (outbox : Outbox) (contextTenant : Bytes)
    (event : Event) (decisions : List Decision) (now : Int) :
    Extends outbox ((outbox.enqueueRoutingPlan contextTenant event decisions now).getD outbox) := by
  unfold Outbox.enqueueRoutingPlan
  split_ifs
  · exact refl outbox
  · exact refl outbox
  · cases event.marshal with
    | none => exact refl outbox
    | some text => exact enqueueDecisions contextTenant event now decisions outbox

theorem enqueueFallback (outbox : Outbox) (claim : Claim) (fallback : Option Decision)
    (now : Int) : Extends outbox (outbox.enqueueFallback claim fallback now) := by
  cases fallback with
  | none => exact refl outbox
  | some decision => exact insertDelivery outbox _ claim.row.event decision now

end Extends

structure Marks (before after : Outbox) (key : DeliveryKey) : Prop where
  marked : ∀ row, before.deliveries key = some row →
    ∃ row', after.deliveries key = some row' ∧ row'.attempts = row.attempts ∧
      (before.deadLetters key = none →
        (row'.status = .deadLetter ↔ (after.deadLetters key).isSome = true))
  others : ∀ other, other ≠ key → after.deliveries other = before.deliveries other
  deadLetters : ∀ other, other ≠ key → after.deadLetters other = before.deadLetters other

theorem marks_updateDelivery (outbox : Outbox) (key : DeliveryKey) {change : Row → Row}
    (attempts : ∀ row, (change row).attempts = row.attempts)
    (status : ∀ row, (change row).status ≠ .deadLetter) :
    Marks outbox (outbox.updateDelivery key change) key where
  marked row found := by
    refine ⟨change row, ?_, attempts row, fun absent => ?_⟩
    · rw [deliveries_updateDelivery, if_pos rfl, found]
      rfl
    · simp [updateDelivery, absent, status row]
  others other different := by rw [deliveries_updateDelivery, if_neg different]
  deadLetters _ _ := rfl

theorem marks_deadLetter (outbox : Outbox) (claim : Claim) (message : Bytes) (now : Int)
    {change : Row → Row} (attempts : ∀ row, (change row).attempts = row.attempts)
    (status : ∀ row, (change row).status = .deadLetter) :
    Marks outbox ((outbox.insertDeadLetter claim message now).updateDelivery claim.key change)
      claim.key where
  marked row found := by
    refine ⟨change row, ?_, attempts row, fun _ => ?_⟩
    · rw [deliveries_updateDelivery, if_pos rfl]
      exact congrArg (Option.map change) found
    · simp [updateDelivery, insertDeadLetter, status row]
  others other different := by
    rw [deliveries_updateDelivery, if_neg different]
    rfl
  deadLetters other different := by
    simp [updateDelivery, insertDeadLetter, different]

theorem marks_markRoutingDelivered (outbox : Outbox) (claim : Claim) (now : Int) :
    Marks outbox (outbox.markRoutingDelivered claim now) claim.key :=
  marks_updateDelivery outbox claim.key (fun _ => rfl) (by simp)

theorem marks_markRoutingRetry (outbox : Outbox) (claim : Claim) (message : Bytes)
    (next now : Int) : Marks outbox (outbox.markRoutingRetry claim message next now) claim.key :=
  marks_updateDelivery outbox claim.key (fun _ => rfl) (by simp)

theorem finish_marks (config : Config) (outbox : Outbox) (claim : Claim) (result : SendResult)
    (next now : Int) :
    ∃ middle, Marks outbox middle claim.key ∧
      Extends middle (outbox.finish config claim result next now) := by
  cases result with
  | sent => exact ⟨_, marks_markRoutingDelivered outbox claim now, .refl _⟩
  | failed retryable message =>
    unfold finish
    dsimp only
    split_ifs
    · unfold deadLetterRoutingDelivery
      refine ⟨_, marks_deadLetter outbox claim message now ?_ ?_, .enqueueFallback _ claim _ now⟩
      · exact fun _ => rfl
      · exact fun _ => rfl
    · exact ⟨_, marks_markRoutingRetry outbox claim message next now, .refl _⟩

end Outbox

namespace Board

variable {ι : Type}

/-- Dead letters are the rows with that status, and the lane that claimed a row last finds it
as it left it. -/
structure Sound (board : Board ι) : Prop where
  deadLetters : ∀ key,
    (∃ row, board.outbox.deliveries key = some row ∧ row.status = .deadLetter) ↔
      (board.outbox.deadLetters key).isSome = true
  held : ∀ lane claim, board.hands lane = some claim →
    ∃ row, board.outbox.deliveries claim.key = some row ∧ claim.row.attempts ≤ row.attempts ∧
      (claim.row.attempts = row.attempts → row.status = .sending)
  single : ∀ lane other claim claim', board.hands lane = some claim →
    board.hands other = some claim' → claim.key = claim'.key →
    claim.row.attempts = claim'.row.attempts → lane = other

namespace Sound

theorem initial : (Board.initial : Board ι).Sound where
  deadLetters _ := by simp [Board.initial, Outbox.empty]
  held _ _ hand := by simp [Board.initial] at hand
  single _ _ _ _ hand := by simp [Board.initial] at hand

variable {board : Board ι}

theorem extend (sound : board.Sound) {after : Outbox}
    (extension : Outbox.Extends board.outbox after) : Sound { board with outbox := after } where
  deadLetters key := by
    rw [extension.deadLetters, ← sound.deadLetters key]
    constructor
    · rintro ⟨row, found, status⟩
      cases before : board.outbox.deliveries key with
      | none =>
        have pending := extension.fresh key row before found
        rw [pending] at status
        cases status
      | some held =>
        have same := extension.kept key held before
        rw [found] at same
        cases same
        exact ⟨row, rfl, status⟩
    · rintro ⟨row, found, status⟩
      exact ⟨row, extension.kept key row found, status⟩
  held lane claim hand := by
    rcases sound.held lane claim hand with ⟨row, found, claimed⟩
    exact ⟨row, extension.kept _ row found, claimed⟩
  single := sound.single

variable [DecidableEq ι]

theorem abandon (sound : board.Sound) (lane : ι) :
    Sound { board with hands := Function.update board.hands lane none } := by
  have kept {other : ι} {claim : Claim}
      (hand : Function.update board.hands lane none other = some claim) :
      board.hands other = some claim := by
    by_cases same : other = lane
    · simp [same] at hand
    · simpa [same] using hand
  exact
    { deadLetters := sound.deadLetters
      held := fun other claim hand => sound.held other claim (kept hand)
      single := fun first second claim claim' hand hand' =>
        sound.single first second claim claim' (kept hand) (kept hand') }

end Sound

end Board

theorem Outbox.IsDue.status_ne {row : Row} {now : Int} (due : Outbox.IsDue row now) :
    row.status ≠ .deadLetter ∧ row.status ≠ .delivered := by
  rcases due with ⟨pending | retry, _⟩ | ⟨sending, _⟩
  · simp [pending]
  · simp [retry]
  · simp [sending]

namespace Board

namespace Sound

variable {ι : Type} [DecidableEq ι] {board : Board ι}

variable {lane : ι}

theorem claim (sound : board.Sound) {key : DeliveryKey} {row : Row}
    (found : board.outbox.deliveries key = some row) {now : Int} (due : Outbox.IsDue row now)
    (leaseUntil : Int) : (board.claim lane key leaseUntil now).Sound := by
  -- Every earlier claim of the row counts fewer attempts than the new one.
  have earlier {other : ι} {claim : Claim} (hand : board.hands other = some claim)
      (same : claim.key = key) : claim.row.attempts < row.attempts + 1 := by
    rcases sound.held other claim hand with ⟨held, isHeld, attempts, _⟩
    rw [same, found] at isHeld
    cases isHeld
    omega
  unfold Board.claim
  rw [found]
  constructor
  · intro other
    dsimp only
    rw [Outbox.deliveries_updateDelivery]
    by_cases same : other = key
    · subst same
      have absent := (sound.deadLetters other).not.mp (by
        rintro ⟨held, isHeld, status⟩
        rw [found] at isHeld
        cases isHeld
        exact due.status_ne.1 status)
      refine iff_of_false ?_ absent
      rintro ⟨held, isHeld, status⟩
      rw [if_pos rfl, found] at isHeld
      cases isHeld
      cases status
    · rw [if_neg same]
      exact sound.deadLetters other
  · intro other claim hand
    dsimp only at hand ⊢
    rw [Outbox.deliveries_updateDelivery]
    by_cases same : other = lane
    · subst same
      simp only [Function.update_self, some.injEq] at hand
      subst hand
      exact ⟨_, by simp [found], le_rfl, fun _ => rfl⟩
    · rw [Function.update_of_ne same] at hand
      by_cases sameKey : claim.key = key
      · have fewer := earlier hand sameKey
        refine ⟨Outbox.leased row leaseUntil now, by simp [sameKey, found], fewer.le, ?_⟩
        exact fun equal => absurd equal fewer.ne
      · rw [if_neg sameKey]
        exact sound.held other claim hand
  · intro first second claim claim' hand hand' sameKey sameAttempts
    dsimp only at hand hand'
    by_cases isFirst : first = lane
    · by_cases isSecond : second = lane
      · rw [isFirst, isSecond]
      · rw [isFirst, Function.update_self, some.injEq] at hand
        rw [Function.update_of_ne isSecond] at hand'
        subst hand
        have fewer := earlier hand' sameKey.symm
        exact absurd sameAttempts.symm fewer.ne
    · rw [Function.update_of_ne isFirst] at hand
      by_cases isSecond : second = lane
      · rw [isSecond, Function.update_self, some.injEq] at hand'
        subst hand'
        have fewer := earlier hand sameKey
        exact absurd sameAttempts fewer.ne
      · rw [Function.update_of_ne isSecond] at hand'
        exact sound.single first second claim claim' hand hand' sameKey sameAttempts

omit [DecidableEq ι] in
theorem sending (sound : board.Sound) {claim : Claim}
    (hand : board.hands lane = some claim) (latest : ¬board.Reclaimed claim) :
    ∃ row, board.outbox.deliveries claim.key = some row ∧
      claim.row.attempts = row.attempts ∧ row.status = .sending := by
  rcases sound.held lane claim hand with ⟨row, found, attempts, sending⟩
  have equal : claim.row.attempts = row.attempts :=
    le_antisymm attempts (not_lt.mp fun more => latest ⟨row, found, more⟩)
  exact ⟨row, found, equal, sending equal⟩

theorem mark (sound : board.Sound) {claim : Claim}
    (hand : board.hands lane = some claim) (latest : ¬board.Reclaimed claim) {after : Outbox}
    (marks : Outbox.Marks board.outbox after claim.key) :
    Sound { outbox := after, hands := Function.update board.hands lane none } := by
  rcases sound.sending hand latest with ⟨row, found, attempts, sending⟩
  rcases marks.marked row found with ⟨row', found', attempts', deadLetter⟩
  have released := sound.abandon lane
  constructor
  · intro key
    dsimp only
    by_cases same : key = claim.key
    · subst same
      have absent : board.outbox.deadLetters claim.key = none := by
        rw [← not_isSome_iff_eq_none, ← sound.deadLetters]
        rintro ⟨held, isHeld, status⟩
        rw [found] at isHeld
        cases isHeld
        rw [sending] at status
        cases status
      rw [found', ← deadLetter absent]
      simp
    · rw [marks.others key same, marks.deadLetters key same]
      exact sound.deadLetters key
  · intro other claim' hand'
    dsimp only at hand' ⊢
    rcases released.held other claim' hand' with ⟨held, isHeld, le, isSending⟩
    by_cases same : claim'.key = claim.key
    · rw [same] at isHeld ⊢
      have equal : held = row := by
        rw [found] at isHeld
        exact (some.inj isHeld).symm
      subst equal
      refine ⟨row', found', by omega, fun equal => ?_⟩
      -- The other lane would have to be the one that made the mark.
      have different : other ≠ lane := by
        rintro rfl
        simp at hand'
      rw [Function.update_of_ne different] at hand'
      exact absurd (sound.single other lane claim' claim hand' hand same (by omega)) different
    · rw [marks.others _ same]
      exact ⟨held, isHeld, le, isSending⟩
  · exact released.single

theorem finish (config : Config) (sound : board.Sound) {claim : Claim}
    (hand : board.hands lane = some claim) (latest : ¬board.Reclaimed claim)
    (result : SendResult) (next now : Int) :
    (board.finish config lane result next now).Sound := by
  rcases Outbox.finish_marks config board.outbox claim result next now with
    ⟨middle, marks, extension⟩
  unfold Board.finish
  rw [hand]
  exact (sound.mark hand latest marks).extend extension

variable [Json.FloatText]

theorem step (config : Config) (sound : board.Sound) {action : Action ι}
    (allowed : board.Allowed action) (fenced : board.Fenced action) :
    (board.step config action).Sound := by
  cases action with
  | enqueue contextTenant event decisions now =>
    exact sound.extend (.enqueueRoutingPlan board.outbox contextTenant event decisions now)
  | claim lane key leaseUntil now =>
    rcases allowed with ⟨_, row, found, due⟩
    exact sound.claim found due leaseUntil
  | finish lane result next now =>
    rcases isSome_iff_exists.mp allowed with ⟨claim, hand⟩
    exact sound.finish config hand (fenced claim hand) result next now
  | abandon lane => exact sound.abandon lane

theorem step_delivered (config : Config) (sound : board.Sound) {action : Action ι}
    (allowed : board.Allowed action) (fenced : board.Fenced action) {key : DeliveryKey} {row : Row}
    (found : board.outbox.deliveries key = some row) (delivered : row.status = .delivered) :
    (board.step config action).outbox.deliveries key = some row := by
  cases action with
  | enqueue contextTenant event decisions now =>
    exact (Outbox.Extends.enqueueRoutingPlan board.outbox contextTenant event decisions now).kept
      key row found
  | claim lane other leaseUntil now =>
    rcases allowed with ⟨_, held, isHeld, due⟩
    have different : key ≠ other := by
      rintro rfl
      rw [found] at isHeld
      cases isHeld
      exact due.status_ne.2 delivered
    simp only [Board.step, Board.claim, isHeld]
    rw [Outbox.deliveries_updateDelivery, if_neg different, found]
  | finish lane result next now =>
    rcases isSome_iff_exists.mp allowed with ⟨claim, hand⟩
    rcases sound.sending hand (fenced claim hand) with ⟨held, isHeld, _, sending⟩
    have different : key ≠ claim.key := by
      rintro rfl
      rw [found] at isHeld
      cases isHeld
      rw [delivered] at sending
      cases sending
    rcases Outbox.finish_marks config board.outbox claim result next now with
      ⟨middle, marks, extension⟩
    simp only [Board.step, Board.finish, hand]
    exact extension.kept key row ((marks.others key different).trans found)
  | abandon lane => exact found

end Sound

variable {ι : Type} [DecidableEq ι] [Json.FloatText]

theorem sound_run (config : Config) {actions : List (Action ι)}
    (admits : (fencedMachine ι config).Admits initial actions) :
    ((fencedMachine ι config).run initial actions).Sound := by
  refine Machine.invariant Sound ?_ Sound.initial admits
  intro board action sound allowed
  exact sound.step config allowed.1 allowed.2

end Board

namespace Sample

def decision : Decision := ⟨ascii "archive", [ascii "all"], 5, 500, 30000, []⟩

def overtaken : List (Action Bool) :=
  [.enqueue (ascii "default") Policy.Sample.event [decision] 0,
    .claim false key 30 0, .claim true key 61 31, .finish true .sent 0 32]

def late : Action Bool := .finish false (.failed true (ascii "timeout")) 40 33

def punctual : List (Action Bool) :=
  [.enqueue (ascii "default") Policy.Sample.event [decision] 0,
    .claim false key 30 0, .finish false .sent 0 20]

theorem punctual_admits : letI := floatText
    (Board.fencedMachine Bool planner.active).Admits .initial punctual := by
  decide +kernel

end Sample

end TelemetryForge.Router
