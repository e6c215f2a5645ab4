import TelemetryForge.Foundation.Numbers

/-! # The ring

A ring of slots with sequence numbers, as one goroutine uses it: a compare-and-swap of a
counter that it has just read succeeds. Counters and sequence numbers are 64-bit words, and a
slot is compared with a counter by their difference as a signed word. -/

namespace TelemetryForge.Fastpath

open Word64 List

structure Slot (α : Type) where
  sequence : Nat
  value : α

structure Ring (α : Type) where
  mask : Nat
  slots : List (Slot α)
  enqueue : Nat
  dequeue : Nat

/-- The loop of `NewRing` that rounds up, which need not end for a large capacity. -/
def roundUp (capacity : Int) : (fuel : Nat) → (rounded : Int) → Option Int
  | 0, _ => none
  | fuel + 1, rounded =>
    if rounded < capacity then roundUp capacity fuel (wrap (2 * rounded)) else some rounded

variable {α : Type} [Inhabited α]

def newRing (capacity : Int) : Option (Ring α) :=
  let capacity := if capacity < 2 then 2 else capacity
  (roundUp capacity 64 1).map fun rounded =>
    { mask := (rounded - 1).toNat
      slots := (List.range rounded.toNat).map fun index => ⟨index, default⟩
      enqueue := 0
      dequeue := 0 }

def difference (sequence position : Nat) : Int := wrap (wrap sequence - wrap position)

def next (position steps : Nat) : Nat := (position + steps) % 2 ^ 64

namespace Ring

omit [Inhabited α] in
/-- The attempts of `TryPush`. Nothing is returned where Go would panic. -/
def tryPushWithin (ring : Ring α) (value : α) : (attempts : Nat) → Option (Bool × Ring α)
  | 0 => some (false, ring)
  | attempts + 1 =>
    let position := ring.enqueue
    let index := position &&& ring.mask
    ring.slots[index]?.bind fun slot =>
      if difference slot.sequence position = 0 then
        some (true, { ring with
          enqueue := next position 1
          slots := ring.slots.set index ⟨next position 1, value⟩ })
      else if difference slot.sequence position < 0 then some (false, ring)
      else ring.tryPushWithin value attempts

omit [Inhabited α] in
def tryPush (ring : Ring α) (value : α) : Option (Bool × Ring α) := ring.tryPushWithin value 32

def tryPopWithin (ring : Ring α) : (attempts : Nat) → Option ((α × Bool) × Ring α)
  | 0 => some ((default, false), ring)
  | attempts + 1 =>
    let position := ring.dequeue
    let index := position &&& ring.mask
    ring.slots[index]?.bind fun slot =>
      if difference slot.sequence (next position 1) = 0 then
        some ((slot.value, true), { ring with
          dequeue := next position 1
          slots := ring.slots.set index ⟨next position ring.slots.length, default⟩ })
      else if difference slot.sequence (next position 1) < 0 then some ((default, false), ring)
      else ring.tryPopWithin attempts

def tryPop (ring : Ring α) : Option ((α × Bool) × Ring α) := ring.tryPopWithin 32

end Ring

inductive Operation (α : Type)
  | push (value : α)
  | pop

inductive Reply (α : Type)
  | pushed (ok : Bool)
  | popped (value : α) (ok : Bool)
deriving DecidableEq

def Ring.step (ring : Ring α) : Operation α → Option (Reply α × Ring α)
  | .push value => (ring.tryPush value).map fun pushed => (.pushed pushed.1, pushed.2)
  | .pop => ring.tryPop.map fun popped => (.popped popped.1.1 popped.1.2, popped.2)

def Ring.run : Ring α → List (Operation α) → Option (List (Reply α))
  | _, [] => some []
  | ring, operation :: rest => do
    let replied ← ring.step operation
    return replied.1 :: (← replied.2.run rest)

def queueStep (capacity : Nat) (queue : List α) : Operation α → Reply α × List α
  | .push value =>
    if queue.length < capacity then (.pushed true, queue ++ [value]) else (.pushed false, queue)
  | .pop =>
    match queue with
    | [] => (.popped default false, [])
    | value :: rest => (.popped value true, rest)

def queueRun (capacity : Nat) : List α → List (Operation α) → List (Reply α)
  | _, [] => []
  | queue, operation :: rest =>
    (queueStep capacity queue operation).1 ::
      queueRun capacity (queueStep capacity queue operation).2 rest

/-- The slot at a distance from the head: it holds an element of the queue, or it is free. -/
def slotAt (head : Nat) (queue : List α) (distance : Nat) : Slot α :=
  match queue[distance]? with
  | some value => ⟨(head + distance + 1) % 2 ^ 64, value⟩
  | none => ⟨(head + distance) % 2 ^ 64, default⟩

/-- The ring holds the queue. The head counts all pops, beyond the width of a word. -/
structure Holds (ring : Ring α) (bits head : Nat) (queue : List α) : Prop where
  mask : ring.mask = 2 ^ bits - 1
  length : ring.slots.length = 2 ^ bits
  dequeue : ring.dequeue = head % 2 ^ 64
  enqueue : ring.enqueue = (head + queue.length) % 2 ^ 64
  bounded : queue.length ≤ 2 ^ bits
  slots : ∀ distance < 2 ^ bits,
    ring.slots[(head + distance) % 2 ^ bits]? = some (slotAt head queue distance)

theorem difference_mod {sequence position : Nat} {distance : Int}
    (apart : (sequence : Int) - position = distance) (small : -2 ^ 62 ≤ distance)
    (large : distance ≤ 0) :
    difference (sequence % 2 ^ 64) (position % 2 ^ 64) = distance := by
  simp only [difference, wrap, Int.bmod_def]
  split_ifs <;> omega

theorem next_mod (position steps : Nat) :
    next (position % 2 ^ 64) steps = (position + steps) % 2 ^ 64 := Nat.mod_add_mod ..

section Step

variable {ring : Ring α} {bits head : Nat} {queue : List α}

theorem slotAt_length : slotAt head queue queue.length =
    ⟨(head + queue.length) % 2 ^ 64, default⟩ := by
  simp [slotAt]

theorem slotAt_zero (value : α) : slotAt head (value :: queue) 0 = ⟨(head + 1) % 2 ^ 64, value⟩ :=
  rfl

theorem slotAt_succ (value : α) (distance : Nat) :
    slotAt head (value :: queue) (distance + 1) = slotAt (head + 1) queue distance := by
  have first : head + (distance + 1) = head + 1 + distance := by omega
  simp only [slotAt, getElem?_cons_succ, first]

theorem index_eq_iff {first second : Nat} (isFirst : first < 2 ^ bits)
    (isSecond : second < 2 ^ bits) :
    (head + first) % 2 ^ bits = (head + second) % 2 ^ bits ↔ first = second := by
  constructor
  · intro same
    have cancelled : first % 2 ^ bits = second % 2 ^ bits := Nat.ModEq.add_left_cancel' head same
    rwa [Nat.mod_eq_of_lt isFirst, Nat.mod_eq_of_lt isSecond] at cancelled
  · rintro rfl
    rfl

variable (holds : Holds ring bits head queue) (few : bits ≤ 62)
include holds few

theorem Holds.index (count : Nat) : count % 2 ^ 64 &&& ring.mask = count % 2 ^ bits := by
  rw [holds.mask, Nat.and_two_pow_sub_one_eq_mod]
  exact Nat.mod_mod_of_dvd count (Nat.pow_dvd_pow 2 (by omega))

theorem Holds.push (room : queue.length < 2 ^ bits) (value : α) :
    ∃ ring', ring.tryPush value = some (true, ring') ∧
      Holds ring' bits head (queue ++ [value]) := by
  have slot := holds.slots queue.length room
  rw [slotAt_length] at slot
  have equal := difference_mod (sub_self ((head + queue.length : Nat) : Int)) (by norm_num) le_rfl
  rw [Ring.tryPush, Ring.tryPushWithin, holds.enqueue, holds.index few, slot]
  rw [Option.bind_some, if_pos equal, next_mod]
  refine ⟨_, rfl, ?_⟩
  constructor
  · exact holds.mask
  · rw [length_set, holds.length]
  · exact holds.dequeue
  · rw [length_append, length_singleton, Nat.add_assoc]
  · rw [length_append]
    exact room
  · intro distance inside
    rw [getElem?_set, holds.length, if_pos (Nat.mod_lt _ (Nat.two_pow_pos bits))]
    simp only [index_eq_iff room inside]
    split_ifs with same
    · rw [← same]
      simp [slotAt]
    · rw [holds.slots distance inside, slotAt, slotAt]
      rcases Nat.lt_or_gt_of_ne same with after | before
      · rw [getElem?_eq_none after.le, getElem?_eq_none (by simp; omega)]
      · rw [getElem?_append_left before]

theorem Holds.push_full (positive : 0 < bits) (full : ¬queue.length < 2 ^ bits) (value : α) :
    ring.tryPush value = some (false, ring) := by
  have length : queue.length = 2 ^ bits := le_antisymm holds.bounded (not_lt.mp full)
  have large : 2 ^ 1 ≤ 2 ^ bits := Nat.pow_le_pow_right (by decide) positive
  have small : 2 ^ bits ≤ 2 ^ 62 := Nat.pow_le_pow_right (by decide) few
  -- The slot of the next element still holds the oldest one.
  obtain _ | ⟨oldest, rest⟩ := queue
  · rw [length_nil] at length
    omega
  have slot := holds.slots 0 (Nat.two_pow_pos bits)
  rw [slotAt_zero, Nat.add_zero] at slot
  have behind : difference ((head + 1) % 2 ^ 64) ((head + 2 ^ bits) % 2 ^ 64) =
      1 - ((2 ^ bits : Nat) : Int) := difference_mod (by push_cast; ring) (by omega) (by omega)
  have negative : 1 - ((2 ^ bits : Nat) : Int) < 0 := by omega
  rw [Ring.tryPush, Ring.tryPushWithin, holds.enqueue, holds.index few, length,
    Nat.add_mod_right, slot]
  rw [Option.bind_some, if_neg (behind ▸ negative.ne), if_pos (behind ▸ negative)]

theorem Holds.pop_empty (empty : queue = []) : ring.tryPop = some ((default, false), ring) := by
  subst empty
  have slot := holds.slots 0 (Nat.two_pow_pos bits)
  rw [Nat.add_zero, show slotAt head ([] : List α) 0 = ⟨head % 2 ^ 64, default⟩ from rfl] at slot
  have behind : difference (head % 2 ^ 64) ((head + 1) % 2 ^ 64) = -1 :=
    difference_mod (by push_cast; ring) (by norm_num) (by norm_num)
  rw [Ring.tryPop, Ring.tryPopWithin, holds.dequeue, holds.index few, slot]
  rw [Option.bind_some, next_mod, if_neg (by rw [behind]; decide), if_pos (by rw [behind]; decide)]

end Step

theorem Holds.pop {ring : Ring α} {bits head : Nat} {value : α} {rest : List α}
    (holds : Holds ring bits head (value :: rest)) (few : bits ≤ 62) :
    ∃ ring', ring.tryPop = some ((value, true), ring') ∧ Holds ring' bits (head + 1) rest := by
  have positive := Nat.two_pow_pos bits
  have slot := holds.slots 0 positive
  rw [slotAt_zero, Nat.add_zero] at slot
  have equal := difference_mod (sub_self ((head + 1 : Nat) : Int)) (by norm_num) le_rfl
  have bounded := holds.bounded
  rw [length_cons] at bounded
  rw [Ring.tryPop, Ring.tryPopWithin, holds.dequeue, holds.index few, slot]
  rw [Option.bind_some, next_mod, if_pos equal, next_mod, holds.length]
  refine ⟨_, rfl, ?_⟩
  constructor
  · exact holds.mask
  · rw [length_set, holds.length]
  · rfl
  · rw [holds.enqueue, length_cons, Nat.add_assoc, Nat.add_comm 1]
  · omega
  · intro distance inside
    rw [getElem?_set, holds.length, if_pos (Nat.mod_lt head positive)]
    by_cases last : distance = 2 ^ bits - 1
    · -- The slot that has become free is the one farthest from the new head.
      have around : head + 1 + distance = head + 2 ^ bits := by omega
      rw [around, Nat.add_mod_right, if_pos rfl, slotAt, getElem?_eq_none (by omega), around]
    · have same := holds.slots (distance + 1) (by omega)
      have shifted : head + 1 + distance = head + (distance + 1) := by omega
      have different : head % 2 ^ bits ≠ (head + (distance + 1)) % 2 ^ bits := fun equal =>
        absurd ((index_eq_iff positive (by omega)).mp equal) (by simp)
      rw [shifted, if_neg different, same, slotAt_succ]

theorem Holds.step {ring : Ring α} {bits head : Nat} {queue : List α}
    (holds : Holds ring bits head queue) (positive : 0 < bits) (few : bits ≤ 62)
    (operation : Operation α) : ∃ ring' head',
      ring.step operation = some ((queueStep (2 ^ bits) queue operation).1, ring') ∧
        Holds ring' bits head' (queueStep (2 ^ bits) queue operation).2 := by
  cases operation with
  | push value =>
    rw [Ring.step, queueStep]
    split_ifs with room
    · rcases holds.push few room value with ⟨ring', pushed, holds'⟩
      exact ⟨ring', head, by rw [pushed]; rfl, holds'⟩
    · exact ⟨ring, head, by rw [holds.push_full few positive room]; rfl, holds⟩
  | pop =>
    cases queue with
    | nil => exact ⟨ring, head, by rw [Ring.step, holds.pop_empty few rfl]; rfl, holds⟩
    | cons value rest =>
      rcases holds.pop few with ⟨ring', popped, holds'⟩
      exact ⟨ring', head + 1, by rw [Ring.step, popped]; rfl, holds'⟩

theorem Holds.run {ring : Ring α} {bits head : Nat} {queue : List α}
    (holds : Holds ring bits head queue) (positive : 0 < bits) (few : bits ≤ 62)
    (operations : List (Operation α)) :
    ring.run operations = some (queueRun (2 ^ bits) queue operations) := by
  induction operations generalizing ring head queue with
  | nil => rfl
  | cons operation rest induction =>
    rcases holds.step positive few operation with ⟨ring', head', stepped, holds'⟩
    rw [Ring.run, stepped, queueRun]
    simp [induction holds']

structure Rounded (capacity : Int) (bits : Nat) : Prop where
  enough : max capacity 2 ≤ 2 ^ bits
  least : 2 ^ (bits - 1) < max capacity 2

theorem roundUp_eq {capacity : Int} (small : capacity ≤ 2 ^ 62) (fuel : Nat) {bits : Nat}
    (inRange : bits ≤ 62) (enough : 62 < fuel + bits) (least : 2 ^ (bits - 1) < capacity) :
    ∃ bits' ≤ 62, bits ≤ bits' ∧ roundUp capacity fuel (2 ^ bits) = some (2 ^ bits') ∧
      capacity ≤ 2 ^ bits' ∧ 2 ^ (bits' - 1) < capacity := by
  induction fuel generalizing bits with
  | zero => omega
  | succ fuel induction =>
    rw [roundUp]
    split_ifs with less
    · have more : bits < 62 := by
        by_contra reached
        rw [show bits = 62 by omega] at less
        omega
      have doubled : wrap (2 * 2 ^ bits) = 2 ^ (bits + 1) := by
        have bound : (2 : Int) ^ (bits + 1) ≤ 2 ^ 62 := pow_le_pow_right₀ (by decide) more
        rw [← pow_succ', wrap_of_lt (by positivity) (by omega)]
      rw [doubled]
      rcases induction more (by omega) less with ⟨bits', inRange', above, rest⟩
      exact ⟨bits', inRange', by omega, rest⟩
    · exact ⟨bits, inRange, le_rfl, rfl, not_lt.mp less, least⟩

theorem holds_new (bits : Nat) :
    Holds (α := α) ⟨2 ^ bits - 1, (List.range (2 ^ bits)).map fun index => ⟨index % 2 ^ 64, default⟩,
      0, 0⟩ bits 0 [] where
  mask := rfl
  length := by simp
  dequeue := rfl
  enqueue := rfl
  bounded := Nat.zero_le _
  slots distance inside := by
    rw [Nat.zero_add, Nat.mod_eq_of_lt inside, getElem?_map, getElem?_range inside,
      Option.map_some, slotAt, getElem?_nil, Nat.zero_add]

/-- A ring whose requested capacity is at most `2 ^ 62` answers every sequence of calls as a
queue of the rounded capacity does, however often its counters pass the end of a word. -/
theorem ring_refines_queue (capacity : Int) (small : capacity ≤ 2 ^ 62)
    (operations : List (Operation α)) :
    ∃ bits, Rounded capacity bits ∧ (newRing capacity).bind (Ring.run · operations) =
      some (queueRun (2 ^ bits) [] operations) := by
  have least : (if capacity < 2 then 2 else capacity) = max capacity 2 := by
    split_ifs <;> omega
  have upper : max capacity 2 ≤ 2 ^ 62 := max_le small (by norm_num)
  have lower : (2 : Int) ^ (0 - 1) < max capacity 2 := lt_max_of_lt_right (by norm_num)
  rcases roundUp_eq upper 64 (by omega) (by omega) lower with
    ⟨bits, few, _, rounded, enough, above⟩
  have positive : 0 < bits := by
    by_contra zero
    rw [show bits = 0 by omega] at enough
    omega
  have size : ((2 : Int) ^ bits).toNat = 2 ^ bits := Int.toNat_natCast (2 ^ bits)
  have mask : ((2 : Int) ^ bits - 1).toNat = 2 ^ bits - 1 := by omega
  have fits (index : Nat) (member : index ∈ range (2 ^ bits)) : index % 2 ^ 64 = index :=
    Nat.mod_eq_of_lt ((mem_range.mp member).trans (Nat.pow_lt_pow_right (by decide) (by omega)))
  have slots : ((range (2 ^ bits)).map fun index => (⟨index, default⟩ : Slot α)) =
      (range (2 ^ bits)).map fun index => ⟨index % 2 ^ 64, default⟩ :=
    map_congr_left fun index member => by rw [fits index member]
  refine ⟨bits, ⟨enough, above⟩, ?_⟩
  rw [newRing, least]
  rw [pow_zero] at rounded
  simp only [rounded, Option.map_some, Option.bind_some, mask, size, slots]
  exact (holds_new bits).run positive few operations

theorem ring_refines_queue_three : ∃ bits, Rounded 3 bits ∧
    (newRing 3).bind (Ring.run · [.push 7, .pop, .pop]) =
      some (queueRun (2 ^ bits) [] [.push 7, .pop, .pop]) :=
  ring_refines_queue 3 (by norm_num) [.push 7, .pop, .pop]

end TelemetryForge.Fastpath
