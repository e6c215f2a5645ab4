import Mathlib

/-! # Sketches of sets

A sketch summarises a set of values: each register keeps the largest rank of the values at its
index, and the values themselves are kept as long as they are few. -/

namespace TelemetryForge

open List

structure Sketch (α ι : Type) where
  registers : ι → Nat
  exact : List α
  overflow : Bool

namespace Sketch

section Operations

variable {α ι : Type} [DecidableEq α] [DecidableEq ι]

def empty : Sketch α ι := ⟨fun _ => 0, [], false⟩

def raise (registers : ι → Nat) (index : ι) (rank : Nat) : ι → Nat :=
  Function.update registers index (max (registers index) rank)

def observeExact (limit : Nat) (exact : List α) (overflow : Bool) (value : α) : List α × Bool :=
  if overflow then (exact, true)
  else if value ∈ exact then (exact, false)
  else if limit ≤ exact.length then (exact, true)
  else (exact ++ [value], false)

def add (limit : Nat) (index : α → ι) (rank : α → Nat) (sketch : Sketch α ι) (value : α) :
    Sketch α ι where
  registers := raise sketch.registers (index value) (rank value)
  exact := (observeExact limit sketch.exact sketch.overflow value).1
  overflow := (observeExact limit sketch.exact sketch.overflow value).2

end Operations

section Summary

variable {α ι : Type} [DecidableEq α] [DecidableEq ι]

def peaks (index : α → ι) (rank : α → Nat) (values : Finset α) (place : ι) : Nat :=
  (values.filter fun value => index value = place).sup rank

theorem raise_peaks (index : α → ι) (rank : α → Nat) (values : Finset α) (value : α) :
    raise (peaks index rank values) (index value) (rank value) =
      peaks index rank (insert value values) := by
  funext other
  simp only [raise, peaks, Finset.filter_insert]
  by_cases same : index value = other
  · subst same
    rw [Function.update_self, if_pos rfl, Finset.sup_insert, max_comm]
  · rw [Function.update_of_ne (Ne.symm same), if_neg same]
    rfl

structure Keeps (limit : Nat) (exact : List α) (overflow : Bool) (values : Finset α) : Prop where
  nodup : exact.Nodup
  length : exact.length ≤ limit
  all : overflow = false → exact.toFinset = values
  many : overflow = true → limit < values.card

variable {overflow : Bool} {exact : List α}

theorem Keeps.observeExact {limit : Nat} {values : Finset α}
    (keeps : Keeps limit exact overflow values) (value : α) :
    Keeps limit (observeExact limit exact overflow value).1
      (observeExact limit exact overflow value).2 (insert value values) := by
  unfold Sketch.observeExact
  split_ifs with overflows present full
  · exact ⟨keeps.nodup, keeps.length, by simp, fun _ =>
      (keeps.many overflows).trans_le (Finset.card_le_card (Finset.subset_insert _ _))⟩
  · have all := keeps.all (by simpa using overflows)
    refine ⟨keeps.nodup, keeps.length, fun _ => ?_, by simp⟩
    rw [← all, Finset.insert_eq_of_mem (mem_toFinset.mpr present)]
  · have all := keeps.all (by simpa using overflows)
    refine ⟨keeps.nodup, keeps.length, by simp, fun _ => ?_⟩
    rw [← all, Finset.card_insert_of_notMem (by simpa using present),
      toFinset_card_of_nodup keeps.nodup]
    omega
  · have all := keeps.all (by simpa using overflows)
    refine ⟨?_, ?_, fun _ => ?_, by simp⟩
    · exact keeps.nodup.append (nodup_singleton value) (by simpa using present)
    · simp only [length_append, length_singleton]
      omega
    · simp only [toFinset_append, toFinset_cons, toFinset_nil, all]
      rw [Finset.union_comm]
      rfl

theorem Keeps.overflow_eq {limit : Nat} {values : Finset α}
    (keeps : Keeps limit exact overflow values) : overflow = decide (limit < values.card) := by
  cases overflow with
  | true => simpa using keeps.many rfl
  | false =>
    have bound := keeps.length
    rw [← toFinset_card_of_nodup keeps.nodup, keeps.all rfl] at bound
    simpa using bound

theorem Keeps.length_eq {limit : Nat} {values : Finset α}
    (keeps : Keeps limit exact overflow values) (few : values.card ≤ limit) :
    exact.length = values.card := by
  have all : overflow = false := by
    rw [keeps.overflow_eq]
    simpa using few
  rw [← keeps.all all, toFinset_card_of_nodup keeps.nodup]

structure Summarizes (limit : Nat) (index : α → ι) (rank : α → Nat) (sketch : Sketch α ι)
    (values : Finset α) : Prop where
  registers : sketch.registers = peaks index rank values
  keeps : Keeps limit sketch.exact sketch.overflow values

variable {limit : Nat} {index : α → ι} {rank : α → Nat} {sketch : Sketch α ι}
  {values : Finset α}

theorem empty_summarizes : Summarizes limit index rank (empty : Sketch α ι) ∅ where
  registers := by
    funext other
    simp [empty, peaks]
  keeps := ⟨nodup_nil, Nat.zero_le _, fun _ => rfl, fun overflows => by cases overflows⟩

theorem Summarizes.add (summarizes : sketch.Summarizes limit index rank values) (value : α) :
    (sketch.add limit index rank value).Summarizes limit index rank (insert value values) where
  registers := by
    simp only [Sketch.add]
    rw [summarizes.registers, raise_peaks]
  keeps := summarizes.keeps.observeExact value

end Summary

end Sketch

end TelemetryForge
