import Mathlib

/-! # Values behind references

Go passes maps by reference, so a function that copies a struct still shares its maps with the
caller. -/

namespace TelemetryForge

structure Memory (α : Type) where
  cells : List α

abbrev Reference := Option Nat

namespace Memory

variable {α : Type} [Inhabited α]

def read (heap : Memory α) : Reference → α
  | none => default
  | some address => heap.cells[address]?.getD default

section

omit [Inhabited α]

def alloc (heap : Memory α) (value : α) : Memory α × Reference :=
  (⟨heap.cells ++ [value]⟩, some heap.cells.length)

def modify (heap : Memory α) (reference : Reference) (change : α → α) : Memory α :=
  match reference with
  | none => heap
  | some address => ⟨heap.cells.modify address change⟩

def Holds (heap : Memory α) (reference : Reference) : Prop :=
  ∀ address, reference = some address → address < heap.cells.length

def Untouched (before after : Memory α) : Prop := before.cells <+: after.cells

theorem Untouched.refl (heap : Memory α) : Untouched heap heap := List.prefix_refl _

theorem untouched_alloc (heap : Memory α) (value : α) : Untouched heap (heap.alloc value).1 :=
  List.prefix_append _ _

end

theorem Untouched.read_eq {before after : Memory α} (untouched : Untouched before after)
    {reference : Reference} (held : before.Holds reference) :
    after.read reference = before.read reference := by
  cases reference with
  | none => rfl
  | some address =>
    rcases untouched with ⟨rest, cells⟩
    simp only [read, ← cells]
    rw [List.getElem?_append_left (held address rfl)]

@[simp] theorem read_alloc (heap : Memory α) (value other : α) :
    (heap.alloc value).1.read (heap.alloc other).2 = value := by
  simp [alloc, read]

omit [Inhabited α] in
@[simp] theorem modify_alloc (heap : Memory α) (value other : α) (change : α → α) :
    (heap.alloc value).1.modify (heap.alloc other).2 change = (heap.alloc (change value)).1 := by
  have last (cells : List α) :
      (cells ++ [value]).modify cells.length change = cells ++ [change value] := by
    induction cells with
    | nil => rfl
    | cons first rest induction => simp [induction]
  simp [alloc, modify, last]

end Memory

end TelemetryForge

/-! ## Slices over arrays in a heap -/

namespace TelemetryForge.Slices

open List

variable {α : Type}

structure Backing (α : Type) where
  cells : List α
  capacity : Nat

structure Slice where
  array : Nat
  length : Nat
deriving DecidableEq

structure Pointer where
  array : Nat
  index : Nat
deriving DecidableEq

structure Heap (α : Type) where
  arrays : List (Backing α)

namespace Heap

def single (cells : List α) (spare : Nat) : Heap α := ⟨[⟨cells, cells.length + spare⟩]⟩

def elements (heap : Heap α) (slice : Slice) : List α :=
  match heap.arrays[slice.array]? with
  | none => []
  | some backing => backing.cells.take slice.length

def read (heap : Heap α) (pointer : Pointer) : Option α :=
  heap.arrays[pointer.array]?.bind fun backing => backing.cells[pointer.index]?

def modify (heap : Heap α) (pointer : Pointer) (change : α → α) : Heap α :=
  ⟨heap.arrays.modify pointer.array fun backing =>
    { backing with cells := backing.cells.modify pointer.index change }⟩

/-- `append` of one element; a new array gets the capacity that `grow` says, and at least the
one that is needed. -/
def append (grow : Nat → Nat) (heap : Heap α) (slice : Slice) (value : α) : Heap α × Slice :=
  match heap.arrays[slice.array]? with
  | none => (heap, slice)
  | some backing =>
    if slice.length < backing.capacity then
      (⟨heap.arrays.set slice.array { backing with
            cells := backing.cells.take slice.length ++
              value :: backing.cells.drop (slice.length + 1) }⟩,
        ⟨slice.array, slice.length + 1⟩)
    else
      (⟨heap.arrays ++ [⟨backing.cells.take slice.length ++ [value],
          max (grow slice.length) (slice.length + 1)⟩]⟩,
        ⟨heap.arrays.length, slice.length + 1⟩)

def Holds (heap : Heap α) (slice : Slice) (values : List α) (spare : Nat) : Prop :=
  slice.length = values.length ∧ heap.arrays[slice.array]? = some ⟨values, values.length + spare⟩

variable {heap : Heap α} {slice : Slice} {values : List α} {spare : Nat}

theorem holds_single (cells : List α) (spare : Nat) :
    (single cells spare).Holds ⟨0, cells.length⟩ cells spare := ⟨rfl, rfl⟩

section

variable (holds : heap.Holds slice values spare)
include holds

theorem Holds.elements : heap.elements slice = values := by
  rw [Heap.elements, holds.2, holds.1]
  exact take_length

theorem Holds.read (index : Nat) : heap.read ⟨slice.array, index⟩ = values[index]? := by
  rw [Heap.read, holds.2]
  rfl

theorem Holds.lt_length : slice.array < heap.arrays.length := by
  by_contra outside
  have absent : heap.arrays[slice.array]? = none :=
    getElem?_eq_none (not_lt.mp outside)
  rw [holds.2] at absent
  cases absent

theorem Holds.modify (index : Nat) (change : α → α) :
    (heap.modify ⟨slice.array, index⟩ change).Holds slice (values.modify index change) spare := by
  refine ⟨by rw [holds.1, length_modify], ?_⟩
  simp only [Heap.modify, getElem?_modify, if_true]
  rw [holds.2]
  simp [length_modify]

theorem Holds.modify_other {pointer : Pointer}
    (other : pointer.array ≠ slice.array) (change : α → α) :
    (heap.modify pointer change).Holds slice values spare := by
  refine ⟨holds.1, ?_⟩
  simp only [Heap.modify, getElem?_modify, other, if_false]
  rw [holds.2]
  rfl

end

theorem Holds.append_inPlace (grow : Nat → Nat) (holds : heap.Holds slice values (spare + 1))
    (value : α) :
    (heap.append grow slice value).1.Holds (heap.append grow slice value).2 (values ++ [value])
        spare ∧
      (heap.append grow slice value).2.array = slice.array := by
  have room : values.length < values.length + (spare + 1) := by omega
  rw [append, holds.2, holds.1]
  dsimp only
  rw [if_pos room]
  refine ⟨⟨by simp, ?_⟩, rfl⟩
  simp only [getElem?_set, holds.lt_length, if_true, take_length]
  rw [drop_eq_nil_of_le (by omega), length_append]
  simp only [length_singleton, Option.some.injEq, Backing.mk.injEq, true_and]
  omega

theorem Holds.append_moves (grow : Nat → Nat) (holds : heap.Holds slice values 0) (value : α) :
    (∃ spare', (heap.append grow slice value).1.Holds (heap.append grow slice value).2
        (values ++ [value]) spare') ∧
      (heap.append grow slice value).2.array = heap.arrays.length := by
  have full : ¬values.length < values.length + 0 := by omega
  rw [append, holds.2, holds.1]
  dsimp only
  rw [if_neg full]
  refine ⟨⟨max (grow values.length) (values.length + 1) - (values.length + 1), by simp, ?_⟩, rfl⟩
  simp only [take_length, getElem?_concat_length, length_append,
    length_singleton, Option.some.injEq, Backing.mk.injEq, true_and]
  omega

end Heap

theorem modify_append_left {values : List α} {index : Nat} (inside : index < values.length)
    (more : List α) (change : α → α) :
    (values ++ more).modify index change = values.modify index change ++ more := by
  apply ext_getElem?
  intro position
  rw [getElem?_modify, getElem?_append, getElem?_append, length_modify]
  by_cases before : position < values.length
  · rw [if_pos before, if_pos before, getElem?_modify]
  · have other : index ≠ position := by omega
    simp [before, other]

end TelemetryForge.Slices
