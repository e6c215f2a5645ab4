import Mathlib

/-! # Runs of a state machine

A step function and the assumptions under which a step may be taken. -/

namespace TelemetryForge

structure Machine (σ α : Type) where
  step : σ → α → σ
  allowed : σ → α → Prop

namespace Machine

variable {σ τ α : Type}

def run (machine : Machine σ α) (state : σ) (actions : List α) : σ :=
  actions.foldl machine.step state

def Admits (machine : Machine σ α) : σ → List α → Prop
  | _, [] => True
  | state, action :: rest =>
    machine.allowed state action ∧ machine.Admits (machine.step state action) rest

section Rules

variable (machine : Machine σ α)

@[simp] theorem run_nil (state : σ) : machine.run state [] = state := rfl

@[simp] theorem run_cons (state : σ) (action : α) (rest : List α) :
    machine.run state (action :: rest) = machine.run (machine.step state action) rest := rfl

theorem run_append (state : σ) (first second : List α) :
    machine.run state (first ++ second) = machine.run (machine.run state first) second :=
  List.foldl_append

theorem admits_append {state : σ} {first second : List α} :
    machine.Admits state (first ++ second) ↔
      machine.Admits state first ∧ machine.Admits (machine.run state first) second := by
  induction first generalizing state with
  | nil => simp [Admits]
  | cons action rest induction => simp [Admits, induction, and_assoc]

theorem admits_of_forall (always : ∀ state action, machine.allowed state action) (state : σ)
    (actions : List α) : machine.Admits state actions := by
  induction actions generalizing state with
  | nil => trivial
  | cons action rest induction => exact ⟨always state action, induction _⟩

instance decidableAdmits [∀ state action, Decidable (machine.allowed state action)] :
    (state : σ) → (actions : List α) → Decidable (machine.Admits state actions)
  | _, [] => isTrue trivial
  | state, action :: rest =>
    have := decidableAdmits (machine.step state action) rest
    inferInstanceAs (Decidable (_ ∧ _))

end Rules

theorem invariant {machine : Machine σ α} (Invariant : σ → Prop)
    (step : ∀ state action, Invariant state → machine.allowed state action →
      Invariant (machine.step state action))
    {state : σ} (initially : Invariant state) {actions : List α}
    (admits : machine.Admits state actions) : Invariant (machine.run state actions) := by
  induction actions generalizing state with
  | nil => exact initially
  | cons action rest induction => exact induction (step _ _ initially admits.1) admits.2

theorem related_filter {machine : Machine σ α} (Related : σ → σ → Prop) {keep : α → Bool}
    {actions : List α} (kept : ∀ full reduced, ∀ action ∈ actions, Related full reduced →
      machine.allowed full action → keep action = true →
      Related (machine.step full action) (machine.step reduced action))
    (dropped : ∀ full reduced, ∀ action ∈ actions, Related full reduced →
      machine.allowed full action → keep action = false →
      Related (machine.step full action) reduced)
    {full reduced : σ} (initially : Related full reduced) (admits : machine.Admits full actions) :
    Related (machine.run full actions) (machine.run reduced (actions.filter keep)) := by
  induction actions generalizing full reduced with
  | nil => exact initially
  | cons action rest induction =>
    have first : action ∈ action :: rest := List.mem_cons_self
    have continues {full reduced : σ} (related : Related full reduced)
        (admits : machine.Admits full rest) :
        Related (machine.run full rest) (machine.run reduced (rest.filter keep)) :=
      induction (fun full reduced other member =>
          kept full reduced other (List.mem_cons_of_mem action member))
        (fun full reduced other member =>
          dropped full reduced other (List.mem_cons_of_mem action member)) related admits
    cases keeps : keep action with
    | true =>
      rw [List.filter_cons_of_pos keeps]
      exact continues (kept _ _ _ first initially admits.1 keeps) admits.2
    | false =>
      rw [List.filter_cons_of_neg (by simp [keeps])]
      exact continues (dropped _ _ _ first initially admits.1 keeps) admits.2

end Machine

end TelemetryForge

/-! ## Reservations with a cooldown

Holders take a key at a time that is later than the last time the key was taken by at least a
period, or at any time if that record is gone. -/

namespace TelemetryForge

structure Reservations (ι κ : Type) where
  holder : ι → Option (κ × Int)
  last : κ → Option Int
  clock : Int

namespace Reservations

variable {ι κ : Type} [DecidableEq ι] [DecidableEq κ] {period : Int} {book : Reservations ι κ}

structure Cooling (period : Int) (book : Reservations ι κ) : Prop where
  apart : ∀ first second key before after, first ≠ second →
    book.holder first = some (key, before) → book.holder second = some (key, after) →
      period ≤ |before - after|
  covered : ∀ index key time, book.holder index = some (key, time) →
    book.last key = some time ∨ time + period ≤ book.clock
  owned : ∀ key time, book.last key = some time → ∃ index, book.holder index = some (key, time)

omit [DecidableEq ι] [DecidableEq κ] in
theorem Cooling.expire (cooling : Cooling period book) {now : Int} (later : book.clock ≤ now)
    {last : κ → Option Int} (subset : ∀ key time, last key = some time → book.last key = some time)
    (kept : ∀ key time, book.last key = some time → last key = some time ∨ time + period ≤ now) :
    Cooling period ⟨book.holder, last, now⟩ where
  apart := cooling.apart
  covered index key time holds := by
    rcases cooling.covered index key time holds with recorded | elapsed
    · exact kept key time recorded
    · exact .inr (elapsed.trans later)
  owned key time recorded := cooling.owned key time (subset key time recorded)

theorem Cooling.take (cooling : Cooling period book) {index : ι} {key : κ} {now : Int}
    (fresh : book.holder index = none) (later : book.clock ≤ now)
    (free : ∀ time, book.last key = some time → time + period ≤ now) :
    Cooling period ⟨Function.update book.holder index (some (key, now)),
      Function.update book.last key (some now), now⟩ := by
  -- Every other holder of the key took it a period ago.
  have earlier (other : ι) (time : Int) (holds : book.holder other = some (key, time)) :
      time + period ≤ now := by
    rcases cooling.covered other key time holds with recorded | elapsed
    · exact free time recorded
    · exact elapsed.trans later
  refine ⟨?_, ?_, ?_⟩
  · intro first second other before after different firstHolds secondHolds
    simp only [Function.update_apply] at firstHolds secondHolds
    split_ifs at firstHolds with isFirst <;> split_ifs at secondHolds with isSecond
    · exact absurd (isFirst.trans isSecond.symm) different
    · obtain ⟨rfl, rfl⟩ : key = other ∧ now = before := by simpa using firstHolds
      have bound := earlier second after secondHolds
      exact le_abs.mpr (.inl (by omega))
    · obtain ⟨rfl, rfl⟩ : key = other ∧ now = after := by simpa using secondHolds
      have bound := earlier first before firstHolds
      exact le_abs.mpr (.inr (by omega))
    · exact cooling.apart first second other before after different firstHolds secondHolds
  · intro other taken time holds
    simp only [Function.update_apply] at holds ⊢
    split_ifs at holds with same
    · obtain ⟨rfl, rfl⟩ : key = taken ∧ now = time := by simpa using holds
      simp
    · split_ifs with sameKey
      · subst sameKey
        exact .inr (earlier other time holds)
      · rcases cooling.covered other taken time holds with recorded | elapsed
        · exact .inl recorded
        · exact .inr (elapsed.trans later)
  · intro taken time recorded
    simp only [Function.update_apply] at recorded ⊢
    split_ifs at recorded with sameKey
    · subst sameKey
      exact ⟨index, by simpa using recorded⟩
    · rcases cooling.owned taken time recorded with ⟨other, holds⟩
      refine ⟨other, ?_⟩
      rwa [if_neg]
      rintro rfl
      simp [fresh] at holds

theorem Cooling.drop (cooling : Cooling period book) (positive : 0 < period) {index : ι}
    {key : κ} {time : Int} (holds : book.holder index = some (key, time)) :
    Cooling period ⟨Function.update book.holder index none,
      if book.last key = some time then Function.update book.last key none else book.last,
      book.clock⟩ := by
  have remaining {other : ι} {entry : κ × Int}
      (kept : Function.update book.holder index none other = some entry) :
      other ≠ index ∧ book.holder other = some entry := by
    by_cases same : other = index
    · simp [same] at kept
    · exact ⟨same, by simpa [same] using kept⟩
  refine ⟨?_, ?_, ?_⟩
  · intro first second taken before after different firstHolds secondHolds
    exact cooling.apart first second taken before after different
      (remaining firstHolds).2 (remaining secondHolds).2
  · intro other taken takenAt kept
    rcases remaining kept with ⟨different, otherHolds⟩
    rcases cooling.covered other taken takenAt otherHolds with recorded | elapsed
    · -- Two holders of one key never have the same time, so the record is not erased.
      refine .inl ?_
      dsimp only
      split_ifs with own
      · rw [Function.update_of_ne, recorded]
        rintro rfl
        obtain rfl : takenAt = time := by simpa [recorded] using own
        have gap := cooling.apart other index taken takenAt takenAt different otherHolds holds
        simp only [sub_self, abs_zero] at gap
        omega
      · exact recorded
    · exact .inr elapsed
  · intro taken takenAt recorded
    have original : book.last taken = some takenAt ∧ (taken, takenAt) ≠ (key, time) := by
      dsimp only at recorded
      split_ifs at recorded with own
      · by_cases same : taken = key
        · simp [same] at recorded
        · exact ⟨by simpa [same] using recorded, by simp [same]⟩
      · refine ⟨recorded, ?_⟩
        rintro ⟨⟩
        exact own recorded
    rcases cooling.owned taken takenAt original.1 with ⟨other, otherHolds⟩
    refine ⟨other, ?_⟩
    dsimp only
    rw [Function.update_of_ne, otherHolds]
    rintro rfl
    rw [holds] at otherHolds
    exact original.2 (Option.some.inj otherHolds).symm

end Reservations

end TelemetryForge
