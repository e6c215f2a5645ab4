import Mathlib

/-! # Results that may be errors

Go's early returns, as rules for when an `Except` computation succeeds. -/

namespace TelemetryForge

variable {ε α β : Type}

theorem ite_error_eq_ok {bad : Prop} [Decidable bad] {error : ε} {rest : Except ε α} {value : α} :
    (if bad then .error error else rest) = .ok value ↔ ¬bad ∧ rest = .ok value := by
  by_cases holds : bad <;> simp [holds]

theorem bind_eq_ok {first : Except ε α} {next : α → Except ε β} {value : β} :
    first.bind next = .ok value ↔ ∃ result, first = .ok result ∧ next result = .ok value := by
  cases first <;> simp [Except.bind]

theorem map_eq_ok {first : Except ε α} {f : α → β} {value : β} :
    first.map f = .ok value ↔ ∃ result, first = .ok result ∧ f result = value := by
  cases first <;> simp [Except.map]

def refuse (bad : Prop) [Decidable bad] (error : ε) : Except ε Unit :=
  if bad then .error error else .ok ()

@[simp] theorem refuse_eq_ok {bad : Prop} [Decidable bad] {error : ε} :
    refuse bad error = .ok () ↔ ¬bad := by
  by_cases holds : bad <;> simp [refuse, holds]

@[simp] theorem andThen_eq_ok {first : Except ε Unit} {rest : Except ε α} {value : α} :
    (first >>= fun _ => rest) = .ok value ↔ first = .ok () ∧ rest = .ok value := by
  cases first with
  | error failure => simp [bind, Except.bind]
  | ok result => simp [bind, Except.bind]

@[simp] theorem forM_eq_ok {list : List α} {check : α → Except ε Unit} :
    list.forM check = .ok () ↔ ∀ entry ∈ list, check entry = .ok () := by
  induction list with
  | nil => simp [pure, Except.pure]
  | cons head rest induction =>
    rw [List.forM, andThen_eq_ok, List.forall_mem_cons]
    exact and_congr_right' induction

end TelemetryForge

/-! ## Two computations that both succeed

A relation between two fallible computations: neither fails, and their results are related. -/

namespace TelemetryForge

open List

variable {ε α β α' β' ι ι' : Type}

def Coupled (Related : α → β → Prop) (left : Except ε α) (right : Except ε β) : Prop :=
  ∃ first second, left = .ok first ∧ right = .ok second ∧ Related first second

namespace Coupled

variable {Related : α → β → Prop} {After : α' → β' → Prop} {left : Except ε α}
  {right : Except ε β}

theorem ok {first : α} {second : β} (related : Related first second) :
    Coupled Related (.ok first : Except ε α) (.ok second) := ⟨first, second, rfl, rfl, related⟩

section

variable (coupled : Coupled Related left right)
include coupled

theorem bind {next : α → Except ε α'}
    {next' : β → Except ε β'}
    (rest : ∀ first second, Related first second → Coupled After (next first) (next' second)) :
    Coupled After (left >>= next) (right >>= next') := by
  rcases coupled with ⟨first, second, rfl, rfl, related⟩
  exact rest first second related

theorem bind_left {next : α → Except ε α'}
    {After : α' → β → Prop} (rest : ∀ first second, Related first second →
      Coupled After (next first) (.ok second : Except ε β)) :
    Coupled After (left >>= next) right := by
  rcases coupled with ⟨first, second, rfl, rfl, related⟩
  exact rest first second related

end

theorem foldlM {step : α → ι → Except ε α} {step' : β → ι → Except ε β} {items : List ι}
    (each : ∀ item ∈ items, ∀ first second, Related first second →
      Coupled Related (step first item) (step' second item))
    {first : α} {second : β} (initially : Related first second) :
    Coupled Related (items.foldlM step first) (items.foldlM step' second) := by
  induction items generalizing first second with
  | nil => exact ok initially
  | cons item rest induction =>
    rw [foldlM_cons, foldlM_cons]
    refine (each item mem_cons_self first second initially).bind fun _ _ related => ?_
    exact induction (fun other member => each other (mem_cons_of_mem item member)) related

theorem foldlM_left {step : α → ι → Except ε α} {items : List ι} {second : β}
    (each : ∀ item ∈ items, ∀ first, Related first second →
      Coupled Related (step first item) (.ok second : Except ε β))
    {first : α} (initially : Related first second) :
    Coupled Related (items.foldlM step first) (.ok second : Except ε β) := by
  induction items generalizing first with
  | nil => exact ok initially
  | cons item rest induction =>
    rw [foldlM_cons]
    rcases each item mem_cons_self first initially with ⟨next, _, isNext, isSame, related⟩
    cases isSame
    rw [isNext]
    exact induction (fun other member => each other (mem_cons_of_mem item member)) related

end Coupled

theorem foldlM_invariant (holds : α → Prop) {step : α → ι → Except ε α} {items : List ι}
    (each : ∀ item ∈ items, ∀ first next, holds first → step first item = .ok next → holds next)
    {first last : α} (initially : holds first) (looped : items.foldlM step first = .ok last) :
    holds last := by
  induction items generalizing first with
  | nil =>
    cases looped
    exact initially
  | cons item rest induction =>
    rw [foldlM_cons] at looped
    rcases bind_eq_ok.mp looped with ⟨next, stepped, looped⟩
    exact induction (fun other member => each other (mem_cons_of_mem item member))
      (each item mem_cons_self first next initially stepped) looped

theorem foldlM_projection (part : α → β) (change : β → ι → β) {step : α → ι → Except ε α}
    {items : List ι} (each : ∀ item ∈ items, ∀ first next, step first item = .ok next →
      part next = change (part first) item)
    {first last : α} (looped : items.foldlM step first = .ok last) :
    part last = items.foldl change (part first) := by
  induction items generalizing first with
  | nil =>
    cases looped
    rfl
  | cons item rest induction =>
    rw [foldlM_cons] at looped
    rcases bind_eq_ok.mp looped with ⟨next, stepped, looped⟩
    rw [foldl_cons, ← each item mem_cons_self first next stepped]
    exact induction (fun other member => each other (mem_cons_of_mem item member)) looped

theorem foldlM_translated (state : α → β) (item : ι → ι') (items : List ι)
    {step : α → ι → Except ε α} {step' : β → ι' → Except ε β} (each : ∀ one ∈ items, ∀ reached,
      step' (state reached) (item one) = (step reached one).map state) (first : α) :
    (items.map item).foldlM step' (state first) = (items.foldlM step first).map state := by
  induction items generalizing first with
  | nil => rfl
  | cons one rest induction =>
    rw [map_cons, foldlM_cons, foldlM_cons, each one mem_cons_self]
    cases step first one with
    | error failure => rfl
    | ok next =>
      exact induction (fun other member => each other (mem_cons_of_mem one member)) next

end TelemetryForge
