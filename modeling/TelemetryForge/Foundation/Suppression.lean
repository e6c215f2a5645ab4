import TelemetryForge.Foundation.Numbers
import TelemetryForge.Foundation.SortedMap

/-! # Suppressing repeated reports

A table of when each key was last reported. It holds a report back for an interval, and sheds
its old entries when it has grown past a limit. -/

namespace TelemetryForge.Suppression

open SortedMap

variable {κ : Type} [LinearOrder κ]

/-- The report of `key` comes too early. The zero instant stands for no entry. -/
def suppresses (table : SortedMap κ Int) (key : κ) (now interval : Int) : Bool :=
  decide (table.getD key 0 ≠ 0 ∧ Instant.sub now (table.getD key 0) < interval)

def shed (limit : Nat) (period now : Int) (table : SortedMap κ Int) : SortedMap κ Int :=
  if limit < table.entries.length then table.filter fun _ last => decide (now - period ≤ last)
  else table

def reserve (limit : Nat) (period : Int) (table : SortedMap κ Int) (key : κ)
    (now interval : Int) : Bool × SortedMap κ Int :=
  if suppresses table key now interval then (false, table)
  else (true, (shed limit period now table).insert key now)

def Stale (period now : Int) (entry : Option Int) : Prop :=
  ∀ last, entry = some last → last = 0 ∨ last < now - period

theorem Stale.later {period now after : Int} {entry : Option Int}
    (stale : Stale period now entry) (later : now ≤ after) : Stale period after entry := by
  intro last found
  rcases stale last found with zero | old
  · exact .inl zero
  · exact .inr (by omega)

variable {table : SortedMap κ Int} {interval : Int}

theorem Stale.suppresses {period now : Int} {key : κ}
    (stale : Stale period now (table.find? key)) (within : interval ≤ period)
    (lower : Duration.shortest < interval) (upper : interval ≤ Duration.longest) :
    suppresses table key now interval = false := by
  unfold Suppression.suppresses getD
  rw [decide_eq_false_iff_not, Instant.sub_lt_iff _ _ lower upper]
  cases found : table.find? key with
  | none => simp
  | some last =>
    rcases stale last found with zero | old
    · simp [zero]
    · simp only [Option.getD_some]
      omega

def AgreeOn (owns : κ → Prop) (period now : Int) (left right : SortedMap κ Int) : Prop :=
  ∀ key, owns key → left.find? key = right.find? key ∨
    Stale period now (left.find? key) ∧ Stale period now (right.find? key)

namespace AgreeOn

variable {owns : κ → Prop} {period now : Int} {left right : SortedMap κ Int}

theorem refl (table : SortedMap κ Int) : AgreeOn owns period now table table :=
  fun _ _ => .inl rfl

section

variable (agree : AgreeOn owns period now left right)
include agree

theorem symm : AgreeOn owns period now right left := by
  intro key owned
  rcases agree key owned with same | ⟨staleLeft, staleRight⟩
  · exact .inl same.symm
  · exact .inr ⟨staleRight, staleLeft⟩

theorem later {after : Int} (later : now ≤ after) : AgreeOn owns period after left right := by
  intro key owned
  rcases agree key owned with same | ⟨staleLeft, staleRight⟩
  · exact .inl same
  · exact .inr ⟨staleLeft.later later, staleRight.later later⟩

theorem suppresses_eq {key : κ} (owned : owns key)
    (within : interval ≤ period) (lower : Duration.shortest < interval)
    (upper : interval ≤ Duration.longest) :
    suppresses left key now interval = suppresses right key now interval := by
  rcases agree key owned with same | ⟨staleLeft, staleRight⟩
  · unfold suppresses getD
    rw [same]
  · rw [staleLeft.suppresses within lower upper, staleRight.suppresses within lower upper]

theorem shed_left (limit : Nat) : AgreeOn owns period now (shed limit period now left) right := by
  unfold shed
  split_ifs with full
  · intro key owned
    rw [find?_filter]
    cases found : left.find? key with
    | none =>
      have held := agree key owned
      rwa [found] at held
    | some last =>
      by_cases fresh : now - period ≤ last
      · have held := agree key owned
        rw [found] at held
        simpa [Option.filter, fresh] using held
      · have held := agree key owned
        rw [found] at held
        have stale : Stale period now (right.find? key) := by
          rcases held with same | ⟨_, staleRight⟩
          · intro other found
            rw [← same] at found
            exact .inr (by cases found; omega)
          · exact staleRight
        exact .inr ⟨by simp [Option.filter, fresh, Stale], stale⟩
  · exact agree

theorem shed_both (limit : Nat) :
    AgreeOn owns period now (shed limit period now left) (shed limit period now right) :=
  ((agree.shed_left limit).symm.shed_left limit).symm

theorem insert_both (key : κ) (time : Int) :
    AgreeOn owns period now (left.insert key time) (right.insert key time) := by
  intro other owned
  rw [find?_insert, find?_insert]
  split_ifs
  · exact .inl rfl
  · exact agree other owned

theorem insert_left {key : κ} (foreign : ¬owns key)
    (time : Int) : AgreeOn owns period now (left.insert key time) right := by
  intro other owned
  have different : other ≠ key := fun same => foreign (same ▸ owned)
  rw [find?_insert, if_neg different]
  exact agree other owned

theorem reserve_both (limit : Nat) {key : κ} (owned : owns key) (within : interval ≤ period)
    (lower : Duration.shortest < interval) (upper : interval ≤ Duration.longest) :
    (reserve limit period left key now interval).1 =
        (reserve limit period right key now interval).1 ∧
      AgreeOn owns period now (reserve limit period left key now interval).2
        (reserve limit period right key now interval).2 := by
  have same := agree.suppresses_eq owned within lower upper
  unfold reserve
  rw [same]
  split_ifs
  · exact ⟨rfl, agree⟩
  · exact ⟨rfl, (agree.shed_both limit).insert_both key now⟩

theorem reserve_left (limit : Nat) {key : κ} (foreign : ¬owns key) (interval : Int) :
    AgreeOn owns period now (reserve limit period left key now interval).2 right := by
  unfold reserve
  split_ifs
  · exact agree
  · exact (agree.shed_left limit).insert_left foreign now

end

end AgreeOn

def recent (period now : Int) (table : SortedMap κ Int) : Nat :=
  (table.filter fun _ last => decide (now - period ≤ last)).entries.length

def Bounded (limit : Nat) (period now : Int) (table : SortedMap κ Int) : Prop :=
  table.entries.length ≤ limit + 1 ∨ ∀ entry ∈ table.entries, now - period ≤ entry.2

variable {limit : Nat}

theorem Bounded.length_le_iff {period now : Int} (bounded : Bounded limit period now table) :
    table.entries.length ≤ limit + 1 ↔ recent period now table ≤ limit + 1 := by
  constructor
  · exact (List.length_filter_le _ _).trans
  · intro few
    rcases bounded with within | all
    · exact within
    · have same : recent period now table = table.entries.length :=
        congrArg List.length (List.filter_eq_self.mpr fun entry member => by simpa using all entry member)
      exact same ▸ few

theorem Bounded.reserve {period now : Int}
    (bounded : Bounded limit period now table) (positive : 0 ≤ period) (key : κ) (interval : Int) :
    Bounded limit period now (reserve limit period table key now interval).2 := by
  unfold Suppression.reserve
  split_ifs
  · exact bounded
  · by_cases full : limit < table.entries.length
    · right
      intro entry member
      rcases mem_insertEntry member with rfl | member
      · dsimp only
        omega
      · simp only [shed, if_pos full, filter, List.mem_filter, decide_eq_true_eq] at member
        exact member.2
    · left
      simp only [shed, if_neg full, length_insert]
      split_ifs <;> omega

theorem find?_reserve {period now : Int}
    (positive : 0 ≤ period) {key other : κ} (found : table.find? other = some now) :
    (reserve limit period table key now interval).2.find? other = some now := by
  unfold reserve
  split_ifs
  · exact found
  · have kept : (shed limit period now table).find? other = some now := by
      unfold shed
      split_ifs
      · simp [find?_filter, found, Option.filter, positive]
      · exact found
    rw [find?_insert, kept]
    split_ifs <;> rfl

theorem find?_reserve_self {period now : Int}
    (key : κ) (all : ∀ entry ∈ table.entries, entry.2 = now) :
    (reserve limit period table key now interval).2.find? key = some now := by
  unfold reserve
  split_ifs with held
  · simp only [suppresses, getD] at held
    cases found : table.find? key with
    | none => simp [found] at held
    | some last => exact congrArg some (all _ ((table.find?_eq_some_iff key last).mp found))
  · rw [find?_insert, if_pos rfl]

theorem reserve_all_now {period now : Int}
    (key : κ) (all : ∀ entry ∈ table.entries, entry.2 = now) :
    ∀ entry ∈ (reserve limit period table key now interval).2.entries, entry.2 = now := by
  unfold reserve
  split_ifs
  · exact all
  · intro entry member
    rcases mem_insertEntry member with rfl | member
    · rfl
    · unfold shed at member
      split_ifs at member
      · exact all entry (List.mem_of_mem_filter member)
      · exact all entry member

end TelemetryForge.Suppression
