import Mathlib

/-! # Chains of links

A table gives each of its keys at most one successor. -/

namespace TelemetryForge.Links

variable {α : Type} [DecidableEq α] (next : α → Option α)

def walk : (fuel : Nat) → (seen : List α) → (current : α) → Bool
  | 0, _, _ => false
  | fuel + 1, seen, current =>
    if current ∈ seen then false
    else
      match next current with
      | none => true
      | some following => walk fuel (current :: seen) following

def Link (key following : α) : Prop := next key = some following

def Acyclic : Prop := ∀ start, ¬Relation.TransGen (Link next) start start

variable {next}

theorem acc_of_walk {fuel : Nat} {seen : List α} {current : α}
    (ends : walk next fuel seen current = true) :
    Acc (fun later earlier => Link next earlier later) current := by
  induction fuel generalizing seen current with
  | zero => cases ends
  | succ fuel induction =>
    rw [walk] at ends
    split_ifs at ends
    refine .intro current fun following linked => ?_
    rw [Link] at linked
    rw [linked] at ends
    exact induction ends

omit [DecidableEq α] in
theorem not_transGen_of_acc {start : α}
    (accessible : Acc (fun later earlier => Link next earlier later) start) :
    ¬Relation.TransGen (Link next) start start := by
  induction accessible with
  | intro start _ induction =>
    intro cycle
    -- The successor of the start lies on the same cycle.
    rcases Relation.TransGen.head'_iff.mp cycle with ⟨following, linked, back⟩
    have shifted : Relation.TransGen (Link next) following following :=
      Relation.TransGen.tail' back linked
    exact induction following linked shifted

theorem walk_of_acyclic (acyclic : Acyclic next) {keys : List α}
    (domain : ∀ key following, next key = some following → key ∈ keys) {fuel : Nat}
    {seen : List α} {current : α} (before : ∀ key ∈ seen, Relation.TransGen (Link next) key current)
    (distinct : seen.Nodup) (listed : seen ⊆ keys) (enough : keys.length < fuel + seen.length) :
    walk next fuel seen current = true := by
  induction fuel generalizing seen current with
  | zero =>
    have fits : seen.length ≤ keys.length := (List.subperm_of_subset distinct listed).length_le
    omega
  | succ fuel induction =>
    have unseen : current ∉ seen := fun member => acyclic current (before current member)
    rw [walk, if_neg unseen]
    cases linked : next current with
    | none => rfl
    | some following =>
      refine induction ?_ (List.nodup_cons.mpr ⟨unseen, distinct⟩) ?_ ?_
      · intro key member
        rcases List.mem_cons.mp member with rfl | earlier
        · exact .single linked
        · exact (before key earlier).tail linked
      · exact List.cons_subset.mpr ⟨domain current following linked, listed⟩
      · rw [List.length_cons]
        omega

theorem all_walk_iff {keys : List α}
    (domain : ∀ key following, next key = some following → key ∈ keys) :
    (∀ start ∈ keys, walk next (keys.length + 1) [] start = true) ↔ Acyclic next := by
  constructor
  · intro ends start cycle
    rcases Relation.TransGen.head'_iff.mp cycle with ⟨following, linked, _⟩
    exact not_transGen_of_acc (acc_of_walk (ends start (domain start following linked))) cycle
  · intro acyclic start _
    apply walk_of_acyclic acyclic domain
    · simp
    · exact .nil
    · exact List.nil_subset _
    · simp

omit [DecidableEq α] in
theorem nodup_of_isChain (acyclic : Acyclic next) {chain : List α}
    (linked : chain.IsChain (Link next)) : chain.Nodup := by
  have closed : chain.IsChain (Relation.TransGen (Link next)) :=
    linked.imp fun _ _ link => .single link
  refine (List.isChain_iff_pairwise.mp closed).imp fun {earlier later} reaches => ?_
  rintro rfl
  exact acyclic earlier reaches

end TelemetryForge.Links

/-! ## Merkle trees

A level of nodes is reduced pairwise until one node is left; an odd node at the end of a level
is paired with itself. -/

namespace TelemetryForge.Merkle

open List

variable {α : Type}

def pairs : List α → List (α × α)
  | [] => []
  | [last] => [(last, last)]
  | left :: right :: rest => (left, right) :: pairs rest

variable (combine : α → α → α)

def nextLevel (level : List α) : List α := (pairs level).map fun pair => combine pair.1 pair.2

def reduce : (fuel : Nat) → List α → Option α
  | _, [] => none
  | _, [node] => some node
  | 0, _ => none
  | fuel + 1, level => reduce fuel (nextLevel combine level)

def root (leaves : List α) : Option α := reduce combine leaves.length leaves

def combined : (fuel : Nat) → List α → Set (α × α)
  | _, [] => ∅
  | _, [_] => ∅
  | 0, _ => ∅
  | fuel + 1, level => { pair | pair ∈ pairs level } ∪ combined fuel (nextLevel combine level)

def combinedPairs (leaves : List α) : Set (α × α) := combined combine leaves.length leaves

theorem pairs_length (level : List α) : (pairs level).length = (level.length + 1) / 2 := by
  induction level using pairs.induct with
  | case1 => simp [pairs]
  | case2 last => simp [pairs]
  | case3 left right rest induction =>
    simp only [pairs, length_cons, induction]
    omega

@[simp] theorem nextLevel_length (level : List α) :
    (nextLevel combine level).length = (level.length + 1) / 2 := by
  simp [nextLevel, pairs_length]

variable {right left : List α}

theorem pairs_injective (length : left.length = right.length)
    (equal : pairs left = pairs right) : left = right := by
  induction left using pairs.induct generalizing right with
  | case1 => exact (length_eq_zero_iff.mp length.symm).symm
  | case2 last =>
    rcases length_eq_one_iff.mp length.symm with ⟨other, rfl⟩
    simpa [pairs] using equal
  | case3 first second rest induction =>
    rcases right with _ | ⟨first', _ | ⟨second', rest'⟩⟩
    · simp at length
    · simp at length
    simp only [pairs, cons.injEq, Prod.mk.injEq] at equal
    have others := induction (by simpa using length) equal.2
    simp [equal.1.1, equal.1.2, others]

variable {level : List α} {fuel : Nat}

theorem reduce_isSome (nonempty : level ≠ [])
    (enough : level.length ≤ fuel + 1) : ∃ node, reduce combine fuel level = some node := by
  induction fuel generalizing level with
  | zero =>
    rcases level with _ | ⟨node, _ | ⟨second, rest⟩⟩
    · contradiction
    · exact ⟨node, rfl⟩
    · simp at enough
  | succ fuel induction =>
    rcases level with _ | ⟨node, _ | ⟨second, rest⟩⟩
    · contradiction
    · exact ⟨node, rfl⟩
    · apply induction
      · simp [nextLevel, pairs]
      · simp only [nextLevel_length, length_cons] at enough ⊢
        omega

theorem root_isSome {leaves : List α} (nonempty : leaves ≠ []) :
    ∃ node, root combine leaves = some node :=
  reduce_isSome combine nonempty (by omega)

variable {property : α → Prop}

theorem nextLevel_invariant
    (preserved : ∀ left right, property left → property right → property (combine left right))
    (holds : ∀ node ∈ level, property node) :
    ∀ node ∈ nextLevel combine level, property node := by
  induction level using pairs.induct with
  | case1 => simp [nextLevel, pairs]
  | case2 last =>
    have only := holds last (by simp)
    simpa [nextLevel, pairs] using preserved last last only only
  | case3 left right rest induction =>
    have others := induction (fun node member => holds node (by simp [member]))
    simp only [nextLevel, pairs, map_cons, forall_mem_cons] at others ⊢
    exact ⟨preserved left right (holds left (by simp)) (holds right (by simp)), others⟩

theorem pairs_invariant
    (holds : ∀ node ∈ level, property node) :
    ∀ pair ∈ pairs level, property pair.1 ∧ property pair.2 := by
  induction level using pairs.induct with
  | case1 => simp [pairs]
  | case2 last => simpa [pairs] using holds last (by simp)
  | case3 left right rest induction =>
    have others := induction (fun node member => holds node (by simp [member]))
    simp only [pairs, forall_mem_cons]
    exact ⟨⟨holds left (by simp), holds right (by simp)⟩, others⟩

theorem combined_invariant
    (preserved : ∀ left right, property left → property right → property (combine left right))
    (holds : ∀ node ∈ level, property node) :
    ∀ pair ∈ combined combine fuel level, property pair.1 ∧ property pair.2 := by
  induction fuel generalizing level with
  | zero => rcases level with _ | ⟨first, _ | ⟨second, rest⟩⟩ <;> simp [combined]
  | succ fuel induction =>
    rcases level with _ | ⟨first, _ | ⟨second, rest⟩⟩
    · simp [combined]
    · simp [combined]
    · rintro pair (inside | later)
      · exact pairs_invariant holds pair inside
      · exact induction (nextLevel_invariant combine preserved holds) pair later

theorem reduce_invariant
    (preserved : ∀ left right, property left → property right → property (combine left right))
    (holds : ∀ node ∈ level, property node) {node : α}
    (reduced : reduce combine fuel level = some node) : property node := by
  induction fuel generalizing level with
  | zero =>
    rcases level with _ | ⟨first, _ | ⟨second, rest⟩⟩ <;> simp [reduce] at reduced
    exact reduced ▸ holds first (by simp)
  | succ fuel induction =>
    rcases level with _ | ⟨first, _ | ⟨second, rest⟩⟩
    · simp [reduce] at reduced
    · simp only [reduce, Option.some.injEq] at reduced
      exact reduced ▸ holds first (by simp)
    · exact induction (nextLevel_invariant combine preserved holds) reduced

private theorem nextLevel_injective {combinable : Set (α × α)}
    (injective : Set.InjOn (fun pair : α × α => combine pair.1 pair.2) combinable)
    (leftPairs : ∀ pair ∈ pairs left, pair ∈ combinable)
    (rightPairs : ∀ pair ∈ pairs right, pair ∈ combinable)
    (equal : nextLevel combine left = nextLevel combine right) : pairs left = pairs right := by
  have pointwise (first second : List (α × α)) (firstInside : ∀ pair ∈ first, pair ∈ combinable)
      (secondInside : ∀ pair ∈ second, pair ∈ combinable)
      (same : first.map (fun pair => combine pair.1 pair.2) =
        second.map fun pair => combine pair.1 pair.2) : first = second := by
    induction first generalizing second with
    | nil => exact (map_eq_nil_iff.mp same.symm).symm
    | cons head tail induction =>
      rcases second with _ | ⟨other, rest⟩
      · simp at same
      simp only [map_cons, cons.injEq] at same
      simp only [forall_mem_cons] at firstInside secondInside
      rw [injective firstInside.1 secondInside.1 same.1,
        induction rest firstInside.2 secondInside.2 same.2]
  exact pointwise _ _ leftPairs rightPairs equal

theorem reduce_injective {combinable : Set (α × α)}
    (injective : Set.InjOn (fun pair : α × α => combine pair.1 pair.2) combinable)
    (length : left.length = right.length) (enough : left.length ≤ fuel + 1)
    (leftInside : combined combine fuel left ⊆ combinable)
    (rightInside : combined combine fuel right ⊆ combinable)
    (equal : reduce combine fuel left = reduce combine fuel right) (nonempty : left ≠ []) :
    left = right := by
  -- Equal roots mean equal next levels, hence equal pairs, hence equal levels.
  induction fuel generalizing left right with
  | zero =>
    rcases left with _ | ⟨first, _ | ⟨second, rest⟩⟩
    · contradiction
    · rcases length_eq_one_iff.mp length.symm with ⟨other, rfl⟩
      simpa [reduce] using equal
    · simp at enough
  | succ fuel induction =>
    rcases left with _ | ⟨first, _ | ⟨second, rest⟩⟩
    · contradiction
    · rcases length_eq_one_iff.mp length.symm with ⟨other, rfl⟩
      simpa [reduce] using equal
    rcases right with _ | ⟨first', _ | ⟨second', rest'⟩⟩
    · simp at length
    · simp at length
    simp only [combined, Set.union_subset_iff] at leftInside rightInside
    apply pairs_injective length
    apply nextLevel_injective combine injective leftInside.1 rightInside.1
    refine induction ?_ ?_ leftInside.2 rightInside.2 equal ?_
    · simp only [nextLevel_length, length]
    · simp only [nextLevel_length, length_cons] at enough ⊢
      omega
    · simp [nextLevel, pairs]

theorem root_injective (length : left.length = right.length)
    (injective : Set.InjOn (fun pair : α × α => combine pair.1 pair.2)
      (combinedPairs combine left ∪ combinedPairs combine right))
    (equal : root combine left = root combine right) (nonempty : left ≠ []) : left = right := by
  have sameFuel : root combine right = reduce combine left.length right := by
    rw [root, length]
  have samePairs : combinedPairs combine right = combined combine left.length right := by
    rw [combinedPairs, length]
  rw [samePairs] at injective
  rw [sameFuel] at equal
  exact reduce_injective combine injective length (by omega) Set.subset_union_left
    Set.subset_union_right equal nonempty

end TelemetryForge.Merkle
