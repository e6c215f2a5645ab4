import Mathlib

/-! # Finite maps

A Go map whose keys have an order, as the list of its entries in that order. -/

namespace TelemetryForge

open List Option

structure SortedMap (κ ν : Type) [LinearOrder κ] where
  entries : List (κ × ν)
  sorted : entries.Pairwise fun left right => left.1 < right.1
deriving DecidableEq

namespace SortedMap

variable {κ ν : Type} [LinearOrder κ]

def empty : SortedMap κ ν := ⟨[], .nil⟩

def findEntry (key : κ) : List (κ × ν) → Option ν
  | [] => none
  | entry :: rest => if key = entry.1 then some entry.2 else findEntry key rest

def insertEntry (key : κ) (value : ν) : List (κ × ν) → List (κ × ν)
  | [] => [(key, value)]
  | entry :: rest =>
    if key < entry.1 then (key, value) :: entry :: rest
    else if key = entry.1 then (key, value) :: rest
    else entry :: insertEntry key value rest

theorem mem_insertEntry {key : κ} {value : ν} {entries : List (κ × ν)} {entry : κ × ν}
    (member : entry ∈ insertEntry key value entries) :
    entry = (key, value) ∨ entry ∈ entries := by
  induction entries with
  | nil => simpa [insertEntry] using member
  | cons head rest induction =>
    simp only [insertEntry] at member
    split_ifs at member with before same
    · simpa using member
    · rcases mem_cons.mp member with equal | member
      · exact .inl equal
      · exact .inr (mem_cons_of_mem _ member)
    · rcases mem_cons.mp member with equal | member
      · exact .inr (by simp [equal])
      · rcases induction member with equal | member
        · exact .inl equal
        · exact .inr (mem_cons_of_mem _ member)

theorem insertEntry_sorted (key : κ) (value : ν) {entries : List (κ × ν)}
    (sorted : entries.Pairwise fun left right => left.1 < right.1) :
    (insertEntry key value entries).Pairwise fun left right => left.1 < right.1 := by
  induction entries with
  | nil => simp [insertEntry]
  | cons head rest induction =>
    rcases pairwise_cons.mp sorted with ⟨above, tail⟩
    simp only [insertEntry]
    split_ifs with before same
    · refine pairwise_cons.mpr ⟨?_, sorted⟩
      intro entry member
      rcases mem_cons.mp member with rfl | member
      · exact before
      · exact before.trans (above entry member)
    · subst same
      exact pairwise_cons.mpr ⟨above, tail⟩
    · refine pairwise_cons.mpr ⟨?_, induction tail⟩
      intro entry member
      rcases mem_insertEntry member with rfl | member
      · exact lt_of_le_of_ne (not_lt.mp before) (Ne.symm same)
      · exact above entry member

def find? (map : SortedMap κ ν) (key : κ) : Option ν := findEntry key map.entries

def getD (map : SortedMap κ ν) (key : κ) (default : ν) : ν := (map.find? key).getD default

def insert (map : SortedMap κ ν) (key : κ) (value : ν) : SortedMap κ ν :=
  ⟨insertEntry key value map.entries, insertEntry_sorted key value map.sorted⟩

def filter (map : SortedMap κ ν) (keep : κ → ν → Bool) : SortedMap κ ν :=
  ⟨map.entries.filter fun entry => keep entry.1 entry.2, map.sorted.filter _⟩

def erase (map : SortedMap κ ν) (key : κ) : SortedMap κ ν :=
  map.filter fun other _ => decide (other ≠ key)

def mapValues {ν' : Type} (map : SortedMap κ ν) (f : κ → ν → ν') : SortedMap κ ν' :=
  ⟨map.entries.map fun entry => (entry.1, f entry.1 entry.2), by
    rw [List.pairwise_map]
    exact map.sorted⟩

def insertAll (map : SortedMap κ ν) (entries : List (κ × ν)) : SortedMap κ ν :=
  entries.foldl (fun map entry => map.insert entry.1 entry.2) map

@[simp] theorem find?_empty (key : κ) : (empty : SortedMap κ ν).find? key = none := rfl

theorem findEntry_insertEntry (key other : κ) (value : ν) (entries : List (κ × ν)) :
    findEntry other (insertEntry key value entries) =
      if other = key then some value else findEntry other entries := by
  induction entries with
  | nil => simp [insertEntry, findEntry]
  | cons head rest induction =>
    simp only [insertEntry]
    by_cases before : key < head.1
    · simp [before, findEntry]
    by_cases same : key = head.1
    · by_cases found : other = head.1 <;> simp [same, findEntry, found]
    · simp only [before, same, if_false, findEntry, induction]
      by_cases found : other = head.1
      · simp [found, Ne.symm same]
      · simp [found]

@[simp] theorem find?_insert (map : SortedMap κ ν) (key other : κ) (value : ν) :
    (map.insert key value).find? other = if other = key then some value else map.find? other :=
  findEntry_insertEntry key other value map.entries

theorem findEntry_eq_some_iff {entries : List (κ × ν)}
    (sorted : entries.Pairwise fun left right => left.1 < right.1) (key : κ) (value : ν) :
    findEntry key entries = some value ↔ (key, value) ∈ entries := by
  induction entries with
  | nil => simp [findEntry]
  | cons head rest induction =>
    rcases head with ⟨headKey, headValue⟩
    rcases pairwise_cons.mp sorted with ⟨above, tail⟩
    simp only [findEntry]
    split_ifs with same
    · subst same
      constructor
      · intro equal
        simp [some.inj equal]
      · intro member
        rcases mem_cons.mp member with equal | member
        · simp [(Prod.mk.inj equal).2]
        · exact absurd (above _ member) (lt_irrefl _)
    · rw [induction tail, mem_cons, Prod.mk.injEq]
      simp [same]

theorem find?_eq_some_iff (map : SortedMap κ ν) (key : κ) (value : ν) :
    map.find? key = some value ↔ (key, value) ∈ map.entries :=
  findEntry_eq_some_iff map.sorted key value

theorem find?_eq_none_iff (map : SortedMap κ ν) (key : κ) :
    map.find? key = none ↔ ∀ entry ∈ map.entries, entry.1 ≠ key := by
  constructor
  · intro missing entry member same
    have found := (map.find?_eq_some_iff key entry.2).mpr (by rw [← same]; exact member)
    rw [missing] at found
    cases found
  · intro different
    by_contra found
    rcases ne_none_iff_exists'.mp found with ⟨value, found⟩
    exact different _ ((map.find?_eq_some_iff key value).mp found) rfl

@[ext] theorem ext {left right : SortedMap κ ν}
    (same : ∀ key, left.find? key = right.find? key) : left = right := by
  rcases left with ⟨entries, sorted⟩
  rcases right with ⟨others, othersSorted⟩
  congr 1
  have strict {list : List (κ × ν)} (order : list.Pairwise fun left right => left.1 < right.1) :
      list.Nodup := order.imp fun before equal => absurd (equal ▸ before) (lt_irrefl _)
  refine List.Perm.eq_of_pairwise (fun a b _ _ ab ba => absurd (ab.trans ba) (lt_irrefl _))
    sorted othersSorted ((perm_ext_iff_of_nodup (strict sorted) (strict othersSorted)).mpr ?_)
  rintro ⟨key, value⟩
  rw [← findEntry_eq_some_iff sorted, ← findEntry_eq_some_iff othersSorted]
  exact iff_of_eq (congrArg (· = some value) (same key))

theorem find?_filter (map : SortedMap κ ν) (keep : κ → ν → Bool) (key : κ) :
    (map.filter keep).find? key = (map.find? key).filter (keep key) := by
  apply Option.ext
  intro value
  rw [find?_eq_some_iff, Option.filter_eq_some_iff, find?_eq_some_iff]
  simp [filter]

@[simp] theorem find?_erase (map : SortedMap κ ν) (key other : κ) :
    (map.erase key).find? other = if other = key then none else map.find? other := by
  rw [erase, find?_filter]
  by_cases same : other = key <;> cases map.find? other <;> simp [Option.filter, same]

def adjust (map : SortedMap κ ν) (key : κ) (change : ν → ν) : SortedMap κ ν :=
  map.mapValues fun other value => if other = key then change value else value

theorem find?_mapValues {ν' : Type} (map : SortedMap κ ν) (f : κ → ν → ν') (key : κ) :
    (map.mapValues f).find? key = (map.find? key).map (f key) := by
  apply Option.ext
  intro value
  rw [find?_eq_some_iff, Option.map_eq_some_iff]
  simp only [mapValues, List.mem_map, Prod.mk.injEq]
  constructor
  · rintro ⟨⟨other, found⟩, member, rfl, rfl⟩
    exact ⟨found, (map.find?_eq_some_iff other found).mpr member, rfl⟩
  · rintro ⟨found, lookup, rfl⟩
    exact ⟨(key, found), (map.find?_eq_some_iff key found).mp lookup, rfl, rfl⟩

@[simp] theorem find?_adjust (map : SortedMap κ ν) (key other : κ) (change : ν → ν) :
    (map.adjust key change).find? other =
      if other = key then (map.find? other).map change else map.find? other := by
  rw [adjust, find?_mapValues]
  by_cases same : other = key
  · simp only [if_pos same]
  · simp only [if_neg same]
    exact map_id'

theorem insert_perm {map : SortedMap κ ν} {key : κ} (absent : map.find? key = none) (value : ν) :
    (map.insert key value).entries.Perm ((key, value) :: map.entries) := by
  have different := (map.find?_eq_none_iff key).mp absent
  rcases map with ⟨entries, sorted⟩
  change (insertEntry key value entries).Perm ((key, value) :: entries)
  change ∀ entry ∈ entries, entry.1 ≠ key at different
  clear sorted absent
  induction entries with
  | nil => exact .refl _
  | cons head rest induction =>
    rw [forall_mem_cons] at different
    simp only [insertEntry, if_neg different.1.symm]
    split_ifs
    · exact .refl _
    · exact ((induction different.2).cons head).trans (.swap ..)

theorem length_insertEntry (key : κ) (value : ν) {entries : List (κ × ν)}
    (sorted : entries.Pairwise fun left right => left.1 < right.1) :
    (insertEntry key value entries).length =
      if (findEntry key entries).isSome then entries.length else entries.length + 1 := by
  induction entries with
  | nil => rfl
  | cons head rest induction =>
    rcases pairwise_cons.mp sorted with ⟨above, tail⟩
    simp only [insertEntry, findEntry]
    by_cases before : key < head.1
    · have absent : findEntry key rest = none := by
        rw [← not_isSome_iff_eq_none, isSome_iff_exists]
        rintro ⟨found, lookup⟩
        exact absurd (above _ ((findEntry_eq_some_iff tail key found).mp lookup)) before.asymm
      simp [before, before.ne, absent]
    by_cases same : key = head.1
    · simp [same]
    · simp only [before, same, if_false, length_cons, induction tail]
      split_ifs <;> rfl

section

variable (map : SortedMap κ ν)
include map

theorem length_insert (key : κ) (value : ν) :
    (map.insert key value).entries.length =
      if (map.find? key).isSome then map.entries.length else map.entries.length + 1 :=
  length_insertEntry key value map.sorted

theorem entries_adjust (key : κ) (change : ν → ν) :
    (map.adjust key change).entries =
      map.entries.map fun entry => (entry.1, if entry.1 = key then change entry.2 else entry.2) :=
  rfl

theorem entries_erase (key : κ) :
    (map.erase key).entries = map.entries.filter fun entry => decide (entry.1 ≠ key) :=
  rfl

theorem nodup_keys : (map.entries.map Prod.fst).Nodup := by
  rw [List.Nodup, pairwise_map]
  exact map.sorted.imp fun less => less.ne

end

def restrict (map : SortedMap κ ν) (owns : κ → Bool) : SortedMap κ ν :=
  map.filter fun key _ => owns key

theorem find?_restrict (map : SortedMap κ ν) (owns : κ → Bool) (key : κ) :
    (map.restrict owns).find? key = if owns key then map.find? key else none := by
  rw [restrict, find?_filter]
  cases owns key <;> cases map.find? key <;> simp [Option.filter]

theorem restrict_empty (owns : κ → Bool) : (empty : SortedMap κ ν).restrict owns = empty := rfl

theorem restrict_insert (map : SortedMap κ ν) (owns : κ → Bool) (key : κ) (value : ν) :
    (map.insert key value).restrict owns =
      if owns key then (map.restrict owns).insert key value else map.restrict owns := by
  apply ext
  intro other
  by_cases same : other = key
  · subst same
    cases owned : owns other <;> simp [find?_restrict, owned]
  · cases owned : owns key <;> simp [find?_restrict, same]

theorem restrict_erase (map : SortedMap κ ν) (owns : κ → Bool) (key : κ) :
    (map.erase key).restrict owns = (map.restrict owns).erase key := by
  apply ext
  intro other
  by_cases same : other = key <;> simp [find?_restrict, same]

theorem erase_of_absent {map : SortedMap κ ν} {key : κ} (absent : map.find? key = none) :
    map.erase key = map := by
  apply ext
  intro other
  by_cases same : other = key <;> simp [same, absent]

theorem length_restrict_le (map : SortedMap κ ν) (owns : κ → Bool) :
    (map.restrict owns).entries.length ≤ map.entries.length :=
  length_filter_le _ _

theorem insertEntry_last {key : κ} {value : ν} {entries : List (κ × ν)}
    (below : ∀ entry ∈ entries, entry.1 < key) :
    insertEntry key value entries = entries ++ [(key, value)] := by
  induction entries with
  | nil => rfl
  | cons head rest induction =>
    have first := below head (by simp)
    have others := induction (fun entry member => below entry (by simp [member]))
    simp [insertEntry, not_lt.mpr first.le, first.ne', others]

theorem insertAll_entries (map : SortedMap κ ν) : empty.insertAll map.entries = map := by
  have build (done rest : List (κ × ν))
      (doneSorted : done.Pairwise fun left right => left.1 < right.1)
      (sorted : (done ++ rest).Pairwise fun left right => left.1 < right.1) :
      (insertAll ⟨done, doneSorted⟩ rest).entries = done ++ rest := by
    induction rest generalizing done with
    | nil => simp [insertAll]
    | cons entry rest induction =>
      have below : ∀ other ∈ done, other.1 < entry.1 := fun other member =>
        (pairwise_append.mp sorted).2.2 other member entry (by simp)
      have appended : (done ++ [entry]).Pairwise fun left right => left.1 < right.1 := by
        refine List.Pairwise.sublist ?_ sorted
        exact List.Sublist.append_left (by simp) done
      have step : insert ⟨done, doneSorted⟩ entry.1 entry.2 = ⟨done ++ [entry], appended⟩ := by
        simp only [insert, SortedMap.mk.injEq]
        exact insertEntry_last below
      have rest_ := induction (done ++ [entry]) appended (by simpa using sorted)
      simp only [insertAll, foldl_cons] at rest_ ⊢
      rw [step, rest_]
      simp
  have whole := build [] map.entries .nil (by simpa using map.sorted)
  rcases map with ⟨entries, sorted⟩
  simp only [empty] at whole ⊢
  cases inserted : insertAll (⟨[], .nil⟩ : SortedMap κ ν) entries
  simpa [inserted] using whole

theorem forall_mem_insertAll (property : κ × ν → Prop) {map : SortedMap κ ν}
    {entries : List (κ × ν)} (before : ∀ entry ∈ map.entries, property entry)
    (added : ∀ entry ∈ entries, property entry) :
    ∀ entry ∈ (map.insertAll entries).entries, property entry := by
  induction entries generalizing map with
  | nil => exact before
  | cons head rest induction =>
    refine induction ?_ (fun entry member => added entry (by simp [member]))
    intro entry member
    rcases mem_insertEntry member with rfl | member
    · exact added head (by simp)
    · exact before entry member

theorem insert_last {map : SortedMap κ ν} {key : κ} (value : ν)
    (below : ∀ entry ∈ map.entries, entry.1 < key) :
    (map.insert key value).entries = map.entries ++ [(key, value)] :=
  insertEntry_last below

theorem adjust_last {map : SortedMap κ ν} {initial : List (κ × ν)} {key : κ} {value : ν}
    (entries : map.entries = initial ++ [(key, value)]) (change : ν → ν) :
    (map.adjust key change).entries = initial ++ [(key, change value)] := by
  have sorted := map.sorted
  rw [entries, pairwise_append] at sorted
  have before : ∀ entry ∈ initial, entry.1 ≠ key := fun entry member =>
    (sorted.2.2 entry member (key, value) (by simp)).ne
  simp only [adjust, mapValues, entries, map_append, map_cons, map_nil, if_true]
  congr 1
  conv_rhs => rw [← map_id initial]
  apply map_congr_left
  intro entry member
  simp [before entry member]

theorem erase_first {map : SortedMap κ ν} {key : κ} {value : ν} {rest : List (κ × ν)}
    (entries : map.entries = (key, value) :: rest) : (map.erase key).entries = rest := by
  have sorted := map.sorted
  rw [entries, pairwise_cons] at sorted
  simp only [erase, filter, entries, ne_eq, decide_not]
  rw [filter_cons_of_neg (by simp), filter_eq_self]
  intro entry member
  simpa using (sorted.1 entry member).ne'

end SortedMap

end TelemetryForge
