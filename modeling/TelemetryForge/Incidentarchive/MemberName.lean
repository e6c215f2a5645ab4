import TelemetryForge.Foundation.Bytes

/-! # Names of archive members

`safeMemberName` accepts a name that `path.Clean` does not change. `path.Clean` is modelled
on the elements between slashes: empty elements and dots are dropped, and a pair of dots
removes the element before it, if there is one that can be removed. -/

namespace TelemetryForge.Incidentarchive

open List

def slash : UInt8 := 47

def dot : Bytes := [46]

def dotdot : Bytes := [46, 46]

def push (rooted : Bool) (stack : List Bytes) (element : Bytes) : List Bytes :=
  if element = [] ∨ element = dot then stack
  else if element = dotdot then
    match stack with
    | [] => if rooted then [] else [dotdot]
    | last :: rest => if last = dotdot then dotdot :: stack else rest
  else element :: stack

def elements (rooted : Bool) (path : Bytes) : List Bytes :=
  ((path.splitOn slash).foldl (push rooted) []).reverse

def isAbs (path : Bytes) : Bool := path.head? = some slash

def clean (path : Bytes) : Bytes :=
  if isAbs path then slash :: [slash].intercalate (elements true path)
  else if elements false path = [] then dot
  else [slash].intercalate (elements false path)

def join (root name : Bytes) : Bytes :=
  if root = [] ∧ name = [] then []
  else clean (if root = [] then name else root ++ slash :: name)

def safeMemberName (name : Bytes) : Bool :=
  if name = [] ∨ name.contains 92 ∨ isAbs name then false
  else clean name == name && clean name != dot && !(dotdot ++ [slash]).isPrefixOf (clean name)

def Below (root path : Bytes) : Prop :=
  isAbs path = true ∧ ∃ rest, rest ≠ [] ∧ elements true path = elements true root ++ rest

def Confined (name : Bytes) : Prop := ∀ root, isAbs root = true → Below root (join root name)

structure Normal (element : Bytes) : Prop where
  nonempty : element ≠ []
  notDot : element ≠ dot
  notDotdot : element ≠ dotdot
  whole : slash ∉ element

theorem slash_not_mem_of_splitOn {path element : Bytes} (member : element ∈ path.splitOn slash) :
    slash ∉ element := by
  induction path generalizing element with
  | nil => simp_all
  | cons byte rest induction =>
    rw [splitOn_cons_eq_if_modifyHead] at member
    split_ifs at member with same
    · rcases mem_cons.mp member with rfl | member
      · exact not_mem_nil
      · exact induction member
    · rcases pieces : rest.splitOn slash with _ | ⟨first, others⟩
      · exact absurd pieces (splitOn_ne_nil slash rest)
      rw [pieces, modifyHead_cons] at member
      rw [pieces] at induction
      rcases mem_cons.mp member with rfl | member
      · have different : slash ≠ byte := fun equal => same (by simp [equal])
        exact not_mem_cons_of_ne_of_not_mem different (induction mem_cons_self)
      · exact induction (mem_cons_of_mem _ member)

theorem foldl_push_normal (rooted : Bool) {items : List Bytes}
    (normal : ∀ element ∈ items, Normal element) (stack : List Bytes) :
    items.foldl (push rooted) stack = items.reverse ++ stack := by
  induction items generalizing stack with
  | nil => rfl
  | cons element rest induction =>
    rw [forall_mem_cons] at normal
    have pushed : push rooted stack element = element :: stack := by
      simp [push, normal.1.nonempty, normal.1.notDot, normal.1.notDotdot]
    rw [foldl_cons, pushed, induction normal.2, reverse_cons, append_assoc]
    rfl

/-- Pairs of dots that nothing came before stay at the front, if the path is not rooted. -/
def Kept (rooted : Bool) (stack : List Bytes) : Prop :=
  ∃ names ups, stack = names ++ List.replicate ups dotdot ∧ (rooted = true → ups = 0) ∧
    ∀ element ∈ names, Normal element

theorem Kept.push {rooted : Bool} {stack : List Bytes} (kept : Kept rooted stack)
    {element : Bytes} (whole : slash ∉ element) :
    Kept rooted (Incidentarchive.push rooted stack element) := by
  rcases kept with ⟨names, ups, rfl, noUps, normal⟩
  unfold Incidentarchive.push
  by_cases skipped : element = [] ∨ element = dot
  · rw [if_pos skipped]
    exact ⟨names, ups, rfl, noUps, normal⟩
  by_cases isParent : element = dotdot
  · rw [if_neg skipped, if_pos isParent]
    rcases names with _ | ⟨last, names⟩
    · rcases ups with _ | ups
      · cases rooted
        · exact ⟨[], 1, rfl, nofun, nofun⟩
        · exact ⟨[], 0, rfl, fun _ => rfl, nofun⟩
      · exact ⟨[], ups + 2, rfl, fun isRooted => absurd (noUps isRooted) (by simp), nofun⟩
    · rw [forall_mem_cons] at normal
      simp only [cons_append, if_neg normal.1.notDotdot]
      exact ⟨names, ups, rfl, noUps, normal.2⟩
  · rw [if_neg skipped, if_neg isParent]
    rw [not_or] at skipped
    exact ⟨element :: names, ups, rfl, noUps,
      forall_mem_cons.mpr ⟨⟨skipped.1, skipped.2, isParent, whole⟩, normal⟩⟩

theorem kept_foldl (rooted : Bool) (path : Bytes) :
    Kept rooted ((path.splitOn slash).foldl (push rooted) []) := by
  refine foldlRecOn _ _ (motive := Kept rooted) ⟨[], 0, rfl, fun _ => rfl, nofun⟩ ?_
  intro stack kept element member
  exact kept.push (slash_not_mem_of_splitOn member)

theorem normal_elements (path : Bytes) : ∀ element ∈ elements true path, Normal element := by
  rcases kept_foldl true path with ⟨names, ups, stack, noUps, normal⟩
  rw [noUps rfl, replicate_zero, append_nil] at stack
  intro element member
  rw [elements, stack, mem_reverse] at member
  exact normal element member

theorem normal_of_safe {name : Bytes} (safe : safeMemberName name = true) :
    name = dotdot ∨ ∀ element ∈ name.splitOn slash, Normal element := by
  unfold safeMemberName at safe
  split_ifs at safe with refused
  simp only [not_or, Bool.not_eq_true] at refused
  simp only [Bool.and_eq_true, beq_iff_eq, bne_iff_ne, Bool.not_eq_true'] at safe
  rcases safe with ⟨⟨same, notDot⟩, notParent⟩
  rw [same] at notDot notParent
  rw [clean, if_neg (by simp [refused.2.2])] at same
  split_ifs at same with empty
  · exact absurd same.symm notDot
  rcases kept_foldl false name with ⟨names, ups, stack, _, normal⟩
  have all : elements false name = replicate ups dotdot ++ names.reverse := by
    rw [elements, stack, reverse_append, reverse_replicate]
  have whole : ∀ element ∈ elements false name, slash ∉ element := by
    intro element member
    rw [all, mem_append, mem_reverse] at member
    rcases member with up | proper
    · rw [eq_of_mem_replicate up]
      decide
    · exact (normal element proper).whole
  have pieces : name.splitOn slash = elements false name := by
    conv_lhs => rw [← same]
    exact splitOn_intercalate slash whole empty
  rcases ups with _ | ups
  · right
    intro element member
    rw [pieces, all] at member
    exact normal element (by simpa using member)
  · left
    rw [all, replicate_succ, cons_append] at same
    rcases rest : replicate ups dotdot ++ names.reverse with _ | ⟨second, others⟩
    · rw [rest] at same
      simpa using same.symm
    · rw [rest, intercalate_cons_cons] at same
      rw [← same, append_assoc] at notParent
      simp [dotdot, isPrefixOf] at notParent

theorem elements_clean {path : Bytes} (rooted : isAbs path = true)
    (nonempty : elements true path ≠ []) : elements true (clean path) = elements true path := by
  have normal := normal_elements path
  have pieces : (clean path).splitOn slash = [] :: elements true path := by
    have split := splitOn_append_cons_self (a := slash) []
      ([slash].intercalate (elements true path))
    rw [splitOn_intercalate slash (fun element member => (normal element member).whole)
      nonempty] at split
    rw [clean, if_pos rooted]
    exact split
  rw [elements, pieces, foldl_cons, foldl_push_normal true normal]
  simp [push]

/-- Every accepted name but a pair of dots stays below every root. -/
theorem confined_iff (name : Bytes) :
    (safeMemberName name = true → Confined name) ↔ name ≠ dotdot := by
  constructor
  · rintro confined rfl
    rcases (confined (by decide) [slash] rfl).2 with ⟨rest, nonempty, equal⟩
    exact nonempty (nil_append rest ▸ equal.symm)
  · intro proper safe root rooted
    have normal := (normal_of_safe safe).resolve_left proper
    have present : root ≠ [] := by
      rintro rfl
      cases rooted
    have isAbsolute : isAbs (root ++ slash :: name) = true := by
      cases root with
      | nil => cases rooted
      | cons first rest => exact rooted
    have joined : join root name = clean (root ++ slash :: name) := by simp [join, present]
    have all : elements true (root ++ slash :: name) =
        elements true root ++ name.splitOn slash := by
      rw [elements, splitOn_append_cons_self, foldl_append,
        foldl_push_normal true normal, reverse_append, reverse_reverse]
      rfl
    have nonempty := splitOn_ne_nil slash name
    rw [joined]
    refine ⟨by rw [clean, if_pos isAbsolute]; rfl, name.splitOn slash, nonempty, ?_⟩
    rw [elements_clean isAbsolute (by simp [all, nonempty]), all]

/-- A member named by a pair of dots is accepted and leads to the parent of the root. -/
theorem not_confined_dotdot :
    safeMemberName dotdot = true ∧ join (ascii "/srv/archive") dotdot = ascii "/srv" ∧
      ¬Confined dotdot := by
  refine ⟨by decide, by decide +kernel, fun confined => ?_⟩
  rcases (confined [slash] rfl).2 with ⟨rest, nonempty, equal⟩
  exact nonempty (nil_append rest ▸ equal.symm)

end TelemetryForge.Incidentarchive
