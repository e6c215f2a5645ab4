import TelemetryForge.Schema.Observe

/-! # The truncation flag

The flag of a description against the paths that are missing in it. -/

namespace TelemetryForge.Schema

open List

mutual
def Payload.paths (path : Bytes) : Payload → List Bytes
  | .leaf _ => [path]
  | .object members => path :: members.paths path

def Members.paths (path : Bytes) : Members → List Bytes
  | .nil => []
  | .cons key value rest => value.paths (memberPath path key) ++ rest.paths path
end

@[simp] theorem payloadField_path (path : Bytes) (type : ValueType) :
    (payloadField path type).1.path = path := by
  unfold payloadField
  split_ifs
  · exact semanticField_path _ _ _
  · rfl

mutual
theorem Payload.fields_sublist (path : Bytes) (depth : Nat) (payload : Payload) :
    ((payload.fields path depth).map Field.path).Sublist (payload.paths path) := by
  cases payload with
  | leaf type =>
    rw [Payload.fields]
    split_ifs
    · exact nil_sublist _
    · simp [Payload.paths]
  | object members =>
    rw [Payload.fields]
    split_ifs
    · exact nil_sublist _
    · rw [map_cons, payloadField_path, Payload.paths]
      exact (members.fields_sublist path (depth + 1)).cons_cons path

theorem Members.fields_sublist (path : Bytes) (depth : Nat) (members : Members) :
    ((members.fields path depth).map Field.path).Sublist (members.paths path) := by
  cases members with
  | nil => exact .slnil
  | cons key value rest =>
    rw [Members.fields, map_append, Members.paths]
    exact (value.fields_sublist _ depth).append (rest.fields_sublist path depth)
end

mutual
theorem Payload.length_fields_iff (path : Bytes) (depth : Nat) (payload : Payload) :
    (payload.fields path depth).length = (payload.paths path).length ↔
      payload.exceeds depth = false := by
  cases payload with
  | leaf type =>
    by_cases deep : maxPayloadDepth < depth
    · simp [Payload.fields, Payload.paths, Payload.exceeds, deep]
    · simp [Payload.fields, Payload.paths, Payload.exceeds, deep]
  | object members =>
    by_cases deep : maxPayloadDepth < depth
    · simp [Payload.fields, Payload.paths, Payload.exceeds, deep]
    · simp [Payload.fields, Payload.paths, Payload.exceeds, deep, members.length_fields_iff path (depth + 1)]

theorem Members.length_fields_iff (path : Bytes) (depth : Nat) (members : Members) :
    (members.fields path depth).length = (members.paths path).length ↔
      members.exceeds depth = false := by
  cases members with
  | nil => simp [Members.fields, Members.paths, Members.exceeds]
  | cons key value rest =>
    have first := (value.fields_sublist (memberPath path key) depth).length_le
    have others := (rest.fields_sublist path depth).length_le
    rw [length_map] at first others
    rw [Members.fields, Members.paths, Members.exceeds, length_append, length_append, Bool.or_eq_false_iff,
      ← value.length_fields_iff (memberPath path key) depth,
      ← rest.length_fields_iff path depth]
    omega
end

theorem Payload.paths_length_pos (path : Bytes) (payload : Payload) :
    0 < (payload.paths path).length := by
  cases payload <;> simp [Payload.paths]

def tagPaths (event : Event) : List Bytes :=
  event.tags.entries.map fun entry => ascii "tags." ++ entry.1

section Flag

variable [Json.FloatText] (event : Event)

def payloadPaths : List Bytes :=
  if event.payload = [] then []
  else
    match Payload.decode event.payload with
    | some payload => payload.paths (ascii "payload")
    | none => [ascii "payload"]

def allPaths : List Bytes :=
  (metricFields event).map Field.path ++ (tagPaths event ++ payloadPaths event)

def LeftOut : Prop :=
  ∃ path ∈ tagPaths event ++ payloadPaths event,
    ((describe event).fields.map Field.path).count path < (allPaths event).count path

structure FlagExact : Prop where
  bounded : (describe event).fields.length ≤ maxEventFields
  flag : (describe event).truncated = true ↔ LeftOut event

omit [Json.FloatText] in
theorem baseFields_paths :
    (baseFields event).map Field.path = (metricFields event).map Field.path ++ tagPaths event := by
  simp [baseFields, tagPaths, tagField, Function.comp_def]

omit [Json.FloatText] in
theorem baseFields_length :
    (baseFields event).length = (metricFields event).length + (tagPaths event).length := by
  rw [← length_map Field.path, baseFields_paths, length_append, length_map]

theorem payloadFields_sublist :
    ((payloadFields event).map Field.path).Sublist (payloadPaths event) := by
  unfold payloadFields payloadPaths
  split_ifs
  · exact .slnil
  · cases Payload.decode event.payload with
    | some payload => exact payload.fields_sublist _ _
    | none => exact .refl _

omit [Json.FloatText] in
theorem exists_count_lt_iff {α : Type} [BEq α] [LawfulBEq α] {part whole : List α}
    (sublist : part.Sublist whole) :
    (∃ value, part.count value < whole.count value) ↔ part.length < whole.length := by
  constructor
  · rintro ⟨value, fewer⟩
    refine lt_of_le_of_ne sublist.length_le fun same => ?_
    rw [sublist.eq_of_length same] at fewer
    exact fewer.false
  · intro shorter
    by_contra none
    push Not at none
    have same : part.Perm whole :=
      perm_iff_count.mpr fun value => le_antisymm (sublist.count_le value) (none value)
    exact shorter.ne same.length_eq

theorem describe_fields_perm : (describe event).fields.Perm
      ((baseFields event ++ payloadFields event).take maxEventFields) := by
  rw [← (collect_eq event).1]
  exact perm_insertionSort _ _

theorem described_sublist :
    (((baseFields event ++ payloadFields event).take maxEventFields).map Field.path).Sublist
      (allPaths event) := by
  refine ((take_sublist _ _).map Field.path).trans ?_
  rw [map_append, baseFields_paths, allPaths, append_assoc]
  exact (List.Sublist.refl _).append ((List.Sublist.refl _).append (payloadFields_sublist event))

theorem metric_described (path : Bytes) (metric : path ∉ tagPaths event ++ payloadPaths event) :
    (allPaths event).count path ≤
      (((baseFields event ++ payloadFields event).take maxEventFields).map Field.path).count
        path := by
  have small := metricFields_length event
  have first : ((metricFields event).map Field.path).Sublist
      (((baseFields event ++ payloadFields event).take maxEventFields).map Field.path) := by
    refine List.Sublist.map Field.path ?_
    rw [baseFields, append_assoc, take_append]
    rw [take_of_length_le (small.trans (by decide))]
    exact sublist_append_left _ _
  calc (allPaths event).count path = ((metricFields event).map Field.path).count path := by
        rw [allPaths, count_append, count_eq_zero_of_not_mem metric, Nat.add_zero]
    _ ≤ _ := first.count_le path

theorem leftOut_iff :
    LeftOut event ↔
      min maxEventFields ((baseFields event).length + (payloadFields event).length) <
        (baseFields event).length + (payloadPaths event).length := by
  have counts (path : Bytes) : ((describe event).fields.map Field.path).count path =
      (((baseFields event ++ payloadFields event).take maxEventFields).map Field.path).count
        path := ((describe_fields_perm event).map Field.path).count_eq path
  have sizes := exists_count_lt_iff (described_sublist event)
  have total : (allPaths event).length =
      (baseFields event).length + (payloadPaths event).length := by
    rw [allPaths, baseFields_length]
    simp [Nat.add_assoc]
  rw [total, length_map, length_take, length_append] at sizes
  rw [← sizes]
  constructor
  · rintro ⟨path, _, fewer⟩
    rw [counts path] at fewer
    exact ⟨path, fewer⟩
  · rintro ⟨path, fewer⟩
    refine ⟨path, ?_, by rwa [counts path]⟩
    by_contra metric
    exact absurd fewer (not_lt.mpr (metric_described event path metric))

theorem Payload.decode_nil : Payload.decode [] = none := rfl

/-- The description keeps the limit always. Its flag is exact except where 512 fields precede
a payload, which is then skipped silently, and where the values of a payload, none too deep,
just fill the limit. -/
theorem flagExact_iff :
    FlagExact event ↔
      ¬((baseFields event).length = maxEventFields ∧ event.payload ≠ []) ∧
        ∀ payload, Payload.decode event.payload = some payload → payload.exceeds 0 = false →
          (baseFields event).length + (payload.paths (ascii "payload")).length ≠
            maxEventFields := by
  have bounded : (describe event).fields.length ≤ maxEventFields := by
    rw [(describe_fields_perm event).length_eq, length_take]
    exact min_le_left _ _
  have exact_iff : FlagExact event ↔ ((collect event).truncated = true ↔ LeftOut event) :=
    ⟨fun holds => holds.flag, fun flag => ⟨bounded, flag⟩⟩
  rw [exact_iff, leftOut_iff, (collect_eq event).2]
  unfold payloadFields payloadPaths payloadTruncates
  by_cases absent : event.payload = []
  · simp [absent, Payload.decode_nil]
  · cases decoded : Payload.decode event.payload with
    | none =>
      simp [absent]
      omega
    | some payload =>
      have shorter := (payload.fields_sublist (ascii "payload") 0).length_le
      have missing := payload.length_fields_iff (ascii "payload") 0
      have positive := payload.paths_length_pos (ascii "payload")
      rw [length_map] at shorter
      cases deep : payload.exceeds 0 with
      | true =>
        rw [deep] at missing
        simp [absent, deep] at missing ⊢
        omega
      | false =>
        rw [deep] at missing
        simp [absent, deep] at missing ⊢
        omega

end Flag

namespace Sample

@[reducible] def floatText : Json.FloatText := .ofBits

theorem replicate_lt {shorter longer : Nat} (less : shorter < longer) (byte : UInt8) :
    (List.replicate shorter byte : Bytes) < List.replicate longer byte := by
  induction shorter generalizing longer with
  | zero =>
    cases longer with
    | zero => omega
    | succ longer => exact nil_lt_cons _ _
  | succ shorter induction =>
    cases longer with
    | zero => omega
    | succ longer =>
      simp only [replicate_succ]
      exact cons_lt_cons_self.mpr (induction (by omega))

def tags (count : Nat) : SortedMap Bytes Bytes where
  entries := (List.range count).map fun length => (List.replicate length 0x61, [])
  sorted := by
    rw [List.pairwise_map]
    exact List.pairwise_lt_range.imp fun less => replicate_lt less 0x61

def tagged (count : Nat) (payload : Bytes) : Event :=
  { Event.zero with tags := tags count, payload := payload }

theorem baseFields_tagged (count : Nat) (payload : Bytes) :
    (baseFields (tagged count payload)).length = count := by
  have noUnit : trimSpace ([] : Bytes) = [] := by decide
  simp [baseFields, metricFields, tagged, tags, Event.zero, noUnit]

theorem decode_null : letI := floatText
    Payload.decode (Json.render [.null]) = some (.leaf .null) := by
  have written : Json.Written Json.maxNestingDepth [Json.Token.null] :=
    ⟨by simp [Json.Token.WellFormed], by decide⟩
  simp [Payload.decode, Json.wholeValue_render written, Json.bare, Payload.isReadable,
    Payload.ofTokens, Json.takeObject, Payload.leafType]

end Sample

/-- Behind 512 tags a payload is skipped without a sign, and behind 511 tags a payload with one
value is reported although nothing is missing. -/
theorem flag_inexact : letI := Sample.floatText
    ((describe (Sample.tagged 512 (Json.render [.null]))).truncated = false ∧
        LeftOut (Sample.tagged 512 (Json.render [.null]))) ∧
      (describe (Sample.tagged 511 (Json.render [.null]))).truncated = true ∧
        ¬LeftOut (Sample.tagged 511 (Json.render [.null])) := by
  let _ := Sample.floatText
  have payload (count : Nat) :
      (Sample.tagged count (Json.render [.null])).payload = Json.render [.null] := rfl
  have nonempty : Json.render [.null] ≠ [] := by decide
  have flag (count : Nat) : (describe (Sample.tagged count (Json.render [.null]))).truncated =
      (collect (Sample.tagged count (Json.render [.null]))).truncated := rfl
  simp only [flag, (collect_eq _).2, leftOut_iff, payloadFields, payloadPaths, payloadTruncates,
    payload, nonempty, Sample.decode_null, Sample.baseFields_tagged, if_false]
  decide

/-! ## Paths of fields

A path is the dotted join of the keys that lead to a value. -/

mutual
def Payload.keys (above : List Bytes) (depth : Nat) : Payload → List (List Bytes)
  | .leaf _ => if maxPayloadDepth < depth then [] else [above]
  | .object members =>
    if maxPayloadDepth < depth then [] else above :: members.keys above (depth + 1)

def Members.keys (above : List Bytes) (depth : Nat) : Members → List (List Bytes)
  | .nil => []
  | .cons key value rest => value.keys (above ++ [key]) depth ++ rest.keys above depth
end

def dotted (keys : List Bytes) : Bytes := keys.foldl memberPath (ascii "payload")

theorem dotted_append (keys : List Bytes) (key : Bytes) :
    dotted (keys ++ [key]) = memberPath (dotted keys) key := by
  simp [dotted]

mutual
theorem Payload.fields_dotted (above : List Bytes) (depth : Nat) (payload : Payload) :
    (payload.fields (dotted above) depth).map Field.path =
      (payload.keys above depth).map dotted := by
  cases payload with
  | leaf type =>
    rw [Payload.fields, Payload.keys]
    split_ifs
    · rfl
    · simp
  | object members =>
    rw [Payload.fields, Payload.keys]
    split_ifs
    · rfl
    · rw [map_cons, map_cons, payloadField_path, members.fields_dotted above (depth + 1)]

theorem Members.fields_dotted (above : List Bytes) (depth : Nat) (members : Members) :
    (members.fields (dotted above) depth).map Field.path =
      (members.keys above depth).map dotted := by
  cases members with
  | nil => rfl
  | cons key value rest =>
    rw [Members.fields, Members.keys, map_append, map_append, ← dotted_append,
      value.fields_dotted (above ++ [key]) depth, rest.fields_dotted above depth]
end

def Members.keyList : Members → List Bytes
  | .nil => []
  | .cons key _ rest => key :: rest.keyList

mutual
def Payload.Sorted : Payload → Prop
  | .leaf _ => True
  | .object members => members.keyList.Pairwise (· < ·) ∧ members.Sorted

def Members.Sorted : Members → Prop
  | .nil => True
  | .cons _ value rest => value.Sorted ∧ rest.Sorted
end

namespace Members

variable (key : Bytes) (value : Payload)

theorem mem_keyList_insert (other : Bytes) : (members : Members) →
    (other ∈ (members.insert key value).keyList ↔ other = key ∨ other ∈ members.keyList)
  | .nil => by simp [insert, keyList]
  | .cons held _ rest => by
    have induction := mem_keyList_insert other rest
    rw [insert]
    split_ifs with before same
    · simp [keyList]
    · simp [keyList, same]
    · simp only [keyList, mem_cons, induction]
      tauto

theorem keyList_insert_sorted : (members : Members) → members.keyList.Pairwise (· < ·) →
    (members.insert key value).keyList.Pairwise (· < ·)
  | .nil, _ => by simp [insert, keyList]
  | .cons held _ rest, sorted => by
    rw [keyList, List.pairwise_cons] at sorted
    rw [insert]
    split_ifs with before same
    · simp only [keyList, List.pairwise_cons, List.forall_mem_cons]
      exact ⟨⟨before, fun other member => before.trans (sorted.1 other member)⟩, sorted⟩
    · rw [keyList, List.pairwise_cons, same]
      exact sorted
    · rw [keyList, List.pairwise_cons]
      refine ⟨fun other member => ?_, keyList_insert_sorted rest sorted.2⟩
      rcases (mem_keyList_insert key value other rest).mp member with rfl | later
      · exact lt_of_le_of_ne (not_lt.mp before) (Ne.symm same)
      · exact sorted.1 other later

theorem sorted_insert (valueSorted : value.Sorted) : (members : Members) → members.Sorted →
    (members.insert key value).Sorted
  | .nil, _ => ⟨valueSorted, trivial⟩
  | .cons held _ rest, sorted => by
    rw [insert]
    split_ifs
    · exact ⟨valueSorted, sorted⟩
    · exact ⟨valueSorted, sorted.2⟩
    · exact ⟨sorted.1, sorted_insert valueSorted rest sorted.2⟩

end Members

theorem Members.sorted_foldl {decode : List Json.Token → Payload}
    (values : ∀ tokens, (decode tokens).Sorted) (members : List (Bytes × List Json.Token))
    {decoded : Members} (sorted : decoded.keyList.Pairwise (· < ·) ∧ decoded.Sorted) :
    Payload.Sorted (.object (members.foldl (fun decoded member =>
      decoded.insert (Json.unquote member.1) (decode member.2)) decoded)) := by
  induction members generalizing decoded with
  | nil => exact sorted
  | cons member rest induction =>
    exact induction ⟨keyList_insert_sorted _ _ _ sorted.1,
      sorted_insert _ _ (values member.2) _ sorted.2⟩

theorem Payload.sorted_ofTokens (fuel : Nat) (tokens : List Json.Token) :
    (ofTokens fuel tokens).Sorted := by
  induction fuel generalizing tokens with
  | zero => trivial
  | succ fuel induction =>
    rw [ofTokens]
    split
    · trivial
    · exact Members.sorted_foldl induction _ ⟨.nil, trivial⟩

theorem Payload.sorted_decode [Json.FloatText] {raw : Bytes} {payload : Payload}
    (decoded : decode raw = some payload) : payload.Sorted := by
  rcases Option.bind_eq_some_iff.mp decoded with ⟨lexemes, _, isPayload⟩
  dsimp only at isPayload
  split_ifs at isPayload
  cases isPayload
  exact sorted_ofTokens _ _

mutual
theorem Payload.prefix_of_mem_keys (above : List Bytes) (depth : Nat) (payload : Payload)
    (keys : List Bytes) (member : keys ∈ payload.keys above depth) : above <+: keys := by
  cases payload with
  | leaf type =>
    rw [Payload.keys] at member
    split_ifs at member
    · cases member
    · rw [mem_singleton.mp member]
  | object members =>
    rw [Payload.keys] at member
    split_ifs at member
    · cases member
    · rcases mem_cons.mp member with rfl | inside
      · exact prefix_rfl
      · rcases members.prefix_of_mem_keys above (depth + 1) keys inside with ⟨key, _, longer⟩
        exact (prefix_append above [key]).trans longer

theorem Members.prefix_of_mem_keys (above : List Bytes) (depth : Nat) (members : Members)
    (keys : List Bytes) (member : keys ∈ members.keys above depth) :
    ∃ key ∈ members.keyList, above ++ [key] <+: keys := by
  cases members with
  | nil => cases member
  | cons key value rest =>
    rw [Members.keys] at member
    rcases mem_append.mp member with first | later
    · exact ⟨key, mem_cons_self, value.prefix_of_mem_keys _ depth keys first⟩
    · rcases rest.prefix_of_mem_keys above depth keys later with ⟨other, listed, longer⟩
      exact ⟨other, mem_cons_of_mem _ listed, longer⟩
end

mutual
theorem Payload.nodup_keys (above : List Bytes) (depth : Nat) (payload : Payload)
    (sorted : payload.Sorted) : (payload.keys above depth).Nodup := by
  cases payload with
  | leaf type =>
    rw [Payload.keys]
    split_ifs <;> simp
  | object members =>
    rw [Payload.keys]
    split_ifs
    · exact .nil
    · refine nodup_cons.mpr ⟨fun member => ?_, ?_⟩
      · rcases members.prefix_of_mem_keys above (depth + 1) above member with
          ⟨key, _, longer⟩
        have shorter := longer.length_le
        simp at shorter
      · exact members.nodup_keys above (depth + 1) sorted.1 sorted.2

theorem Members.nodup_keys (above : List Bytes) (depth : Nat) (members : Members)
    (ordered : members.keyList.Pairwise (· < ·)) (sorted : members.Sorted) :
    (members.keys above depth).Nodup := by
  cases members with
  | nil => exact .nil
  | cons key value rest =>
    rw [Members.keyList, pairwise_cons] at ordered
    refine nodup_append.mpr ⟨value.nodup_keys _ depth sorted.1,
      rest.nodup_keys above depth ordered.2 sorted.2, ?_⟩
    rintro keys first _ later rfl
    have fromFirst := value.prefix_of_mem_keys _ depth keys first
    rcases rest.prefix_of_mem_keys above depth keys later with ⟨other, listed, fromLater⟩
    have samePrefix : above ++ [key] = above ++ [other] :=
      (prefix_of_prefix_length_le fromFirst fromLater (by simp)).eq_of_length (by simp)
    have same : key = other := by simpa using samePrefix
    exact (ordered.1 other listed).ne same
end

section Distinct

variable [Json.FloatText] (event : Event)

def payloadKeys : List (List Bytes) :=
  if event.payload = [] then []
  else
    match Payload.decode event.payload with
    | some payload => payload.keys [] 0
    | none => [[]]

def visitedKeys : List (List Bytes) :=
  (payloadKeys event).take (maxEventFields - (baseFields event).length)

def Unambiguous : Prop :=
  ∀ keys ∈ visitedKeys event, ∀ keys' ∈ visitedKeys event, dotted keys = dotted keys' → keys = keys'

theorem payloadFields_dotted :
    (payloadFields event).map Field.path = (payloadKeys event).map dotted := by
  unfold payloadFields payloadKeys
  split_ifs
  · rfl
  · cases Payload.decode event.payload with
    | some payload => exact payload.fields_dotted [] 0
    | none => rfl

theorem nodup_visitedKeys : (visitedKeys event).Nodup := by
  refine (take_sublist _ _).nodup ?_
  unfold payloadKeys
  split_ifs
  · exact .nil
  · cases decoded : Payload.decode event.payload with
    | some payload => exact payload.nodup_keys [] 0 (Payload.sorted_decode decoded)
    | none => simp

section

omit [Json.FloatText]

theorem dotted_head (keys : List Bytes) : (dotted keys).head? = some 0x70 := by
  induction keys using reverseRecOn with
  | nil => decide
  | append_singleton keys key induction =>
    rw [dotted_append, memberPath, append_assoc, head?_append, induction]
    rfl

theorem metricFields_head (field : Field) (member : field ∈ metricFields event) :
    field.path.head? = some 0x6D := by
  unfold metricFields at member
  rcases mem_append.mp member with value | unit
  · split_ifs at value
    · rw [mem_singleton.mp value]
      decide
    · cases value
  · split_ifs at unit
    · rw [mem_singleton.mp unit]
      decide
    · cases unit

theorem tagPaths_head (path : Bytes) (member : path ∈ tagPaths event) : path.head? = some 0x74 := by
  have first : (ascii "tags.").head? = some 0x74 := by decide
  rcases mem_map.mp member with ⟨entry, _, rfl⟩
  rw [head?_append, first]
  rfl

theorem nodup_baseFields : ((baseFields event).map Field.path).Nodup := by
  rw [baseFields_paths]
  refine nodup_append.mpr ⟨?_, ?_, ?_⟩
  · unfold metricFields
    split_ifs <;> decide
  · have injective : Function.Injective fun key : Bytes => ascii "tags." ++ key :=
      append_right_injective _
    have keys := event.tags.nodup_keys.map injective
    rwa [map_map] at keys
  · rintro path metric _ tag rfl
    rcases mem_map.mp metric with ⟨field, isMetric, rfl⟩
    have tagHead := tagPaths_head event _ tag
    rw [metricFields_head event field isMetric] at tagHead
    cases tagHead

theorem baseFields_head (path : Bytes) (member : path ∈ (baseFields event).map Field.path) :
    path.head? ≠ some 0x70 := by
  rw [baseFields_paths] at member
  rcases mem_append.mp member with metric | tag
  · rcases mem_map.mp metric with ⟨field, isMetric, rfl⟩
    rw [metricFields_head event field isMetric]
    decide
  · rw [tagPaths_head event path tag]
    decide

end

theorem nodup_described_iff :
    ((describe event).fields.map Field.path).Nodup ↔ Unambiguous event := by
  rw [((describe_fields_perm event).map Field.path).nodup_iff, take_append, map_append,
    nodup_append]
  have visited : ((payloadFields event).take (maxEventFields - (baseFields event).length)).map
      Field.path = (visitedKeys event).map dotted := by
    rw [map_take, payloadFields_dotted, ← map_take]
    rfl
  have injective := nodup_map_iff_inj_on (f := dotted) (nodup_visitedKeys event)
  rw [visited, injective, Unambiguous]
  constructor
  · intro holds keys member keys' member' same
    exact holds.2.1 keys member keys' member' same
  · intro unambiguous
    refine ⟨?_, fun keys member keys' member' same => unambiguous keys member keys' member' same,
      ?_⟩
    · exact ((take_sublist _ _).map Field.path).nodup (nodup_baseFields event)
    · rintro path base _ inPayload rfl
      rcases mem_map.mp inPayload with ⟨keys, _, rfl⟩
      have isBase := ((take_sublist _ _).map Field.path).subset base
      exact baseFields_head event _ isBase (dotted_head keys)

section

omit [Json.FloatText]

theorem dotted_eq (keys : List Bytes) :
    dotted keys = ascii "payload" ++ keys.flatMap fun key => 0x2E :: key := by
  have separator : ascii "." = [0x2E] := by decide
  induction keys using reverseRecOn with
  | nil => rw [flatMap_nil, append_nil, dotted, foldl_nil]
  | append_singleton keys key induction =>
    rw [dotted_append, memberPath, induction, separator]
    simp

theorem takeWhile_flatMap {key : Bytes} (plain : 0x2E ∉ key) (rest : List Bytes) :
    (key ++ rest.flatMap fun key => 0x2E :: key).takeWhile (· != 0x2E) = key := by
  have all : ∀ byte ∈ key, (byte != 0x2E) = true := by
    intro byte member
    simp only [bne_iff_ne]
    rintro rfl
    exact plain member
  rw [takeWhile_append_of_pos all]
  cases rest <;> simp

theorem dotted_injOn {left right : List Bytes} (leftPlain : ∀ key ∈ left, 0x2E ∉ key)
    (rightPlain : ∀ key ∈ right, 0x2E ∉ key) (same : dotted left = dotted right) :
    left = right := by
  rw [dotted_eq, dotted_eq, append_cancel_left_eq] at same
  induction left generalizing right with
  | nil =>
    cases right with
    | nil => rfl
    | cons key rest => simp at same
  | cons key rest induction =>
    cases right with
    | nil => simp at same
    | cons key' rest' =>
      rw [forall_mem_cons] at leftPlain rightPlain
      simp only [flatMap_cons, cons_append, cons.injEq, true_and] at same
      have sameKey : key = key' := by
        rw [← takeWhile_flatMap leftPlain.1 rest, same, takeWhile_flatMap rightPlain.1]
      rw [sameKey, append_cancel_left_eq] at same
      rw [sameKey, induction leftPlain.2 rightPlain.2 same]

end

theorem unambiguous_of_plain (plain : ∀ keys ∈ visitedKeys event, ∀ key ∈ keys, 0x2E ∉ key) :
    Unambiguous event := fun keys member keys' member' same =>
  dotted_injOn (plain keys member) (plain keys' member') same

end Distinct

structure Observation where
  event : Event
  observedAt : Int
  layout : Layout

def RegistryEntry.observeAll [Json.FloatText] (entry : RegistryEntry)
    (observations : List Observation) : RegistryEntry :=
  observations.foldl (fun entry observation =>
    (updateRegistryEntry entry (describe observation.event) observation.observedAt
      observation.layout).1) entry

structure RegistryEntry.Consistent (entry : RegistryEntry) : Prop where
  distinct : (entry.fields.map FieldState.path).Nodup
  positive : 1 ≤ entry.observationCount
  seen : ∀ state ∈ entry.fields, state.seenCount ≤ entry.observationCount

namespace RegistryEntry.Consistent

variable {description : Description} (described : (description.fields.map Field.path).Nodup)

include described

theorem new (tenantID : Bytes) (observedAt : Int) :
    (newRegistryEntry tenantID description observedAt).Consistent where
  distinct := by
    rw [newRegistryEntry, map_map]
    exact described
  positive := le_rfl
  seen state member := by
    rcases mem_map.mp member with ⟨field, _, rfl⟩
    exact le_rfl

theorem update {entry : RegistryEntry} (consistent : entry.Consistent) (observedAt : Int)
    (layout : Layout) :
    (updateRegistryEntry entry description observedAt layout).1.Consistent := by
  have perm := updateRegistryEntry_fields_perm consistent.distinct described observedAt layout
  have observations : (updateRegistryEntry entry description observedAt
      layout).1.observationCount = entry.observationCount + 1 := rfl
  have positive := consistent.positive
  constructor
  · rw [(perm.map FieldState.path).nodup_iff, map_map]
    exact updatedFields_distinct consistent.distinct described observedAt layout
  · omega
  · intro state member
    rw [observations]
    rcases mem_map.mp (perm.mem_iff.mp member) with ⟨updated, isUpdated, rfl⟩
    have sameCount : (updated.withRequired (entry.observationCount + 1)).seenCount =
      updated.seenCount := rfl
    rw [sameCount]
    rcases mem_append.mp isUpdated with registered | added
    · rcases mem_map.mp registered with ⟨held, isHeld, rfl⟩
      have bound := consistent.seen held isHeld
      rw [FieldState.credited]
      split
      · rw [FieldState.observe]
        dsimp only
        omega
      · omega
    · rcases mem_map.mp added with ⟨field, _, rfl⟩
      have once : (FieldState.fresh observedAt field).seenCount = 1 := rfl
      omega

end RegistryEntry.Consistent

namespace Sample

def ambiguousTokens : List Json.Token :=
  [.beginObject, .string (ascii "a"), .colon, .beginObject, .string (ascii "b"), .colon, .null,
    .endObject, .comma, .string (ascii "a.b"), .colon, .null, .endObject]

def ambiguous : Event := { Event.zero with payload := Json.render ambiguousTokens }

def ambiguousPayload : Payload :=
  .object (.cons (ascii "a") (.object (.cons (ascii "b") (.leaf .null) .nil))
    (.cons (ascii "a.b") (.leaf .null) .nil))

theorem decode_ambiguous : letI := floatText
    Payload.decode (Json.render ambiguousTokens) = some ambiguousPayload := by
  have formed : ∀ token ∈ ambiguousTokens, token.WellFormed := by
    simp [ambiguousTokens, Json.Token.WellFormed]
    decide
  have written : Json.Written Json.maxNestingDepth ambiguousTokens := ⟨formed, by decide⟩
  have tokens : (Json.bare ambiguousTokens).map Json.Lexeme.token = ambiguousTokens := by decide
  simp only [Payload.decode, Json.wholeValue_render written, Option.bind_some, tokens]
  decide +kernel

theorem describe_ambiguous : letI := floatText
    describe ambiguous =
      (walkPayload (ascii "payload") 0 ambiguousPayload ⟨[], [], false⟩).description ambiguous := by
  let _ := floatText
  have collected : collect ambiguous =
      walkPayload (ascii "payload") 0 ambiguousPayload ⟨[], [], false⟩ := by
    simp only [collect, describePayload, ambiguous, decode_ambiguous]
    rfl
  rw [describe, collected]

def observed (event : Event) (observedAt : Int) : Observation :=
  ⟨event, observedAt, layout 0⟩

end Sample

end TelemetryForge.Schema
