import TelemetryForge.Policy.ReportTable

/-! # Series of the cost simulation

`costsim.seriesHash` counts the series that `policy.seriesIdentity` identifies, except for
tags whose key is a control key in capitals: the simulation compares the key as it is
written. -/

namespace TelemetryForge.Costsim

open List

open Policy (seriesLine)
open Policy.Engine (seriesIdentity)

def controlPrefix : Bytes := ascii "telemetryforge."

def seriesTags (event : Event) : List (Bytes × Bytes) :=
  event.tags.entries.filter fun (key, _) => !controlPrefix.isPrefixOf key

def seriesText (event : Event) : Bytes := seriesLine event.source event.type (seriesTags event)

def seriesHash {H : Type} (sum256 : Bytes → H) (event : Event) : H := sum256 (seriesText event)

theorem length_flatMap_lt {α β : Type} (write : α → List β) (filled : ∀ item, write item ≠ [])
    {fewer more : List α} (sublist : fewer.Sublist more) (different : fewer ≠ more) :
    (fewer.flatMap write).length < (more.flatMap write).length := by
  induction sublist with
  | slnil => exact absurd rfl different
  | @cons fewer more item sublist induction =>
    have one := length_pos_of_ne_nil (filled item)
    rw [flatMap_cons, length_append]
    by_cases same : fewer = more
    · subst same
      omega
    · have rest := induction same
      omega
  | cons_cons item sublist induction =>
    have rest := induction fun same => different (by rw [same])
    simp only [flatMap_cons, length_append]
    omega

theorem seriesLine_ne {source type : Bytes} {fewer more : List (Bytes × Bytes)}
    (sublist : fewer.Sublist more) (different : fewer ≠ more) :
    seriesLine source type fewer ≠ seriesLine source type more := by
  intro same
  have shorter := length_flatMap_lt
    (fun tag : Bytes × Bytes => ascii "|" ++ tag.1 ++ ascii "=" ++ tag.2)
    (fun tag => by simp [ascii]) sublist different
  have lengths := congrArg length same
  simp only [seriesLine, length_append] at lengths
  omega

section Agreement

variable [Strings]

def Uniform (event : Event) : Prop :=
  ∀ tag ∈ event.tags.entries,
    controlPrefix.isPrefixOf (Strings.toLower tag.1) = true → controlPrefix.isPrefixOf tag.1 = true

theorem isPrefixOf_toLower [LawfulStrings] {key : Bytes}
    (control : controlPrefix.isPrefixOf key = true) :
    controlPrefix.isPrefixOf (Strings.toLower key) = true := by
  rw [List.isPrefixOf_iff_prefix] at control ⊢
  rcases control with ⟨rest, rfl⟩
  rw [LawfulStrings.toLower_append controlPrefix rest (by decide +kernel) (by decide +kernel)]
  exact prefix_append _ _

theorem policySeriesTags_sublist [LawfulStrings] (event : Event) :
    (Policy.Engine.seriesTags event).Sublist (seriesTags event) := by
  refine monotone_filter_right event.tags.entries fun tag kept => ?_
  by_contra dropped
  have control : controlPrefix.isPrefixOf tag.1 = true := by simpa using dropped
  have lower := isPrefixOf_toLower control
  simp only [controlPrefix] at lower
  simp [lower] at kept

theorem policySeriesTags_eq_iff [LawfulStrings] (event : Event) :
    Policy.Engine.seriesTags event = seriesTags event ↔ Uniform event := by
  constructor
  · intro same tag member lower
    by_contra written
    have kept : tag ∈ seriesTags event := by
      simp [seriesTags, member, Bool.eq_false_iff.mpr written]
    rw [← same] at kept
    simp only [Policy.Engine.seriesTags, mem_filter, Bool.not_eq_true'] at kept
    simp only [controlPrefix] at lower
    simp [lower] at kept
  · intro uniform
    refine filter_congr fun tag member => ?_
    have agree : controlPrefix.isPrefixOf (Strings.toLower tag.1) =
        controlPrefix.isPrefixOf tag.1 := by
      rw [Bool.eq_iff_iff]
      exact ⟨uniform tag member, isPrefixOf_toLower⟩
    exact congrArg not agree

def stripped (event : Event) : Event :=
  { event with tags := event.tags.filter fun key _ =>
      !controlPrefix.isPrefixOf (Strings.toLower key) }

theorem policySeriesTags_stripped (event : Event) :
    Policy.Engine.seriesTags (stripped event) = Policy.Engine.seriesTags event := by
  simp only [Policy.Engine.seriesTags, stripped, SortedMap.filter, filter_filter,
    controlPrefix, Bool.and_self]

theorem uniform_stripped (event : Event) : Uniform (stripped event) := by
  intro tag member lower
  simp [stripped, SortedMap.filter, lower] at member

theorem seriesText_eq_of_uniform [LawfulStrings] {event : Event} (uniform : Uniform event) :
    seriesText event = seriesIdentity event := by
  rw [Policy.seriesIdentity_eq, seriesText, (policySeriesTags_eq_iff event).mpr uniform]

/-- Against the events without control tags in capitals, the simulation and the policy engine
agree on an event exactly when it has none either. -/
theorem seriesHash_agrees_iff [LawfulStrings] {H : Type} {sum256 : Bytes → H}
    (injective : Function.Injective sum256) (event : Event) : (∀ other, Uniform other →
        (seriesHash sum256 event = seriesHash sum256 other ↔
          seriesIdentity event = seriesIdentity other)) ↔ Uniform event := by
  constructor
  · intro agrees
    by_contra mixed
    have identity : seriesIdentity event = seriesIdentity (stripped event) := by
      rw [Policy.seriesIdentity_eq, Policy.seriesIdentity_eq, policySeriesTags_stripped]
      rfl
    have texts := injective ((agrees _ (uniform_stripped event)).mpr identity)
    rw [seriesText_eq_of_uniform (uniform_stripped event), ← identity] at texts
    exact seriesLine_ne (policySeriesTags_sublist event)
      (fun same => mixed ((policySeriesTags_eq_iff event).mp same)) texts.symm
  · intro uniform other otherUniform
    rw [seriesHash, seriesHash, injective.eq_iff, seriesText_eq_of_uniform uniform,
      seriesText_eq_of_uniform otherUniform]

end Agreement

namespace Sample

def capitals : Event :=
  { Policy.Sample.event with tags := SortedMap.empty.insert (ascii "TelemetryForge.zone") (ascii "a") }

def plain : Event := { Policy.Sample.event with tags := .empty }

end Sample

theorem seriesHash_agrees_sample : letI := Policy.Sample.strings
    (∀ other, Uniform other →
        (seriesHash id Sample.plain = seriesHash id other ↔
          seriesIdentity Sample.plain = seriesIdentity other)) ↔ Uniform Sample.plain := by
  let _ := Policy.Sample.strings
  have := Policy.Sample.strings_lawful
  exact seriesHash_agrees_iff Function.injective_id Sample.plain

/-- The policy engine counts one series and the cost simulation two. -/
theorem seriesHash_counts_capitals : letI := Policy.Sample.strings
    seriesIdentity Sample.capitals = seriesIdentity Sample.plain ∧
      seriesText Sample.capitals ≠ seriesText Sample.plain ∧
      seriesHash Sha256.sum256 Sample.capitals ≠ seriesHash Sha256.sum256 Sample.plain := by
  let _ := Policy.Sample.strings
  exact ⟨by decide +kernel, by decide +kernel, by decide +kernel⟩

end TelemetryForge.Costsim
