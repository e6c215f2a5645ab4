import TelemetryForge.Shaping.Monotone

/-! # Decisions and the changes that they explain

`evaluateConfig` on events whose tags are behind a reference: the event of the caller is left
alone, and every tag that is gone or changed is listed in the decision. -/

namespace TelemetryForge.Shaping

open SortedMap

def oversizeTag : Bytes := ascii "telemetryforge.payload_oversize"

namespace Progress

variable {R : Type}

def renames (progress : Progress R) : List (Bytes × Bytes) → List (Bytes × Bytes)
  | [] => []
  | rename :: rest =>
    (if (progress.shaped.tags.find? rename.1).isSome then [rename] else []) ++
      renames (progress.renameTag rename) rest

def ruleRenames (guarded : Bool) (progress : Progress R) (rule : Rule R) : List (Bytes × Bytes) :=
  if guarded && !rule.shapeProtected then []
  else renames (rule.dropTags.foldl dropTag (progress.note rule)) rule.renameTags.entries

def allRenames [Strings] (event : Event) (guarded : Bool) :
    List (Rule R) → Progress R → List (Bytes × Bytes)
  | [], _ => []
  | rule :: rest, progress =>
    if ruleMatches rule event then
      progress.ruleRenames guarded rule ++
        if rule.stop then [] else allRenames event guarded rest (progress.apply guarded rule)
    else allRenames event guarded rest progress

end Progress

def lastTarget (renames : List (Bytes × Bytes)) (key : Bytes) : Option Bytes :=
  (renames.reverse.find? fun rename => rename.1 = key).map Prod.snd

theorem lastTarget_append (renames : List (Bytes × Bytes)) (rename : Bytes × Bytes) (key : Bytes) :
    lastTarget (renames ++ [rename]) key =
      if key = rename.1 then some rename.2 else lastTarget renames key := by
  by_cases same : rename.1 = key
  · simp [lastTarget, same]
  · simp [lastTarget, same, Ne.symm same]

section Accounts

variable {R : Type}

def Progress.marks (progress : Progress R) (key : Bytes) : Prop :=
  key = oversizeTag ∧ progress.payloadDropped = true

structure Accounts (event : Event) (progress : Progress R) (done : List (Bytes × Bytes)) :
    Prop where
  renamed : ∀ key, progress.renamed.find? key = lastTarget done key
  old : ∀ key, progress.shaped.tags.find? key = event.tags.find? key ∨
    event.tags.find? key = none ∨ (progress.dropped.find? key).isSome = true ∨
    (progress.renamed.find? key).isSome = true ∨ progress.marks key
  new : ∀ key, event.tags.find? key = none → (progress.shaped.tags.find? key).isSome = true →
    (∃ source, (source, key) ∈ done) ∨ progress.marks key
  payload : progress.payloadDropped = false → progress.shaped.payload = event.payload
  fields : progress.shaped =
    { event with tags := progress.shaped.tags, payload := progress.shaped.payload }

namespace Accounts

variable {event : Event} {progress : Progress R} {done : List (Bytes × Bytes)}

section

variable (accounts : Accounts event progress done)
include accounts

theorem dropTag (key : Bytes) : Accounts event (progress.dropTag key) done := by
  unfold Progress.dropTag
  split_ifs
  · refine ⟨accounts.renamed, fun other => ?_, fun other absent present => ?_, accounts.payload, ?_⟩
    · by_cases same : other = key
      · exact .inr (.inr (.inl (by simp [same])))
      · have before := accounts.old other
        simp only [Progress.marks, find?_erase, find?_insert, if_neg same] at before ⊢
        exact before
    · simp only [find?_erase] at present
      split_ifs at present
      · cases present
      · exact accounts.new other absent present
    · have fields := accounts.fields
      dsimp only
      rw [fields]
  · exact accounts

theorem renameTag (rename : Bytes × Bytes) :
    Accounts event (progress.renameTag rename)
      (done ++ if (progress.shaped.tags.find? rename.1).isSome then [rename] else []) := by
  unfold Progress.renameTag
  cases found : progress.shaped.tags.find? rename.1 with
  | none => simpa using accounts
  | some value =>
    simp only [Option.isSome_some, if_true]
    have inserted (key : Bytes) :
        (if (progress.shaped.tags.find? rename.2).isSome then progress.shaped.tags
          else progress.shaped.tags.insert rename.2 value).find? key =
        if key = rename.2 ∧ progress.shaped.tags.find? rename.2 = none then some value
        else progress.shaped.tags.find? key := by
      cases target : progress.shaped.tags.find? rename.2 with
      | none => simp
      | some other => simp
    refine ⟨fun key => ?_, fun key => ?_, fun key absent present => ?_, accounts.payload, ?_⟩
    · rw [lastTarget_append, find?_insert, accounts.renamed]
      by_cases same : key = rename.1 <;> simp [same]
    · by_cases same : key = rename.1
      · exact .inr (.inr (.inr (.inl (by simp [same]))))
      · have before := accounts.old key
        simp only [Progress.marks, find?_erase, find?_insert, if_neg same, inserted] at before ⊢
        by_cases created : key = rename.2 ∧ progress.shaped.tags.find? rename.2 = none
        · -- The target was missing, so whatever the event had under it was accounted for.
          rcases before with unchanged | explained
          · rw [created.1, created.2] at unchanged
            exact .inr (.inl (created.1 ▸ unchanged.symm))
          · exact .inr explained
        · rwa [if_neg created]
    · simp only [find?_erase, inserted] at present
      split_ifs at present with same created
      · cases present
      · exact .inl ⟨rename.1, by simp [created.1]⟩
      · rcases accounts.new key absent present with ⟨source, member⟩ | marker
        · exact .inl ⟨source, by simp [member]⟩
        · exact .inr marker
    · have fields := accounts.fields
      dsimp only
      rw [fields]

theorem dropPayload (rule : Rule R) : Accounts event (progress.dropPayload rule) done := by
  unfold Progress.dropPayload
  split_ifs
  · refine ⟨accounts.renamed, fun key => ?_, fun key absent present => ?_, fun kept => ?_, ?_⟩
    · by_cases same : key = oversizeTag
      · exact .inr (.inr (.inr (.inr ⟨same, rfl⟩)))
      · have before := accounts.old key
        have other : ¬key = ascii "telemetryforge.payload_oversize" := same
        simp only [Progress.marks, find?_insert, if_neg other, same, false_and] at before ⊢
        exact before
    · by_cases same : key = oversizeTag
      · exact .inr ⟨same, rfl⟩
      · have other : ¬key = ascii "telemetryforge.payload_oversize" := same
        simp only [find?_insert, if_neg other] at present
        rcases accounts.new key absent present with target | marker
        · exact .inl target
        · exact absurd marker.1 same
    · cases kept
    · have fields := accounts.fields
      dsimp only
      rw [fields]
  · exact accounts

theorem foldl_dropTag (keys : List Bytes) :
    Accounts event (keys.foldl Progress.dropTag progress) done := by
  induction keys generalizing progress with
  | nil => exact accounts
  | cons key rest induction => exact induction (accounts.dropTag key)

theorem foldl_renameTag
    (entries : List (Bytes × Bytes)) :
    Accounts event (entries.foldl Progress.renameTag progress)
      (done ++ progress.renames entries) := by
  induction entries generalizing progress done with
  | nil => simpa [Progress.renames] using accounts
  | cons rename rest induction =>
    have later := induction (accounts.renameTag rename)
    rwa [List.append_assoc] at later

theorem note (rule : Rule R) : Accounts event (progress.note rule) done := by
  unfold Progress.note
  cases rule.sampleRate with
  | none => exact ⟨accounts.renamed, accounts.old, accounts.new, accounts.payload, accounts.fields⟩
  | some rate =>
    exact ⟨accounts.renamed, accounts.old, accounts.new, accounts.payload, accounts.fields⟩

theorem apply (guarded : Bool) (rule : Rule R) :
    Accounts event (progress.apply guarded rule) (done ++ progress.ruleRenames guarded rule) := by
  unfold Progress.apply Progress.ruleRenames
  by_cases skipped : (guarded && !rule.shapeProtected) = true
  · simp only [skipped, if_true, List.append_nil]
    exact accounts.note rule
  · simp only [skipped]
    exact (((accounts.note rule).foldl_dropTag rule.dropTags).foldl_renameTag _).dropPayload rule

theorem applyRules [Strings] (guarded : Bool) (rules : List (Rule R)) :
    Accounts event (Progress.applyRules event guarded rules progress)
      (done ++ Progress.allRenames event guarded rules progress) := by
  induction rules generalizing progress done with
  | nil => simpa [Progress.applyRules, Progress.allRenames] using accounts
  | cons rule rest induction =>
    unfold Progress.applyRules Progress.allRenames
    by_cases isMatch : ruleMatches rule event = true
    · simp only [isMatch, if_true, ← List.append_assoc]
      have applied := accounts.apply guarded rule
      by_cases stops : rule.stop = true
      · simpa [stops] using applied
      · simpa [stops] using induction applied
    · simpa [isMatch] using induction accounts

end

theorem start [Rates R] (config : Config R) (event : Event) :
    Accounts event (Progress.start config event) [] where
  renamed _ := rfl
  old _ := .inl rfl
  new key absent present := by
    change (event.tags.find? key).isSome = true at present
    rw [absent] at present
    cases present
  payload _ := rfl
  fields := rfl

end Accounts

end Accounts

structure Work (R : Type) where
  rate : R
  minRate : R
  shaped : EventReference
  heap : Memory Tags
  matched : List Bytes
  dropped : SortedMap Bytes Unit
  renamed : SortedMap Bytes Bytes
  payloadDropped : Bool

namespace Work

variable {R : Type}

def tags (work : Work R) : Tags := work.heap.read work.shaped.tags

def load (work : Work R) : Progress R where
  rate := work.rate
  minRate := work.minRate
  shaped := work.shaped.view work.heap
  matched := work.matched
  dropped := work.dropped
  renamed := work.renamed
  payloadDropped := work.payloadDropped

def provide (work : Work R) : Work R :=
  match work.shaped.tags with
  | some _ => work
  | none =>
    { work with
      heap := (work.heap.alloc .empty).1
      shaped := { work.shaped with tags := (work.heap.alloc .empty).2 } }

def dropTag (work : Work R) (key : Bytes) : Work R :=
  if (work.tags.find? key).isSome then
    { work with
      heap := work.heap.modify work.shaped.tags (·.erase key)
      dropped := work.dropped.insert key () }
  else work

def renameTag (work : Work R) (rename : Bytes × Bytes) : Work R :=
  match work.tags.find? rename.1 with
  | none => work
  | some value =>
    let heap :=
      if (work.tags.find? rename.2).isSome then work.heap
      else work.heap.modify work.shaped.tags (·.insert rename.2 value)
    { work with
      heap := heap.modify work.shaped.tags (·.erase rename.1)
      renamed := work.renamed.insert rename.1 rename.2 }

def dropPayload (work : Work R) (rule : Rule R) : Work R :=
  if 0 < rule.payloadMaxBytes ∧ rule.payloadMaxBytes < work.shaped.fields.payload.length ∧
      rule.payloadAction = payloadDrop then
    let emptied : Work R :=
      { work with
        shaped := { work.shaped with fields := { work.shaped.fields with payload := [] } }
        payloadDropped := true }
    let work := emptied.provide
    { work with
      heap := work.heap.modify work.shaped.tags
        (·.insert (ascii "telemetryforge.payload_oversize") (ascii "true")) }
  else work

def note (work : Work R) (rule : Rule R) : Work R :=
  let work := { work with matched := work.matched ++ [rule.name] }
  match rule.sampleRate with
  | none => work
  | some rate => { work with rate := rate, minRate := rule.minSampleRate }

def transform (work : Work R) (rule : Rule R) : Work R :=
  let work :=
    if rule.dropTags ≠ [] ∨ rule.renameTags.entries ≠ [] then work.provide else work
  let work := rule.dropTags.foldl dropTag work
  let work := rule.renameTags.entries.foldl renameTag work
  work.dropPayload rule

def apply (guarded : Bool) (work : Work R) (rule : Rule R) : Work R :=
  let work := work.note rule
  if guarded && !rule.shapeProtected then work else work.transform rule

def applyRules [Strings] (event : EventReference) (guarded : Bool) : List (Rule R) → Work R → Work R
  | [], work => work
  | rule :: rest, work =>
    if ruleMatches rule (event.view work.heap) then
      let work := work.apply guarded rule
      if rule.stop then work else applyRules event guarded rest work
    else applyRules event guarded rest work

def start [Rates R] (config : Config R) (event : EventReference) (heap : Memory Tags) : Work R :=
  match event.tags with
  | none => ⟨config.defaultSampleRate, 0, event, heap, [], .empty, .empty, false⟩
  | some _ =>
    let copy := heap.alloc (heap.read event.tags)
    ⟨config.defaultSampleRate, 0, { event with tags := copy.2 }, copy.1, [], .empty, .empty, false⟩

/-! ### The copy keeps the caller's tags apart -/

def Owns (before : Memory Tags) (work : Work R) : Prop :=
  (work.shaped.tags = none ∧ work.heap = before) ∨
    ∃ tags, work.heap = (before.alloc tags).1 ∧ work.shaped.tags = (before.alloc tags).2

variable {before : Memory Tags} {work : Work R}

section

variable (owns : Owns before work)
include owns

theorem Owns.untouched : before.Untouched work.heap := by
  rcases owns with ⟨_, same⟩ | ⟨tags, heap, _⟩
  · rw [same]
    exact .refl before
  · rw [heap]
    exact before.untouched_alloc tags

theorem Owns.copy {key value : Bytes} (present : work.tags.find? key = some value) :
    work.heap = (before.alloc work.tags).1 ∧ work.shaped.tags = (before.alloc work.tags).2 := by
  rcases owns with ⟨none, _⟩ | ⟨tags, heap, reference⟩
  · rw [tags, none] at present
    cases present
  · have read : work.tags = tags := by rw [Work.tags, heap, reference, Memory.read_alloc]
    rw [read]
    exact ⟨heap, reference⟩

theorem dropTag_load (key : Bytes) :
    Owns before (work.dropTag key) ∧ (work.dropTag key).load = work.load.dropTag key := by
  unfold dropTag Progress.dropTag
  have tags : work.load.shaped.tags = work.tags := rfl
  rw [tags]
  cases found : work.tags.find? key with
  | none => exact ⟨owns, rfl⟩
  | some value =>
    rcases owns.copy found with ⟨heap, reference⟩
    simp only [Option.isSome_some, if_true]
    refine ⟨.inr ⟨work.tags.erase key, ?_, reference⟩, ?_⟩
    · rw [heap, reference, Memory.modify_alloc]
    · simp only [load, EventReference.view, heap, reference, Memory.modify_alloc, Memory.read_alloc]

theorem renameTag_load (rename : Bytes × Bytes) :
    Owns before (work.renameTag rename) ∧
      (work.renameTag rename).load = work.load.renameTag rename := by
  unfold renameTag Progress.renameTag
  have tags : work.load.shaped.tags = work.tags := rfl
  rw [tags]
  cases found : work.tags.find? rename.1 with
  | none => exact ⟨owns, rfl⟩
  | some value =>
    rcases owns.copy found with ⟨heap, reference⟩
    dsimp only
    cases target : (work.tags.find? rename.2).isSome with
    | true =>
      simp only [if_true]
      refine ⟨.inr ⟨work.tags.erase rename.1, ?_, reference⟩, ?_⟩
      · rw [heap, reference, Memory.modify_alloc]
      · simp only [load, EventReference.view, heap, reference, Memory.modify_alloc,
          Memory.read_alloc]
    | false =>
      simp only [Bool.false_eq_true, if_false]
      refine ⟨.inr ⟨(work.tags.insert rename.2 value).erase rename.1, ?_, reference⟩, ?_⟩
      · rw [heap, reference, Memory.modify_alloc, Memory.modify_alloc]
      · simp only [load, EventReference.view, heap, reference, Memory.modify_alloc,
          Memory.read_alloc]

theorem provide_load :
    Owns before work.provide ∧ work.provide.load = work.load ∧
      work.provide.heap = (before.alloc work.tags).1 ∧
      work.provide.shaped = { work.shaped with tags := (before.alloc work.tags).2 } := by
  unfold provide
  rcases owns with ⟨none, heap⟩ | ⟨tags, heap, reference⟩
  · have empty : work.tags = .empty := by
      rw [Work.tags, none]
      rfl
    simp only [none, heap]
    refine ⟨.inr ⟨.empty, rfl, rfl⟩, ?_, by rw [empty], by rw [empty]⟩
    simp only [load, EventReference.view, none, Memory.read_alloc]
    rfl
  · have read : work.tags = tags := by rw [Work.tags, heap, reference, Memory.read_alloc]
    have some : work.shaped.tags = .some before.cells.length := reference
    simp only [some]
    refine ⟨.inr ⟨tags, heap, reference⟩, trivial, by rw [heap, read], ?_⟩
    rw [read, ← reference]

theorem dropPayload_load (rule : Rule R) :
    Owns before (work.dropPayload rule) ∧
      (work.dropPayload rule).load = work.load.dropPayload rule := by
  unfold dropPayload Progress.dropPayload
  have payload : work.load.shaped.payload = work.shaped.fields.payload := rfl
  rw [payload]
  split_ifs
  · let emptied : Work R :=
      { work with
        shaped := { work.shaped with fields := { work.shaped.fields with payload := [] } }
        payloadDropped := true }
    have owned : Owns before emptied := owns
    rcases provide_load owned with ⟨_, loaded, heap, shaped⟩
    have reference : emptied.provide.shaped.tags = (before.alloc work.tags).2 :=
      congrArg EventReference.tags shaped
    let marked (tags : Tags) : Tags :=
      tags.insert (ascii "telemetryforge.payload_oversize") (ascii "true")
    have final : Work.load { emptied.provide with
        heap := emptied.provide.heap.modify emptied.provide.shaped.tags marked } =
          { emptied.provide.load with
            shaped := { emptied.provide.load.shaped with tags := marked work.tags } } := by
      simp only [load, EventReference.view, heap, reference, Memory.modify_alloc, Memory.read_alloc]
      rfl
    refine ⟨.inr ⟨marked work.tags, ?_, reference⟩, final.trans ?_⟩
    · exact (congrArg₂ (Memory.modify · · marked) heap reference).trans
        (Memory.modify_alloc before work.tags work.tags marked)
    · rw [loaded]
      rfl
  · exact ⟨owns, rfl⟩

end

theorem foldl_load {α : Type} {step : Work R → α → Work R} {step' : Progress R → α → Progress R}
    (each : ∀ work, Owns before work → ∀ item,
      Owns before (step work item) ∧ (step work item).load = step' work.load item)
    (owns : Owns before work) (items : List α) :
    Owns before (items.foldl step work) ∧
      (items.foldl step work).load = items.foldl step' work.load := by
  induction items generalizing work with
  | nil => exact ⟨owns, rfl⟩
  | cons item rest induction =>
    rcases each work owns item with ⟨owned, loaded⟩
    rw [List.foldl_cons, List.foldl_cons, ← loaded]
    exact induction owned

theorem transform_load (owns : Owns before work) (rule : Rule R) :
    Owns before (work.transform rule) ∧ (work.transform rule).load = work.load.transform rule := by
  have provided : Owns before
      (if rule.dropTags ≠ [] ∨ rule.renameTags.entries ≠ [] then work.provide else work) ∧
      (if rule.dropTags ≠ [] ∨ rule.renameTags.entries ≠ [] then work.provide else work).load =
        work.load := by
    split_ifs
    · exact ⟨(provide_load owns).1, (provide_load owns).2.1⟩
    · exact ⟨owns, rfl⟩
  rcases foldl_load (fun _ owned key => dropTag_load owned key) provided.1 rule.dropTags with
    ⟨dropped, loadedDropped⟩
  rcases foldl_load (fun _ owned rename => renameTag_load owned rename) dropped
    rule.renameTags.entries with ⟨renamed, loadedRenamed⟩
  rcases dropPayload_load renamed rule with ⟨owned, loaded⟩
  refine ⟨owned, loaded.trans ?_⟩
  rw [loadedRenamed, loadedDropped, provided.2]
  rfl

theorem note_load (owns : Owns before work) (rule : Rule R) :
    Owns before (work.note rule) ∧ (work.note rule).load = work.load.note rule := by
  unfold note Progress.note
  cases rule.sampleRate <;> exact ⟨owns, rfl⟩

theorem apply_load (owns : Owns before work) (guarded : Bool) (rule : Rule R) :
    Owns before (work.apply guarded rule) ∧
      (work.apply guarded rule).load = work.load.apply guarded rule := by
  unfold apply Progress.apply
  rcases note_load owns rule with ⟨noted, loaded⟩
  dsimp only
  rw [← loaded]
  split_ifs
  · exact ⟨noted, rfl⟩
  · exact transform_load noted rule

theorem applyRules_load [Strings] {event : EventReference} (held : before.Holds event.tags)
    (owns : Owns before work) (guarded : Bool) (rules : List (Rule R)) :
    Owns before (work.applyRules event guarded rules) ∧
      (work.applyRules event guarded rules).load =
        work.load.applyRules (event.view before) guarded rules := by
  induction rules generalizing work with
  | nil => exact ⟨owns, rfl⟩
  | cons rule rest induction =>
    unfold applyRules Progress.applyRules
    rw [EventReference.view_eq_of_untouched owns.untouched held]
    rcases apply_load owns guarded rule with ⟨owned, loaded⟩
    split_ifs
    · rw [← loaded]
      exact ⟨owned, rfl⟩
    · rw [← loaded]
      exact induction owned
    · exact induction owns

theorem start_load [Rates R] (config : Config R) (event : EventReference) (before : Memory Tags) :
    Owns before (start config event before) ∧
      (start config event before).load = .start config (event.view before) := by
  unfold start
  cases reference : event.tags with
  | none =>
    refine ⟨.inl ⟨reference, rfl⟩, ?_⟩
    simp only [load, Progress.start]
  | some address =>
    refine ⟨.inr ⟨_, rfl, rfl⟩, ?_⟩
    simp only [load, EventReference.view, Memory.read_alloc, Progress.start, reference]

end Work

section Decisions

variable {R : Type} [Rates R] [Strings] [Json.FloatText]

def decisionOf (config : Config R) (protection : Option Bytes) (event : Event) (originalBytes : Nat)
    (progress : Progress R) (queuePressure : R) (now : Int) (autonomyMultiplier : R) : Decision R :=
  let guarded := protection.isSome
  let multiplier := clamp autonomyMultiplier 0 1
  let effective := multipliedRate guarded progress.minRate
    (effectiveRate config.pressure progress.rate progress.minRate queuePressure) multiplier
  let keep := guarded || deterministicKeep event config effective
  { tenantID := event.tenantID
    eventID := event.id
    source := event.source
    eventType := event.type
    observedAt := now
    configName := config.name
    configVersion := config.version
    rules := progress.matched
    keep := keep
    guarded := guarded
    protectionReason := protection.getD []
    baseRate := progress.rate
    effectiveRate := effective
    queuePressure := clamp queuePressure 0 1
    autonomyMultiplier := multiplier
    droppedTags := progress.dropped.entries.map Prod.fst
    renamedTags := progress.renamed
    payloadDropped := progress.payloadDropped
    originalBytes := originalBytes
    shapedBytes := canonicalBytes progress.shaped
    reason :=
      if guarded then ascii "protected: " ++ protection.getD []
      else if 1 ≤ effective then ascii "sample rate keeps all matching events"
      else if keep then ascii "sampled by deterministic event hash"
      else ascii "deterministic sample excluded event" }

structure Shaped (R : Type) where
  heap : Memory Tags
  event : EventReference
  decision : Decision R

def evaluateConfigIn (config : Config R) (order : List (Bytes × Bytes)) (event : EventReference)
    (queuePressure : R) (now : Int) (autonomyMultiplier : R) (heap : Memory Tags) : Shaped R :=
  let originalBytes := canonicalBytes (event.view heap)
  let protection := protectionReason config.protection order (event.view heap)
  let work := (Work.start config event heap).applyRules event protection.isSome config.rules
  { heap := work.heap
    event := work.shaped
    decision := decisionOf config protection (event.view work.heap) originalBytes work.load
      queuePressure now autonomyMultiplier }

theorem evaluateConfigIn_spec (config : Config R) (order : List (Bytes × Bytes))
    (event : EventReference) (queuePressure : R) (now : Int) (autonomyMultiplier : R)
    {heap : Memory Tags} (held : heap.Holds event.tags) :
    let result := evaluateConfigIn config order event queuePressure now autonomyMultiplier heap
    heap.Untouched result.heap ∧
      (result.event.view result.heap, result.decision) =
        evaluateConfig config order (event.view heap) queuePressure now autonomyMultiplier := by
  rcases Work.start_load config event heap with ⟨started, loadedStart⟩
  rcases Work.applyRules_load held started
    (protectionReason config.protection order (event.view heap)).isSome config.rules with
    ⟨owned, loaded⟩
  rw [loadedStart] at loaded
  refine ⟨owned.untouched, ?_⟩
  simp only [evaluateConfigIn, EventReference.view_eq_of_untouched owned.untouched held, loaded]
  have shaped := congrArg Progress.shaped loaded
  exact Prod.ext shaped rfl

structure Explains (event shaped : Event) (decision : Decision R) : Prop where
  changed : ∀ key, (event.tags.find? key).isSome = true →
    shaped.tags.find? key ≠ event.tags.find? key →
      key ∈ decision.droppedTags ∨ (decision.renamedTags.find? key).isSome = true ∨
        key = oversizeTag ∧ decision.payloadDropped = true
  added : ∀ key, event.tags.find? key = none → (shaped.tags.find? key).isSome = true →
    (∃ source, decision.renamedTags.find? source = some key) ∨
      key = oversizeTag ∧ decision.payloadDropped = true
  payload : decision.payloadDropped = false → shaped.payload = event.payload
  fields : shaped = { event with tags := shaped.tags, payload := shaped.payload }

def performedRenames (config : Config R) (order : List (Bytes × Bytes)) (event : Event) :
    List (Bytes × Bytes) :=
  Progress.allRenames event (protectionReason config.protection order event).isSome config.rules
    (.start config event)

def KeepsTargets (renames : List (Bytes × Bytes)) (event shaped : Event) (decision : Decision R) :
    Prop :=
  ∀ rename ∈ renames, event.tags.find? rename.2 = none →
    (shaped.tags.find? rename.2).isSome = true →
      (∃ source, lastTarget renames source = some rename.2) ∨
        rename.2 = oversizeTag ∧ decision.payloadDropped = true

theorem evaluateConfig_explains_iff (config : Config R) (order : List (Bytes × Bytes))
    (event : Event) (queuePressure : R) (now : Int) (autonomyMultiplier : R) :
    Explains event
        (evaluateConfig config order event queuePressure now autonomyMultiplier).1
        (evaluateConfig config order event queuePressure now autonomyMultiplier).2 ↔
      KeepsTargets (performedRenames config order event) event
        (evaluateConfig config order event queuePressure now autonomyMultiplier).1
        (evaluateConfig config order event queuePressure now autonomyMultiplier).2 := by
  have accounts := (Accounts.start config event).applyRules
    (protectionReason config.protection order event).isSome config.rules
  rw [List.nil_append] at accounts
  constructor
  · intro explains rename _ absent present
    rcases explains.added rename.2 absent present with ⟨source, recorded⟩ | marker
    · exact .inl ⟨source, (accounts.renamed source).symm.trans recorded⟩
    · exact .inr marker
  · intro keeps
    refine ⟨fun key held different => ?_, fun key absent present => ?_, accounts.payload,
      accounts.fields⟩
    · rcases accounts.old key with same | absent | dropped | renamed | marker
      · exact absurd same different
      · rw [absent] at held
        cases held
      · rcases Option.isSome_iff_exists.mp dropped with ⟨_, found⟩
        exact .inl (List.mem_map.mpr ⟨_, (find?_eq_some_iff _ _ _).mp found, rfl⟩)
      · exact .inr (.inl renamed)
      · exact .inr (.inr marker)
    · rcases accounts.new key absent present with ⟨source, member⟩ | marker
      · rcases keeps (source, key) member absent present with ⟨last, isLast⟩ | marker
        · exact .inl ⟨last, (accounts.renamed last).trans isLast⟩
        · exact .inr marker
      · exact .inr marker

end Decisions

namespace Sample

def renameRule (name source target : String) : Rule ℚ :=
  { rule with
    name := ascii name
    sampleRate := none
    minSampleRate := 0
    dropTags := []
    renameTags := SortedMap.empty.insert (ascii source) (ascii target) }

def chained : Config ℚ :=
  { config with
    protection := ⟨false, [], [], .empty, 0⟩
    rules := [renameRule "r1" "a" "b", renameRule "r2" "c" "a", renameRule "r3" "a" "d"] }

def chainedTags : Tags :=
  (SortedMap.empty.insert (ascii "a") (ascii "1")).insert (ascii "c") (ascii "2")

def chainedHeap : Memory Tags := ⟨[chainedTags]⟩

def chainedEvent : EventReference := ⟨event, some 0⟩

theorem chainedHeap_holds : chainedHeap.Holds chainedEvent.tags := by
  intro address isAddress
  cases isAddress
  exact Nat.zero_lt_one

@[reducible] def chainedResult : Shaped ℚ :=
  @evaluateConfigIn ℚ _ strings floatText chained [] chainedEvent 0 0 1 chainedHeap

end Sample

end TelemetryForge.Shaping
