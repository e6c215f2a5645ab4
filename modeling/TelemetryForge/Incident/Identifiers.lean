import TelemetryForge.Incident.Isolation

/-! # The error window

`recordError` keeps a list of times for each source and forgets the times that have left the
window. -/

namespace TelemetryForge.Incident

open List SortedMap

abbrev History := List (Bytes × Int)

def History.within (history : History) (source : Bytes) (window now : Int) : List Int :=
  (history.filterMap fun entry => if entry.1 = source then some entry.2 else none).filter
    fun timestamp => now - window < timestamp

def recordErrors (config : Config) (history : History) : Detector :=
  history.foldl (fun detector entry => (detector.recordError entry.1 entry.2).1)
    (newDetector config)

structure Counts (detector : Detector) (history : History) (clock : Int) : Prop where
  window : ∀ source now, clock ≤ now → detector.keptErrors source now =
    history.within source detector.config.errorWindow now
  tracked : ∀ source, (detector.errors.find? source).isSome →
    source ∈ (history.map Prod.fst).toFinset

theorem within_append (history : History) (entry : Bytes × Int) (source : Bytes)
    (window now : Int) :
    History.within (history ++ [entry]) source window now =
      history.within source window now ++
        if entry.1 = source ∧ now - window < entry.2 then [entry.2] else [] := by
  simp only [History.within, filterMap_append, filter_append]
  congr 1
  by_cases same : entry.1 = source <;> by_cases recent : now - window < entry.2 <;>
    simp [same, recent]

section Step

variable {detector : Detector} {history : History} {clock : Int} {source : Bytes} {now : Int}
  (counts : Counts detector history clock)
include counts

theorem tracked_of_current {other : Bytes}
    (found : ((detector.currentErrors source now).find? other).isSome = true) :
    other ∈ (history.map Prod.fst).toFinset := by
  apply counts.tracked
  rw [Detector.currentErrors] at found
  split_ifs at found
  · rw [find?_erase] at found
    split_ifs at found
    · cases found
    · exact found
  · exact found

theorem hasErrorRoom_of_few
    (few : (((history ++ [(source, now)]).map Prod.fst).toFinset.card : Int) ≤
      detector.config.maxTrackedSources) :
    detector.hasErrorRoom source now = true := by
  rw [Detector.hasErrorRoom]
  by_cases found : ((detector.currentErrors source now).find? source).isSome = true
  · simp [found]
  set keys := (detector.currentErrors source now).entries.map Prod.fst with isKeys
  have tracks {other : Bytes} (member : other ∈ keys) :
      ((detector.currentErrors source now).find? other).isSome = true := by
    rcases mem_map.mp member with ⟨entry, isEntry, rfl⟩
    rw [((detector.currentErrors source now).find?_eq_some_iff _ entry.2).mpr isEntry]
    rfl
  have distinct : (source :: keys).Nodup :=
    nodup_cons.mpr ⟨fun member => found (tracks member), nodup_keys _⟩
  have fewer : (source :: keys).toFinset ⊆
      ((history ++ [(source, now)]).map Prod.fst).toFinset := by
    intro other member
    rcases mem_cons.mp (mem_toFinset.mp member) with rfl | member
    · simp
    · have known := tracked_of_current counts (tracks member)
      simp only [mem_toFinset, map_append, mem_append] at known ⊢
      exact .inl known
  have counted := Finset.card_le_card fewer
  rw [toFinset_card_of_nodup distinct, isKeys, length_cons, length_map] at counted
  simp only [Bool.or_eq_true, decide_eq_true_eq]
  omega

theorem recordError_counts (later : clock ≤ now) (room : detector.hasErrorRoom source now = true) :
    Counts (detector.recordError source now).1 (history ++ [(source, now)]) now := by
  have stored (other : Bytes) : (detector.recordError source now).1.errors.getD other [] =
      if other = source then detector.keptErrors source now ++ [now]
      else detector.errors.getD other [] := by
    simp only [Detector.recordError, room, if_true, SortedMap.getD, SortedMap.find?_insert,
      Detector.currentErrors]
    split_ifs with same <;> simp [same]
  constructor
  · intro other next after
    rw [Detector.recordError_config, within_append, ← counts.window other next (later.trans after),
      Detector.keptErrors, stored, Detector.recordError_config]
    by_cases same : other = source
    · -- What has left the window now has left it at every later time.
      subst same
      rw [if_pos rfl, List.filter_append, Detector.keptErrors, List.filter_filter,
        Detector.keptErrors]
      congr 1
      · apply List.filter_congr
        intro timestamp _
        simp only [Bool.and_eq_left_iff_imp, decide_eq_true_eq]
        omega
      · by_cases recent : next - detector.config.errorWindow < now <;> simp [recent]
    · simp [same, Ne.symm same, Detector.keptErrors]
  · intro other found
    simp only [Detector.recordError, room, if_true, SortedMap.find?_insert] at found
    rw [List.map_append, List.mem_toFinset, List.mem_append]
    split_ifs at found with same
    · simp [same]
    · exact .inl (List.mem_toFinset.mp (tracked_of_current counts found))

end Step

theorem fewer_sources {history : History} {entry : Bytes × Int} {bound : Int}
    (few : (((history ++ [entry]).map Prod.fst).toFinset.card : Int) ≤ bound) :
    ((history.map Prod.fst).toFinset.card : Int) ≤ bound := by
  refine le_trans (Int.ofNat_le.mpr (Finset.card_le_card ?_)) few
  intro source member
  simp only [mem_toFinset, map_append, mem_append] at member ⊢
  exact .inl member

theorem recordErrors_counts (config : Config) {history : History} {now : Int}
    (ordered : ((history.map Prod.snd) ++ [now]).Pairwise (· ≤ ·))
    (few : ((history.map Prod.fst).toFinset.card : Int) ≤ config.normalized.maxTrackedSources) :
    (recordErrors config history).config = config.normalized ∧
      Counts (recordErrors config history) history now := by
  induction history using reverseRecOn generalizing now with
  | nil => exact ⟨rfl, ⟨fun _ _ _ => rfl, nofun⟩⟩
  | append_singleton history entry induction =>
    rcases entry with ⟨source, time⟩
    have earlier := (pairwise_append.mp ordered).1
    rw [map_append] at earlier
    rcases induction earlier (fewer_sources few) with ⟨same, counts⟩
    have step : recordErrors config (history ++ [(source, time)]) =
        ((recordErrors config history).recordError source time).1 := by
      simp [recordErrors]
    rw [step, Detector.recordError_config]
    have room := hasErrorRoom_of_few counts (same ▸ few)
    have counted := recordError_counts counts le_rfl room
    have late : time ≤ now := (pairwise_append.mp ordered).2.2 time (by simp) now (by simp)
    exact ⟨same, fun source next after => counted.window source next (late.trans after),
      counted.tracked⟩

/-! ## The IDs of automatic incidents

The ID of an automatic incident is made of the millisecond, the slug of the source and the
category. `FreezeIncident` overwrites a record of the same tenant and ID. -/

abbrev Trigger := Observation × Category

def Trigger.freeze (config : Config) (trigger : Trigger) : Freeze :=
  freezeFor config trigger.1.event trigger.2 trigger.1.now

def Watch.triggered (watch : Watch) (observation : Observation) : Option Category :=
  let breach := watch.detector.breach observation.event observation.now.1
  breach.2.bind fun reason =>
    let key := triggerKey observation.event reason.category
    if (breach.1.reserve key observation.now.1).2 && observation.freezes then some reason.category
    else none

def Watch.triggers : Watch → List Observation → List Trigger
  | _, [] => []
  | watch, observation :: rest =>
    ((watch.triggered observation).map fun category => (observation, category)).toList ++
      (watch.observe observation).triggers rest

def upsertIncident (rows : List Freeze) (freeze : Freeze) : List Freeze :=
  rows.filter (fun row =>
    !(row.tenantID == freeze.tenantID && row.incidentID == freeze.incidentID)) ++ [freeze]

def recorded (frozen : List Freeze) : List Freeze := frozen.foldl upsertIncident []

def Distinct (frozen : List Freeze) : Prop :=
  frozen.Pairwise fun first second =>
    first.tenantID = second.tenantID → first.incidentID ≠ second.incidentID

def Collide (first second : Trigger) : Prop :=
  tenantOf first.1.event.tenantID = tenantOf second.1.event.tenantID ∧
    Instant.unixMilli first.1.now = Instant.unixMilli second.1.now ∧
    slug first.1.event.source = slug second.1.event.source ∧ first.2 = second.2

theorem signedDecimal_delimited {left right : Int} {leftRest rightRest : Bytes}
    (same : signedDecimal left ++ 45 :: leftRest = signedDecimal right ++ 45 :: rightRest) :
    left = right ∧ leftRest = rightRest := by
  have digits := decimal_all_digits
  have stops : isDigit 45 = false := by decide
  -- A minus sign stands where the other text has a digit.
  have signs {number : Nat} {rest other : Bytes}
      (same : 45 :: rest = decimal number ++ 45 :: other) : False :=
    decimal_ne_nil number (eq_of_delimited stops rfl (digits number) same).1.symm
  have dash : ascii "-" = [45] := rfl
  unfold signedDecimal at same
  split_ifs at same with negative negative' negative'
  · simp only [dash, cons_append, cons.injEq, true_and] at same
    rcases eq_of_delimited stops (digits _) (digits _) same with ⟨equal, rest⟩
    have size := decimal_injective equal
    exact ⟨by omega, rest⟩
  · exact (signs same).elim
  · exact (signs same.symm).elim
  · rcases eq_of_delimited stops (digits _) (digits _) same with ⟨equal, rest⟩
    have size := decimal_injective equal
    exact ⟨by omega, rest⟩

theorem category_delimited {left right : Bytes} {category category' : Category}
    (same : left ++ 45 :: category.text = right ++ 45 :: category'.text) :
    left = right ∧ category = category' := by
  have ends := congrArg getLast? same
  have latency : (45 :: ascii "latency").getLast? = some 121 := by decide
  have errors : (45 :: ascii "errors").getLast? = some 115 := by decide
  cases category <;> cases category' <;>
    simp only [Category.text, getLast?_append, latency, errors, Option.some_or,
      Option.some.injEq] at ends same
  · exact ⟨append_cancel_right same, rfl⟩
  · cases ends
  · cases ends
  · exact ⟨append_cancel_right same, rfl⟩

theorem incidentID_eq_iff (config : Config) (first second : Trigger) :
    (first.freeze config).incidentID = (second.freeze config).incidentID ↔
      Instant.unixMilli first.1.now = Instant.unixMilli second.1.now ∧
        slug first.1.event.source = slug second.1.event.source ∧ first.2 = second.2 := by
  have dash : ascii "-" = [45] := rfl
  simp only [Trigger.freeze, freezeFor, dash, append_assoc, singleton_append, append_cancel_left_eq]
  constructor
  · intro same
    rcases signedDecimal_delimited same with ⟨milli, rest⟩
    exact ⟨milli, category_delimited rest⟩
  · rintro ⟨milli, sameSlug, category⟩
    rw [milli, sameSlug, category]

theorem length_recorded_le (frozen : List Freeze) : (recorded frozen).length ≤ frozen.length := by
  induction frozen using reverseRecOn with
  | nil => exact le_rfl
  | append_singleton frozen freeze induction =>
    have kept := (filter_sublist (p := fun row : Freeze =>
      !(row.tenantID == freeze.tenantID && row.incidentID == freeze.incidentID))
      (l := recorded frozen)).length_le
    simp only [recorded, foldl_append, foldl_cons, foldl_nil, upsertIncident,
      length_append, length_singleton] at kept induction ⊢
    omega

theorem recorded_eq_iff (frozen : List Freeze) : recorded frozen = frozen ↔ Distinct frozen := by
  induction frozen using reverseRecOn with
  | nil => exact ⟨fun _ => .nil, fun _ => rfl⟩
  | append_singleton frozen freeze induction =>
    have step : recorded (frozen ++ [freeze]) = upsertIncident (recorded frozen) freeze := by
      simp [recorded]
    rw [step, upsertIncident, append_left_inj, Distinct, pairwise_append]
    simp only [pairwise_singleton, mem_singleton, forall_eq, true_and]
    constructor
    · intro kept
      -- Nothing has been filtered out, now or before.
      have shorter : List.Sublist frozen (recorded frozen) := by
        conv_lhs => rw [← kept]
        exact filter_sublist
      have all := shorter.eq_of_length_le (length_recorded_le frozen)
      rw [← all, filter_eq_self] at kept
      refine ⟨induction.mp all.symm, ?_⟩
      intro row member sameTenant sameID
      simpa [sameTenant, sameID] using kept row member
    · rintro ⟨distinct, fresh⟩
      rw [induction.mpr distinct, filter_eq_self]
      intro row member
      have different := fresh row member
      simpa [imp_iff_not_or] using different

theorem observe_frozen (watch : Watch) (observation : Observation) :
    (watch.observe observation).detector.config = watch.detector.config ∧
      (watch.observe observation).frozen = watch.frozen ++
        ((watch.triggered observation).map fun category =>
          Trigger.freeze watch.detector.config (observation, category)).toList := by
  simp only [Watch.observe, Watch.triggered]
  cases breached : (watch.detector.breach observation.event observation.now.1).2 with
  | none => simp
  | some reason =>
    simp only [Watch.trigger, Option.bind_some]
    split_ifs with suppressed freezes freezes <;> simp_all [Trigger.freeze]

theorem run_frozen (watch : Watch) (observations : List Observation) :
    (Watch.machine.run watch observations).frozen = watch.frozen ++
      (watch.triggers observations).map (Trigger.freeze watch.detector.config) := by
  induction observations generalizing watch with
  | nil => simp [Watch.triggers]
  | cons observation rest induction =>
    rcases observe_frozen watch observation with ⟨config, frozen⟩
    have step : Watch.machine.step watch observation = watch.observe observation := rfl
    rw [Machine.run_cons, induction, step, config, frozen, Watch.triggers, map_append, append_assoc]
    congr 2
    cases watch.triggered observation <;> rfl

/-- The IDs of a run are distinct for each tenant, and every freeze keeps its record, exactly
when no two of its triggers share the tenant, the millisecond, the slug and the category. -/
theorem distinct_iff (config : Config) (observations : List Observation) :
    let frozen := (Watch.machine.run (Watch.start config) observations).frozen
    Distinct frozen ∧ recorded frozen = frozen ↔
      ((Watch.start config).triggers observations).Pairwise fun first second =>
        ¬Collide first second := by
  intro frozen
  have all : frozen = _ := run_frozen (Watch.start config) observations
  rw [recorded_eq_iff, and_self, all, Distinct]
  simp only [Watch.start, nil_append, pairwise_map]
  apply List.Pairwise.iff
  intro first second
  rw [ne_eq, incidentID_eq_iff, ← not_and]
  exact Iff.rfl

namespace Sample

def slow (source : String) : Observation :=
  momentary { Event.zero with
    source := ascii source, type := ascii "latency", unit := ascii "ms"
    value := some 0x408F400000000000 }

end Sample

/-- Two sources whose slugs agree breach in the same millisecond: both incidents are frozen
under one ID, and the record of the first is overwritten. -/
theorem not_distinct_slugs :
    let observations := [Sample.slow "api v1", Sample.slow "api/v1"]
    let frozen := (Watch.machine.run (Watch.start defaultConfig) observations).frozen
    frozen.length = 2 ∧ (recorded frozen).length = 1 ∧ ¬Distinct frozen := by
  intro observations frozen
  have two : frozen.length = 2 := by decide +kernel
  have one : (recorded frozen).length = 1 := by decide +kernel
  refine ⟨two, one, fun distinct => ?_⟩
  rw [(recorded_eq_iff frozen).mpr distinct] at one
  omega

end TelemetryForge.Incident
