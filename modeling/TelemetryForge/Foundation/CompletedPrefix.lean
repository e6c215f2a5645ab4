import Mathlib

/-! # Committing a completed prefix

Work is registered in the order in which it arrives and completes in any order. -/

namespace TelemetryForge.CompletedPrefix

open List

variable {π : Type} [LinearOrder π]

structure Tracked (π : Type) where
  position : π
  done : Bool
deriving DecidableEq

def register (pending : List (Tracked π)) (position : π) : List (Tracked π) :=
  if pending.any fun entry => decide (entry.position = position) then pending
  else pending ++ [⟨position, false⟩]

def markDone (position : π) : List (Tracked π) → List (Tracked π)
  | [] => []
  | entry :: rest =>
    if entry.position = position then ⟨entry.position, true⟩ :: rest
    else entry :: markDone position rest

def highest (pending : List (Tracked π)) : Option π :=
  (pending.takeWhile Tracked.done).getLast?.map Tracked.position

def remaining (pending : List (Tracked π)) : List (Tracked π) := pending.dropWhile Tracked.done

theorem map_position_markDone (position : π) (pending : List (Tracked π)) :
    (markDone position pending).map Tracked.position = pending.map Tracked.position := by
  induction pending with
  | nil => rfl
  | cons entry rest induction =>
    simp only [markDone]
    split_ifs
    · rfl
    · simp [induction]

theorem mem_markDone {position : π} {pending : List (Tracked π)} {entry : Tracked π}
    (member : entry ∈ markDone position pending) :
    entry ∈ pending ∨ entry.position = position ∧ entry.done = true := by
  induction pending with
  | nil => exact .inl member
  | cons head rest induction =>
    simp only [markDone] at member
    split_ifs at member with same
    · rcases mem_cons.mp member with rfl | member
      · exact .inr ⟨same, rfl⟩
      · exact .inl (mem_cons_of_mem head member)
    · rcases mem_cons.mp member with rfl | member
      · exact .inl mem_cons_self
      · exact (induction member).imp_left (mem_cons_of_mem head)

theorem done_of_mem_markDone {position : π} {pending : List (Tracked π)} {bound : π}
    (done : ∀ entry ∈ pending, entry.position ≤ bound → entry.done = true) {entry : Tracked π}
    (member : entry ∈ markDone position pending) (below : entry.position ≤ bound) :
    entry.done = true := by
  rcases mem_markDone member with member | ⟨_, marked⟩
  · exact done entry member below
  · exact marked

structure Covers (arrived dropped unregistered : List π) (settled : π → Prop) (commits : List π)
    (pending : List (Tracked π)) : Prop where
  ordered : arrived.Pairwise (· < ·)
  layout : arrived = dropped ++ pending.map Tracked.position ++ unregistered
  dropped_settled : ∀ position ∈ dropped, settled position
  done_settled : ∀ entry ∈ pending, entry.done = true → settled entry.position
  committed : ∀ commit ∈ commits, commit ∈ dropped ∨ commit ∈ pending.map Tracked.position ∧
    ∀ entry ∈ pending, entry.position ≤ commit → entry.done = true

namespace Covers

variable {arrived dropped unregistered commits : List π} {settled : π → Prop}
  {pending : List (Tracked π)}

theorem empty (settled : π → Prop) : Covers [] [] [] settled [] ([] : List (Tracked π)) :=
  ⟨.nil, rfl, nofun, nofun, nofun⟩

theorem settle (covers : Covers arrived dropped unregistered settled commits pending)
    {settled' : π → Prop} (more : ∀ position, settled position → settled' position) :
    Covers arrived dropped unregistered settled' commits pending where
  ordered := covers.ordered
  layout := covers.layout
  dropped_settled position member := more position (covers.dropped_settled position member)
  done_settled entry member done := more _ (covers.done_settled entry member done)
  committed := covers.committed

theorem arrive (covers : Covers arrived dropped unregistered settled commits pending)
    {more : List π} (ordered : (arrived ++ more).Pairwise (· < ·)) :
    Covers (arrived ++ more) dropped (unregistered ++ more) settled commits pending where
  ordered := ordered
  layout := by rw [covers.layout, append_assoc]
  dropped_settled := covers.dropped_settled
  done_settled := covers.done_settled
  committed := covers.committed

theorem register {position : π}
    (covers : Covers arrived dropped (position :: unregistered) settled commits pending) :
    Covers arrived dropped unregistered settled commits
      (CompletedPrefix.register pending position) := by
  have before : ∀ entry ∈ pending, entry.position < position := by
    intro entry member
    have ordered := covers.ordered
    rw [covers.layout, pairwise_append] at ordered
    exact ordered.2.2 _ (mem_append_right _ (mem_map_of_mem member)) _ mem_cons_self
  have untracked : (pending.any fun entry => decide (entry.position = position)) = false := by
    rw [any_eq_false]
    intro entry member
    simpa using (before entry member).ne
  unfold CompletedPrefix.register
  rw [untracked]
  refine ⟨covers.ordered, ?_, covers.dropped_settled, fun entry member done => ?_,
    fun commit member => ?_⟩
  · rw [covers.layout]
    simp
  · rcases mem_append.mp member with member | member
    · exact covers.done_settled entry member done
    · rw [mem_singleton.mp member] at done
      cases done
  · rcases covers.committed commit member with isDropped | ⟨isTracked, done⟩
    · exact .inl isDropped
    · have stillTracked : commit ∈ (pending ++ [Tracked.mk position false]).map Tracked.position := by
        rw [map_append]
        exact mem_append_left _ isTracked
      refine .inr ⟨stillTracked, fun entry member below => ?_⟩
      rcases mem_append.mp member with member | member
      · exact done entry member below
      · rw [mem_singleton.mp member] at below
        rcases mem_map.mp isTracked with ⟨other, tracked, rfl⟩
        exact absurd (before other tracked) (not_lt.mpr below)

theorem markDone {position : π}
    (covers : Covers arrived dropped unregistered settled commits pending)
    (isSettled : settled position) :
    Covers arrived dropped unregistered settled commits
      (CompletedPrefix.markDone position pending) where
  ordered := covers.ordered
  layout := by rw [map_position_markDone, covers.layout]
  dropped_settled := covers.dropped_settled
  done_settled entry member done := by
    rcases mem_markDone member with member | ⟨same, _⟩
    · exact covers.done_settled entry member done
    · exact same ▸ isSettled
  committed commit member := by
    rcases covers.committed commit member with isDropped | ⟨isTracked, done⟩
    · exact .inl isDropped
    · exact .inr ⟨by rwa [map_position_markDone],
        fun entry member below => done_of_mem_markDone done member below⟩

theorem settled_of_commit (covers : Covers arrived dropped unregistered settled commits pending)
    {commit : π} (member : commit ∈ commits) {position : π} (isArrived : position ∈ arrived)
    (below : position ≤ commit) : settled position := by
  have ordered := covers.ordered
  rw [covers.layout] at isArrived
  rw [covers.layout, pairwise_append] at ordered
  have early : commit ∈ dropped ++ pending.map Tracked.position := by
    rcases covers.committed commit member with isDropped | ⟨isTracked, _⟩
    · exact mem_append_left _ isDropped
    · exact mem_append_right _ isTracked
  rcases mem_append.mp isArrived with registered | late
  · rcases mem_append.mp registered with isDropped | isTracked
    · exact covers.dropped_settled position isDropped
    · rcases mem_map.mp isTracked with ⟨entry, inPending, rfl⟩
      rcases covers.committed commit member with isDropped | ⟨_, done⟩
      · have after := (pairwise_append.mp ordered.1).2.2 commit isDropped _ isTracked
        exact absurd below (not_le.mpr after)
      · exact covers.done_settled entry inPending (done entry inPending below)
  · exact absurd below (not_le.mpr (ordered.2.2 commit early position late))

omit [LinearOrder π] in
theorem split_of_highest {pending : List (Tracked π)} {position : π}
    (found : highest pending = some position) :
    ∃ first last, pending.takeWhile Tracked.done = first ++ [last] ∧ last.position = position ∧
      pending = first ++ [last] ++ remaining pending ∧
      (∀ entry ∈ first ++ [last], entry.done = true) := by
  unfold highest at found
  rcases Option.map_eq_some_iff.mp found with ⟨last, isLast, rfl⟩
  rcases getLast?_eq_some_iff.mp isLast with ⟨first, isPrefix⟩
  refine ⟨first, last, isPrefix, rfl, ?_, ?_⟩
  · rw [← isPrefix]
    exact takeWhile_append_dropWhile.symm
  · rw [← isPrefix]
    exact fun entry member => mem_takeWhile_imp member

section Commit

variable (covers : Covers arrived dropped unregistered settled commits pending) {position : π}
  (found : highest pending = some position)

include covers found

theorem mem_of_le_highest {other : π} (member : other ∈ arrived) (below : other ≤ position) :
    other ∈ dropped ∨ ∃ entry ∈ pending.takeWhile Tracked.done, entry.position = other := by
  rcases split_of_highest found with ⟨first, last, isPrefix, rfl, whole, _⟩
  have ordered := covers.ordered
  have layout := covers.layout
  rw [whole] at layout
  rw [layout] at ordered member
  simp only [map_append, map_cons, map_nil, append_assoc] at ordered member
  rw [pairwise_append, pairwise_append, pairwise_append] at ordered
  have after : ∀ later ∈ (remaining pending).map Tracked.position ++ unregistered,
      last.position < later := fun later isLater =>
    ordered.2.1.2.1.2.2 last.position mem_cons_self later isLater
  rw [isPrefix]
  simp only [mem_append, mem_singleton, mem_map] at member
  rcases member with isDropped | ⟨entry, inFirst, rfl⟩ | rfl | later
  · exact .inl isDropped
  · exact .inr ⟨entry, mem_append_left _ inFirst, rfl⟩
  · exact .inr ⟨last, mem_append_right _ mem_cons_self, rfl⟩
  · exact absurd (after other (by simpa using later)) (not_lt.mpr below)

theorem commit_le_highest {commit : π} (member : commit ∈ commits) : commit ≤ position := by
  rcases split_of_highest found with ⟨first, last, isPrefix, rfl, whole, _⟩
  have ordered := covers.ordered
  rw [covers.layout, pairwise_append, pairwise_append] at ordered
  rcases covers.committed commit member with isDropped | ⟨isTracked, done⟩
  · have tracked : last ∈ pending := by
      rw [whole]
      simp
    exact (ordered.1.2.2 commit isDropped _ (mem_map_of_mem tracked)).le
  · by_contra above
    -- The first entry that is not done lies at or before the earlier commit.
    rcases mem_map.mp isTracked with ⟨entry, tracked, rfl⟩
    have inner := ordered.1.2.1
    rw [whole, map_append, pairwise_append] at inner
    rw [whole] at tracked
    rcases mem_append.mp tracked with early | late
    · have sorted := inner.1
      rw [map_append, pairwise_append] at sorted
      rcases mem_append.mp early with inFirst | isLast
      · exact above (sorted.2.2 _ (mem_map_of_mem inFirst) _ (by simp)).le
      · exact above (by rw [mem_singleton.mp isLast])
    · cases rest : remaining pending with
      | nil =>
        rw [rest] at late
        cases late
      | cons head tail =>
        have undone : head.done = false := by
          have not : ¬head.done = true := by
            have head? := head?_dropWhile_not Tracked.done pending
            rw [show pending.dropWhile Tracked.done = head :: tail from rest] at head?
            simpa using head?
          simpa using not
        have inPending : head ∈ pending := by
          rw [whole, rest]
          simp
        have below : head.position ≤ entry.position := by
          rw [rest] at late inner
          rcases mem_cons.mp late with rfl | inTail
          · exact le_rfl
          · have sorted := inner.2.1
            rw [map_cons, pairwise_cons] at sorted
            exact (sorted.1 _ (mem_map_of_mem inTail)).le
        rw [done head inPending below] at undone
        cases undone

theorem commit_failed :
    Covers arrived dropped unregistered settled (commits ++ [position]) pending where
  ordered := covers.ordered
  layout := covers.layout
  dropped_settled := covers.dropped_settled
  done_settled := covers.done_settled
  committed commit member := by
    rcases mem_append.mp member with member | member
    · exact covers.committed commit member
    · rw [mem_singleton.mp member]
      have ordered := covers.ordered
      rw [covers.layout, pairwise_append, pairwise_append] at ordered
      have tracked : position ∈ pending.map Tracked.position := by
        rcases split_of_highest found with ⟨first, last, _, rfl, whole, _⟩
        rw [whole]
        simp
      refine .inr ⟨tracked, fun entry inPending below => ?_⟩
      have arrivedEntry : entry.position ∈ arrived := by
        rw [covers.layout]
        exact mem_append_left _ (mem_append_right _ (mem_map_of_mem inPending))
      rcases covers.mem_of_le_highest found arrivedEntry below with isDropped | ⟨other, early, same⟩
      · exact absurd (ordered.1.2.2 _ isDropped _ (mem_map_of_mem inPending)) (lt_irrefl _)
      · have equal : other = entry :=
          inj_on_of_nodup_map (ordered.1.2.1.imp fun before => before.ne)
            ((takeWhile_sublist _).subset early) inPending same
        exact equal ▸ mem_takeWhile_imp early

theorem commit_succeeded :
    Covers arrived (dropped ++ (pending.takeWhile Tracked.done).map Tracked.position) unregistered
      settled (commits ++ [position]) (remaining pending) where
  ordered := covers.ordered
  layout := by
    rw [append_assoc dropped, ← map_append, remaining, takeWhile_append_dropWhile]
    exact covers.layout
  dropped_settled other member := by
    rcases mem_append.mp member with isDropped | early
    · exact covers.dropped_settled other isDropped
    · rcases mem_map.mp early with ⟨entry, tracked, rfl⟩
      exact covers.done_settled entry ((takeWhile_sublist _).subset tracked)
        (mem_takeWhile_imp tracked)
  done_settled entry member := covers.done_settled entry (dropWhile_sublist _ |>.subset member)
  committed commit member := by
    have below : commit ≤ position := by
      rcases mem_append.mp member with member | member
      · exact covers.commit_le_highest found member
      · exact (mem_singleton.mp member).le
    have arrivedCommit : commit ∈ arrived := by
      rcases mem_append.mp member with member | member
      · rw [covers.layout]
        rcases covers.committed commit member with isDropped | ⟨isTracked, _⟩
        · exact mem_append_left _ (mem_append_left _ isDropped)
        · exact mem_append_left _ (mem_append_right _ isTracked)
      · rw [mem_singleton.mp member, covers.layout]
        rcases split_of_highest found with ⟨first, last, _, rfl, whole, _⟩
        refine mem_append_left _ (mem_append_right _ (mem_map_of_mem ?_))
        rw [whole]
        simp
    rcases covers.mem_of_le_highest found arrivedCommit below with isDropped | ⟨entry, early, rfl⟩
    · exact .inl (mem_append_left _ isDropped)
    · exact .inl (mem_append_right _ (mem_map_of_mem early))

end Commit

end Covers

end TelemetryForge.CompletedPrefix
