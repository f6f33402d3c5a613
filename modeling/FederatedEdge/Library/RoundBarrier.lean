import Mathlib.Data.List.Basic
import Mathlib.Data.List.Nodup
import Mathlib.Data.List.Perm.Basic
import Mathlib.Data.Int.Basic
import Mathlib.Tactic.Common

/-!
# A barrier of counted rounds

Every member counts its own arrivals, and the barrier counts its rounds.  A
member is awaited while its count equals the number of the round.  An arrival
increments the member's count and then looks for a member which is still
awaited; if there is none, the next round begins.

As long as only awaited members arrive, all counts stay within one of the
round.  Then each round ends with the arrival of the last awaited member, and
in the new round everybody is awaited again.
-/

namespace FederatedEdge.Library

structure Member (ι : Type) where
  name : ι
  count : ℤ
deriving DecidableEq, Repr

structure Barrier (ι : Type) where
  members : List (Member ι)
  round : ℤ
deriving DecidableEq, Repr

namespace Barrier

variable {ι : Type} [DecidableEq ι]

omit [DecidableEq ι] in
@[ext]
theorem ext_members_round {left right : Barrier ι}
    (members : left.members = right.members)
    (round : left.round = right.round) :
    left = right := by
  cases left
  cases right
  simp_all

def names (barrier : Barrier ι) : List ι :=
  barrier.members.map Member.name

/-- The member has not arrived in the current round. -/
def Awaited (barrier : Barrier ι) (name : ι) : Prop :=
  ⟨name, barrier.round⟩ ∈ barrier.members

instance (barrier : Barrier ι) (name : ι) : Decidable (barrier.Awaited name) := by
  unfold Awaited
  infer_instance

/-- Some member with a count is at the current round. -/
def Pending (barrier : Barrier ι) : Prop :=
  ∃ member ∈ barrier.members, member.count = barrier.round

instance (barrier : Barrier ι) : Decidable barrier.Pending := by
  unfold Pending
  infer_instance

omit [DecidableEq ι] in
theorem pending_iff (barrier : Barrier ι) :
    barrier.Pending ↔ ∃ name, barrier.Awaited name := by
  constructor
  · rintro ⟨⟨name, count⟩, member, rfl⟩
    exact ⟨name, member⟩
  · rintro ⟨name, awaited⟩
    exact ⟨_, awaited, rfl⟩

omit [DecidableEq ι] in
theorem Awaited.mem_names {barrier : Barrier ι} {name : ι}
    (awaited : barrier.Awaited name) :
    name ∈ barrier.names :=
  List.mem_map.mpr ⟨_, awaited, rfl⟩

/-! ## Arriving and joining -/

/-- One arrival of one member. -/
def Member.bump (name : ι) (member : Member ι) : Member ι :=
  if member.name = name then { member with count := member.count + 1 }
  else member

/-- The barrier after an arrival, before it is examined. -/
def bump (barrier : Barrier ι) (name : ι) : Barrier ι :=
  { barrier with members := barrier.members.map (Member.bump name) }

/-- The next round begins. -/
def advance (barrier : Barrier ι) : Barrier ι :=
  { barrier with round := barrier.round + 1 }

/-- Count an arrival, and begin the next round when nobody is awaited. -/
def arrive (barrier : Barrier ι) (name : ι) : Barrier ι :=
  if (barrier.bump name).Pending then barrier.bump name
  else (barrier.bump name).advance

/-- A new member, which has never arrived. -/
def join (barrier : Barrier ι) (name : ι) : Barrier ι :=
  { barrier with members := barrier.members ++ [⟨name, 0⟩] }

theorem Member.name_bump (name : ι) (member : Member ι) :
    (Member.bump name member).name = member.name := by
  by_cases same : member.name = name <;> simp [Member.bump, same]

@[simp]
theorem round_bump (barrier : Barrier ι) (name : ι) :
    (barrier.bump name).round = barrier.round :=
  rfl

@[simp]
theorem names_bump (barrier : Barrier ι) (name : ι) :
    (barrier.bump name).names = barrier.names := by
  simp only [names, bump, List.map_map]
  exact List.map_congr_left fun member _ => Member.name_bump name member

omit [DecidableEq ι] in
@[simp]
theorem names_advance (barrier : Barrier ι) :
    barrier.advance.names = barrier.names :=
  rfl

omit [DecidableEq ι] in
@[simp]
theorem names_join (barrier : Barrier ι) (name : ι) :
    (barrier.join name).names = barrier.names ++ [name] := by
  simp [names, join]

@[simp]
theorem names_arrive (barrier : Barrier ι) (name : ι) :
    (barrier.arrive name).names = barrier.names := by
  unfold arrive
  split <;> simp

/-! ## Barriers in step -/

/-- Distinct members, each at the current round or already past it. -/
structure InStep (barrier : Barrier ι) : Prop where
  distinct : barrier.names.Nodup
  counts : ∀ member ∈ barrier.members,
    member.count = barrier.round ∨ member.count = barrier.round + 1

variable {barrier : Barrier ι} {name other : ι}

omit [DecidableEq ι] in
/-- A name has one count. -/
theorem InStep.count_unique
    (inStep : barrier.InStep) {left right : Member ι}
    (leftMember : left ∈ barrier.members)
    (rightMember : right ∈ barrier.members)
    (sameName : left.name = right.name) :
    left = right :=
  List.inj_on_of_nodup_map inStep.distinct leftMember rightMember sameName

/-- After an arrival the others are awaited as before. -/
theorem awaited_bump_iff (inStep : barrier.InStep) :
    (barrier.bump name).Awaited other ↔
      barrier.Awaited other ∧ other ≠ name := by
  simp only [Awaited, bump, List.mem_map]
  constructor
  · rintro ⟨member, isMember, bumped⟩
    have sameName : member.name = other := by
      rw [← Member.name_bump name member, bumped]
    by_cases arrived : member.name = name
    · have count : member.count + 1 = barrier.round := by
        simpa [Member.bump, arrived] using congrArg Member.count bumped
      rcases inStep.counts member isMember with here | past <;> omega
    · rw [Member.bump, if_neg arrived] at bumped
      subst bumped
      exact ⟨isMember, arrived⟩
  · rintro ⟨awaited, different⟩
    exact ⟨_, awaited, by rw [Member.bump, if_neg different]⟩

omit [DecidableEq ι] in
/-- Who is not awaited is one round ahead. -/
theorem InStep.count_of_not_awaited
    (inStep : barrier.InStep) {member : Member ι}
    (isMember : member ∈ barrier.members)
    (absent : ¬ barrier.Awaited member.name) :
    member.count = barrier.round + 1 := by
  rcases inStep.counts member isMember with here | past
  · exact (absent (by rw [Awaited, ← here]; exact isMember)).elim
  · exact past

/-- While another member is awaited, the round goes on. -/
theorem arrive_of_other
    (inStep : barrier.InStep) (awaited : barrier.Awaited other)
    (different : other ≠ name) :
    barrier.arrive name = barrier.bump name := by
  have pending : (barrier.bump name).Pending :=
    (pending_iff _).mpr
      ⟨other, (awaited_bump_iff inStep).mpr ⟨awaited, different⟩⟩
  rw [arrive, if_pos pending]

/-- The arrival of the last awaited member begins the next round. -/
theorem arrive_of_last
    (inStep : barrier.InStep)
    (last : ∀ other, barrier.Awaited other → other = name) :
    barrier.arrive name = (barrier.bump name).advance := by
  have settled : ¬ (barrier.bump name).Pending := by
    intro pending
    rcases (pending_iff _).mp pending with ⟨other, awaited⟩
    rcases (awaited_bump_iff inStep).mp awaited with ⟨before, different⟩
    exact different (last other before)
  rw [arrive, if_neg settled]

/-- The arrival of an awaited member keeps the counts in step. -/
theorem InStep.bump
    (inStep : barrier.InStep) (awaited : barrier.Awaited name) :
    (barrier.bump name).InStep := by
  constructor
  · rw [names_bump]
    exact inStep.distinct
  · intro member isMember
    rcases List.mem_map.mp isMember with ⟨before, beforeMember, rfl⟩
    by_cases arrived : before.name = name
    · have unique := inStep.count_unique beforeMember awaited arrived
      subst unique
      right
      simp [Member.bump]
    · rw [Member.bump, if_neg arrived]
      exact inStep.counts before beforeMember

omit [DecidableEq ι] in
/-- With nobody awaited, everybody is awaited in the next round. -/
theorem InStep.awaited_advance_iff
    (inStep : barrier.InStep) (settled : ∀ other, ¬ barrier.Awaited other) :
    barrier.advance.Awaited other ↔ other ∈ barrier.names := by
  constructor
  · intro awaited
    exact awaited.mem_names
  · intro isName
    rcases List.mem_map.mp isName with ⟨member, isMember, rfl⟩
    have past := inStep.count_of_not_awaited isMember (settled member.name)
    have entry : member = ⟨member.name, barrier.round + 1⟩ := by
      rw [← past]
    rw [Awaited, advance, ← entry]
    exact isMember

omit [DecidableEq ι] in
theorem InStep.advance
    (inStep : barrier.InStep) (settled : ∀ other, ¬ barrier.Awaited other) :
    barrier.advance.InStep := by
  constructor
  · exact inStep.distinct
  · intro member isMember
    left
    exact inStep.count_of_not_awaited isMember (settled member.name)

theorem not_awaited_bump_of_last
    (inStep : barrier.InStep)
    (last : ∀ other, barrier.Awaited other → other = name) :
    ∀ other, ¬ (barrier.bump name).Awaited other := by
  intro other awaited
  rcases (awaited_bump_iff inStep).mp awaited with ⟨before, different⟩
  exact different (last other before)

omit [DecidableEq ι] in
theorem last_of_no_other
    (nobody : ¬ ∃ other, barrier.Awaited other ∧ other ≠ name) :
    ∀ other, barrier.Awaited other → other = name := by
  intro other awaited
  by_contra different
  exact nobody ⟨other, awaited, different⟩

/-- Arrivals of awaited members keep the barrier in step. -/
theorem InStep.arrive
    (inStep : barrier.InStep) (awaited : barrier.Awaited name) :
    (barrier.arrive name).InStep := by
  by_cases more : ∃ other, barrier.Awaited other ∧ other ≠ name
  · rcases more with ⟨other, otherAwaited, different⟩
    rw [arrive_of_other inStep otherAwaited different]
    exact inStep.bump awaited
  · have last := last_of_no_other more
    rw [arrive_of_last inStep last]
    exact (inStep.bump awaited).advance (not_awaited_bump_of_last inStep last)

/-- After the last arrival of a round everybody is awaited. -/
theorem awaited_arrive_of_last
    (inStep : barrier.InStep) (awaited : barrier.Awaited name)
    (last : ∀ other, barrier.Awaited other → other = name) :
    (barrier.arrive name).Awaited other ↔ other ∈ barrier.names := by
  rw [arrive_of_last inStep last,
    (inStep.bump awaited).awaited_advance_iff
      (not_awaited_bump_of_last inStep last),
    names_bump]

/-! ## Joining -/

omit [DecidableEq ι] in
/-- Before the first round ends, a new member is awaited like the others. -/
theorem InStep.join
    (inStep : barrier.InStep) (firstRound : barrier.round = 0)
    (fresh : name ∉ barrier.names) :
    (barrier.join name).InStep := by
  constructor
  · rw [names_join]
    exact List.nodup_append.mpr
      ⟨inStep.distinct, by simp,
        fun left leftName right rightName => by
          rintro rfl
          exact fresh (by rwa [← List.mem_singleton.mp rightName])⟩
  · intro member isMember
    rcases List.mem_append.mp isMember with old | new
    · exact inStep.counts member old
    · rw [List.mem_singleton.mp new]
      left
      exact firstRound.symm

omit [DecidableEq ι] in
theorem awaited_join_iff (firstRound : barrier.round = 0) :
    (barrier.join name).Awaited other ↔
      barrier.Awaited other ∨ other = name := by
  simp [Awaited, join, firstRound]

end Barrier

end FederatedEdge.Library
