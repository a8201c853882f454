import CustomizationPoints.Proofs.Association.BaseWalk
import CustomizationPoints.Proofs.Host.Record
import Mathlib.Data.List.Perm.Subperm
import Mathlib.Order.WellFounded

/-!
# The turns of the walk over the bases

At each turn the walk over the bases takes one class off its stack.  If the identity of this class
has had its turn, the class is dropped.  Otherwise the host is asked for its bases, and they go on
the stack, however many they are and whatever they are.

## Why the walk ends

The stack can grow without bound at a turn at which the host is asked, so its length alone proves
nothing.  But such a turn uses up an identity, and the other turns make the stack shorter: the
identities that are left and the length of the stack decrease lexicographically
(`BaseWalk.Turn.remaining_lt`).  Nothing is used about the host.  It may answer in view of all the
questions before, name the same class under several kinds and names, or go round in circles.

## What a turn adds to the record

An identity is asked about at the turn at which it is used up, and it is used up once.  So the walk
from a single class asks about each identity at most once, which is read off its last turn
(`BaseWalk.Turn.asked_of_reaches`, `BaseWalk.Turn.nodup_of_reaches`).
-/

namespace CustomizationPoints

/-! ## One turn -/

/-- A walk over the bases that is under way. -/
structure BaseWalk where
  /-- The questions so far. -/
  asked : Array Question
  /-- The identities that have had their turn, the latest first. -/
  expanded : List TypeId
  /-- The classes that wait for their turn, the next one first. -/
  pending : List HostType
  found : ClassSet

namespace BaseWalk

/-- One turn of the walk. -/
inductive Turn (strategy : Strategy) : BaseWalk → BaseWalk → Prop where
  /-- A class whose identity has had its turn is dropped. -/
  | drop {asked : Array Question} {expanded : List TypeId} {next : HostType}
      {pending : List HostType} {found : ClassSet} (known : next.id ∈ expanded) :
      Turn strategy ⟨asked, expanded, next :: pending, found⟩ ⟨asked, expanded, pending, found⟩
  /-- For any other class, the host is asked for the bases. -/
  | expand {asked : Array Question} {expanded : List TypeId} {next : HostType}
      {pending : List HostType} {found : ClassSet} (fresh : next.id ∉ expanded) :
      Turn strategy ⟨asked, expanded, next :: pending, found⟩
        ⟨asked.push (.bases next), next.id :: expanded,
          (strategy asked (.bases next)).reverse ++ pending,
          found.insertAll (strategy asked (.bases next))⟩

/-- The number of identities that are left, and the number of classes that wait. -/
noncomputable def remaining (walk : BaseWalk) : Nat × Nat :=
  (unexpanded walk.expanded, walk.pending.length)

namespace Turn

variable {strategy : Strategy} {walk next : BaseWalk}

theorem remaining_lt (turn : Turn strategy walk next) :
    Prod.Lex (· < ·) (· < ·) next.remaining walk.remaining := by
  cases turn with
  | drop known => exact .right _ (Nat.lt_succ_self _)
  | expand fresh => exact .left _ _ (unexpanded_cons_lt fresh)

/-- **No walk goes on for ever**, whatever the host answers. -/
theorem wellFounded (strategy : Strategy) : WellFounded (flip (Turn strategy)) :=
  Subrelation.wf remaining_lt
    (InvImage.wf remaining (Prod.lex ⟨_, wellFounded_lt⟩ ⟨_, wellFounded_lt⟩).wf)

/-- An identity has one turn only. -/
theorem nodup (turn : Turn strategy walk next) (h : walk.expanded.Nodup) :
    next.expanded.Nodup := by
  cases turn with
  | drop known => exact h
  | expand fresh => exact List.nodup_cons.2 ⟨fresh, h⟩

theorem nodup_of_reaches (turns : Relation.ReflTransGen (Turn strategy) walk next)
    (h : walk.expanded.Nodup) : next.expanded.Nodup := by
  induction turns with
  | refl => exact h
  | tail _ turn ih => exact turn.nodup ih

/-- **The questions of a walk** are about the bases of the classes that have their turn, in the order
of their turns. -/
theorem asked_of_reaches (turns : Relation.ReflTransGen (Turn strategy) walk next) :
    ∃ types : List HostType, next.asked = walk.asked ++ types.map Question.bases ∧
      next.expanded = (types.map (·.id)).reverse ++ walk.expanded := by
  induction turns with
  | refl => exact ⟨[], Array.appendList_nil.symm, rfl⟩
  | tail _ turn ih =>
    obtain ⟨types, hasked, hexpanded⟩ := ih
    cases turn with
    | drop known => exact ⟨types, hasked, hexpanded⟩
    | @expand asked expanded next pending found fresh =>
      refine ⟨types ++ [next], ?_, ?_⟩
      · rw [List.map_append, List.map_singleton, appendList_append, ← hasked]
        rfl
      · rw [List.map_append, List.map_singleton, List.reverse_append, List.reverse_singleton,
          List.singleton_append, List.cons_append, ← hexpanded]

end Turn

/-- Every class in front of the next one that has not had its turn is dropped. -/
theorem reaches_dropWhile (strategy : Strategy) (asked : Array Question) (expanded : List TypeId)
    (pending : List HostType) (found : ClassSet) :
    Relation.ReflTransGen (Turn strategy) ⟨asked, expanded, pending, found⟩
      ⟨asked, expanded, pending.dropWhile fun type => type.id ∈ expanded, found⟩ := by
  induction pending with
  | nil => exact .refl
  | cons next rest ih =>
    by_cases known : next.id ∈ expanded
    · rw [List.dropWhile_cons_of_pos (by simpa using known)]
      exact .head (.drop known) ih
    · rw [List.dropWhile_cons_of_neg (by simpa using known)]

end BaseWalk

/-! ## The whole walk -/

theorem TypeId.length_all : TypeId.all.length = UInt32.size := by
  unfold TypeId.all
  rw [List.length_map]
  exact List.length_range

/-- There are only so many identities. -/
theorem TypeId.length_le_of_nodup {ids : List TypeId} (h : ids.Nodup) :
    ids.length ≤ UInt32.size := by
  have hsub : ids ⊆ TypeId.all := fun id _ => TypeId.mem_all id
  have hle := (h.subperm hsub).length_le
  rw [TypeId.length_all] at hle
  exact hle

/-- **The walk over the bases takes turns until no class waits.** -/
theorem reaches_addBases (strategy : Strategy) (expanded : List TypeId) (pending : List HostType)
    (found : ClassSet) (asked : Array Question) :
    ∃ reached set questions,
      Records (strategy.classes.addBases expanded pending found) asked set questions ∧
      Relation.ReflTransGen (BaseWalk.Turn strategy) ⟨asked, expanded, pending, found⟩
        ⟨asked ++ questions, reached, [], set⟩ := by
  induction expanded, pending, found using ClassHierarchy.addBases.induct generalizing asked with
  | case1 expanded pending found done =>
    have dropped := BaseWalk.reaches_dropWhile strategy asked expanded pending found
    rw [done] at dropped
    rw [ClassHierarchy.addBases_of_done _ _ done]
    exact ⟨expanded, found, [], .pure found asked, dropped⟩
  | case2 expanded pending found next rest waiting ih =>
    have dropped := BaseWalk.reaches_dropWhile strategy asked expanded pending found
    rw [waiting] at dropped
    obtain ⟨reached, set, questions, hrest, turns⟩ :=
      ih (strategy asked (.bases next)) (asked.push (.bases next))
    rw [ClassHierarchy.addBases_of_waiting _ _ waiting]
    exact ⟨reached, set, .bases next :: questions, .ask_bind hrest,
      (dropped.tail (.expand (fresh_of_dropWhile waiting))).trans turns⟩

end CustomizationPoints
