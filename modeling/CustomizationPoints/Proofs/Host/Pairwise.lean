import CustomizationPoints.Host.Specialization
import Mathlib.Data.List.Basic

/-!
# The unique maximal candidate

A host that compares candidates two at a time answers with the unique maximal one.  Which
one this is depends on the candidates and on the comparisons between them, and on nothing
else: not on the order in which the candidates are listed, and not on their identities.

`uniqueMaximal_rename` says this for a relation of any kind.  When the candidates are listed
differently under other names, and the comparisons between them come out the same, the
maximal candidates are the same up to their order (`maximal_rename`), and a list of one
member has one order only.
-/

namespace CustomizationPoints

variable {more : Node → Node → Id Bool} {candidates : List Node}

/-- Over a plain comparison the maximal candidates are those that nothing outranks. -/
theorem maximal_id (more : Node → Node → Id Bool) (candidates : List Node) :
    maximal (m := Id) more candidates = candidates.filter fun candidate =>
      !candidates.any fun other => other.id ≠ candidate.id && more other candidate := by
  rw [maximal, selectWhere_id]
  refine List.filter_congr fun candidate _ => ?_
  rw [isOutranked_id]
  rfl

theorem uniqueMaximal_id (more : Node → Node → Id Bool) (candidates : List Node) :
    uniqueMaximal (m := Id) more candidates =
      match (maximal (m := Id) more candidates).run with
      | [winner] => some winner.id
      | _ => none := by
  rw [uniqueMaximal]
  generalize maximal (m := Id) more candidates = found
  rcases found with _ | ⟨winner, _ | ⟨other, rest⟩⟩ <;> rfl

theorem mem_of_mem_maximal (more : Node → Node → Id Bool) {node : Node}
    (h : node ∈ (maximal (m := Id) more candidates).run) : node ∈ candidates := by
  rw [maximal_id] at h
  exact (List.mem_filter.1 h).1

/-- The answer is a candidate, if there is an answer. -/
theorem exists_of_uniqueMaximal {answer : DeclId}
    (h : uniqueMaximal (m := Id) more candidates = some answer) :
    ∃ winner ∈ candidates, winner.id = answer := by
  rw [uniqueMaximal_id] at h
  split at h
  next winner hmaximal =>
    refine ⟨winner, mem_of_mem_maximal more ?_, Option.some.inj h⟩
    rw [hmaximal]
    exact List.mem_singleton.2 rfl
  next => exact nomatch h

section Rename

variable {more' : Node → Node → Id Bool} {others : List Node} {image : Node → Node}
  (listed : (candidates.map image).Perm others)
  (distinct : ∀ a ∈ candidates, ∀ b ∈ candidates, (image a).id = (image b).id ↔ a.id = b.id)
  (compares : ∀ a ∈ candidates, ∀ b ∈ candidates, more' (image a) (image b) = more a b)

include listed distinct compares

/-- The maximal candidates are the same under other names, up to their order. -/
theorem maximal_rename : ((maximal (m := Id) more candidates).run.map image).Perm
    (maximal (m := Id) more' others).run := by
  have houtranked : ∀ candidate ∈ candidates,
      (others.any fun other => other.id ≠ (image candidate).id && more' other (image candidate)) =
        candidates.any fun other => other.id ≠ candidate.id && more other candidate := by
    intro candidate hcandidate
    rw [← listed.any_eq, List.any_map, Bool.eq_iff_iff, List.any_eq_true, List.any_eq_true]
    refine exists_congr fun other => and_congr_right fun hother => ?_
    rw [Function.comp_apply, compares other hother candidate hcandidate]
    simp only [ne_eq, distinct other hother candidate hcandidate]
  rw [maximal_id, maximal_id]
  refine List.Perm.trans (List.Perm.of_eq ?_) (listed.filter _)
  show List.map image (List.filter _ candidates) = _
  rw [List.filter_map]
  refine congrArg (List.map image) (List.filter_congr fun candidate hcandidate => ?_)
  rw [Function.comp_apply, houtranked candidate hcandidate]

/-- **The answer is the same under other names.** -/
theorem uniqueMaximal_rename {f : DeclId → DeclId}
    (renamed : ∀ a ∈ candidates, (image a).id = f a.id) :
    uniqueMaximal (m := Id) more' others = (uniqueMaximal (m := Id) more candidates).map f := by
  have hperm := maximal_rename listed distinct compares
  rw [uniqueMaximal_id, uniqueMaximal_id]
  rcases hmaximal : (maximal (m := Id) more candidates).run with _ | ⟨winner, _ | ⟨second, rest⟩⟩
  · rw [hmaximal] at hperm
    rw [← hperm.nil_eq]
    rfl
  · have hwinner : winner ∈ candidates := by
      refine mem_of_mem_maximal more ?_
      rw [hmaximal]
      exact List.mem_singleton.2 rfl
    rw [hmaximal, List.map_singleton] at hperm
    rw [← List.singleton_perm.1 hperm]
    exact congrArg some (renamed winner hwinner)
  · have hlength := hperm.length_eq
    rw [hmaximal, List.length_map] at hlength
    rcases hothers : (maximal (m := Id) more' others).run with _ | ⟨_, _ | ⟨_, _⟩⟩
    · rw [hothers] at hlength
      exact nomatch hlength
    · rw [hothers] at hlength
      exact nomatch hlength
    · rfl

end Rename

end CustomizationPoints
