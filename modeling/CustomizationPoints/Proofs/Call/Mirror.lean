import CustomizationPoints.Proofs.Call.Chain
import Mathlib.Data.List.Perm.Basic

/-!
# Calls that go the same way

Two calls can be compared one declaration at a time.  A call is *mirrored* at a declaration
if the other call finds the images of the same candidates there, in whatever order, and its
host answers with the image of the same answer (`Call.Mirrors`).  Then the same candidate
takes over, and nothing else does (`takesOver_iff`).

A call that is mirrored along its whole chain has its mirror image as the chain of the other
call (`MaximalChain.mirror`).  Nothing is asked about declarations off the chain.
-/

namespace CustomizationPoints

namespace Call

/-- What `call` does at `current`, `other` does at its image: same candidates, same answer,
under the names that `f` gives. -/
structure Mirrors (call other : Call) (f : DeclId → DeclId) (image : Node → Node)
    (current : Node) : Prop where
  /-- The images of the candidates are the candidates. -/
  listed : ((call.candidates current).map image).Perm (other.candidates (image current))
  /-- The candidates are renamed. -/
  renamed : ∀ node ∈ call.candidates current, (image node).id = f node.id
  /-- The answer is renamed. -/
  picks : 2 ≤ (call.candidates current).length →
    other.oracle.pick (other.candidates (image current)) other.arguments =
      (call.oracle.pick (call.candidates current) call.arguments).run.map f
  /-- An answer that is no candidate is not renamed to one. -/
  faithful : ∀ answer, call.oracle.pick (call.candidates current) call.arguments = some answer →
    ∀ node ∈ call.candidates current, f answer = f node.id → answer = node.id

variable {call other : Call} {f : DeclId → DeclId} {image : Node → Node}

/-- The image of the candidate that takes over is what takes over. -/
theorem Mirrors.takesOver_iff {current target : Node}
    (mirrors : call.Mirrors other f image current) :
    other.TakesOver (image current) target ↔
      ∃ next, call.TakesOver current next ∧ image next = target := by
  have hlength : (other.candidates (image current)).length = (call.candidates current).length := by
    rw [← mirrors.listed.length_eq, List.length_map]
  constructor
  · intro h
    obtain ⟨next, hnext, rfl⟩ := List.mem_map.1 (mirrors.listed.mem_iff.2 h.mem_candidates)
    refine ⟨next, ?_, rfl⟩
    cases h with
    | only single =>
      rw [single, List.length_singleton] at hlength
      obtain ⟨only, honly⟩ := List.length_eq_one_iff.1 hlength.symm
      rw [honly] at hnext
      rw [List.mem_singleton.1 hnext]
      exact .only honly
    | picked several _ answer =>
      rw [hlength] at several
      refine .picked several hnext ?_
      rw [mirrors.picks several] at answer
      obtain ⟨answer', hanswer', hsame⟩ := Option.map_eq_some_iff.1 answer
      rw [mirrors.renamed next hnext] at hsame
      rw [← mirrors.faithful answer' hanswer' next hnext hsame]
      exact hanswer'
  · rintro ⟨next, h, rfl⟩
    have hmem : image next ∈ other.candidates (image current) :=
      mirrors.listed.mem_iff.1 (List.mem_map_of_mem h.mem_candidates)
    cases h with
    | only single =>
      have hlisted := mirrors.listed
      rw [single, List.map_singleton] at hlisted
      exact .only (List.singleton_perm.1 hlisted).symm
    | picked several candidate answer =>
      refine .picked (hlength ▸ several) hmem ?_
      rw [mirrors.picks several, answer, mirrors.renamed next candidate]
      rfl

/-- A call that is mirrored up to some declaration of its chain has a mirror image up to there,
which goes on as the other call does. -/
theorem mirror_upto {entry : Node} {upto onwards : List Node}
    (links : (entry :: upto).IsChain call.TakesOver)
    (mirrors : ∀ current ∈ (entry :: upto).dropLast, call.Mirrors other f image current)
    (chain : other.MaximalChain (image (upto.getLastD entry)) onwards) :
    other.MaximalChain (image entry) (upto.map image ++ onwards) := by
  induction upto generalizing entry with
  | nil => exact chain
  | cons next rest ih =>
    rw [List.isChain_cons_cons] at links
    rw [List.getLastD_cons] at chain
    rw [List.dropLast_cons_cons] at mirrors
    rw [List.map_cons, List.cons_append, MaximalChain.cons_iff]
    exact ⟨(mirrors entry List.mem_cons_self).takesOver_iff.2 ⟨next, links.1, rfl⟩,
      ih links.2 (fun current h => mirrors current (List.mem_cons_of_mem _ h)) chain⟩

/-- **The mirror image of a chain is a chain.** -/
theorem MaximalChain.mirror {entry : Node} {below : List Node}
    (chain : call.MaximalChain entry below)
    (mirrors : ∀ current ∈ entry :: below, call.Mirrors other f image current) :
    other.MaximalChain (image entry) (below.map image) := by
  have stuck : other.MaximalChain (image (below.getLastD entry)) [] := by
    rw [MaximalChain.nil_iff]
    intro target h
    obtain ⟨next, hnext, -⟩ := (mirrors _ List.getLastD_mem_cons).takesOver_iff.1 h
    exact chain.stuck next hnext
  have hmirror := mirror_upto chain.links
    (fun current h => mirrors current (List.dropLast_subset _ h)) stuck
  rw [List.append_nil] at hmirror
  exact hmirror

end Call
end CustomizationPoints
