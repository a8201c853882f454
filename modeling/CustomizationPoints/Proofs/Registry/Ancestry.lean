import CustomizationPoints.Proofs.Registry.Forest
import CustomizationPoints.Registry.Ancestry

/-!
# Ancestors

The walk from a declaration up to its seed looks up one parent after the other, and it is given
no more steps than there are declarations.  In a forest this is enough: each parent comes earlier,
so the walk over the ancestors of a declaration is the declaration followed by the walk over those
of its parent (`ancestors_of_overrides`), and the bound can be forgotten.

## Ways down and ways up

A way down goes from a declaration to one of its overrides, again and again.  Read backwards, it
is what the walk up meets first (`ancestors_of_isChain`), and every step of it adds one to the
stored depth (`depth_of_isChain`).  Every declaration is the end of a way down from its seed
(`exists_isChain`).
-/

namespace CustomizationPoints
namespace Registry

/-- The node is registered as an override of `above`. -/
def Overrides (registry : Registry) (above node : Node) : Prop :=
  node ∈ registry.all ∧ node.decl.parent = some above.id

/-- What a list of ancestors is asked for. -/
theorem isAncestorOrSelf_iff {registry : Registry} {ancestor id : DeclId} :
    registry.isAncestorOrSelf ancestor id = true ↔
      ∃ node ∈ registry.ancestors id, node.id = ancestor := by
  rw [isAncestorOrSelf, List.any_eq_true]
  simp only [decide_eq_true_eq]

/-- A way down that starts at a registered declaration ends at one. -/
theorem last_mem_all_of_isChain {registry : Registry} {entry : Node} {below : List Node}
    (hentry : entry ∈ registry.all) (links : (entry :: below).IsChain registry.Overrides) :
    below.getLastD entry ∈ registry.all := by
  induction below generalizing entry with
  | nil => exact hentry
  | cons next rest ih =>
    obtain ⟨hnext, hrest⟩ := List.isChain_cons_cons.1 links
    rw [List.getLastD_cons]
    exact ih hnext.1 hrest

namespace IsForest

variable {registry : Registry} (forest : registry.IsForest) {above node entry : Node}
  {below : List Node}

include forest

/-! ## One step up -/

/-- At a seed the walk ends. -/
theorem ancestorsWithin_of_seed (h : node ∈ registry.all) (hparent : node.decl.parent = none)
    (bound : Nat) : registry.ancestorsWithin (bound + 1) node.id = [node] := by
  rw [ancestorsWithin, forest.node?_id h]
  simp only [hparent]

/-- At an override it goes on to the parent. -/
theorem ancestorsWithin_of_overrides (h : registry.Overrides above node) (bound : Nat) :
    registry.ancestorsWithin (bound + 1) node.id =
      node :: registry.ancestorsWithin bound above.id := by
  rw [ancestorsWithin, forest.node?_id h.1]
  simp only [h.2]

/-- Two bounds that leave room for everything before a declaration give the same ancestors. -/
theorem ancestorsWithin_eq (h : node ∈ registry.all) {bound other : Nat}
    (hbound : node.id.position < bound) (hother : node.id.position < other) :
    registry.ancestorsWithin bound node.id = registry.ancestorsWithin other node.id := by
  induction bound generalizing node other with
  | zero => exact absurd hbound (Nat.not_lt_zero _)
  | succ bound ih =>
    obtain ⟨other, rfl⟩ :=
      Nat.exists_eq_add_one_of_ne_zero (Nat.ne_of_gt (Nat.zero_lt_of_lt hother))
    cases hparent : node.decl.parent with
    | none =>
      rw [forest.ancestorsWithin_of_seed h hparent, forest.ancestorsWithin_of_seed h hparent]
    | some id =>
      obtain ⟨above, habove, rfl⟩ := forest.exists_parent h hparent
      have hlt := forest.parent node h above.id hparent
      rw [forest.ancestorsWithin_of_overrides ⟨h, hparent⟩,
        forest.ancestorsWithin_of_overrides ⟨h, hparent⟩,
        ih habove (Nat.lt_of_lt_of_le hlt (Nat.le_of_lt_succ hbound))
          (Nat.lt_of_lt_of_le hlt (Nat.le_of_lt_succ hother))]

/-- Any bound that leaves room gives all ancestors. -/
theorem ancestors_eq (h : node ∈ registry.all) {bound : Nat} (hbound : node.id.position < bound) :
    registry.ancestors node.id = registry.ancestorsWithin bound node.id :=
  forest.ancestorsWithin_eq h (forest.position_lt h) hbound

/-- A seed has no ancestors but itself. -/
theorem ancestors_of_seed (h : node ∈ registry.all) (hparent : node.decl.parent = none) :
    registry.ancestors node.id = [node] := by
  rw [forest.ancestors_eq h (Nat.lt_succ_self _), forest.ancestorsWithin_of_seed h hparent]

/-- **Above an override** stand its parent and the ancestors of its parent. -/
theorem ancestors_of_overrides (habove : above ∈ registry.all)
    (h : registry.Overrides above node) :
    registry.ancestors node.id = node :: registry.ancestors above.id := by
  have hlt := forest.parent node h.1 above.id h.2
  rw [forest.ancestors_eq h.1 (Nat.lt_succ_self _), forest.ancestorsWithin_of_overrides h,
    ← forest.ancestors_eq habove hlt]

/-- The walk up begins with the declaration itself. -/
theorem exists_ancestors (h : node ∈ registry.all) :
    ∃ rest, registry.ancestors node.id = node :: rest := by
  cases hparent : node.decl.parent with
  | none => exact ⟨[], forest.ancestors_of_seed h hparent⟩
  | some id =>
    obtain ⟨above, habove, rfl⟩ := forest.exists_parent h hparent
    exact ⟨_, forest.ancestors_of_overrides habove ⟨h, hparent⟩⟩

/-! ## Ways down -/

/-- On a way down the identities are in order. -/
theorem pairwise_of_overrides {nodes : List Node} (links : nodes.IsChain registry.Overrides) :
    nodes.Pairwise fun a b => a.id.position < b.id.position :=
  forest.pairwise_of_isChain links

/-- **The walk up from the end of a way down** comes back on this way. -/
theorem ancestors_of_isChain (hentry : entry ∈ registry.all)
    (links : (entry :: below).IsChain registry.Overrides) :
    registry.ancestors (below.getLastD entry).id =
      below.reverse ++ registry.ancestors entry.id := by
  induction below generalizing entry with
  | nil => rfl
  | cons next rest ih =>
    obtain ⟨hnext, hrest⟩ := List.isChain_cons_cons.1 links
    rw [List.getLastD_cons, ih hnext.1 hrest, forest.ancestors_of_overrides hentry hnext,
      List.reverse_cons, List.append_assoc, List.singleton_append]

/-- Every step down adds one to the depth. -/
theorem depth_of_isChain (hentry : entry ∈ registry.all)
    (links : (entry :: below).IsChain registry.Overrides) :
    (below.getLastD entry).depth = entry.depth + below.length := by
  induction below generalizing entry with
  | nil => rfl
  | cons next rest ih =>
    obtain ⟨hnext, hrest⟩ := List.isChain_cons_cons.1 links
    have hdepth := (forest.below next hnext.1 entry hentry hnext.2).2
    rw [List.getLastD_cons, ih hnext.1 hrest, List.length_cons]
    omega

/-- **Every declaration is the end of a way down from its seed.** -/
theorem exists_isChain (h : node ∈ registry.all) :
    ∃ seed below, seed ∈ registry.all ∧ seed.decl.parent = none ∧ seed.id = node.seed ∧
      (seed :: below).IsChain registry.Overrides ∧ below.getLastD seed = node := by
  induction node, h using forest.induction with
  | seed node h hparent =>
    exact ⟨node, [], h, hparent, (forest.root node h hparent).1.symm,
      List.isChain_singleton node, rfl⟩
  | override node h above habove hparent ih =>
    -- the way to the parent, and one step more
    obtain ⟨seed, below, hseed, hroot, hid, links, hlast⟩ := ih
    refine ⟨seed, below ++ [node], hseed, hroot, ?_, ?_, List.getLastD_concat⟩
    · rw [hid, (forest.below node h above habove hparent).1]
    · rw [← List.cons_append, List.isChain_append]
      refine ⟨links, List.isChain_singleton node, fun last hend next hnext => ?_⟩
      rw [List.getLast?_cons, ← List.getLastD_eq_getLast?, hlast, Option.mem_some_iff] at hend
      rw [List.head?_cons, Option.mem_some_iff] at hnext
      rw [← hend, ← hnext]
      exact ⟨h, hparent⟩

/-- A declaration is at most as deep as there are declarations before it. -/
theorem depth_le_position (h : node ∈ registry.all) : node.depth ≤ node.id.position := by
  induction node, h using forest.induction with
  | seed node h hparent =>
    rw [(forest.root node h hparent).2]
    exact Nat.zero_le _
  | override node h above habove hparent ih =>
    rw [(forest.below node h above habove hparent).2]
    exact Nat.succ_le_of_lt (Nat.lt_of_le_of_lt ih (forest.parent node h above.id hparent))

/-- The way down from the seed, read backwards, is the walk up. -/
theorem ancestors_of_seed_isChain {seed : Node} (hseed : seed ∈ registry.all)
    (hroot : seed.decl.parent = none) (links : (seed :: below).IsChain registry.Overrides) :
    registry.ancestors (below.getLastD seed).id = (seed :: below).reverse := by
  rw [forest.ancestors_of_isChain hseed links, forest.ancestors_of_seed hseed hroot,
    List.reverse_cons]

end IsForest

end Registry
end CustomizationPoints
