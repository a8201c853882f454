import CustomizationPoints.Call.Descent
import CustomizationPoints.Proofs.Registry.AncestorOrder
import CustomizationPoints.Proofs.Registry.DirectAccess

/-!
# Lists of overrides and parents

The lists of overrides and the list of seeds say the same as the parents, read the other way
(`Registry.InvertsParents`): every declaration stands in one list, once, and the lists are in the
order of registration.  So a walk that starts at the seeds and goes down from list to list comes to
every declaration, and to none twice.

## Why no declaration is met twice

A walk down carries no set of what it has seen.  If it met a declaration twice, then twice from
above, and what it came from would be two ancestors of one declaration.  Those are in line.  The
walk parts only where it has the choice between overrides of one declaration, or between seeds,
and declarations in line with the same parent are one declaration
(`eq_of_mem_ancestors_of_parent_eq`).

## Look-ups that always succeed

A list of identities is read by looking each of them up, and an identity that is not found would be
left out without a word.  In a forest nothing is left out (`Registry.FindsAll`), and direct access
finds every place taken.
-/

namespace CustomizationPoints
namespace Registry

/-- The declarations with this parent, or all without a parent, in registration order. -/
def withParent (registry : Registry) (parent : Option DeclId) : List Node :=
  registry.all.filter fun node => node.decl.parent = parent

theorem mem_withParent {registry : Registry} {parent : Option DeclId} {node : Node} :
    node ∈ registry.withParent parent ↔ node ∈ registry.all ∧ node.decl.parent = parent := by
  rw [withParent, List.mem_filter, decide_eq_true_eq]

/-- What a declaration can have for a parent: nobody, or one that is registered. -/
def parents (registry : Registry) : List (Option DeclId) :=
  none :: (registry.all.map (·.id)).map some

/-- A declaration and what is below it, down to `bound` declarations deep, from list to list. -/
def subtreeWithin (registry : Registry) : Nat → Node → List Node
  | 0, _ => []
  | bound + 1, node =>
    node :: (registry.overridesOf node.id).flatMap (registry.subtreeWithin bound)

/-- The lists of overrides and the list of seeds are the parents, read the other way. -/
structure InvertsParents (registry : Registry) : Prop where
  /-- The identity of a declaration is its place. -/
  place : ∀ (i : Nat) (node : Node), registry.nodes[i]? = some node → node.id.position = i
  /-- A parent comes before its overrides. -/
  earlier : ∀ node ∈ registry.all, ∀ parent, node.decl.parent = some parent →
    parent.position < node.id.position
  /-- A declaration is listed as an override of its parent, and nowhere else. -/
  lists_iff : ∀ parent id, registry.Lists parent id ↔
    ∃ node, registry.node? id = some node ∧ node.decl.parent = some parent
  /-- Every declaration is in the list of seeds or in one list of overrides, and there once. -/
  once : (registry.seeds ++ registry.all.flatMap (·.overrides)).Perm (registry.all.map (·.id))
  /-- A list of overrides is in the order of registration. -/
  ordered : ∀ node ∈ registry.all,
    node.overrides.Pairwise fun first second => first.position < second.position
  /-- The seeds are the declarations without a parent. -/
  mem_seeds_iff : ∀ id, id ∈ registry.seeds ↔
    ∃ node, registry.node? id = some node ∧ node.decl.parent = none
  /-- The seeds are in the order of registration. -/
  seedsOrdered : registry.seeds.Pairwise fun first second => first.position < second.position
  /-- A walk down from all seeds comes to every declaration once. -/
  walk : ∀ bound, registry.size ≤ bound →
    (registry.seedNodes.flatMap (registry.subtreeWithin bound)).Perm registry.all

/-- Looking up the members of the stored lists leaves none of them out. -/
structure FindsAll (registry : Registry) : Prop where
  seedNodes : registry.seedNodes.map (·.id) = registry.seeds
  overridesOf : ∀ node ∈ registry.all, (registry.overridesOf node.id).map (·.id) = node.overrides
  /-- Only what a call with the associated classes does not see is hidden. -/
  visibleOverrides : ∀ associated, ∀ node ∈ registry.all,
    (registry.visibleOverrides associated node).map (·.id) =
      node.overrides.filter fun id => (registry.node? id).all fun node => associated.Sees node

namespace IsForest

variable {registry : Registry} (forest : registry.IsForest) {node above other : Node}

include forest

/-! ## The lists as they are read off the parents -/

theorem nodup_withParent (parent : Option DeclId) : (registry.withParent parent).Nodup :=
  forest.nodup_all.filter _

/-- A list of declarations with one parent is in the order of registration. -/
theorem pairwise_withParent (parent : Option DeclId) :
    ((registry.withParent parent).map (·.id)).Pairwise fun a b => a.position < b.position :=
  List.pairwise_map.2 (forest.pairwise_all.filter _)

/-! ## The lists as they are stored -/

theorem overrides_eq (h : node ∈ registry.all) :
    node.overrides = (registry.withParent (some node.id)).map (·.id) :=
  forest.overrides node h

theorem overridesOf_eq (h : node ∈ registry.all) :
    registry.overridesOf node.id = registry.withParent (some node.id) := by
  rw [overridesOf, forest.node?_id h]
  exact forest.nodesOf_overrides h

/-- The seeds are stored as the declarations with nobody above them. -/
theorem seeds_eq : registry.seeds = (registry.withParent none).map (·.id) := by
  rw [forest.seeds]
  refine congrArg (List.map _) (List.filter_congr fun node _ => ?_)
  rw [Bool.eq_iff_iff, Declaration.isSeed, Option.isNone_iff_eq_none, decide_eq_true_eq]

theorem seedNodes_eq : registry.seedNodes = registry.withParent none := by
  rw [seedNodes, forest.seeds_eq]
  exact forest.nodesOf_map_id fun node hnode => (mem_withParent.1 hnode).1

theorem findsAll : registry.FindsAll where
  seedNodes := by rw [forest.seedNodes_eq, forest.seeds_eq]
  overridesOf node h := by rw [forest.overridesOf_eq h, forest.overrides_eq h]
  visibleOverrides associated node h := by
    rw [Registry.visibleOverrides, forest.nodesOf_overrides h, forest.overrides node h,
      List.filter_map]
    refine congrArg (List.map _) (List.filter_congr fun other hother => ?_)
    rw [Function.comp_apply, forest.node?_id (List.mem_filter.1 hother).1, Option.all_some,
      ClassSet.decide_sees]

theorem nodup_parents : registry.parents.Nodup := by
  rw [parents, List.nodup_cons]
  refine ⟨fun hnone => ?_, ?_⟩
  · obtain ⟨id, -, hid⟩ := List.mem_map.1 hnone
    exact Option.some_ne_none id hid
  · exact (forest.nodup_map_id forest.nodup_all fun _ h => h).map fun _ _ => Option.some.inj

theorem parent_mem_parents (h : node ∈ registry.all) : node.decl.parent ∈ registry.parents := by
  rw [parents]
  cases hparent : node.decl.parent with
  | none => exact List.mem_cons_self
  | some id =>
    obtain ⟨above, habove, rfl⟩ := forest.exists_parent h hparent
    exact List.mem_cons_of_mem _ (List.mem_map_of_mem (List.mem_map_of_mem habove))

/-- **Every declaration is in one of the lists, once**: that of its parent, or that of the seeds. -/
theorem flatMap_withParent_perm :
    (registry.parents.flatMap registry.withParent).Perm registry.all := by
  have hnodup : (registry.parents.flatMap registry.withParent).Nodup := by
    refine List.nodup_flatMap.2 ⟨fun parent _ => forest.nodup_withParent parent, ?_⟩
    refine forest.nodup_parents.imp fun hne node hfirst hsecond => hne ?_
    exact (mem_withParent.1 hfirst).2.symm.trans (mem_withParent.1 hsecond).2
  refine (List.perm_ext_iff_of_nodup hnodup forest.nodup_all).2 fun node =>
    ⟨fun hmem => ?_, fun h => ?_⟩
  · obtain ⟨parent, -, hmem⟩ := List.mem_flatMap.1 hmem
    exact (mem_withParent.1 hmem).1
  · exact List.mem_flatMap.2
      ⟨node.decl.parent, forest.parent_mem_parents h, mem_withParent.2 ⟨h, rfl⟩⟩

/-- The stored lists, one after the other, are the lists of declarations with the same parent. -/
theorem lists_eq : registry.seeds ++ registry.all.flatMap (·.overrides) =
    (registry.parents.flatMap registry.withParent).map (·.id) := by
  rw [parents, List.flatMap_cons, List.map_append, ← forest.seeds_eq, List.flatMap_map,
    List.flatMap_map, List.map_flatMap]
  exact congrArg _ (List.flatMap_congr fun node h => forest.overrides_eq h)

/-! ## The walk down -/

/-- Whatever the walk comes to is below the start. -/
theorem mem_ancestors_of_mem_subtree {bound : Nat} (h : node ∈ registry.all)
    (hmem : other ∈ registry.subtreeWithin bound node) :
    other ∈ registry.all ∧ node ∈ registry.ancestors other.id := by
  induction bound generalizing node with
  | zero => exact absurd hmem List.not_mem_nil
  | succ bound ih =>
    rw [subtreeWithin, List.mem_cons, List.mem_flatMap] at hmem
    rcases hmem with rfl | ⟨next, hnext, hmem⟩
    · exact ⟨h, forest.mem_ancestors_self h⟩
    · rw [forest.overridesOf_eq h] at hnext
      have hover : registry.Overrides node next := mem_withParent.1 hnext
      obtain ⟨hother, habove⟩ := ih hover.1 hmem
      have hsuffix := (forest.suffix_of_mem_ancestors hother habove).2
      rw [forest.ancestors_of_overrides h hover] at hsuffix
      exact ⟨hother, hsuffix.subset (List.mem_cons_of_mem _ (forest.mem_ancestors_self h))⟩

/-- The walk comes to the end of every way down that fits into the bound. -/
theorem mem_subtree_of_isChain {bound : Nat} {below : List Node} (h : node ∈ registry.all)
    (links : (node :: below).IsChain registry.Overrides) (room : below.length < bound) :
    below.getLastD node ∈ registry.subtreeWithin bound node := by
  induction below generalizing node bound with
  | nil =>
    obtain ⟨bound, rfl⟩ := Nat.exists_eq_add_one_of_ne_zero (Nat.ne_of_gt room)
    exact List.mem_cons_self
  | cons next rest ih =>
    obtain ⟨bound, rfl⟩ :=
      Nat.exists_eq_add_one_of_ne_zero (Nat.ne_of_gt (Nat.zero_lt_of_lt room))
    obtain ⟨hover, links⟩ := List.isChain_cons_cons.1 links
    rw [List.getLastD_cons, subtreeWithin]
    refine List.mem_cons_of_mem _ (List.mem_flatMap.2 ⟨next, ?_, ?_⟩)
    · rw [forest.overridesOf_eq h]
      exact mem_withParent.2 hover
    · exact ih hover.1 links (Nat.lt_of_succ_lt_succ room)

/-- The walks down from declarations with the same parent come to no declaration twice. -/
theorem nodup_flatMap_subtree (bound : Nat) (parent : Option DeclId) :
    ((registry.withParent parent).flatMap (registry.subtreeWithin bound)).Nodup := by
  induction bound generalizing parent with
  | zero =>
    have hnil : (registry.withParent parent).flatMap (registry.subtreeWithin 0) = [] :=
      List.flatMap_eq_nil_iff.2 fun _ _ => rfl
    rw [hnil]
    exact List.nodup_nil
  | succ bound ih =>
    refine List.nodup_flatMap.2 ⟨fun node hnode => ?_,
      (forest.nodup_withParent parent).pairwise_of_forall_ne ?_⟩
    · -- nothing below a declaration is the declaration again
      obtain ⟨h, -⟩ := mem_withParent.1 hnode
      rw [subtreeWithin, forest.overridesOf_eq h, List.nodup_cons]
      refine ⟨fun hmem => ?_, ih (some node.id)⟩
      obtain ⟨next, hnext, hmem⟩ := List.mem_flatMap.1 hmem
      obtain ⟨hnext, hparent⟩ := mem_withParent.1 hnext
      have hlt := forest.parent next hnext node.id hparent
      have hle := forest.position_le_of_mem_ancestors h
        (forest.mem_ancestors_of_mem_subtree hnext hmem).2
      exact Nat.lt_irrefl _ (Nat.lt_of_lt_of_le hlt hle)
    · -- what is below two declarations has both of them for ancestors
      intro first hfirst second hsecond hne other hmem hagain
      obtain ⟨hfirst, hparent⟩ := mem_withParent.1 hfirst
      obtain ⟨hsecond, hsame⟩ := mem_withParent.1 hsecond
      obtain ⟨hother, habove⟩ := forest.mem_ancestors_of_mem_subtree hfirst hmem
      have hagain := (forest.mem_ancestors_of_mem_subtree hsecond hagain).2
      exact hne (forest.eq_of_mem_ancestors_of_parent_eq hother habove hagain
        (hparent.trans hsame.symm))

/-- **The walk down from all seeds** comes to every declaration, and to none twice. -/
theorem walk_perm_all {bound : Nat} (room : registry.size ≤ bound) :
    (registry.seedNodes.flatMap (registry.subtreeWithin bound)).Perm registry.all := by
  rw [forest.seedNodes_eq]
  refine (List.perm_ext_iff_of_nodup (forest.nodup_flatMap_subtree bound none)
    forest.nodup_all).2 fun node => ⟨fun hmem => ?_, fun h => ?_⟩
  · obtain ⟨seed, hseed, hmem⟩ := List.mem_flatMap.1 hmem
    exact (forest.mem_ancestors_of_mem_subtree (mem_withParent.1 hseed).1 hmem).1
  · obtain ⟨seed, below, hseed, hroot, -, links, rfl⟩ := forest.exists_isChain h
    have hdepth := forest.depth_of_isChain hseed links
    have hlt := Nat.lt_of_le_of_lt (forest.depth_le_position h) (forest.position_lt h)
    rw [hdepth, (forest.root seed hseed hroot).2, Nat.zero_add] at hlt
    exact List.mem_flatMap.2 ⟨seed, mem_withParent.2 ⟨hseed, hroot⟩,
      forest.mem_subtree_of_isChain hseed links (Nat.lt_of_lt_of_le hlt room)⟩

theorem invertsParents : registry.InvertsParents where
  place i node h := forest.place i node (by rw [all, Array.getElem?_toList]; exact h)
  earlier := forest.parent
  lists_iff parent id := forest.lists_iff
  once := by
    rw [forest.lists_eq]
    exact forest.flatMap_withParent_perm.map _
  ordered node h := by
    rw [forest.overrides_eq h]
    exact forest.pairwise_withParent _
  mem_seeds_iff id := by
    rw [forest.seeds_eq, List.mem_map]
    simp only [mem_withParent, forest.node?_eq_some_iff]
    constructor
    · rintro ⟨node, ⟨h, hroot⟩, hid⟩
      exact ⟨node, ⟨h, hid⟩, hroot⟩
    · rintro ⟨node, ⟨h, hid⟩, hroot⟩
      exact ⟨node, ⟨h, hroot⟩, hid⟩
  seedsOrdered := by
    rw [forest.seeds_eq]
    exact forest.pairwise_withParent _
  walk _ := forest.walk_perm_all

end IsForest

/-- **The stored lists are the parents, read the other way.**  In a reachable registry every
identity is a place, a parent comes before its overrides, the lists of overrides and the list of
seeds hold every declaration once and in the order of registration, and a walk down from the seeds
comes to every declaration once.  Looking up the members of a list leaves none of them out.  And
registering by direct access to the places of the parent and of its seed comes to the same as
registering with look-ups, whatever the declaration overrides: it never needs what is not there. -/
theorem overrides_invert_parents {conversions : Conversions Id} {registry : Registry}
    (reachable : registry.Reachable conversions) :
    registry.InvertsParents ∧ registry.FindsAll ∧
      ∀ (m : Type → Type) [Monad m] [LawfulMonad m] (host : Conversions m) (decl : Declaration),
        Filling.Completes registry (Filling.declareAt host decl) (Filling.declare host decl) := by
  have forest : registry.IsForest := reachable.isForest
  exact ⟨forest.invertsParents, forest.findsAll,
    fun m _ _ host decl => Filling.completes_declareAt forest host decl⟩

/-- In the registry with two seeds, the walk down comes to all six declarations that were not
refused, and an override of something unknown is refused without breaking off. -/
theorem overrides_invert_parents_twoLineages :
    let registry := empty.run .identity twoLineages
    let orphan : Declaration := { space := .global, parent := some ⟨9⟩ }
    registry.size = 6 ∧
    (registry.seedNodes.flatMap (registry.subtreeWithin 6)).Perm registry.all ∧
    registry.seedNodes.map (·.id) = registry.seeds ∧
    ((Filling.declareAt (m := Id) .identity orphan).run.run registry).run =
      some (.error (.unknownParent ⟨9⟩), registry) := by
  intro registry orphan
  have reachable : registry.Reachable .identity := ⟨twoLineages, rfl⟩
  obtain ⟨inverts, finds, direct⟩ := overrides_invert_parents reachable
  exact ⟨rfl, inverts.walk 6 (Nat.le_refl 6), finds.seedNodes, direct Id .identity orphan⟩

end Registry
end CustomizationPoints
