import CustomizationPoints.Proofs.Registry.Names
import Mathlib.Data.Set.Function

/-!
# Registries that differ in the names of identities only

The same declarations can be registered in more than one order, and every order gives them
other identities.  `Registry.Renaming` compares two registries that hold the same
declarations up to a bijection between the identities: it speaks of the declarations and of
their parents, and of nothing that is stored beside them.

In forests this is enough.  What is stored beside a declaration follows from the parents, so
corresponding declarations have the same depth, and corresponding seeds and overrides.
-/

namespace CustomizationPoints

namespace Registry

/-- The two registries hold the same declarations, with identities renamed by `f`. -/
structure Renaming (left right : Registry) (f : DeclId → DeclId) : Prop where
  /-- The renaming is a bijection between the registered identities. -/
  bijective : Set.BijOn f {id | left.node? id ≠ none} {id | right.node? id ≠ none}
  /-- It changes nothing about a declaration but the name of its parent. -/
  contents : ∀ id node image, left.node? id = some node → right.node? (f id) = some image →
    image.decl = { node.decl with parent := node.decl.parent.map f }

/-- The two nodes are registered, under corresponding identities. -/
structure Matches (left right : Registry) (f : DeclId → DeclId) (node image : Node) : Prop where
  left : node ∈ left.all
  right : image ∈ right.all
  id : image.id = f node.id

/-- The node in `right` that corresponds to a node. -/
def imageIn (right : Registry) (f : DeclId → DeclId) (node : Node) : Node :=
  (right.node? (f node.id)).getD node

namespace Renaming

variable {left right : Registry} {f : DeclId → DeclId} (same : left.Renaming right f)
  (hleft : left.IsForest) (hright : right.IsForest)

include same hleft

theorem node?_image {node : Node} (h : node ∈ left.all) :
    right.node? (f node.id) = some (right.imageIn f node) := by
  have hid : f node.id ∈ {id | right.node? id ≠ none} := by
    refine same.bijective.mapsTo ?_
    show left.node? node.id ≠ none
    rw [hleft.node?_id h]
    exact Option.some_ne_none node
  obtain ⟨image, himage⟩ := Option.ne_none_iff_exists'.1 hid
  rw [imageIn, himage, Option.getD_some]

theorem decl_image {node : Node} (h : node ∈ left.all) :
    (right.imageIn f node).decl = { node.decl with parent := node.decl.parent.map f } :=
  same.contents node.id node _ (hleft.node?_id h) (same.node?_image hleft h)

/-- A declaration with a name is called the same in both registries. -/
theorem displayName_image {node : Node} (h : node ∈ left.all) (hname : node.decl.name ≠ none) :
    (right.imageIn f node).displayName = node.displayName := by
  obtain ⟨name, hsome⟩ := Option.ne_none_iff_exists'.1 hname
  rw [Node.displayName, Node.displayName, same.decl_image hleft h]
  simp only [hsome]

/-- The renaming keeps registered identities apart. -/
theorem injective {a b : Node} (ha : a ∈ left.all) (hb : b ∈ left.all) :
    f a.id = f b.id ↔ a.id = b.id := by
  refine ⟨fun h => same.bijective.injOn ?_ ?_ h, congrArg f⟩
  · show left.node? a.id ≠ none
    rw [hleft.node?_id ha]
    exact Option.some_ne_none a
  · show left.node? b.id ≠ none
    rw [hleft.node?_id hb]
    exact Option.some_ne_none b

include hright

theorem mem_image {node : Node} (h : node ∈ left.all) : right.imageIn f node ∈ right.all :=
  (hright.node?_eq_some_iff.1 (same.node?_image hleft h)).1

theorem id_image {node : Node} (h : node ∈ left.all) : (right.imageIn f node).id = f node.id :=
  (hright.node?_eq_some_iff.1 (same.node?_image hleft h)).2

theorem matches_image {node : Node} (h : node ∈ left.all) :
    left.Matches right f node (right.imageIn f node) :=
  ⟨h, same.mem_image hleft hright h, same.id_image hleft hright h⟩

/-- The images of the registered declarations are the registered declarations. -/
theorem map_image_all : (left.all.map (right.imageIn f)).Perm right.all := by
  have hnodup : (left.all.map (right.imageIn f)).Nodup := by
    refine hleft.nodup_all.map_on fun a ha b hb heq => hleft.eq_of_id_eq ha hb ?_
    rw [← same.injective hleft ha hb, ← same.id_image hleft hright ha,
      ← same.id_image hleft hright hb, heq]
  refine (List.perm_ext_iff_of_nodup hnodup hright.nodup_all).2 fun image => ?_
  constructor
  · intro h
    obtain ⟨node, hnode, rfl⟩ := List.mem_map.1 h
    exact same.mem_image hleft hright hnode
  · intro h
    have hid : image.id ∈ {id | right.node? id ≠ none} := by
      show right.node? image.id ≠ none
      rw [hright.node?_id h]
      exact Option.some_ne_none image
    obtain ⟨id, hregistered, hid⟩ := same.bijective.surjOn hid
    obtain ⟨node, hnode⟩ := Option.ne_none_iff_exists'.1 hregistered
    obtain ⟨hmem, rfl⟩ := hleft.node?_eq_some_iff.1 hnode
    refine List.mem_map.2 ⟨node, hmem, hright.eq_of_id_eq (same.mem_image hleft hright hmem) h ?_⟩
    rw [same.id_image hleft hright hmem, hid]

/-- Every declaration on the right is the image of one on the left. -/
theorem exists_image {image : Node} (h : image ∈ right.all) :
    ∃ node ∈ left.all, right.imageIn f node = image :=
  List.mem_map.1 ((same.map_image_all hleft hright).mem_iff.2 h)

/-! ## What is stored beside the declarations -/

omit hright in
theorem parent_image {node : Node} (h : node ∈ left.all) :
    (right.imageIn f node).decl.parent = node.decl.parent.map f := by
  rw [same.decl_image hleft h]

/-- Corresponding declarations have corresponding parents. -/
theorem parent_image_eq_iff {node above : Node} (h : node ∈ left.all) (habove : above ∈ left.all) :
    (right.imageIn f node).decl.parent = some (right.imageIn f above).id ↔
      node.decl.parent = some above.id := by
  rw [same.parent_image hleft h, same.id_image hleft hright habove]
  cases hparent : node.decl.parent with
  | none => simp
  | some id =>
    obtain ⟨parent, hmem, rfl⟩ := hleft.exists_parent h hparent
    rw [Option.map_some, Option.some.injEq, Option.some.injEq, same.injective hleft hmem habove]

/-- Corresponding declarations have corresponding seeds and the same depth. -/
theorem seed_depth_image {node : Node} (h : node ∈ left.all) :
    (right.imageIn f node).seed = f node.seed ∧ (right.imageIn f node).depth = node.depth := by
  induction node, h using hleft.induction with
  | seed node h hparent =>
    obtain ⟨hseed, hdepth⟩ := hleft.root node h hparent
    obtain ⟨hseed', hdepth'⟩ := hright.root _ (same.mem_image hleft hright h) (by
      rw [same.parent_image hleft h, hparent, Option.map_none])
    rw [hseed', hdepth', hseed, hdepth, same.id_image hleft hright h]
    exact ⟨rfl, rfl⟩
  | override node h above habove hparent ih =>
    -- seed and depth are those of the parent
    obtain ⟨hseed, hdepth⟩ := hleft.below node h above habove hparent
    obtain ⟨hseed', hdepth'⟩ := hright.below _ (same.mem_image hleft hright h) _
      (same.mem_image hleft hright habove)
      ((same.parent_image_eq_iff hleft hright h habove).2 hparent)
    rw [hseed', hdepth', hseed, hdepth, ih.1, ih.2]
    exact ⟨rfl, rfl⟩

/-- Corresponding declarations have corresponding overrides. -/
theorem overrides_image {node : Node} (h : node ∈ left.all) :
    {id | id ∈ (right.imageIn f node).overrides} = f '' {id | id ∈ node.overrides} := by
  ext id
  rw [Set.mem_ofPred_eq, hright.mem_overrides_iff (same.mem_image hleft hright h), Set.mem_image]
  constructor
  · rintro ⟨image, himage, hparent, rfl⟩
    obtain ⟨other, hother, rfl⟩ := same.exists_image hleft hright himage
    exact ⟨other.id, (hleft.mem_overrides_iff h).2 ⟨other, hother,
      (same.parent_image_eq_iff hleft hright hother h).1 hparent, rfl⟩,
      (same.id_image hleft hright hother).symm⟩
  · rintro ⟨_, hmem, rfl⟩
    obtain ⟨other, hother, hparent, rfl⟩ := (hleft.mem_overrides_iff h).1 hmem
    exact ⟨right.imageIn f other, same.mem_image hleft hright hother,
      (same.parent_image_eq_iff hleft hright hother h).2 hparent,
      same.id_image hleft hright hother⟩

/-- The seeds correspond. -/
theorem seeds_image : {id | id ∈ right.seeds} = f '' {id | id ∈ left.seeds} := by
  ext id
  rw [Set.mem_ofPred_eq, hright.mem_seeds_iff, Set.mem_image]
  constructor
  · rintro ⟨image, himage, hparent, rfl⟩
    obtain ⟨node, hnode, rfl⟩ := same.exists_image hleft hright himage
    rw [same.parent_image hleft hnode, Option.map_eq_none_iff] at hparent
    exact ⟨node.id, hleft.mem_seeds_iff.2 ⟨node, hnode, hparent, rfl⟩,
      (same.id_image hleft hright hnode).symm⟩
  · rintro ⟨_, hmem, rfl⟩
    obtain ⟨node, hnode, hparent, rfl⟩ := hleft.mem_seeds_iff.1 hmem
    refine ⟨right.imageIn f node, same.mem_image hleft hright hnode, ?_,
      same.id_image hleft hright hnode⟩
    rw [same.parent_image hleft hnode, hparent, Option.map_none]

/-- Looking up a name finds corresponding declarations. -/
theorem find?_image {announced announced' : Set QualifiedName}
    (agree : left.NamesAgree announced) (agree' : right.NamesAgree announced')
    (name : QualifiedName) :
    right.find? name = (left.find? name).map (right.imageIn f) := by
  have hname : ∀ node ∈ left.all,
      (right.imageIn f node).decl.qualifiedName? = node.decl.qualifiedName? := by
    intro node hnode
    rw [same.decl_image hleft hnode]
    rfl
  cases hfound : left.find? name with
  | some node =>
    obtain ⟨hnode, howns⟩ := (agree.find?_eq_some_iff hleft).1 hfound
    rw [Option.map_some, agree'.find?_eq_some_iff hright, hname node hnode]
    exact ⟨same.mem_image hleft hright hnode, howns⟩
  | none =>
    rw [Option.map_none, Option.eq_none_iff_forall_ne_some]
    intro image himage
    obtain ⟨hmem, howns⟩ := (agree'.find?_eq_some_iff hright).1 himage
    obtain ⟨node, hnode, rfl⟩ := same.exists_image hleft hright hmem
    rw [hname node hnode] at howns
    rw [(agree.find?_eq_some_iff hleft).2 ⟨hnode, howns⟩] at hfound
    exact nomatch hfound

end Renaming

end Registry
end CustomizationPoints
