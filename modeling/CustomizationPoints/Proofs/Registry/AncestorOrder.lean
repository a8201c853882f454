import CustomizationPoints.Proofs.Registry.Ancestry
import Mathlib.Logic.Function.Iterate
import Mathlib.Logic.Relation

/-!
# The order of the ancestors

The walk up from a declaration ends with the walk up from any declaration on it
(`suffix_of_mem_ancestors`).  So one declaration is an ancestor of another exactly if its walk is
the end of the other's walk (`isAncestorOrSelf_iff_suffix`), and the laws of the order are laws
about the ends of lists.

* The end of the end of a list is an end of it: the order is transitive.
* Two lists that end each other are the same: it is antisymmetric.
* Of two ends of one list the shorter one ends the longer one: the ancestors of a declaration are
  in line.
* An end of a list has the same last member: one tree has one seed.

## What is stored

Seed and depth of a declaration are worked out once, from those of its parent, and are never
compared with the parents again.  The walk up looks at nothing but parents.  That the two agree
is said by `Registry.LeadsToSeed`: the walk is as long as the stored depth says, and it ends at the
stored seed.
-/

namespace CustomizationPoints
namespace Registry

/-- The walk goes on from a declaration to its parent, if it can find one. -/
def above? (registry : Registry) (node : Node) : Option Node :=
  node.decl.parent.bind registry.node?

/-- The second declaration is listed as an override of the first one. -/
def Lists (registry : Registry) (above id : DeclId) : Prop :=
  id ∈ (registry.overridesOf above).map (·.id)

/-- The walk up from a declaration is the way to its stored seed. -/
structure LeadsToSeed (registry : Registry) (node : Node) : Prop where
  /-- It starts at the declaration. -/
  starts : (registry.ancestors node.id).head? = some node
  /-- It ends at the stored seed, which has no parent, and no one else on it has none. -/
  ends : ∃ seed, registry.seedOf? node.id = some seed ∧ seed.id = node.seed ∧
    (registry.ancestors node.id).getLast? = some seed ∧
      (registry.ancestors node.id).filter (·.decl.isSeed) = [seed]
  /-- It has one member more than the stored depth says. -/
  length : (registry.ancestors node.id).length = node.depth + 1
  /-- It comes to no declaration twice. -/
  distinct : (registry.ancestors node.id).Nodup
  /-- The identities become smaller. -/
  decreasing : (registry.ancestors node.id).Pairwise fun a b => b.id.position < a.id.position
  /-- The depths count down to zero. -/
  depths : (registry.ancestors node.id).map (·.depth) = (List.range (node.depth + 1)).reverse

/-- An identity that is not registered has no ancestors. -/
theorem ancestors_of_unknown {registry : Registry} {id : DeclId} (h : registry.node? id = none) :
    registry.ancestors id = [] := by
  rw [ancestors]
  cases registry.size with
  | zero => rfl
  | succ bound => rw [ancestorsWithin, h]

namespace IsForest

variable {registry : Registry} (forest : registry.IsForest) {node above other : Node}
  {a b c : DeclId}

include forest

/-- Registered identities are those of the registered declarations. -/
theorem node?_ne_none_iff_exists :
    registry.node? a ≠ none ↔ ∃ node ∈ registry.all, node.id = a := by
  simp only [Option.ne_none_iff_exists', forest.node?_eq_some_iff]

/-- Only a registered declaration has ancestors. -/
theorem exists_of_mem_ancestors (hmem : above ∈ registry.ancestors a) :
    ∃ node ∈ registry.all, node.id = a := by
  rw [← forest.node?_ne_none_iff_exists]
  intro ha
  rw [ancestors_of_unknown ha] at hmem
  exact List.not_mem_nil hmem

/-! ## Step by step -/

theorem above?_of_overrides (habove : above ∈ registry.all) (h : registry.Overrides above node) :
    registry.above? node = some above := by
  rw [above?, h.2, Option.bind_some, forest.node?_id habove]

/-- **The walk up, one step after the other.**  After `k` steps the walk has come to the member at
place `k` of the list of ancestors, and where the list ends, the walk ends. -/
theorem getElem?_ancestors (id : DeclId) (k : Nat) :
    (registry.ancestors id)[k]? =
      (fun step => step.bind registry.above?)^[k] (registry.node? id) := by
  have hnone : ∀ k, (fun step : Option Node => step.bind registry.above?)^[k] none = none :=
    Function.iterate_fixed rfl
  cases hid : registry.node? id with
  | none => rw [ancestors_of_unknown hid, hnone, List.getElem?_nil]
  | some node =>
    obtain ⟨h, rfl⟩ := forest.node?_eq_some_iff.1 hid
    induction k generalizing node with
    | zero =>
      obtain ⟨rest, hrest⟩ := forest.exists_ancestors h
      rw [hrest]
      rfl
    | succ k ih =>
      rw [Function.iterate_succ_apply, Option.bind_some]
      cases hparent : node.decl.parent with
      | none =>
        rw [forest.ancestors_of_seed h hparent, above?, hparent, Option.bind_none, hnone]
        rfl
      | some id =>
        obtain ⟨above, habove, rfl⟩ := forest.exists_parent h hparent
        rw [forest.ancestors_of_overrides habove ⟨h, hparent⟩, List.getElem?_cons_succ,
          forest.above?_of_overrides habove ⟨h, hparent⟩]
        exact ih above habove (forest.node?_id habove)

/-! ## To the stored seed -/

omit forest in
theorem isSeed_of_overrides (h : registry.Overrides above node) : node.decl.isSeed = false := by
  rw [Declaration.isSeed, h.2, Option.isNone_some]

/-- On a way down the depths count up. -/
theorem map_depth_of_isChain {entry : Node} {below : List Node} (hentry : entry ∈ registry.all)
    (links : (entry :: below).IsChain registry.Overrides) :
    (entry :: below).map (·.depth) = List.range' entry.depth (below.length + 1) := by
  induction below generalizing entry with
  | nil => rfl
  | cons next rest ih =>
    obtain ⟨hnext, hrest⟩ := List.isChain_cons_cons.1 links
    rw [List.map_cons, ih hnext.1 hrest, (forest.below next hnext.1 entry hentry hnext.2).2,
      ← List.range'_succ, List.length_cons]

omit forest in
/-- On a way down nobody but the first one can be a seed. -/
theorem filter_isSeed_of_isChain {seed : Node} {below : List Node}
    (hroot : seed.decl.parent = none) (links : (seed :: below).IsChain registry.Overrides) :
    (seed :: below).filter (·.decl.isSeed) = [seed] := by
  have hbelow : below.filter (·.decl.isSeed) = [] := by
    refine List.filter_eq_nil_iff.2 fun node hnode => ?_
    obtain ⟨above, -, hover⟩ := exists_rel_of_isChain links hnode
    rw [isSeed_of_overrides hover]
    exact Bool.false_ne_true
  rw [List.filter_cons_of_pos (by rw [Declaration.isSeed, hroot, Option.isNone_none]), hbelow]

/-- **Every walk up leads to the stored seed.** -/
theorem leadsToSeed (h : node ∈ registry.all) : registry.LeadsToSeed node := by
  -- the walk is the way down from the seed, read backwards
  obtain ⟨seed, below, hseed, hroot, hid, links, rfl⟩ := forest.exists_isChain h
  have hwalk := forest.ancestors_of_seed_isChain hseed hroot links
  have hdepth := forest.depth_of_isChain hseed links
  rw [(forest.root seed hseed hroot).2, Nat.zero_add] at hdepth
  have hordered := forest.pairwise_of_overrides links
  constructor
  case starts =>
    rw [hwalk, List.head?_reverse, List.getLast?_cons, ← List.getLastD_eq_getLast?]
  case ends =>
    refine ⟨seed, ?_, hid, ?_, ?_⟩
    · rw [seedOf?, forest.node?_id h, Option.bind_some, ← hid, forest.node?_id hseed]
    · rw [hwalk, List.getLast?_reverse, List.head?_cons]
    · rw [hwalk, List.filter_reverse, filter_isSeed_of_isChain hroot links,
        List.reverse_singleton]
  case length => rw [hwalk, List.length_reverse, List.length_cons, hdepth]
  case distinct =>
    rw [hwalk, List.nodup_reverse]
    refine hordered.imp fun {a b} hlt hsame => ?_
    rw [hsame] at hlt
    exact Nat.lt_irrefl _ hlt
  case decreasing => rw [hwalk, List.pairwise_reverse]; exact hordered
  case depths =>
    rw [hwalk, List.map_reverse, forest.map_depth_of_isChain hseed links, hdepth,
      (forest.root seed hseed hroot).2, List.range_eq_range']

/-! ## Ends of walks -/

/-- **The walk up from an ancestor is the end of the walk.** -/
theorem suffix_of_mem_ancestors (h : node ∈ registry.all)
    (hmem : above ∈ registry.ancestors node.id) :
    above ∈ registry.all ∧ registry.ancestors above.id <:+ registry.ancestors node.id := by
  induction node, h using forest.induction with
  | seed node h hparent =>
    rw [forest.ancestors_of_seed h hparent] at hmem
    obtain rfl := List.mem_singleton.1 hmem
    exact ⟨h, List.suffix_rfl⟩
  | override node h parent hparent hover ih =>
    rw [forest.ancestors_of_overrides hparent ⟨h, hover⟩] at hmem ⊢
    rcases List.mem_cons.1 hmem with rfl | hmem
    · rw [forest.ancestors_of_overrides hparent ⟨h, hover⟩]
      exact ⟨h, List.suffix_rfl⟩
    · obtain ⟨habove, hsuffix⟩ := ih hmem
      exact ⟨habove, hsuffix.trans (List.suffix_cons node _)⟩

/-- The declaration itself stands on its walk, if it is registered. -/
theorem mem_ancestors_self (h : node ∈ registry.all) : node ∈ registry.ancestors node.id := by
  obtain ⟨rest, hrest⟩ := forest.exists_ancestors h
  rw [hrest]
  exact List.mem_cons_self

/-- An ancestor does not come later. -/
theorem position_le_of_mem_ancestors (h : node ∈ registry.all)
    (hmem : above ∈ registry.ancestors node.id) : above.id.position ≤ node.id.position := by
  have hdecreasing := (forest.leadsToSeed h).decreasing
  obtain ⟨rest, hrest⟩ := forest.exists_ancestors h
  rw [hrest] at hmem hdecreasing
  rcases List.mem_cons.1 hmem with rfl | hmem
  · exact Nat.le_refl _
  · exact Nat.le_of_lt ((List.pairwise_cons.1 hdecreasing).1 above hmem)

/-- A declaration and an ancestor with the same parent are one. -/
theorem eq_of_mem_ancestors (h : node ∈ registry.all)
    (hmem : above ∈ registry.ancestors node.id) (hsame : above.decl.parent = node.decl.parent) :
    above = node := by
  cases hparent : node.decl.parent with
  | none =>
    rw [forest.ancestors_of_seed h hparent] at hmem
    exact List.mem_singleton.1 hmem
  | some id =>
    obtain ⟨parent, hknown, rfl⟩ := forest.exists_parent h hparent
    rw [forest.ancestors_of_overrides hknown ⟨h, hparent⟩] at hmem
    refine (List.mem_cons.1 hmem).resolve_right fun hmem => ?_
    -- it would stand above its own parent
    have hle := forest.position_le_of_mem_ancestors hknown hmem
    have habove := (forest.suffix_of_mem_ancestors hknown hmem).1
    have hlt := forest.parent above habove parent.id (hsame.trans hparent)
    exact Nat.lt_irrefl _ (Nat.lt_of_lt_of_le hlt hle)

/-- Of the ancestors of one declaration, no two have the same parent. -/
theorem eq_of_mem_ancestors_of_parent_eq {first second : Node} (h : node ∈ registry.all)
    (hfirst : first ∈ registry.ancestors node.id) (hsecond : second ∈ registry.ancestors node.id)
    (hsame : first.decl.parent = second.decl.parent) : first = second := by
  obtain ⟨hfirst, hshort⟩ := forest.suffix_of_mem_ancestors h hfirst
  obtain ⟨hsecond, hlong⟩ := forest.suffix_of_mem_ancestors h hsecond
  rcases List.suffix_or_suffix_of_suffix hshort hlong with hends | hends
  · exact forest.eq_of_mem_ancestors hsecond (hends.subset (forest.mem_ancestors_self hfirst)) hsame
  · exact (forest.eq_of_mem_ancestors hfirst (hends.subset (forest.mem_ancestors_self hsecond))
      hsame.symm).symm

/-- **Being an ancestor is having the end of the walk.** -/
theorem isAncestorOrSelf_iff_suffix : registry.isAncestorOrSelf a b = true ↔
    registry.node? a ≠ none ∧ registry.ancestors a <:+ registry.ancestors b := by
  rw [isAncestorOrSelf_iff]
  constructor
  · rintro ⟨above, hmem, rfl⟩
    obtain ⟨node, h, rfl⟩ := forest.exists_of_mem_ancestors hmem
    obtain ⟨habove, hsuffix⟩ := forest.suffix_of_mem_ancestors h hmem
    exact ⟨forest.node?_ne_none_iff_exists.2 ⟨above, habove, rfl⟩, hsuffix⟩
  · rintro ⟨hknown, hsuffix⟩
    obtain ⟨above, h, rfl⟩ := forest.node?_ne_none_iff_exists.1 hknown
    exact ⟨above, hsuffix.subset (forest.mem_ancestors_self h), rfl⟩

/-! ## The laws of the order -/

theorem isAncestorOrSelf_self_iff :
    registry.isAncestorOrSelf a a = true ↔ registry.node? a ≠ none := by
  rw [forest.isAncestorOrSelf_iff_suffix]
  exact and_iff_left List.suffix_rfl

theorem isAncestorOrSelf_trans (hab : registry.isAncestorOrSelf a b = true)
    (hbc : registry.isAncestorOrSelf b c = true) : registry.isAncestorOrSelf a c = true := by
  rw [forest.isAncestorOrSelf_iff_suffix] at hab hbc ⊢
  exact ⟨hab.1, hab.2.trans hbc.2⟩

theorem isAncestorOrSelf_antisymm (hab : registry.isAncestorOrSelf a b = true)
    (hba : registry.isAncestorOrSelf b a = true) : a = b := by
  rw [forest.isAncestorOrSelf_iff_suffix] at hab hba
  obtain ⟨node, hnode, rfl⟩ := forest.node?_ne_none_iff_exists.1 hab.1
  obtain ⟨other, hother, rfl⟩ := forest.node?_ne_none_iff_exists.1 hba.1
  have hsame := (forest.leadsToSeed hnode).starts
  rw [hab.2.sublist.antisymm hba.2.sublist, (forest.leadsToSeed hother).starts] at hsame
  rw [Option.some.inj hsame]

/-- Two ancestors of one declaration are in line. -/
theorem isAncestorOrSelf_total (hac : registry.isAncestorOrSelf a c = true)
    (hbc : registry.isAncestorOrSelf b c = true) :
    registry.isAncestorOrSelf a b = true ∨ registry.isAncestorOrSelf b a = true := by
  simp only [forest.isAncestorOrSelf_iff_suffix] at hac hbc ⊢
  rcases List.suffix_or_suffix_of_suffix hac.2 hbc.2 with h | h
  · exact Or.inl ⟨hac.1, h⟩
  · exact Or.inr ⟨hbc.1, h⟩

/-- An ancestor is in the same tree. -/
theorem seedOf?_of_isAncestorOrSelf (h : registry.isAncestorOrSelf a b = true) :
    registry.seedOf? a ≠ none ∧ registry.seedOf? b = registry.seedOf? a := by
  obtain ⟨above, hmem, rfl⟩ := isAncestorOrSelf_iff.1 h
  obtain ⟨node, hnode, rfl⟩ := forest.exists_of_mem_ancestors hmem
  obtain ⟨habove, before, hsplit⟩ := forest.suffix_of_mem_ancestors hnode hmem
  obtain ⟨seed, hseed, -, hlast, -⟩ := (forest.leadsToSeed habove).ends
  obtain ⟨root, hroot, -, hend, -⟩ := (forest.leadsToSeed hnode).ends
  rw [← hsplit, List.getLast?_append, hlast, Option.some_or] at hend
  rw [hseed, hroot, hend]
  exact ⟨Option.some_ne_none root, rfl⟩

/-! ## Down again -/

/-- A declaration is listed as an override of its parent, and nowhere else. -/
theorem lists_iff :
    registry.Lists a b ↔ ∃ node, registry.node? b = some node ∧ node.decl.parent = some a := by
  rw [Lists, overridesOf]
  cases ha : registry.node? a with
  | none =>
    refine ⟨fun h => absurd h List.not_mem_nil, ?_⟩
    rintro ⟨node, hb, hparent⟩
    obtain ⟨above, habove, rfl⟩ :=
      forest.exists_parent (forest.node?_eq_some_iff.1 hb).1 hparent
    rw [forest.node?_id habove] at ha
    exact nomatch ha
  | some above =>
    obtain ⟨habove, rfl⟩ := forest.node?_eq_some_iff.1 ha
    dsimp only
    rw [forest.nodesOf_overrides habove, List.mem_map]
    simp only [List.mem_filter, decide_eq_true_eq, forest.node?_eq_some_iff]
    exact ⟨fun ⟨node, ⟨h, hparent⟩, hid⟩ => ⟨node, ⟨h, hid⟩, hparent⟩,
      fun ⟨node, ⟨h, hid⟩, hparent⟩ => ⟨node, ⟨h, hparent⟩, hid⟩⟩

/-- What lists a declaration is an ancestor of it. -/
theorem isAncestorOrSelf_of_lists (h : registry.Lists a b) :
    registry.isAncestorOrSelf a b = true := by
  obtain ⟨node, hb, hparent⟩ := forest.lists_iff.1 h
  obtain ⟨hnode, rfl⟩ := forest.node?_eq_some_iff.1 hb
  obtain ⟨above, habove, rfl⟩ := forest.exists_parent hnode hparent
  refine isAncestorOrSelf_iff.2 ⟨above, ?_, rfl⟩
  rw [forest.ancestors_of_overrides habove ⟨hnode, hparent⟩]
  exact List.mem_cons_of_mem node (forest.mem_ancestors_self habove)

/-- From an ancestor there is a way down along the lists. -/
theorem lists_of_mem_ancestors (h : node ∈ registry.all) :
    ∀ above ∈ registry.ancestors node.id,
      Relation.ReflTransGen registry.Lists above.id node.id := by
  intro above hmem
  induction node, h using forest.induction with
  | seed node h hparent =>
    rw [forest.ancestors_of_seed h hparent] at hmem
    rw [List.mem_singleton.1 hmem]
  | override node h parent hparent hover ih =>
    rw [forest.ancestors_of_overrides hparent ⟨h, hover⟩] at hmem
    rcases List.mem_cons.1 hmem with rfl | hmem
    · exact .refl
    · exact (ih hmem).tail (forest.lists_iff.2 ⟨node, forest.node?_id h, hover⟩)

/-- **Ancestors are found from above, too**, by going down from list to list. -/
theorem isAncestorOrSelf_iff_lists : registry.isAncestorOrSelf a b = true ↔
    registry.node? a ≠ none ∧ Relation.ReflTransGen registry.Lists a b := by
  constructor
  · intro h
    obtain ⟨hknown, -⟩ := forest.isAncestorOrSelf_iff_suffix.1 h
    obtain ⟨above, hmem, rfl⟩ := isAncestorOrSelf_iff.1 h
    obtain ⟨node, hnode, rfl⟩ := forest.exists_of_mem_ancestors hmem
    exact ⟨hknown, forest.lists_of_mem_ancestors hnode above hmem⟩
  · rintro ⟨hknown, down⟩
    induction down with
    | refl => exact forest.isAncestorOrSelf_self_iff.2 hknown
    | tail _ listed ih =>
      exact forest.isAncestorOrSelf_trans ih (forest.isAncestorOrSelf_of_lists listed)

end IsForest

/-- **Ancestry is the order of a forest, and what is stored agrees with it.**  In a reachable
registry the walk up from a registered declaration follows parents, comes to an end, and is the way
to the stored seed: it has as many members as the stored depth says, with identities and depths
going down, and no other seed is on it.  An identity that is not registered has no ancestors.  To be
an ancestor, or the declaration itself, is an order on the registered declarations.  It is the same
as to be found from above along the lists of overrides, the ancestors of one declaration are in
line, and declarations with a common ancestor are in the tree of one seed. -/
theorem ancestry_agrees {conversions : Conversions Id} {registry : Registry}
    (reachable : registry.Reachable conversions) :
    (∀ id, registry.node? id = none → registry.ancestors id = []) ∧
    (∀ id k, (registry.ancestors id)[k]? =
      (fun step => step.bind registry.above?)^[k] (registry.node? id)) ∧
    (∀ id node, registry.node? id = some node → node.id = id ∧ registry.LeadsToSeed node) ∧
    (∀ a, registry.isAncestorOrSelf a a = true ↔ registry.node? a ≠ none) ∧
    (∀ a b, registry.isAncestorOrSelf a b = true → registry.isAncestorOrSelf b a = true → a = b) ∧
    (∀ a b c, registry.isAncestorOrSelf a b = true → registry.isAncestorOrSelf b c = true →
      registry.isAncestorOrSelf a c = true) ∧
    (∀ a b, registry.isAncestorOrSelf a b = true ↔
      registry.node? a ≠ none ∧ Relation.ReflTransGen registry.Lists a b) ∧
    (∀ a b c, registry.isAncestorOrSelf a c = true → registry.isAncestorOrSelf b c = true →
      registry.isAncestorOrSelf a b = true ∨ registry.isAncestorOrSelf b a = true) ∧
    ∀ a b c, registry.isAncestorOrSelf a b = true → registry.isAncestorOrSelf a c = true →
      ∃ seed, registry.seedOf? b = some seed ∧ registry.seedOf? c = some seed := by
  have forest : registry.IsForest := reachable.isForest
  refine ⟨fun id => ancestors_of_unknown, forest.getElem?_ancestors, fun id node h => ?_,
    fun a => forest.isAncestorOrSelf_self_iff, fun a b => forest.isAncestorOrSelf_antisymm,
    fun a b c => forest.isAncestorOrSelf_trans, fun a b => forest.isAncestorOrSelf_iff_lists,
    fun a b c => forest.isAncestorOrSelf_total, fun a b c hab hac => ?_⟩
  · obtain ⟨hnode, hid⟩ := forest.node?_eq_some_iff.1 h
    exact ⟨hid, forest.leadsToSeed hnode⟩
  · obtain ⟨hknown, hb⟩ := forest.seedOf?_of_isAncestorOrSelf hab
    obtain ⟨-, hc⟩ := forest.seedOf?_of_isAncestorOrSelf hac
    obtain ⟨seed, hseed⟩ := Option.ne_none_iff_exists'.1 hknown
    exact ⟨seed, hb.trans hseed, hc.trans hseed⟩

/-- Two trees: a seed with two overrides, the first of which has one of its own, and a seed with one
override.  Another override is refused, because it overrides nothing that is registered. -/
def twoLineages : List Request :=
  [.declare { space := .global, name := some "f" },
    .declare { space := .global, parent := some ⟨0⟩ },
    .declare { space := .global, name := some "g" },
    .declare { space := .global, parent := some ⟨1⟩ },
    .declare { space := .global, parent := some ⟨9⟩ },
    .declare { space := .global, parent := some ⟨0⟩ },
    .declare { space := .global, parent := some ⟨2⟩ }]

/-- From the deepest declaration the walk goes up two steps, the one that was refused has no
ancestors, and the two overrides of the first seed are in the same tree. -/
theorem ancestry_agrees_twoLineages :
    let registry := empty.run .identity twoLineages
    (∃ node, registry.node? ⟨3⟩ = some node ∧ node.depth = 2 ∧ registry.LeadsToSeed node) ∧
    registry.ancestors ⟨6⟩ = [] ∧
    Relation.ReflTransGen registry.Lists ⟨0⟩ ⟨3⟩ ∧
    (registry.isAncestorOrSelf ⟨0⟩ ⟨1⟩ = true ∨ registry.isAncestorOrSelf ⟨1⟩ ⟨0⟩ = true) ∧
    (∃ seed, registry.seedOf? ⟨1⟩ = some seed ∧ registry.seedOf? ⟨4⟩ = some seed) ∧
    registry.isAncestorOrSelf ⟨2⟩ ⟨3⟩ = false := by
  intro registry
  have reachable : registry.Reachable .identity := ⟨twoLineages, rfl⟩
  obtain ⟨unknown, -, leads, -, -, -, lists, total, common⟩ := ancestry_agrees reachable
  obtain ⟨node, hnode, hdepth⟩ : ∃ node, registry.node? ⟨3⟩ = some node ∧ node.depth = 2 :=
    ⟨_, rfl, rfl⟩
  exact ⟨⟨node, hnode, hdepth, (leads _ _ hnode).2⟩, unknown _ rfl,
    ((lists _ _).1 (by decide)).2, total ⟨0⟩ ⟨1⟩ ⟨3⟩ (by decide) (by decide),
    common ⟨0⟩ _ _ (by decide) (by decide), by decide⟩

end Registry
end CustomizationPoints
