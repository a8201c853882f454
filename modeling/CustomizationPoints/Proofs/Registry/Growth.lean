import CustomizationPoints.Proofs.Registry.AncestorOrder
import CustomizationPoints.Proofs.Registry.Erasure

/-!
# A registry only grows

Registering writes to a node that is there already: the parent of the new one.  It also adds to the
one table of names, where a later entry hides an earlier one.  Neither changes what was known
before.  The parent gains an override after those that it has, and a name is entered only where it
is free.

* `Node.GrowsTo` says what may become of a node, and `Registry.Extends` says it of a registry: what
  is found in it is found in the other one, too, and has at most grown.  Both can be chained.
* `IsForest.extends_of_step` is the case of one request, and `Reachable.extends_run` follows for any
  number of them.
* What is worked out from the nodes is then the same in both: ancestors are found by following
  parents, and parents do not grow (`Extends.ancestors`).

The new declarations are read off the answers.  An answer with a new identity is an entry
(`Exchange.entry?`), and the registry holds the entries in the order in which they were made
(`entries_session`).  Since identities are places, they count on from the number of declarations
that are there, and they end before the identities do.
-/

namespace CustomizationPoints

/-! ## What may become of a node -/

/-- The node later: the same declaration in the same place, with more overrides at most. -/
structure Node.GrowsTo (node grown : Node) : Prop where
  id : grown.id = node.id
  seed : grown.seed = node.seed
  depth : grown.depth = node.depth
  decl : grown.decl = node.decl
  /-- New overrides come after the others. -/
  overrides : node.overrides <+: grown.overrides

namespace Node

theorem GrowsTo.refl (node : Node) : node.GrowsTo node :=
  ⟨rfl, rfl, rfl, rfl, List.prefix_rfl⟩

theorem GrowsTo.trans {node grown last : Node} (first : node.GrowsTo grown)
    (second : grown.GrowsTo last) : node.GrowsTo last where
  id := second.id.trans first.id
  seed := second.seed.trans first.seed
  depth := second.depth.trans first.depth
  decl := second.decl.trans first.decl
  overrides := first.overrides.trans second.overrides

theorem growsTo_gaining (decl : Declaration) (id : DeclId) (node : Node) :
    node.GrowsTo (node.gaining decl id) where
  id := id_gaining decl id node
  seed := seed_gaining decl id node
  depth := depth_gaining decl id node
  decl := decl_gaining decl id node
  overrides := by
    rw [overrides_gaining]
    exact List.prefix_append _ _

end Node

namespace Registry

variable {conversions : Conversions Id}

/-! ## What may become of a registry -/

/-- What is found in the first registry is found in the second, too, and has at most grown. -/
structure Extends (registry later : Registry) : Prop where
  node? : ∀ id node, registry.node? id = some node →
    ∃ grown, later.node? id = some grown ∧ node.GrowsTo grown
  seeds : registry.seeds <+: later.seeds
  use? : ∀ name use, registry.use? name = some use → later.use? name = some use

namespace Extends

variable {registry later : Registry}

theorem refl (registry : Registry) : registry.Extends registry where
  node? _ node h := ⟨node, h, .refl node⟩
  seeds := List.prefix_rfl
  use? _ _ h := h

theorem trans {last : Registry} (first : registry.Extends later) (second : later.Extends last) :
    registry.Extends last where
  node? id node h := by
    obtain ⟨grown, hgrown, growth⟩ := first.node? id node h
    obtain ⟨final, hfinal, further⟩ := second.node? id grown hgrown
    exact ⟨final, hfinal, growth.trans further⟩
  seeds := first.seeds.trans second.seeds
  use? name use h := second.use? name use (first.use? name use h)

/-- A name that is found keeps its declaration. -/
theorem find? (extension : registry.Extends later) {name : QualifiedName} {node : Node}
    (h : registry.find? name = some node) :
    ∃ grown, later.find? name = some grown ∧ node.GrowsTo grown := by
  obtain ⟨id, used, hnode⟩ := find?_eq_some_iff_use?.1 h
  obtain ⟨grown, hgrown, growth⟩ := extension.node? id node hnode
  exact ⟨grown, find?_eq_some_iff_use?.2 ⟨id, extension.use? name _ used, hgrown⟩, growth⟩

variable (extension : registry.Extends later) (forest : registry.IsForest)
  (laterForest : later.IsForest)

include extension forest

/-- Registered declarations stay registered. -/
theorem exists_grown {node : Node} (h : node ∈ registry.all) (laterForest : later.IsForest) :
    ∃ grown ∈ later.all, node.GrowsTo grown := by
  obtain ⟨grown, hgrown, growth⟩ := extension.node? node.id node (forest.node?_id h)
  exact ⟨grown, (laterForest.node?_eq_some_iff.1 hgrown).1, growth⟩

include laterForest

/-- **The walk up stays the same**, up to what its members have gained. -/
theorem ancestors {id : DeclId} (known : registry.node? id ≠ none) :
    List.Forall₂ Node.GrowsTo (registry.ancestors id) (later.ancestors id) := by
  obtain ⟨node, h, rfl⟩ := forest.node?_ne_none_iff_exists.1 known
  clear known
  -- the walk goes by the declarations, and these are the same
  induction node, h using forest.induction with
  | seed node h hparent =>
    obtain ⟨grown, hgrown, growth⟩ := extension.exists_grown forest h laterForest
    have hroot : grown.decl.parent = none := by rw [growth.decl, hparent]
    rw [forest.ancestors_of_seed h hparent, ← growth.id,
      laterForest.ancestors_of_seed hgrown hroot]
    exact .cons growth .nil
  | override node h above habove hparent ih =>
    obtain ⟨grown, hgrown, growth⟩ := extension.exists_grown forest h laterForest
    obtain ⟨parent, hknown, parentGrowth⟩ := extension.exists_grown forest habove laterForest
    have hover : later.Overrides parent grown :=
      ⟨hgrown, by rw [growth.decl, hparent, parentGrowth.id]⟩
    rw [forest.ancestors_of_overrides habove ⟨h, hparent⟩, ← growth.id,
      laterForest.ancestors_of_overrides hknown hover, parentGrowth.id]
    exact .cons growth ih

/-- Who is an ancestor of a declaration does not change. -/
theorem isAncestorOrSelf {id : DeclId} (known : registry.node? id ≠ none) (above : DeclId) :
    later.isAncestorOrSelf above id = registry.isAncestorOrSelf above id := by
  have hsame : (registry.ancestors id).map (·.id) = (later.ancestors id).map (·.id) := by
    rw [← List.forall₂_eq_eq_eq, List.forall₂_map_left_iff, List.forall₂_map_right_iff]
    exact (extension.ancestors forest laterForest known).imp fun _ _ growth => growth.id.symm
  rw [Bool.eq_iff_iff, isAncestorOrSelf_iff, isAncestorOrSelf_iff, ← List.mem_map,
    ← List.mem_map, hsame]

omit laterForest in
/-- The seed of a declaration stays its seed. -/
theorem seedOf? {id : DeclId} (known : registry.node? id ≠ none) :
    ∃ seed grown, registry.seedOf? id = some seed ∧ later.seedOf? id = some grown ∧
      seed.GrowsTo grown := by
  obtain ⟨node, hnode⟩ := Option.ne_none_iff_exists'.1 known
  obtain ⟨seed, hseed, hid, -⟩ := forest.exists_seed (forest.node?_eq_some_iff.1 hnode).1
  have hfound : registry.node? node.seed = some seed :=
    forest.node?_eq_some_iff.2 ⟨hseed, hid⟩
  obtain ⟨grown, hgrown, growth⟩ := extension.node? id node hnode
  obtain ⟨root, hroot, rootGrowth⟩ := extension.node? node.seed seed hfound
  refine ⟨seed, root, ?_, ?_, rootGrowth⟩
  · rw [Registry.seedOf?, hnode, Option.bind_some, hfound]
  · rw [Registry.seedOf?, hgrown, Option.bind_some, growth.seed, hroot]

end Extends

/-! ## One request, and many -/

/-- A request that is granted makes the registry grow. -/
theorem IsForest.extends_of_step {registry next : Registry} (forest : registry.IsForest)
    {request : Request} (step : registry.Step conversions request next) :
    registry.Extends next := by
  cases step with
  | @declare decl admits =>
    constructor
    case node? =>
      exact fun id node h => ⟨_, forest.node?_add admits h, node.growsTo_gaining decl _⟩
    case seeds =>
      rw [(forest.add admits).seeds, forest.map_id_filter_add decl Declaration.isSeed,
        ← forest.seeds]
      exact List.prefix_append _ _
    case use? =>
      intro name use h
      rw [use?_add, if_neg, h]
      intro own
      rw [admits.name name own] at h
      exact nomatch h
  | @announce name free =>
    constructor
    case node? => exact (Extends.refl registry).node?
    case seeds => exact List.prefix_rfl
    case use? =>
      intro other use h
      rw [use?_insertFunction, if_neg, h]
      rintro rfl
      rw [free] at h
      exact nomatch h
  | repeated _ => exact .refl registry

/-- From a reachable registry, requests lead to reachable ones. -/
theorem Reachable.run {registry : Registry} (reachable : registry.Reachable conversions)
    (requests : List Request) : (registry.run conversions requests).Reachable conversions := by
  obtain ⟨first, rfl⟩ := reachable
  exact ⟨first ++ requests, (run_append _ first requests).symm⟩

/-- **Requests make a registry grow**, whatever they are and whether they are granted or not. -/
theorem Reachable.extends_run {registry : Registry} (reachable : registry.Reachable conversions)
    (requests : List Request) : registry.Extends (registry.run conversions requests) := by
  have grown := run_induction_from
    (P := fun _ later => later.Reachable conversions ∧ registry.Extends later)
    (fun _ later request next ⟨known, extension⟩ step =>
      ⟨known.step step, extension.trans (known.isForest.extends_of_step step)⟩)
    requests [] registry ⟨reachable, .refl registry⟩
  exact grown.2

/-! ## The entries -/

/-- The declarations with their identities, in registration order. -/
def entries (registry : Registry) : List (DeclId × Declaration) :=
  registry.all.map fun node => (node.id, node.decl)

end Registry

/-- The entry that an exchange has made: a new identity, and the declaration that it was given
to. -/
def Exchange.entry? (exchange : Exchange) : Option (DeclId × Declaration) :=
  match exchange.request, exchange.answer with
  | .declare decl, .ok (some id) => some (id, decl)
  | _, _ => none

namespace Registry

theorem IsForest.entries_add {registry : Registry} (forest : registry.IsForest)
    (decl : Declaration) :
    (registry.add decl).entries = registry.entries ++ [(registry.nextId, decl)] := by
  have hkept : ∀ node : Node, ((node.gaining decl registry.nextId).id,
      (node.gaining decl registry.nextId).decl) = (node.id, node.decl) := fun node => by
    rw [Node.id_gaining, Node.decl_gaining]
  rw [entries, forest.map_all_add decl hkept, id_newNode, decl_newNode, entries]

end Registry

namespace Filling

open Registry (entries)

/-- A request makes the entry that its answer tells, and no other. -/
theorem entries_serve {conversions : Conversions Id} {registry : Registry}
    (forest : registry.IsForest) (request : Request) :
    entries (serve conversions registry request).2 = entries registry ++
      (Exchange.entry? ⟨request, registry, (serve conversions registry request).1⟩).toList := by
  cases request with
  | declare decl =>
    rw [serve_declare]
    cases hout : outcome (registry.register conversions decl) with
    | ok new =>
      obtain ⟨-, hid, hgrown⟩ := (registry.register_eq_ok_iff conversions decl _ _).1 hout
      show entries new.2 = entries registry ++ [(new.1, decl)]
      rw [hid, hgrown, forest.entries_add]
    | error e => exact (List.append_nil _).symm
  | announce name =>
    have hnone : ∀ answer, Exchange.entry? ⟨.announce name, registry, answer⟩ = none :=
      fun _ => rfl
    rw [hnone, Option.toList_none, List.append_nil, serve_announce]
    cases hannounce : registry.announce name with
    | ok next =>
      rcases Registry.announce_eq_ok_iff.1 hannounce with ⟨-, rfl⟩ | ⟨-, rfl⟩ <;> rfl
    | error e => rfl

/-- **The entries of a session**, after those from before, in the order of the answers. -/
theorem entries_session {conversions : Conversions Id} {registry : Registry}
    (reachable : registry.Reachable conversions) (requests : List Request) :
    entries (registry.run conversions requests) = entries registry ++
      (session conversions registry requests).1.filterMap Exchange.entry? := by
  induction requests generalizing registry with
  | nil => exact (List.append_nil _).symm
  | cons request rest ih =>
    have hnext := reachable.run [request]
    rw [Registry.run_cons, Registry.run_nil] at hnext
    rw [Registry.run_cons, ih hnext, ← serve_snd, entries_serve reachable.isForest,
      List.append_assoc, session, List.filterMap_cons]
    cases Exchange.entry? ⟨request, registry, (serve conversions registry request).1⟩ <;> rfl

end Filling

namespace Registry

theorem length_entries (registry : Registry) : registry.entries.length = registry.size := by
  rw [entries, List.length_map, length_all]

/-- The identities of the entries are their places. -/
theorem IsForest.map_position_entries {registry : Registry} (forest : registry.IsForest) :
    registry.entries.map (fun entry => entry.1.position) = List.range registry.size := by
  rw [entries, List.map_map]
  exact forest.map_position_all

/-- **Nothing that is registered is lost or changed.**  From any registry that is reached by
requests, further requests, granted or not, lead to one that extends it: every declaration keeps its
place, its seed and its depth and may only gain overrides, the list of seeds is continued, and a
name that finds a declaration finds it again.  So the ancestors of a declaration, its seed and what
is an ancestor of it stay the same.

The registry holds the declarations that were registered, each with the identity that its request
was answered with, in the order of the answers.  These identities count on from the number of
declarations that are there, and there are never more than identities. -/
theorem run_only_appends (conversions : Conversions Id) (requests further : List Request) :
    let registry := empty.run conversions requests
    let later := registry.run conversions further
    let made := (Filling.session conversions registry further).1.filterMap Exchange.entry?
    registry.Extends later ∧
    (∀ name node, registry.find? name = some node →
      ∃ grown, later.find? name = some grown ∧ node.GrowsTo grown) ∧
    (∀ id, registry.node? id ≠ none →
      List.Forall₂ Node.GrowsTo (registry.ancestors id) (later.ancestors id) ∧
      (∃ seed grown, registry.seedOf? id = some seed ∧ later.seedOf? id = some grown ∧
        seed.GrowsTo grown) ∧
      ∀ above, later.isAncestorOrSelf above id = registry.isAncestorOrSelf above id) ∧
    registry.entries =
      (Filling.session conversions empty requests).1.filterMap Exchange.entry? ∧
    later.entries = registry.entries ++ made ∧
    made.map (fun entry => entry.1.position) = List.range' registry.size made.length ∧
    registry.size + made.length ≤ UInt32.size := by
  intro registry later made
  have start : empty.Reachable conversions := ⟨[], rfl⟩
  have reachable : registry.Reachable conversions := ⟨requests, rfl⟩
  have extension : registry.Extends later := reachable.extends_run further
  have forest : registry.IsForest := reachable.isForest
  have laterForest : later.IsForest := (reachable.run further).isForest
  have hentries : later.entries = registry.entries ++ made :=
    Filling.entries_session reachable further
  have hsize : later.size = registry.size + made.length := by
    rw [← length_entries, hentries, List.length_append, length_entries]
  refine ⟨extension, fun name node => extension.find?, fun id known => ⟨?_, ?_, ?_⟩,
    Filling.entries_session start requests, hentries, ?_, hsize ▸ laterForest.room⟩
  · exact extension.ancestors forest laterForest known
  · exact extension.seedOf? forest known
  · exact extension.isAncestorOrSelf forest laterForest known
  · -- the places of all entries, less those of the old ones
    have hplaces := laterForest.map_position_entries
    rw [hentries, List.map_append, forest.map_position_entries, hsize, List.range_add,
      ← List.range'_eq_map_range] at hplaces
    exact List.append_cancel_left hplaces

/-- A declaration is registered below the deepest one, one is refused because its name is taken, and
a function is announced. -/
def furtherRequests : List Request :=
  [.declare { space := .global, parent := some ⟨3⟩ },
    .declare { space := .global, name := some "f", parent := some ⟨2⟩ },
    .announce ⟨.global, "h"⟩,
    .declare { space := .global, parent := some ⟨0⟩ }]

/-- The two new declarations come after the six old ones, the first seed is found by its name with
one override more, and the deepest of the old declarations has the same ancestors. -/
theorem run_only_appends_furtherRequests :
    let registry := empty.run .identity twoLineages
    let later := registry.run .identity furtherRequests
    (∃ grown, later.find? ⟨.global, "f"⟩ = some grown ∧ grown.depth = 0 ∧
      [⟨1⟩, ⟨4⟩] <+: grown.overrides) ∧
    (later.ancestors ⟨3⟩).length = 3 ∧
    later.isAncestorOrSelf ⟨0⟩ ⟨3⟩ = true ∧
    ((Filling.session .identity registry furtherRequests).1.filterMap Exchange.entry?).map
      (fun entry => entry.1.position) = [6, 7] := by
  intro registry later
  obtain ⟨-, found, kept, -, -, places, -⟩ :=
    run_only_appends .identity twoLineages furtherRequests
  obtain ⟨node, hnode, hdepth, hoverrides⟩ : ∃ node, registry.find? ⟨.global, "f"⟩ = some node ∧
      node.depth = 0 ∧ node.overrides = [⟨1⟩, ⟨4⟩] := ⟨_, rfl, rfl, rfl⟩
  obtain ⟨grown, hgrown, growth⟩ := found _ node hnode
  obtain ⟨sameAncestors, -, sameOrder⟩ := kept ⟨3⟩ (by decide)
  refine ⟨⟨grown, hgrown, growth.depth.trans hdepth, hoverrides ▸ growth.overrides⟩, ?_, ?_, ?_⟩
  · exact sameAncestors.length_eq.symm.trans (by decide)
  · exact (sameOrder ⟨0⟩).trans (by decide)
  · exact places.trans (by decide +kernel)

end Registry
end CustomizationPoints
