import CustomizationPoints.Proofs.Call.ByName
import CustomizationPoints.Proofs.Registry.Ancestry
import CustomizationPoints.Proofs.Registry.WellFormed
import Mathlib.Tactic.TFAE

/-!
# Where a tree can be entered

A call enters at a declaration with a name, and from there it goes down.  So a tree can be called
as a whole if its seed has a name: the name leads to the seed, and every declaration of the tree
is the seed or stands below it.  Without a name the seed is found under no name, is refused as an
entry, and nothing else leads to it (`tfae_named_seed`).

## Seeds without a name

The library speaks of named seeds, and of overrides with or without a name.  Registration asks
whether a name is free, but never whether there is one, and so it takes a declaration without a
parent and without a name like any other (`exists_attempt_unnamed_iff`).  That every tree can be
called is therefore no property of the registry.  It depends on the declarations that were handed
over, and `enterable_iff_named_seeds` says how.
-/

namespace CustomizationPoints

namespace Registry

/-- A call may enter at the declaration or at one above it. -/
def Enterable (registry : Registry) (node : Node) : Prop :=
  ∃ entry, registry.isAncestorOrSelf entry.id node.id = true ∧
    registry.entryPoint entry.id = .ok entry

/-! ## One tree -/

section Seed

variable {registry : Registry} {announced : Set QualifiedName} (forest : registry.IsForest)
  {seed : Node} (hseed : seed ∈ registry.all)

include forest hseed

/-- The seed is above everything in its tree. -/
theorem isAncestorOrSelf_seed {node : Node} (h : node ∈ registry.all)
    (hid : node.seed = seed.id) : registry.isAncestorOrSelf seed.id node.id = true := by
  obtain ⟨start, below, hstart, hroot, hsame, links, rfl⟩ := forest.exists_isChain h
  obtain rfl := forest.eq_of_id_eq hstart hseed (hsame.trans hid)
  refine isAncestorOrSelf_iff.2 ⟨start, ?_, rfl⟩
  rw [forest.ancestors_of_seed_isChain hstart hroot links]
  exact List.mem_reverse.2 List.mem_cons_self

/-- A seed can be entered at itself only. -/
theorem enterable_seed_iff (hroot : seed.decl.parent = none) :
    registry.Enterable seed ↔ seed.decl.name ≠ none := by
  constructor
  · rintro ⟨entry, habove, enters⟩
    obtain ⟨above, hmem, hid⟩ := isAncestorOrSelf_iff.1 habove
    rw [forest.ancestors_of_seed hseed hroot, List.mem_singleton] at hmem
    obtain ⟨registered, named⟩ := entryPoint_eq_ok_iff.1 enters
    rw [← hid, hmem, forest.node?_id hseed] at registered
    rwa [← Option.some.inj registered] at named
  · intro named
    refine ⟨seed, isAncestorOrSelf_seed forest hseed hseed ?_, ?_⟩
    · exact (forest.root seed hseed hroot).1
    · exact entryPoint_of_named (forest.node?_id hseed) named

/-- **A tree can be called if its seed has a name**, and otherwise it cannot: then the seed is
found under no name and its calls are refused. -/
theorem tfae_named_seed (agree : registry.NamesAgree announced)
    (hroot : seed.decl.parent = none) : List.TFAE [
      seed.decl.name ≠ none,
      ∃ name, registry.find? name = some seed,
      ∀ {m : Type → Type} [Monad m] [LawfulMonad m] (oracle : Oracle m)
        (classes : ClassHierarchy m) (arguments : List HostType),
        FailsOnly (·.isNoEntry = false) (registry.resolve oracle classes seed.id arguments),
      ∀ node ∈ registry.all, node.seed = seed.id → registry.Enterable node] := by
  have hown : seed.seed = seed.id := (forest.root seed hseed hroot).1
  tfae_have 1 → 2 := by
    intro named
    obtain ⟨name, hname⟩ := Option.ne_none_iff_exists'.1 named
    refine ⟨⟨seed.decl.space, name⟩, (agree.find?_eq_some_iff forest).2 ⟨hseed, ?_⟩⟩
    rw [Declaration.qualifiedName?, hname, Option.map_some]
  tfae_have 2 → 3 := by
    rintro ⟨name, found⟩ m _ _ oracle classes arguments
    have bears : registry.Bears name seed := (agree.find?_eq_some_iff forest).1 found
    exact failsOnly_resolve (bears.entryPoint_eq forest) oracle classes arguments
  tfae_have 3 → 1 := by
    intro enters hname
    have refused : outcome (registry.resolve latestFirst ⟨fun _ => [], fun _ => none⟩ seed.id
        []) = .error (.unnamedEntryPoint seed.id) :=
      resolve_of_unnamed (forest.node?_id hseed) hname
    exact Bool.false_ne_true
      ((enters latestFirst ⟨fun _ => [], fun _ => none⟩ []).of_outcome refused).symm
  tfae_have 1 → 4 := by
    intro named node hnode hid
    exact ⟨seed, isAncestorOrSelf_seed forest hseed hnode hid,
      entryPoint_of_named (forest.node?_id hseed) named⟩
  tfae_have 4 → 1 := fun enterable =>
    (enterable_seed_iff forest hseed hroot).1 (enterable seed hseed hown)
  tfae_finish

end Seed

/-! ## All trees -/

/-- **Registration does not ask a seed for a name.**  Without one, a declaration that overrides
nothing is refused only if it is without a body and closed to overrides, or if there is no identity
left for it. -/
theorem exists_attempt_unnamed_iff {registry : Registry} {conversions : Conversions Id}
    {decl : Declaration} (hroot : decl.parent = none) (hname : decl.name = none) :
    (∃ next, registry.attempt conversions (.declare decl) = .ok next) ↔
      ¬(decl.isPure = true ∧ decl.isFinal = true) ∧ registry.size < UInt32.size := by
  simp only [attempt_eq_ok_iff]
  constructor
  · rintro ⟨next, step⟩
    cases step with
    | declare admits => exact ⟨admits.body, admits.room⟩
  · rintro ⟨body, room⟩
    refine ⟨_, .declare ⟨fun id hid => ?_, fun name hfull => ?_, body, room⟩⟩
    · exact absurd (hroot.symm.trans hid) (Option.some_ne_none id).symm
    · rw [Declaration.qualifiedName?, hname, Option.map_none] at hfull
      exact absurd hfull (Option.some_ne_none name).symm

/-- **Which trees can be called.**  After every run, a tree can be called as a whole exactly if its
seed has a name: exactly then the seed is found under a name, no call of it is refused at its entry,
whatever the host, and everything in the tree can be entered at itself or above.

A name is not asked for: an unnamed seed is registered under the conditions that hold for every
seed.  So everything registered can be entered at itself or above if and only if no declaration
without a parent and without a name was handed over and taken. -/
theorem enterable_iff_named_seeds (conversions : Conversions Id) (requests : List Request) :
    let registry := empty.run conversions requests
    (∀ seed ∈ registry.all, seed.decl.parent = none → List.TFAE [
      seed.decl.name ≠ none,
      ∃ name, registry.find? name = some seed,
      ∀ {m : Type → Type} [Monad m] [LawfulMonad m] (oracle : Oracle m)
        (classes : ClassHierarchy m) (arguments : List HostType),
        FailsOnly (·.isNoEntry = false) (registry.resolve oracle classes seed.id arguments),
      ∀ node ∈ registry.all, node.seed = seed.id → registry.Enterable node]) ∧
    (∀ decl : Declaration, decl.parent = none → decl.name = none →
      ((∃ next, registry.attempt conversions (.declare decl) = .ok next) ↔
        ¬(decl.isPure = true ∧ decl.isFinal = true) ∧ registry.size < UInt32.size)) ∧
    ((∀ node ∈ registry.all, registry.Enterable node) ↔
      ∀ decl, .declare decl ∈ empty.granted conversions requests → decl.parent = none →
        decl.name ≠ none) := by
  intro registry
  have forest : registry.IsForest := Reachable.isForest ⟨requests, rfl⟩
  have trees := fun seed (hseed : seed ∈ registry.all) =>
    tfae_named_seed forest hseed (namesAgree_run conversions requests)
  have hgranted : ∀ decl, .declare decl ∈ empty.granted conversions requests ↔
      ∃ node ∈ registry.all, node.decl = decl := by
    intro decl
    rw [← Request.mem_declared, ← declarations_run, mem_declarations]
  refine ⟨trees, fun decl => exists_attempt_unnamed_iff, ?_⟩
  simp only [hgranted]
  constructor
  · rintro enterable _ ⟨seed, hseed, rfl⟩ hroot
    exact (enterable_seed_iff forest hseed hroot).1 (enterable seed hseed)
  · intro named node hnode
    obtain ⟨seed, hseed, hid, hroot⟩ := forest.exists_seed hnode
    have whole := ((trees seed hseed hroot).out 0 3).1 (named _ ⟨seed, hseed, rfl⟩ hroot)
    exact whole node hnode hid.symm

/-- Two trees.  The seed of the first has no name, and one of its overrides has one; the seed of
the second has a name. -/
def namelessSeed : List Request :=
  [.declare { space := .global },
    .declare { space := .global, name := some "f", parent := some ⟨0⟩ },
    .declare { space := .global, name := some "g" },
    .declare { space := .global, parent := some ⟨2⟩ }]

/-- The override of the named seed can be entered above itself.  The seed without a name is found
under no name, and not everything in the registry can be entered. -/
theorem enterable_iff_named_seeds_namelessSeed :
    let registry := empty.run .identity namelessSeed
    (∀ node ∈ registry.all, node.seed = ⟨2⟩ → registry.Enterable node) ∧
    (∃ seed ∈ registry.all, seed.id = ⟨0⟩ ∧ ∀ name, registry.find? name ≠ some seed) ∧
    (∃ node ∈ registry.all, ¬registry.Enterable node) := by
  intro registry
  obtain ⟨trees, -, whole⟩ := enterable_iff_named_seeds .identity namelessSeed
  obtain ⟨nameless, hnameless, hid, hroot, hname⟩ : ∃ node ∈ registry.all,
      node.id = ⟨0⟩ ∧ node.decl.parent = none ∧ node.decl.name = none := by decide
  obtain ⟨seed, hseed, hseedId, hseedRoot, hseedName⟩ : ∃ node ∈ registry.all,
      node.id = ⟨2⟩ ∧ node.decl.parent = none ∧ node.decl.name ≠ none := by decide
  have named_iff_enterable := (trees seed hseed hseedRoot).out 0 3
  have named_iff_found := (trees nameless hnameless hroot).out 0 1
  refine ⟨hseedId ▸ named_iff_enterable.1 hseedName,
    ⟨nameless, hnameless, hid, fun name found => named_iff_found.2 ⟨name, found⟩ hname⟩, ?_⟩
  by_contra all
  push Not at all
  exact whole.1 all { space := .global } (by decide) rfl rfl

/-- One granted registration is enough for a declaration that cannot be called at all. -/
theorem seed_without_name_refused :
    let requests := [Request.declare { space := .global }]
    let registry := empty.run .identity requests
    empty.granted .identity requests = requests ∧
    ∃ seed ∈ registry.all, seed.decl.parent = none ∧ seed.decl.name = none ∧
      outcome (registry.resolve latestFirst ⟨fun _ => [], fun _ => none⟩ seed.id []) =
        .error (.unnamedEntryPoint seed.id) ∧
      ∀ entry ∈ registry.ancestors seed.id, registry.entryPoint entry.id ≠ .ok entry := by
  decide

end Registry
end CustomizationPoints
