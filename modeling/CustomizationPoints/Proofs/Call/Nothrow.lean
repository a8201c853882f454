import CustomizationPoints.Proofs.Call.Conversion

/-!
# Calls that cannot throw

Three things can throw in a call: the target, the conversions of the arguments, and the conversion
of the result.  A call cannot throw if none of them can (`call_isNothrow_iff`).

## What the seed has to do with it

The seed's promise is not looked at when the effects of a call are worked out, and neither are
those of the declarations between the seed and the target: whatever they promise, the effects are
the same (`effects_respecified`).  But a seed that promises never to throw has only descendants that
promise the same, because registration compared each of them with the seed.  In such a tree the
target cannot throw, nobody is asked about a condition, and the conversions alone decide.
-/

namespace CustomizationPoints

/-! ## The promises of other declarations -/

/-- The declaration with another promise. -/
def Node.respecified (spec : DeclId → ExceptionSpec) (node : Node) : Node :=
  { node with decl := { node.decl with exceptions := spec node.id } }

/-- The same registry with other promises. -/
def Registry.respecified (registry : Registry) (spec : DeclId → ExceptionSpec) : Registry :=
  { registry with nodes := registry.nodes.map (Node.respecified spec) }

section Respecified

variable {spec : DeclId → ExceptionSpec}

@[simp] theorem Node.seed_respecified (node : Node) :
    (node.respecified spec).seed = node.seed := rfl

/-- A declaration that keeps its promise is the same. -/
theorem Node.respecified_eq_self {node : Node} (own : spec node.id = node.decl.exceptions) :
    node.respecified spec = node := by
  rw [respecified, own]

theorem Registry.node?_respecified (registry : Registry) (id : DeclId) :
    (registry.respecified spec).node? id = (registry.node? id).map (Node.respecified spec) :=
  Array.getElem?_map

theorem Registry.seedOf?_respecified (registry : Registry) (id : DeclId) :
    (registry.respecified spec).seedOf? id = (registry.seedOf? id).map (Node.respecified spec) := by
  rw [seedOf?, seedOf?, node?_respecified]
  cases registry.node? id with
  | none => rfl
  | some node =>
    rw [Option.map_some, Option.bind_some, Option.bind_some, Node.seed_respecified,
      node?_respecified]

/-- **The promises of other declarations play no part** in the effects of a call. -/
theorem Registry.effects_respecified {registry : Registry} (oracle : Oracle Id)
    (conversions : Conversions Id) (policy : CallPolicy) {id : DeclId} {target seed : Node}
    (h : registry.withSeed id = .ok (target, seed)) (own : target.respecified spec = target)
    (site : CallSite) :
    outcome ((registry.respecified spec).effects oracle conversions policy id site) =
      outcome (registry.effects oracle conversions policy id site) := by
  obtain ⟨htarget, hseed⟩ := withSeed_eq_ok_iff.1 h
  have hsame : (registry.respecified spec).withSeed id = .ok (target, seed.respecified spec) := by
    rw [withSeed_eq_ok_iff, node?_respecified, seedOf?_respecified, htarget, hseed,
      Option.map_some, own]
    exact ⟨rfl, rfl⟩
  -- the conversion of the result reads the return type of the seed and nothing else of it
  rw [outcome_effects h, outcome_effects hsame]
  rfl

end Respecified

/-! ## What decides -/

/-- The declaration promises not to throw in a call with these arguments, if need be because the
host says that its condition holds. -/
def Oracle.Promises (oracle : Oracle Id) (target : Node) (arguments : List HostType) : Prop :=
  target.decl.exceptions = .nothrow ∨ ∃ condition,
    target.decl.exceptions = .conditional condition ∧
      oracle.promiseHolds target condition arguments = true

theorem Oracle.isNothrow_eq_true_iff {oracle : Oracle Id} {target : Node}
    {arguments : List HostType} :
    (oracle.isNothrow target arguments).run = true ↔ oracle.Promises target arguments := by
  unfold isNothrow Promises
  cases target.decl.exceptions with
  | nothrow => simp
  | mayThrow => simp
  | conditional condition =>
    constructor
    · exact fun holds => Or.inr ⟨condition, rfl, holds⟩
    · rintro (promised | ⟨_, ⟨⟩, holds⟩)
      · exact nomatch promised
      · exact holds

/-- No conversion of a call can throw: none of those of its arguments, and not that of its result,
if there is one. -/
structure Engine.ConvertsNothrow (engine : Engine Id) (site : CallSite) (seed target : Node) :
    Prop where
  arguments : ∀ step ∈ site.conversions, step.isNothrow = true
  result : ∀ source goal, Converts engine.settings.callPolicy seed target source goal →
    engine.conversions.nothrow source goal = true

/-- Below a seed that never throws, nothing throws. -/
theorem Registry.IsChecked.nothrow_of_seed {conversions : Conversions Id} {registry : Registry}
    (checked : registry.IsChecked conversions) (forest : registry.IsForest) {id : DeclId}
    {target seed : Node} (h : registry.withSeed id = .ok (target, seed))
    (promised : seed.decl.exceptions = .nothrow) : target.decl.exceptions = .nothrow := by
  obtain ⟨htarget, -, hseed, hid⟩ := mem_of_withSeed forest h
  exact (checked.agrees target htarget seed hseed hid).nothrow promised

namespace Engine

/-- **When a call cannot throw.**  Let a call succeed, in a reachable registry.

* In a tree whose seed never throws, the call cannot throw if none of its conversions can.
* In every tree, the call cannot throw if none of its conversions can and the target promises not
  to.
* What other declarations promise makes no difference to the effects of the call. -/
theorem call_isNothrow_iff {conversions : Conversions Id} (engine : Engine Id)
    (reachable : engine.registry.Reachable conversions) {root : DeclId} {site : CallSite}
    {done : ResolvedCall} (h : outcome (engine.call root site) = .ok done) :
    ∃ target seed, engine.registry.node? done.resolution.target = some target ∧
      engine.registry.seedOf? done.resolution.target = some seed ∧
      (seed.decl.exceptions = .nothrow →
        (done.effects.isNothrow = true ↔ engine.ConvertsNothrow site seed target)) ∧
      (done.effects.isNothrow = true ↔
        engine.ConvertsNothrow site seed target ∧ engine.oracle.Promises target site.arguments) ∧
      ∀ spec : DeclId → ExceptionSpec, spec target.id = target.decl.exceptions →
        outcome (({ engine with registry := engine.registry.respecified spec } : Engine Id).effects
          done.resolution.target site) = .ok done.effects := by
  have forest : engine.registry.IsForest := reachable.isForest
  obtain ⟨hresolved, heffects⟩ := outcome_call_eq_ok_iff.1 h
  obtain ⟨target, seed, hseed, hcall⟩ := outcome_call_of_resolved forest hresolved
  obtain ⟨htarget, hseedOf⟩ := Registry.withSeed_eq_ok_iff.1 hseed
  obtain ⟨conversion, hconversion, hdone⟩ := map_eq_ok_iff.1 (hcall.symm.trans h)
  have decides : done.effects.isNothrow = true ↔
      engine.ConvertsNothrow site seed target ∧ engine.oracle.Promises target site.arguments := by
    rw [← hdone, CallEffects.through, Bool.and_eq_true, Bool.and_eq_true,
      Oracle.isNothrow_eq_true_iff, List.all_eq_true, returnIsNothrow_iff hconversion]
    exact ⟨fun ⟨⟨promises, arguments⟩, result⟩ => ⟨⟨arguments, result⟩, promises⟩,
      fun ⟨⟨arguments, result⟩, promises⟩ => ⟨⟨promises, arguments⟩, result⟩⟩
  refine ⟨target, seed, htarget, hseedOf, fun promised => ?_, decides, fun spec own => ?_⟩
  · have nothrow := reachable.isChecked.nothrow_of_seed forest hseed promised
    exact decides.trans (and_iff_left (Or.inl nothrow))
  · rw [← heffects]
    exact Registry.effects_respecified _ _ _ hseed (Node.respecified_eq_self own) site

/-- A seed that may throw, with an override that promises not to under a condition. -/
def conditionalTree : List Request :=
  [.declare { space := .global, name := some "f" },
    .declare
      { space := .global, name := some "g", parent := some ⟨0⟩,
        exceptions := .conditional "narrow" }]

/-- An engine over this tree, with a host for which the condition holds if the narrower type is
among the arguments. -/
def conditionalEngine : Engine Id :=
  ofHost (Registry.empty.run .identity conditionalTree)
    { Registry.latestFirst with
      promiseHolds := fun _ _ arguments => decide (.narrow ∈ arguments) }
    ⟨fun _ => [], fun _ => none⟩

/-- In a tree whose seed never throws, a call that is forwarded may throw on account of the
conversion of its result.  Called directly, the same override cannot throw.  In a tree whose seed
may throw, the condition of the target decides: it holds of one call and not of another. -/
theorem call_isNothrow_iff_sampleTrees :
    (∃ done, outcome ((wideningEngine .widening .forwarding).call ⟨0⟩ {}) = .ok done ∧
      ¬done.effects.isNothrow = true) ∧
    (∃ done, outcome ((wideningEngine .widening .flatOverloadSet).call ⟨0⟩ {}) = .ok done ∧
      done.effects.isNothrow = true) ∧
    (∃ done, outcome (conditionalEngine.call ⟨0⟩ { arguments := [.narrow] }) = .ok done ∧
      done.effects.isNothrow = true) ∧
    ∃ done, outcome (conditionalEngine.call ⟨0⟩ { arguments := [.wide] }) = .ok done ∧
      ¬done.effects.isNothrow = true := by
  have reachable : (Registry.empty.run .widening wideningTree).Reachable .widening :=
    ⟨wideningTree, rfl⟩
  have reachable' : conditionalEngine.registry.Reachable .identity := ⟨conditionalTree, rfl⟩
  refine ⟨?_, ?_, ?_, ?_⟩
  · obtain ⟨done, called, hid⟩ : ∃ done, outcome ((wideningEngine .widening .forwarding).call
        ⟨0⟩ {}) = .ok done ∧ done.resolution.target = ⟨1⟩ := ⟨_, rfl, rfl⟩
    obtain ⟨target, seed, htarget, hseed, decides, -⟩ := call_isNothrow_iff _ reachable called
    rw [hid] at htarget hseed
    cases htarget
    cases hseed
    refine ⟨done, called, fun nothrow => ?_⟩
    have result := ((decides rfl).1 nothrow).result .narrow .wide ⟨rfl, rfl, rfl, by decide⟩
    exact nomatch result
  · obtain ⟨done, called, hid⟩ : ∃ done, outcome ((wideningEngine .widening .flatOverloadSet).call
        ⟨0⟩ {}) = .ok done ∧ done.resolution.target = ⟨1⟩ := ⟨_, rfl, rfl⟩
    obtain ⟨target, seed, htarget, hseed, decides, -⟩ := call_isNothrow_iff _ reachable called
    rw [hid] at htarget hseed
    cases htarget
    cases hseed
    refine ⟨done, called, (decides rfl).2 ⟨fun step hstep => ?_, fun source goal converts => ?_⟩⟩
    · exact absurd hstep List.not_mem_nil
    · exact nomatch converts.forwarded
  · obtain ⟨done, called, hid⟩ : ∃ done, outcome (conditionalEngine.call ⟨0⟩
        { arguments := [.narrow] }) = .ok done ∧ done.resolution.target = ⟨1⟩ := ⟨_, rfl, rfl⟩
    obtain ⟨target, seed, htarget, hseed, -, decides, -⟩ := call_isNothrow_iff _ reachable' called
    rw [hid] at htarget hseed
    cases htarget
    cases hseed
    refine ⟨done, called, decides.2
      ⟨⟨fun step hstep => ?_, fun source goal converts => ?_⟩, Or.inr ⟨"narrow", rfl, rfl⟩⟩⟩
    · exact absurd hstep List.not_mem_nil
    · exact nomatch converts.expected
  · obtain ⟨done, called, hid⟩ : ∃ done, outcome (conditionalEngine.call ⟨0⟩
        { arguments := [.wide] }) = .ok done ∧ done.resolution.target = ⟨1⟩ := ⟨_, rfl, rfl⟩
    obtain ⟨target, seed, htarget, hseed, -, decides, -⟩ := call_isNothrow_iff _ reachable' called
    rw [hid] at htarget hseed
    cases htarget
    cases hseed
    refine ⟨done, called, fun nothrow => ?_⟩
    obtain ⟨-, promised | ⟨condition, -, holds⟩⟩ := decides.1 nothrow
    · exact nomatch promised
    · exact nomatch holds

end Engine
end CustomizationPoints
