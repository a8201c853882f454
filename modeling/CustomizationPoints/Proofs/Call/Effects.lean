import CustomizationPoints.Engine
import CustomizationPoints.Proofs.Call.Outcome

/-!
# What the effects of a call depend on

The effects of a call are worked out from its target and from the seed of the target's tree, which
is registered whenever the target is (`Registry.withSeed_of_mem`).

There is one case in which the host has a say in what happens to the result: the call is
forwarded, and the two return types are spelled out and differ (`Converts`).  In all other
cases the result is handed out as it is, and that cannot throw.

## With a plain host

So a call that has been resolved can fail in one way only: there is something to convert, and the
host refuses (`outcome_returnConversion_eq_error_iff`).  If it does not fail, then its effects
are those of `CallEffects.through`, and the conversion of the result cannot throw if the host
says so wherever there is something to convert (`returnIsNothrow_iff`).
-/

namespace CustomizationPoints

/-! ## The target and its seed -/

theorem Registry.withSeed_eq_ok_iff {registry : Registry} {id : DeclId} {node seed : Node} :
    registry.withSeed id = .ok (node, seed) ↔
      registry.node? id = some node ∧ registry.seedOf? id = some seed := by
  unfold withSeed
  cases registry.node? id with
  | none => simp
  | some known => cases registry.seedOf? id <;> simp

/-- A registered declaration has a registered seed. -/
theorem Registry.withSeed_of_mem {registry : Registry} (forest : registry.IsForest) {node : Node}
    (h : node ∈ registry.all) :
    ∃ seed, registry.node? node.seed = some seed ∧
      registry.withSeed node.id = .ok (node, seed) := by
  obtain ⟨seed, hseed, hid, -⟩ := forest.exists_seed h
  have hnode : registry.node? node.seed = some seed := by rw [← hid, forest.node?_id hseed]
  refine ⟨seed, hnode, ?_⟩
  rw [withSeed, forest.node?_id h, seedOf?, forest.node?_id h, Option.bind_some, hnode]

/-- The two are registered, and the seed is that of the declaration's tree. -/
theorem Registry.mem_of_withSeed {registry : Registry} (forest : registry.IsForest) {id : DeclId}
    {node seed : Node} (h : registry.withSeed id = .ok (node, seed)) :
    node ∈ registry.all ∧ node.id = id ∧ seed ∈ registry.all ∧ seed.id = node.seed := by
  obtain ⟨hnode, hseed⟩ := withSeed_eq_ok_iff.1 h
  rw [seedOf?, hnode, Option.bind_some] at hseed
  obtain ⟨hmem, hid⟩ := forest.node?_eq_some_iff.1 hnode
  obtain ⟨hseedMem, hseedId⟩ := forest.node?_eq_some_iff.1 hseed
  exact ⟨hmem, hid, hseedMem, hseedId⟩

/-! ## The result -/

/-- A forwarded result is converted if both return types are spelled out and differ. -/
structure Converts (policy : CallPolicy) (seed target : Node) (source goal : HostType) : Prop where
  forwarded : policy = .forwarding
  found : target.decl.returnType = .concrete source
  expected : seed.decl.returnType = .concrete goal
  differ : source ≠ goal

section AnyHost

variable {m : Type → Type} [Monad m] (conversions : Conversions m) {policy : CallPolicy}
  {seed target : Node}

/-- Where there is nothing to convert, nobody is asked. -/
theorem returnConversion_of_stays
    (stays : ∀ source goal, ¬Converts policy seed target source goal) :
    ∃ conversion, conversions.returnConversion policy seed target = pure conversion ∧
      conversions.returnIsNothrow conversion = pure true := by
  unfold Conversions.returnConversion
  cases hpolicy : policy with
  | flatOverloadSet => exact ⟨_, rfl, rfl⟩
  | forwarding =>
    dsimp only
    cases hseed : seed.decl.returnType with
    | deduced constraint => exact ⟨_, rfl, rfl⟩
    | concrete goal =>
      cases htarget : target.decl.returnType with
      | deduced constraint => exact ⟨_, rfl, rfl⟩
      | concrete source =>
        by_cases hsame : source = goal
        · exact ⟨.identity goal, if_pos hsame, rfl⟩
        · exact absurd ⟨hpolicy, htarget, hseed, hsame⟩ (stays source goal)

/-- Where there is something to convert, the host is asked whether it can be. -/
theorem returnConversion_of_converts {source goal : HostType}
    (converts : Converts policy seed target source goal) :
    conversions.returnConversion policy seed target = (do
      unless ← conversions.implicit source goal do
        throw (.returnNotConvertible target.id target.displayName source goal)
      return .implicit source goal) := by
  obtain ⟨rfl, found, expected, differ⟩ := converts
  unfold Conversions.returnConversion
  dsimp only
  rw [expected, found]
  exact if_neg differ

end AnyHost

section PlainHost

variable {conversions : Conversions Id} {policy : CallPolicy} {seed target : Node}

/-- There is one conversion to make, if there is any. -/
theorem Converts.unique {source goal source' goal' : HostType}
    (h : Converts policy seed target source goal)
    (other : Converts policy seed target source' goal') : source' = source ∧ goal' = goal :=
  ⟨ReturnType.concrete.inj (other.found.symm.trans h.found),
    ReturnType.concrete.inj (other.expected.symm.trans h.expected)⟩

theorem outcome_returnConversion_of_converts {source goal : HostType}
    (converts : Converts policy seed target source goal) :
    outcome (conversions.returnConversion policy seed target) =
      if (conversions.implicit source goal).run then .ok (.implicit source goal)
      else .error (.returnNotConvertible target.id target.displayName source goal) := by
  rw [returnConversion_of_converts conversions converts, liftM_eq_lift, outcome_lift_bind]
  cases (conversions.implicit source goal).run <;> rfl

/-- **A result is refused** if there is something to convert that the host does not convert, and
only then. -/
theorem outcome_returnConversion_eq_error_iff {e : CallError} :
    outcome (conversions.returnConversion policy seed target) = .error e ↔
      ∃ source goal, Converts policy seed target source goal ∧
        conversions.implicit source goal = false ∧
        e = .returnNotConvertible target.id target.displayName source goal := by
  by_cases h : ∃ source goal, Converts policy seed target source goal
  · obtain ⟨source, goal, converts⟩ := h
    rw [outcome_returnConversion_of_converts converts]
    constructor
    · intro hout
      split at hout
      next => exact nomatch hout
      next refused =>
        exact ⟨source, goal, converts, Bool.eq_false_of_not_eq_true refused,
          (Except.error.inj hout).symm⟩
    · rintro ⟨source', goal', other, refused, rfl⟩
      obtain ⟨rfl, rfl⟩ := converts.unique other
      exact if_neg (ne_true_of_eq_false refused)
  · obtain ⟨conversion, hconversion, -⟩ := returnConversion_of_stays conversions
      fun source goal converts => h ⟨source, goal, converts⟩
    rw [hconversion, outcome_pure]
    exact ⟨fun hout => (nomatch hout), fun ⟨source, goal, converts, _⟩ =>
      (h ⟨source, goal, converts⟩).elim⟩

/-- **The conversion of a result cannot throw** if the host says so wherever there is something to
convert. -/
theorem returnIsNothrow_iff {conversion : ReturnConversion}
    (h : outcome (conversions.returnConversion policy seed target) = .ok conversion) :
    (conversions.returnIsNothrow conversion).run = true ↔
      ∀ source goal, Converts policy seed target source goal →
        conversions.nothrow source goal = true := by
  by_cases hconverts : ∃ source goal, Converts policy seed target source goal
  · obtain ⟨source, goal, converts⟩ := hconverts
    rw [outcome_returnConversion_of_converts converts] at h
    split at h
    next =>
      cases h
      constructor
      · intro nothrow source' goal' other
        obtain ⟨rfl, rfl⟩ := converts.unique other
        exact nothrow
      · exact fun nothrow => nothrow source goal converts
    next => exact nomatch h
  · have stays : ∀ source goal, ¬Converts policy seed target source goal :=
      fun source goal converts => hconverts ⟨source, goal, converts⟩
    obtain ⟨other, hother, nothrow⟩ := returnConversion_of_stays conversions stays
    rw [hother, outcome_pure] at h
    cases h
    rw [nothrow]
    exact ⟨fun _ source goal converts => (stays source goal converts).elim, fun _ => rfl⟩

end PlainHost

/-! ## The effects -/

/-- The effects of a call of `target`, registered as `id`, whose result goes through
`conversion`. -/
def CallEffects.through (oracle : Oracle Id) (conversions : Conversions Id) (id : DeclId)
    (target : Node) (site : CallSite) (conversion : ReturnConversion) : CallEffects where
  target := id
  resultType := conversion.resultType
  isNothrow := (oracle.isNothrow target site.arguments).run &&
    site.conversions.all (·.isNothrow) && (conversions.returnIsNothrow conversion).run
  returnConversion := conversion

/-- The effects of a call whose target and seed are known. -/
theorem Registry.effects_of_withSeed {m : Type → Type} [Monad m] [LawfulMonad m]
    {registry : Registry} {id : DeclId} {target seed : Node}
    (h : registry.withSeed id = .ok (target, seed)) (oracle : Oracle m)
    (conversions : Conversions m) (policy : CallPolicy) (site : CallSite) :
    registry.effects oracle conversions policy id site = (do
      let conversion ← conversions.returnConversion policy seed target
      let targetNothrow ← oracle.isNothrow target site.arguments
      let returnNothrow ← conversions.returnIsNothrow conversion
      return {
        target := id
        resultType := conversion.resultType
        isNothrow := targetNothrow && site.conversions.all (·.isNothrow) && returnNothrow
        returnConversion := conversion }) := by
  have hpair : (liftM (registry.withSeed id) : ExceptT CallError m (Node × Node)) =
      pure (target, seed) := by
    rw [h]
    rfl
  rw [effects, hpair, pure_bind]

theorem Registry.outcome_effects {registry : Registry} {oracle : Oracle Id}
    {conversions : Conversions Id} {policy : CallPolicy} {id : DeclId} {target seed : Node}
    (h : registry.withSeed id = .ok (target, seed)) (site : CallSite) :
    outcome (registry.effects oracle conversions policy id site) =
      (outcome (conversions.returnConversion policy seed target)).map
        (CallEffects.through oracle conversions id target site) := by
  rw [effects_of_withSeed h, outcome_bind]
  cases outcome (conversions.returnConversion policy seed target) with
  | error e => rfl
  | ok conversion => rfl

namespace Engine

/-- The effects of a call are those of its target. -/
theorem outcome_call (engine : Engine Id) (root : DeclId) (site : CallSite) :
    outcome (engine.call root site) =
      match outcome (engine.resolve root site.arguments) with
      | .ok resolution => (outcome (engine.effects resolution.target site)).map
          (ResolvedCall.mk resolution)
      | .error e => .error e := by
  rw [call, outcome_bind]
  cases outcome (engine.resolve root site.arguments) with
  | error e => rfl
  | ok resolution =>
    dsimp only
    rw [outcome_bind]
    cases outcome (engine.effects resolution.target site) <;> rfl

/-- A call succeeds if it is resolved and the effects of its target can be worked out. -/
theorem outcome_call_eq_ok_iff {engine : Engine Id} {root : DeclId} {site : CallSite}
    {done : ResolvedCall} : outcome (engine.call root site) = .ok done ↔
      outcome (engine.resolve root site.arguments) = .ok done.resolution ∧
        outcome (engine.effects done.resolution.target site) = .ok done.effects := by
  simp only [call, outcome_bind_eq_ok, outcome_pure]
  constructor
  · rintro ⟨resolution, hresolve, effects, heffects, ⟨⟩⟩
    exact ⟨hresolve, heffects⟩
  · rintro ⟨hresolve, heffects⟩
    exact ⟨_, hresolve, _, heffects, rfl⟩

/-- **A resolved call** is what the conversion of its result makes of it. -/
theorem outcome_call_of_resolved {engine : Engine Id} (forest : engine.registry.IsForest)
    {root : DeclId} {site : CallSite} {resolution : Resolution}
    (h : outcome (engine.resolve root site.arguments) = .ok resolution) :
    ∃ target seed, engine.registry.withSeed resolution.target = .ok (target, seed) ∧
      outcome (engine.call root site) =
        (outcome (engine.conversions.returnConversion engine.settings.callPolicy seed target)).map
          fun conversion => ⟨resolution, .through engine.oracle engine.conversions
            resolution.target target site conversion⟩ := by
  obtain ⟨target, hmem, hid⟩ := Registry.exists_target_of_ok forest h
  obtain ⟨seed, -, hseed⟩ := Registry.withSeed_of_mem forest hmem
  rw [hid] at hseed
  refine ⟨target, seed, hseed, ?_⟩
  rw [outcome_call, h]
  dsimp only
  rw [effects, Registry.outcome_effects hseed]
  cases outcome (engine.conversions.returnConversion engine.settings.callPolicy seed target) <;> rfl

end Engine
end CustomizationPoints
