import CustomizationPoints.Proofs.Call.ResultType

/-!
# The two call policies

A call can be made under either policy: forwarded through the seed of the tree, or made directly.
The policy is looked at in one place only, where it is decided what happens to the target's result.
So the two calls are resolved alike, and for a call that is not resolved the policy makes no
difference.

## What the conversion costs

A call that is resolved always succeeds if it is made directly: the result is handed out as it is.
Forwarding can only take something away (`forwarding_refines_direct`).  The call may be refused, and
it may throw where the direct call cannot, both on account of the conversion of its result.

Where nothing is converted, nothing is taken away.  The two calls then have results of the same type
and cannot throw under the same circumstances.  In a tree whose return types are deduced, this is
the case for all targets; in the others it is so for the targets that are declared with the seed's
type.
-/

namespace CustomizationPoints

/-! ## The conversion of the result -/

namespace Forwards

variable {seed target : Node} {conversion : ReturnConversion}

/-- The result comes out with the target's type if this is what the seed says as well, or if the
seed does not spell out a type. -/
theorem resultType_eq_iff (forwards : Forwards seed target conversion) :
    conversion.resultType = target.decl.returnType ↔
      target.decl.returnType = seed.decl.returnType ∨
      ∃ constraint, seed.decl.returnType = .deduced constraint := by
  cases forwards with
  | same found expected => simp [found, expected, ReturnConversion.resultType]
  | converted found expected differ =>
    simp [found, expected, differ, Ne.symm differ, ReturnConversion.resultType]
  | deduced found expected => simp [found, expected, ReturnConversion.resultType]

/-- A result that comes out with the target's type is not converted. -/
theorem converts_eq_false (forwards : Forwards seed target conversion)
    (h : conversion.resultType = target.decl.returnType) : conversion.converts = false := by
  cases forwards with
  | same found expected => rfl
  | converted found expected differ =>
    rw [found] at h
    exact absurd (ReturnType.concrete.inj h).symm differ
  | deduced found expected => rfl

end Forwards

theorem returnIsNothrow_of_not_converts {m : Type → Type} [Monad m] (conversions : Conversions m)
    {conversion : ReturnConversion} (h : conversion.converts = false) :
    conversions.returnIsNothrow conversion = pure true := by
  cases conversion with
  | implicit source goal => exact nomatch h
  | identity type => rfl
  | unconverted returnType => rfl

/-- Whatever happens to the result, the rest of the call throws alike. -/
theorem CallEffects.isNothrow_through (oracle : Oracle Id) (conversions : Conversions Id)
    (id : DeclId) (target : Node) (site : CallSite) (conversion : ReturnConversion)
    (returnType : ReturnType) :
    (through oracle conversions id target site conversion).isNothrow =
      ((through oracle conversions id target site (.unconverted returnType)).isNothrow &&
        (conversions.returnIsNothrow conversion).run) := by
  have unconverted : (conversions.returnIsNothrow (.unconverted returnType)).run = true := rfl
  rw [through, through, unconverted, Bool.and_true]

/-! ## The two calls -/

/-- How a call that is forwarded compares with the same call made directly. -/
structure ResolvedCall.Refines (seed target : Node) (forwarded direct : ResolvedCall) : Prop where
  sameResolution : forwarded.resolution = direct.resolution
  sameTarget : forwarded.effects.target = direct.effects.target
  nothrow : forwarded.effects.isNothrow = true → direct.effects.isNothrow = true
  /-- The types of the results agree if the target is declared with the seed's type, or if the
  types of the tree are deduced. -/
  sameResult_iff : forwarded.effects.resultType = direct.effects.resultType ↔
    target.decl.returnType = seed.decl.returnType ∨
      ∃ constraint, seed.decl.returnType = .deduced constraint
  sameNothrow : forwarded.effects.resultType = direct.effects.resultType →
    forwarded.effects.isNothrow = direct.effects.isNothrow

/-- The call that comes of forwarding refines the direct one. -/
theorem Forwards.refines {seed target : Node} {conversion : ReturnConversion}
    (forwards : Forwards seed target conversion) (oracle : Oracle Id)
    (conversions : Conversions Id) (resolution : Resolution) (site : CallSite) :
    ResolvedCall.Refines seed target
      ⟨resolution, .through oracle conversions resolution.target target site conversion⟩
      ⟨resolution, .through oracle conversions resolution.target target site
        (.unconverted target.decl.returnType)⟩ where
  sameResolution := rfl
  sameTarget := rfl
  nothrow := by
    rw [CallEffects.isNothrow_through oracle conversions _ target site conversion
      target.decl.returnType, Bool.and_eq_true]
    exact And.left
  sameResult_iff := forwards.resultType_eq_iff
  sameNothrow := by
    intro same
    have stays := forwards.converts_eq_false same
    rw [CallEffects.isNothrow_through oracle conversions _ target site conversion
      target.decl.returnType, returnIsNothrow_of_not_converts conversions stays]
    exact Bool.and_true _

namespace Engine

/-- The engine under another call policy. -/
def under {m : Type → Type} (engine : Engine m) (policy : CallPolicy) : Engine m :=
  { engine with settings := { engine.settings with callPolicy := policy } }

/-- A resolved call, made under a given policy. -/
theorem outcome_call_under {engine : Engine Id} (forest : engine.registry.IsForest)
    {root : DeclId} {site : CallSite} {resolution : Resolution}
    (resolved : outcome (engine.resolve root site.arguments) = .ok resolution) {target seed : Node}
    (h : engine.registry.withSeed resolution.target = .ok (target, seed)) (policy : CallPolicy) :
    outcome ((engine.under policy).call root site) =
      (outcome (engine.conversions.returnConversion policy seed target)).map
        fun conversion => ⟨resolution, .through engine.oracle engine.conversions
          resolution.target target site conversion⟩ := by
  have same : outcome ((engine.under policy).resolve root site.arguments) = .ok resolution :=
    resolved
  have sameForest : (engine.under policy).registry.IsForest := forest
  obtain ⟨target', seed', h', hcall⟩ := outcome_call_of_resolved sameForest same
  obtain ⟨⟩ : (Except.ok (target, seed) : Except CallError (Node × Node)) = .ok (target', seed') :=
    h.symm.trans h'
  exact hcall

/-- **The two policies differ by the conversion of the result alone.**  Let a call be made twice in
a reachable registry, by the same engine but under the two policies.

* A call that is not resolved fails under both, for the same reason.
* A call that is resolved succeeds if it is made directly.  If it is forwarded, it succeeds as well
  and refines the direct call, unless there is a result to convert that the engine does not
  convert. -/
theorem forwarding_refines_direct {conversions : Conversions Id} (engine : Engine Id)
    (reachable : engine.registry.Reachable conversions) (root : DeclId) (site : CallSite) :
    let resolved := outcome (engine.resolve root site.arguments)
    let forwarded := outcome ((engine.under .forwarding).call root site)
    let direct := outcome ((engine.under .flatOverloadSet).call root site)
    (∀ e, resolved = .error e → forwarded = .error e ∧ direct = .error e) ∧
    ∀ resolution, resolved = .ok resolution → ∃ target seed done,
      engine.registry.node? resolution.target = some target ∧
      engine.registry.seedOf? resolution.target = some seed ∧
      (direct = .ok done ∧ done.resolution = resolution ∧
        done.effects.target = resolution.target) ∧
      (∀ other, forwarded = .ok other → other.Refines seed target done) ∧
      ∀ e, forwarded = .error e ↔ ∃ own goal, Converts .forwarding seed target own goal ∧
        engine.conversions.implicit own goal = false ∧
        e = .returnNotConvertible target.id target.displayName own goal := by
  have forest : engine.registry.IsForest := reachable.isForest
  refine ⟨fun e hresolved => ?_, fun resolution hresolved => ?_⟩
  · have unresolved : ∀ policy, outcome ((engine.under policy).call root site) = .error e := by
      intro policy
      have same : outcome ((engine.under policy).resolve root site.arguments) = .error e := hresolved
      rw [outcome_call, same]
    exact ⟨unresolved _, unresolved _⟩
  · obtain ⟨target, seed, hseed, -⟩ := outcome_call_of_resolved forest hresolved
    obtain ⟨htarget, hseedOf⟩ := Registry.withSeed_eq_ok_iff.1 hseed
    have called := outcome_call_under forest hresolved hseed
    -- made directly, a call has nothing to convert, so there is nothing that could fail
    refine ⟨target, seed, _, htarget, hseedOf, ⟨called .flatOverloadSet, rfl, rfl⟩,
      fun other hother => ?_, fun e => ?_⟩
    · rw [called .forwarding] at hother
      obtain ⟨conversion, hconversion, rfl⟩ := map_eq_ok_iff.1 hother
      have forwards : Forwards seed target conversion := of_outcome_of_satisfiesM
        (satisfiesM_returnConversion _ (reachable.isChecked.sameKind_of_withSeed forest hseed))
        hconversion
      exact forwards.refines engine.oracle engine.conversions resolution site
    · rw [called .forwarding, map_eq_error_iff, outcome_returnConversion_eq_error_iff]

/-- Forwarded, a call of an override that returns the narrower type yields the wider one and may
throw, or is refused by a host that does not convert.  Made directly, it yields the narrower type
and cannot throw. -/
theorem forwarding_refines_direct_wideningTree :
    (∃ other done,
      outcome (((wideningEngine .widening .forwarding).under .forwarding).call ⟨0⟩ {}) =
        .ok other ∧
      outcome (((wideningEngine .widening .forwarding).under .flatOverloadSet).call ⟨0⟩ {}) =
        .ok done ∧
      other.resolution = done.resolution ∧ ¬other.effects.resultType = done.effects.resultType ∧
      other.effects.isNothrow = false ∧ done.effects.isNothrow = true) ∧
    ∃ done own goal,
      outcome (((wideningEngine .identity .forwarding).under .forwarding).call ⟨0⟩ {}) =
        .error (.returnNotConvertible ⟨1⟩ "::g" own goal) ∧
      outcome (((wideningEngine .identity .forwarding).under .flatOverloadSet).call ⟨0⟩ {}) =
        .ok done := by
  have reachable : (Registry.empty.run .widening wideningTree).Reachable .widening :=
    ⟨wideningTree, rfl⟩
  constructor
  · obtain ⟨-, resolved⟩ :=
      forwarding_refines_direct (wideningEngine .widening .forwarding) reachable ⟨0⟩ {}
    obtain ⟨target, seed, done, htarget, hseed, ⟨direct, -⟩, refines, -⟩ := resolved _ rfl
    cases htarget
    cases hseed
    obtain ⟨other, forwarded, throwing⟩ : ∃ other, outcome (((wideningEngine .widening
        .forwarding).under .forwarding).call ⟨0⟩ {}) = .ok other ∧
          other.effects.isNothrow = false := ⟨_, rfl, rfl⟩
    have compared := refines other forwarded
    refine ⟨other, done, forwarded, direct, compared.sameResolution, ?_, throwing, ?_⟩
    · rw [compared.sameResult_iff]
      rintro (same | ⟨constraint, deduced⟩)
      · exact absurd same (by decide)
      · exact nomatch deduced
    · cases direct
      rfl
  · obtain ⟨-, resolved⟩ :=
      forwarding_refines_direct (wideningEngine .identity .forwarding) reachable ⟨0⟩ {}
    obtain ⟨target, seed, done, htarget, -, ⟨direct, -⟩, -, refused⟩ := resolved _ rfl
    cases htarget
    obtain ⟨e, failed⟩ : ∃ e, outcome (((wideningEngine .identity .forwarding).under
        .forwarding).call ⟨0⟩ {}) = .error e := ⟨_, rfl⟩
    obtain ⟨own, goal, -, -, rfl⟩ := (refused e).1 failed
    exact ⟨done, own, goal, failed, direct⟩

end Engine
end CustomizationPoints
