import CustomizationPoints.Proofs.Call.Conversion
import CustomizationPoints.Proofs.Host.Failures
import CustomizationPoints.Proofs.Host.Results

/-!
# What a forwarded call yields

A call that is forwarded yields what the seed of the tree promises.  If the seed spells out a type,
every call in the tree yields this type or is refused; if the type is deduced, every call yields
what its target deduces and none is refused (`effects_forwarded`).

## Trees of one kind

When the effects of a call are worked out, the return types of the target and the seed are compared
once more.  If both are spelled out, they decide about a conversion; in all other cases the target's
result is handed out as it is.  For a tree with both kinds in it this would be wrong: the caller
would get a type that depends on the target, although the seed spells one out.

There is no such tree.  A registration compares the kind of a declaration with that of its seed, and
the seed of a registered declaration is registered and stays what it is
(`Registry.IsChecked.sameKind_of_withSeed`).  So there are three things that can happen to a result
(`Forwards`), and none of them mixes the kinds.

Nothing is known about the host here, which may answer each time as it likes.
-/

namespace CustomizationPoints

/-- What is of the same kind as a type that is spelled out is spelled out. -/
theorem ReturnType.SameKind.exists_concrete {expected found : ReturnType}
    (same : expected.SameKind found) {goal : HostType} (h : expected = .concrete goal) :
    ∃ own, found = .concrete own := by
  subst h
  cases same with
  | concrete _ own => exact ⟨own, rfl⟩

/-- What is of the same kind as a type that is deduced is deduced. -/
theorem ReturnType.SameKind.exists_deduced {expected found : ReturnType}
    (same : expected.SameKind found) {constraint : Option Constraint}
    (h : expected = .deduced constraint) : ∃ own, found = .deduced own := by
  subst h
  cases same with
  | deduced _ own => exact ⟨own, rfl⟩

/-- A target and the seed of its tree have return types of the same kind. -/
theorem Registry.IsChecked.sameKind_of_withSeed {conversions : Conversions Id} {registry : Registry}
    (checked : registry.IsChecked conversions) (forest : registry.IsForest) {id : DeclId}
    {target seed : Node} (h : registry.withSeed id = .ok (target, seed)) :
    seed.decl.returnType.SameKind target.decl.returnType := by
  obtain ⟨htarget, -, hseed, hid⟩ := mem_of_withSeed forest h
  exact (checked.agrees target htarget seed hseed hid).sameKind

/-! ## The result -/

/-- What a forwarded call can do with the result of its target. -/
inductive Forwards (seed target : Node) : ReturnConversion → Prop where
  /-- The types are spelled out and are the same. -/
  | same {type : HostType} (found : target.decl.returnType = .concrete type)
      (expected : seed.decl.returnType = .concrete type) : Forwards seed target (.identity type)
  /-- The types are spelled out and differ. -/
  | converted {own goal : HostType} (found : target.decl.returnType = .concrete own)
      (expected : seed.decl.returnType = .concrete goal) (differ : own ≠ goal) :
      Forwards seed target (.implicit own goal)
  /-- Both types are deduced. -/
  | deduced {own expected : Option Constraint} (found : target.decl.returnType = .deduced own)
      (expected : seed.decl.returnType = .deduced expected) :
      Forwards seed target (.unconverted (.deduced own))

/-- The effects of a call whose target returns `own`, forwarded through a seed that returns
`goal`. -/
structure CallEffects.Delivers (own goal : HostType) (effects : CallEffects) : Prop where
  result : effects.resultType = .concrete goal
  identity : effects.returnConversion = .identity goal ↔ own = goal
  implicit : effects.returnConversion = .implicit own goal ↔ own ≠ goal
  /-- The converter runs if the types differ, and only then. -/
  apply : ∀ {Value : Type} (convert : Value → HostType → HostType → Value) (value : Value),
    effects.returnConversion.apply convert value =
      if own = goal then value else convert value own goal

section AnyHost

variable {m : Type → Type} [Monad m] [LawfulMonad m] (conversions : Conversions m)
  {seed target : Node}

omit [LawfulMonad m] in
theorem returnConversion_of_same {type : HostType}
    (found : target.decl.returnType = .concrete type)
    (expected : seed.decl.returnType = .concrete type) :
    conversions.returnConversion .forwarding seed target = pure (.identity type) := by
  unfold Conversions.returnConversion
  dsimp only
  rw [expected, found]
  exact if_pos rfl

omit [LawfulMonad m] in
theorem returnConversion_of_deduced {own expected : Option Constraint}
    (found : target.decl.returnType = .deduced own)
    (expected : seed.decl.returnType = .deduced expected) :
    conversions.returnConversion .forwarding seed target =
      pure (.unconverted (.deduced own)) := by
  unfold Conversions.returnConversion
  dsimp only
  rw [expected, found]

theorem satisfiesM_returnConversion
    (sameKind : seed.decl.returnType.SameKind target.decl.returnType) :
    SatisfiesM (Forwards seed target)
      (conversions.returnConversion .forwarding seed target) := by
  cases expected : seed.decl.returnType with
  | deduced constraint =>
    obtain ⟨own, found⟩ := sameKind.exists_deduced expected
    rw [returnConversion_of_deduced conversions found expected]
    exact .pure (.deduced found expected)
  | concrete goal =>
    obtain ⟨own, found⟩ := sameKind.exists_concrete expected
    by_cases differ : own = goal
    · subst differ
      rw [returnConversion_of_same conversions found expected]
      exact .pure (.same found expected)
    · rw [returnConversion_of_converts conversions ⟨rfl, found, expected, differ⟩]
      refine .bind (satisfiesM_lift .trivial) fun granted _ => ?_
      dsimp only
      split
      next => exact .pure (.converted found expected differ)
      next =>
        exact .bind (p := fun _ => True) (satisfiesM_throw _) fun _ _ =>
          .pure (.converted found expected differ)

/-- A result is refused only if there is something to convert, and never by a host that is known
to convert it. -/
theorem failsOnly_returnConversion {own goal : HostType}
    (found : target.decl.returnType = .concrete own)
    (expected : seed.decl.returnType = .concrete goal) :
    FailsOnly (fun e => own ≠ goal ∧ conversions.implicit own goal ≠ pure true ∧
        e = .returnNotConvertible target.id target.displayName own goal)
      (conversions.returnConversion .forwarding seed target) := by
  by_cases differ : own = goal
  · subst differ
    rw [returnConversion_of_same conversions found expected]
    exact .pure _
  · rw [returnConversion_of_converts conversions ⟨rfl, found, expected, differ⟩]
    by_cases granted : conversions.implicit own goal = pure true
    · rw [granted, liftM_pure, pure_bind]
      exact .pure _
    · refine .bind (.lift _) fun answer => ?_
      dsimp only
      split
      next => exact .pure _
      next => exact .bind (.throw ⟨differ, granted, rfl⟩) fun _ => .pure _

/-! ## The effects -/

namespace Registry

variable {registry : Registry} {oracle : Oracle m} {conversions} {policy : CallPolicy}
  {id : DeclId} {site : CallSite}

/-- The effects can be worked out if the conversion of the result can be settled. -/
theorem failsOnly_effects {kind : CallError → Prop} (h : registry.withSeed id = .ok (target, seed))
    (settled : FailsOnly kind (conversions.returnConversion policy seed target)) :
    FailsOnly kind (registry.effects oracle conversions policy id site) := by
  rw [effects_of_withSeed h oracle conversions policy site]
  exact .bind settled fun _ => .bind (.lift _) fun _ => .bind (.lift _) fun _ => .pure _

/-- The effects tell what happens to the result. -/
theorem satisfiesM_effects {p : ReturnConversion → Prop}
    (h : registry.withSeed id = .ok (target, seed))
    (settled : SatisfiesM p (conversions.returnConversion policy seed target)) :
    SatisfiesM (fun effects => effects.resultType = effects.returnConversion.resultType ∧
        p effects.returnConversion)
      (registry.effects oracle conversions policy id site) := by
  rw [effects_of_withSeed h oracle conversions policy site]
  exact .bind settled fun conversion hconversion => .bind (satisfiesM_lift .trivial) fun _ _ =>
    .bind (satisfiesM_lift .trivial) fun _ _ => .pure ⟨rfl, hconversion⟩

end Registry

end AnyHost

namespace Forwards

variable {seed target : Node} {effects : CallEffects}

/-- A call through a seed that spells out its return type yields this type. -/
theorem delivers {goal : HostType} (expected : seed.decl.returnType = .concrete goal)
    (consistent : effects.resultType = effects.returnConversion.resultType)
    (forwards : Forwards seed target effects.returnConversion) {own : HostType}
    (found : target.decl.returnType = .concrete own) : effects.Delivers own goal := by
  generalize hconversion : effects.returnConversion = conversion at consistent forwards
  cases forwards with
  | @same type found' expected' =>
    obtain rfl : own = type := ReturnType.concrete.inj (found.symm.trans found')
    obtain rfl : goal = own := ReturnType.concrete.inj (expected.symm.trans expected')
    refine ⟨consistent, by simp [hconversion], by simp [hconversion], fun convert value => ?_⟩
    rw [hconversion, ReturnConversion.apply_of_not_converts rfl, if_pos rfl]
  | @converted own' goal' found' expected' differ =>
    obtain rfl : own = own' := ReturnType.concrete.inj (found.symm.trans found')
    obtain rfl : goal = goal' := ReturnType.concrete.inj (expected.symm.trans expected')
    exact ⟨consistent, by simp [hconversion, differ], by simp [hconversion, differ], by
      simp [hconversion, differ, ReturnConversion.apply]⟩
  | deduced found' expected' => exact nomatch expected.symm.trans expected'

end Forwards

namespace Registry

/-- **What a forwarded call yields.**  Let a registry be reachable, and let the effects of a call of
some declaration be worked out, forwarded through the seed of its tree.  The host may answer as it
likes, and so may the conversions of the call.

* A call of a declaration that is not registered fails, and says so.
* If the seed spells out a return type, then so does the target.  Every call that succeeds yields
  the type of the seed, and the result is converted if the two types differ, and only then.  The
  only failure is that a result which would have to be converted is refused, and a host that always
  converts it does not refuse it.
* If the return type of the seed is deduced, then so is that of the target.  The call does not fail,
  and yields what the target deduces. -/
theorem effects_forwarded {granting : Conversions Id} {registry : Registry}
    (reachable : registry.Reachable granting) {m : Type → Type} [Monad m] [LawfulMonad m]
    (oracle : Oracle m) (conversions : Conversions m) (id : DeclId) (site : CallSite) :
    let work := registry.effects oracle conversions .forwarding id site
    (registry.node? id = none → work = throw (.unknownNode id)) ∧
    ∀ target, registry.node? id = some target → ∃ seed, registry.seedOf? id = some seed ∧
      (∀ goal, seed.decl.returnType = .concrete goal →
        ∃ own, target.decl.returnType = .concrete own ∧
          FailsOnly (fun e => own ≠ goal ∧ conversions.implicit own goal ≠ pure true ∧
            e = .returnNotConvertible id target.displayName own goal) work ∧
          SatisfiesM (CallEffects.Delivers own goal) work) ∧
      (∀ constraint, seed.decl.returnType = .deduced constraint →
        ∃ own, target.decl.returnType = .deduced own ∧
          (∃ plain : m CallEffects, work = liftM plain) ∧
          SatisfiesM (fun effects => effects.resultType = .deduced own ∧
            effects.returnConversion = .unconverted (.deduced own)) work) := by
  have forest : registry.IsForest := reachable.isForest
  refine ⟨fun unknown => ?_, fun target htarget => ?_⟩
  · rw [effects, withSeed, unknown]
    refine ExceptT.ext ?_
    rw [ExceptT.run_bind]
    exact pure_bind _ _
  · obtain ⟨hmem, rfl⟩ := forest.node?_eq_some_iff.1 htarget
    obtain ⟨seed, -, hseed⟩ := withSeed_of_mem forest hmem
    have sameKind := reachable.isChecked.sameKind_of_withSeed forest hseed
    refine ⟨seed, (withSeed_eq_ok_iff.1 hseed).2, fun goal expected => ?_,
      fun constraint expected => ?_⟩
    · obtain ⟨own, found⟩ := sameKind.exists_concrete expected
      have refuses := failsOnly_returnConversion conversions found expected
      have forwards := satisfiesM_returnConversion conversions sameKind
      exact ⟨own, found, failsOnly_effects hseed refuses,
        (satisfiesM_effects hseed forwards).imp fun h => h.2.delivers expected h.1 found⟩
    · obtain ⟨own, found⟩ := sameKind.exists_deduced expected
      have settled := returnConversion_of_deduced conversions found expected
      have never : FailsOnly (fun _ => False)
          (conversions.returnConversion .forwarding seed target) := by
        rw [settled]
        exact .pure _
      have known : SatisfiesM (· = .unconverted (.deduced own))
          (conversions.returnConversion .forwarding seed target) := by
        rw [settled]
        exact .pure rfl
      exact ⟨own, found, FailsOnly.exists_lift (failsOnly_effects hseed never),
        (satisfiesM_effects hseed known).imp fun h => ⟨h.1.trans (by rw [h.2]; rfl), h.2⟩⟩

/-- A call of an override that returns the narrower type yields the wider one, or is refused by a
host that does not convert. -/
theorem effects_forwarded_wideningTree :
    let registry := empty.run .widening Engine.wideningTree
    (∃ effects, outcome (registry.effects latestFirst .widening .forwarding ⟨1⟩ {}) =
        .ok effects ∧ effects.Delivers .narrow .wide) ∧
      outcome (registry.effects latestFirst .identity .forwarding ⟨1⟩ {}) =
        .error (.returnNotConvertible ⟨1⟩ "::g" .narrow .wide) := by
  intro registry
  have reachable : registry.Reachable .widening := ⟨Engine.wideningTree, rfl⟩
  constructor
  · obtain ⟨effects, done⟩ : ∃ effects, outcome (registry.effects latestFirst .widening
        .forwarding ⟨1⟩ {}) = .ok effects := ⟨_, rfl⟩
    obtain ⟨-, registered⟩ := effects_forwarded reachable latestFirst .widening ⟨1⟩ {}
    obtain ⟨seed, hseed, concrete, -⟩ := registered _ rfl
    cases hseed
    obtain ⟨own, ⟨⟩, -, delivers⟩ := concrete _ rfl
    exact ⟨effects, done, of_outcome_of_satisfiesM delivers done⟩
  · obtain ⟨e, failed⟩ : ∃ e, outcome (registry.effects latestFirst .identity .forwarding ⟨1⟩ {}) =
        .error e := ⟨_, rfl⟩
    obtain ⟨-, registered⟩ := effects_forwarded reachable latestFirst .identity ⟨1⟩ {}
    obtain ⟨seed, hseed, concrete, -⟩ := registered _ rfl
    cases hseed
    obtain ⟨own, ⟨⟩, refused, -⟩ := concrete _ rfl
    obtain ⟨-, -, rfl⟩ := refused.of_outcome failed
    exact failed

end Registry

end CustomizationPoints
