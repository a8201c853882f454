import CustomizationPoints.Proofs.Call.Effects
import CustomizationPoints.Proofs.Registry.Checked

/-!
# Results that were accepted at registration

Whether a return type converts to that of the seed is asked in two places.  A registration asks
the conversions with which the registry is filled, and turns the declaration away if the answer
is no.  A call that is forwarded asks the conversions of its engine, and fails if the answer
is no.

## Why the two agree

Both compare a declaration with the seed of its tree, and both ask only if the two types are
spelled out and differ.  So wherever a call has something to convert, a registration has asked
for the same conversion and was granted it (`IsChecked.implicit_of_converts`).  An engine that
makes every conversion that registration relied on never refuses a result, and its calls succeed
or fail exactly as their resolution does.  Any other engine adds one failure, and only for a pair
of types that it refuses (`call_fails_iff`).
-/

namespace CustomizationPoints

/-- What a call has to convert, a registration has asked for. -/
theorem Registry.IsChecked.implicit_of_converts {conversions : Conversions Id}
    {registry : Registry} (checked : registry.IsChecked conversions)
    (forest : registry.IsForest) {id : DeclId} {target seed : Node}
    (h : registry.withSeed id = .ok (target, seed)) {policy : CallPolicy} {source goal : HostType}
    (converts : Converts policy seed target source goal) :
    conversions.implicit source goal = true := by
  obtain ⟨htarget, -, hseed, hid⟩ := mem_of_withSeed forest h
  have agrees := checked.agrees target htarget seed hseed hid
  exact (agrees.reaches goal source converts.expected converts.found).resolve_left converts.differ

namespace Engine

/-- **When a call fails.**  Let the registry of an engine be filled with `conversions`.

* A call that is not resolved fails for the same reason.
* A call that is resolved has a registered target with a registered seed.  It keeps its
  resolution, and it fails only if it is forwarded and has a result to convert that the engine does
  not convert.
* If the engine makes every conversion that `conversions` makes, then a call comes to what its
  resolution comes to. -/
theorem call_fails_iff {conversions : Conversions Id} (engine : Engine Id)
    (reachable : engine.registry.Reachable conversions) (root : DeclId) (site : CallSite) :
    let resolved := outcome (engine.resolve root site.arguments)
    let called := outcome (engine.call root site)
    (∀ e, resolved = .error e → called = .error e) ∧
    (∀ resolution, resolved = .ok resolution → ∃ target seed,
      engine.registry.node? resolution.target = some target ∧
      engine.registry.seedOf? resolution.target = some seed ∧
      (∀ done, called = .ok done → done.resolution = resolution) ∧
      ∀ e, called = .error e ↔ ∃ source goal,
        Converts engine.settings.callPolicy seed target source goal ∧
        engine.conversions.implicit source goal = false ∧
        e = .returnNotConvertible target.id target.displayName source goal) ∧
    ((∀ source goal, conversions.implicit source goal = true →
        engine.conversions.implicit source goal = true) →
      called.map (·.resolution) = resolved) := by
  have forest : engine.registry.IsForest := reachable.isForest
  have unresolved : ∀ e, outcome (engine.resolve root site.arguments) = .error e →
      outcome (engine.call root site) = .error e := by
    intro e hresolved
    rw [outcome_call, hresolved]
  refine ⟨unresolved, fun resolution hresolved => ?_, fun covers => ?_⟩
  · obtain ⟨target, seed, hseed, hcall⟩ := outcome_call_of_resolved forest hresolved
    obtain ⟨htarget, hseedOf⟩ := Registry.withSeed_eq_ok_iff.1 hseed
    refine ⟨target, seed, htarget, hseedOf, fun done hdone => ?_, fun e => ?_⟩
    · exact Except.ok.inj ((outcome_call_eq_ok_iff.1 hdone).1.symm.trans hresolved)
    · rw [hcall, map_eq_error_iff, outcome_returnConversion_eq_error_iff]
  · cases hresolved : outcome (engine.resolve root site.arguments) with
    | error e => rw [unresolved e hresolved, Except.map]
    | ok resolution =>
      obtain ⟨target, seed, hseed, hcall⟩ := outcome_call_of_resolved forest hresolved
      cases hconversion : outcome (engine.conversions.returnConversion engine.settings.callPolicy
        seed target) with
      | ok conversion => rw [hcall, hconversion, Except.map, Except.map]
      | error e =>
        -- the registration of the target was granted this very conversion
        obtain ⟨source, goal, converts, refused, -⟩ :=
          outcome_returnConversion_eq_error_iff.1 hconversion
        have granted := reachable.isChecked.implicit_of_converts forest hseed converts
        exact absurd (covers source goal granted) (ne_true_of_eq_false refused)

/-! ## A conversion that one engine makes and another does not -/

/-- A seed that never throws and returns the wider type, with an override that returns the
narrower one. -/
def wideningTree : List Request :=
  [.declare
      { space := .global, name := some "f", returnType := .concrete .wide,
        exceptions := .nothrow },
    .declare
      { space := .global, name := some "g", parent := some ⟨0⟩, returnType := .concrete .narrow,
        exceptions := .nothrow }]

/-- An engine over this tree. -/
def wideningEngine (conversions : Conversions Id) (callPolicy : CallPolicy) : Engine Id where
  registry := Registry.empty.run .widening wideningTree
  oracle := Registry.latestFirst
  classes := ⟨fun _ => [], fun _ => none⟩
  conversions := conversions
  settings := { callPolicy }

/-- With the conversions of the registration the call of the override succeeds.  Without them it
fails. -/
theorem call_fails_iff_wideningTree :
    (outcome ((wideningEngine .widening .forwarding).call ⟨0⟩ {})).map (·.resolution) =
      .ok { target := ⟨1⟩, path := [⟨0⟩, ⟨1⟩], associated := .empty } ∧
    outcome ((wideningEngine .identity .forwarding).call ⟨0⟩ {}) =
      .error (.returnNotConvertible ⟨1⟩ "::g" .narrow .wide) := by
  have reachable : (Registry.empty.run .widening wideningTree).Reachable .widening :=
    ⟨wideningTree, rfl⟩
  obtain ⟨-, -, accepted⟩ :=
    call_fails_iff (wideningEngine .widening .forwarding) reachable ⟨0⟩ {}
  obtain ⟨-, resolved, -⟩ :=
    call_fails_iff (wideningEngine .identity .forwarding) reachable ⟨0⟩ {}
  obtain ⟨target, seed, htarget, hseed, -, fails⟩ := resolved _ rfl
  cases htarget
  cases hseed
  have refused : (Conversions.identity : Conversions Id).implicit .narrow .wide = false := rfl
  exact ⟨accepted fun _ _ granted => granted,
    (fails _).2 ⟨.narrow, .wide, ⟨rfl, rfl, rfl, by decide⟩, refused, rfl⟩⟩

end Engine
end CustomizationPoints
