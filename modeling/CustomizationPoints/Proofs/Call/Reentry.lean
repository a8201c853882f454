import CustomizationPoints.Proofs.Call.Effects

/-!
# Calls that enter further down

A call may enter at any declaration with a name.  If it enters at one that a call of an
ancestor with the same arguments visits, then from there on the two calls are the same one:
they select the same target or fail for the same reason, and they have the same effects
(`resolve_reentry`).

## The argument

What takes over below a declaration depends on the declaration and on the call, and not on
how the call came there.  So the chain from a visited declaration is the rest of the chain
(`MaximalChain.rest`), and it settles in the same way (`Settles.rest`).  At the entry two
things could differ.  The host is asked about the entry, and it has accepted every visited
declaration already; and a friend is not checked for visibility there, which a visited
declaration has passed in any case.

The effects are worked out from the target and the seed of its tree.  The entry plays no part
in them.
-/

namespace CustomizationPoints

/-- The failure as it is reported to a call of `function`. -/
def CallError.enteredAs (function : String) : CallError → CallError
  | .noViableCandidate _ arguments reason => .noViableCandidate function arguments reason
  | other => other

/-- The outcome of a call, as a call that enters at the visited declaration `node` reports it. -/
def Node.reentryOutcome (node : Node) : Except CallError Resolution → Except CallError Resolution
  | .ok resolution => .ok { resolution with path := resolution.path.dropWhile (· ≠ node.id) }
  | .error e => .error (e.enteredAs node.displayName)

namespace Call

variable {call : Call} {entry node : Node} {below before after : List Node}

/-- A visited declaration accepts the arguments of the call. -/
theorem MaximalChain.accepts (chain : call.MaximalChain entry below)
    (accepts : call.oracle.viable entry call.arguments = true) (h : node ∈ entry :: below) :
    call.oracle.viable node call.arguments = true := by
  induction below generalizing entry with
  | nil => rwa [List.mem_singleton.1 h]
  | cons next rest ih =>
    obtain ⟨htakes, hrest⟩ := MaximalChain.cons_iff.1 chain
    rcases List.mem_cons.1 h with rfl | hmem
    · exact accepts
    · exact ih hrest (mem_candidates.1 htakes.mem_candidates).2.2.2 hmem

/-- The path from a declaration on a chain is the rest of the path. -/
theorem MaximalChain.dropWhile_path (forest : call.registry.IsForest)
    (chain : call.MaximalChain entry below) (split : entry :: below = before ++ node :: after) :
    ((entry :: below).map (·.id)).dropWhile (· ≠ node.id) = (node :: after).map (·.id) := by
  have hordered := pairwise_of_isChain forest chain.links
  rw [split, List.pairwise_append] at hordered
  have hbefore : ∀ id ∈ before.map (·.id), decide (id ≠ node.id) = true := by
    intro id hid
    obtain ⟨other, hother, rfl⟩ := List.mem_map.1 hid
    have hlt := hordered.2.2 other hother node List.mem_cons_self
    exact decide_eq_true fun hsame => Nat.lt_irrefl _ (hsame ▸ hlt)
  rw [split, List.map_append, List.dropWhile_append_of_pos hbefore, List.map_cons,
    List.dropWhile_cons_of_neg (by simp)]

/-- The rest of a chain settles as the whole chain does. -/
theorem Settles.rest (forest : call.registry.IsForest) (chain : call.MaximalChain entry below)
    (split : entry :: below = before ++ node :: after) {result : Except CallError Resolution}
    (settles : call.Settles entry below result) :
    call.Settles node after (node.reentryOutcome result) := by
  have hlast : after.getLastD node = below.getLastD entry := by
    rw [← getLastD_append_cons before node after entry, ← split, List.getLastD_cons]
  cases settles with
  | selected last done body =>
    rw [Node.reentryOutcome, chain.dropWhile_path forest split]
    exact .selected (hlast.trans last) done body
  | withoutBody last done pureEnd => exact .withoutBody (hlast.trans last) done pureEnd
  | ambiguous last several unanswered => exact .ambiguous (hlast.trans last) several unanswered
  | invalid last several answered stranger =>
    exact .invalid (hlast.trans last) several answered stranger

end Call

namespace Registry

variable {registry : Registry} {oracle : Oracle Id} {classes : ClassHierarchy Id}
  {root : DeclId} {arguments : List HostType}

/-- A call that enters at a visited declaration has the same outcome. -/
theorem resolve_of_visited (forest : registry.IsForest) {visited : List Node}
    (visits : registry.Visits oracle classes root arguments visited) {node : Node}
    (hnode : node ∈ visited) (hname : node.decl.name ≠ none) :
    outcome (registry.resolve oracle classes node.id arguments) =
      node.reentryOutcome (outcome (registry.resolve oracle classes root arguments)) := by
  have hregistered := visits.mem_all forest node hnode
  cases visits with
  | turnedAway => exact absurd hnode List.not_mem_nil
  | descends registered named accepts chain =>
    obtain ⟨before, after, hsplit⟩ := List.append_of_mem hnode
    have settles := (resolve_iff_settles forest registered named accepts chain).1 rfl
    exact resolve_of_settles forest (forest.node?_id hregistered) hname
      (chain.accepts accepts hnode) (chain.rest hsplit) (settles.rest forest chain hsplit)

end Registry

/-! ## Effects -/

/-- Two calls that select the same target have the same effects. -/
theorem Engine.effects_call_eq (engine : Engine Id) {root other : DeclId} {site : CallSite}
    {resolution resolution' : Resolution}
    (h : outcome (engine.resolve root site.arguments) = .ok resolution)
    (h' : outcome (engine.resolve other site.arguments) = .ok resolution')
    (same : resolution'.target = resolution.target) :
    (outcome (engine.call other site)).map (·.effects) =
      (outcome (engine.call root site)).map (·.effects) := by
  rw [outcome_call, outcome_call, h, h']
  dsimp only
  rw [same]
  cases outcome (engine.effects resolution.target site) <;> rfl

namespace Registry

/-- **A call may enter at any named declaration that it visits.**  In a reachable registry, let
a call of `root` visit the named declaration `node`.  If the call of `root` succeeds, then the
call of `node` selects the same target with the same associated classes, its path is the part
of the path that starts at `node`, and its effects are the same, failures included.  If the call
of `root` fails, then the call of `node` fails with the same error, told to `node`.

So a target with a name is its own target, with nothing but itself on the path. -/
theorem resolve_reentry {conversions : Conversions Id} {registry : Registry}
    (reachable : registry.Reachable conversions) (oracle : Oracle Id)
    (classes : ClassHierarchy Id) (root : DeclId) (site : CallSite) :
    (∀ visited, registry.Visits oracle classes root site.arguments visited →
      ∀ node ∈ visited, node.decl.name ≠ none →
        (∀ resolution,
          outcome (registry.resolve oracle classes root site.arguments) = .ok resolution →
            node.id ∈ resolution.path ∧
            outcome (registry.resolve oracle classes node.id site.arguments) =
              .ok { resolution with path := resolution.path.dropWhile (· ≠ node.id) } ∧
            ∀ (model : Conversions Id) (settings : Settings),
              let engine : Engine Id :=
                { registry, oracle, classes, conversions := model, settings }
              (outcome (engine.call node.id site)).map (·.effects) =
                (outcome (engine.call root site)).map (·.effects)) ∧
        ∀ e, outcome (registry.resolve oracle classes root site.arguments) = .error e →
          outcome (registry.resolve oracle classes node.id site.arguments) =
            .error (e.enteredAs node.displayName)) ∧
    ∀ resolution, outcome (registry.resolve oracle classes root site.arguments) = .ok resolution →
      ∀ target, registry.node? resolution.target = some target → target.decl.name ≠ none →
        outcome (registry.resolve oracle classes resolution.target site.arguments) =
          .ok { resolution with path := [resolution.target] } := by
  have forest : registry.IsForest := reachable.isForest
  refine ⟨fun visited visits node hnode hname => ?_, fun resolution hout target htarget hname => ?_⟩
  · have hsame := resolve_of_visited forest visits hnode hname
    refine ⟨fun resolution hout => ?_, fun e hout => ?_⟩
    · rw [hout] at hsame
      refine ⟨?_, hsame, fun model settings => ?_⟩
      · rw [visits.path_eq forest hout]
        exact List.mem_map_of_mem hnode
      · exact Engine.effects_call_eq _ hout hsame rfl
    · rw [hout] at hsame
      exact hsame
  · obtain ⟨entry, below, visits, hlast⟩ := exists_visits_of_ok forest hout
    have hpath := visits.path_eq forest hout
    obtain ⟨htarget, hid⟩ := forest.node?_eq_some_iff.1 htarget
    cases visits with
    | descends registered named accepts chain =>
      have hentry := (forest.node?_eq_some_iff.1 registered).1
      obtain rfl := forest.eq_of_id_eq htarget (chain.last_mem_all hentry) (hid.trans hlast)
      have hsame := resolve_of_visited forest (.descends registered named accepts chain)
        List.getLastD_mem_cons hname
      have hsplit := (dropLast_append_getLastD entry below).symm
      rw [hout, Node.reentryOutcome, hpath, chain.dropWhile_path forest hsplit,
        List.map_singleton, ← hlast] at hsame
      exact hsame

/-- The call of the sample that enters at the override without a body goes on as the call that
comes there from the seed. -/
theorem resolve_reentry_sampleTree :
    outcome ((empty.run .identity sampleTree).resolve latestFirst ⟨fun _ => [], fun _ => none⟩
      ⟨0⟩ []) = .ok { target := ⟨4⟩, path := [⟨0⟩, ⟨3⟩, ⟨4⟩], associated := .empty } ∧
    outcome ((empty.run .identity sampleTree).resolve latestFirst ⟨fun _ => [], fun _ => none⟩
      ⟨3⟩ []) = .ok { target := ⟨4⟩, path := [⟨3⟩, ⟨4⟩], associated := .empty } := by
  have reachable : (empty.run .identity sampleTree).Reachable .identity := ⟨sampleTree, rfl⟩
  have hout : outcome ((empty.run .identity sampleTree).resolve latestFirst
      ⟨fun _ => [], fun _ => none⟩ ⟨0⟩ []) =
        .ok { target := ⟨4⟩, path := [⟨0⟩, ⟨3⟩, ⟨4⟩], associated := .empty } := rfl
  obtain ⟨entry, below, visits, -⟩ := exists_visits_of_ok reachable.isForest hout
  have hvisited : (⟨3⟩ : DeclId) ∈ (entry :: below).map (·.id) := by
    rw [← visits.path_eq reachable.isForest hout]
    decide
  obtain ⟨node, hnode, hid⟩ := List.mem_map.1 hvisited
  have hname : node.decl.name ≠ none := by
    have hregistered := reachable.isForest.node?_id (visits.mem_all reachable.isForest node hnode)
    rw [hid] at hregistered
    cases hregistered
    decide
  have h := (resolve_reentry reachable latestFirst ⟨fun _ => [], fun _ => none⟩ ⟨0⟩ {}).1
    _ visits node hnode hname
  obtain ⟨-, hnext, -⟩ := h.1 _ hout
  rw [hid] at hnext
  exact ⟨hout, hnext⟩

end Registry
end CustomizationPoints
