import CustomizationPoints.Call.Resolution
import CustomizationPoints.Proofs.Call.Chain

/-!
# The outcome of a call

A call that comes to the descent has one chain, and its outcome can be read off the last
declaration of the chain (`Call.Settles`).  Where there is no candidate, the declaration is
selected if it has a body.  Where there are several, the host did not pick one of them, and
the call fails for that reason.

Before the descent there are three ways to fail: the entry is not registered, has no name,
or does not accept the arguments.
-/

namespace CustomizationPoints

/-- The call with these arguments, beyond its entry. -/
def Registry.call (registry : Registry) (oracle : Oracle Id) (classes : ClassHierarchy Id)
    (arguments : List HostType) : Call where
  registry := registry
  oracle := oracle
  associated := (classes.associated arguments).run
  arguments := arguments

namespace Call

variable (call : Call)

/-- How a call ends that entered at `entry` and went through `below`. -/
inductive Settles (entry : Node) (below : List Node) : Except CallError Resolution → Prop where
  /-- The last declaration is the target. -/
  | selected {target : Node} (last : below.getLastD entry = target)
      (done : call.candidates target = []) (body : target.decl.isPure = false) :
      Settles entry below (.ok {
        target := target.id
        path := (entry :: below).map (·.id)
        associated := call.associated })
  /-- The last declaration has no body. -/
  | withoutBody {target : Node} (last : below.getLastD entry = target)
      (done : call.candidates target = []) (pureEnd : target.decl.isPure = true) :
      Settles entry below (.error (.noViableCandidate entry.displayName call.arguments
        (.pureWithoutOverride target.id target.displayName)))
  /-- The host does not pick any of several candidates. -/
  | ambiguous {parent : Node} (last : below.getLastD entry = parent)
      (several : 2 ≤ (call.candidates parent).length)
      (unanswered : call.oracle.pick (call.candidates parent) call.arguments = none) :
      Settles entry below (.error (.ambiguousOverride parent.id parent.displayName call.arguments
        ((call.candidates parent).map (·.id)) ((call.candidates parent).map (·.displayName))))
  /-- The host picks something that is not one of several candidates. -/
  | invalid {parent : Node} {answer : DeclId} (last : below.getLastD entry = parent)
      (several : 2 ≤ (call.candidates parent).length)
      (answered : call.oracle.pick (call.candidates parent) call.arguments = some answer)
      (stranger : ∀ node ∈ call.candidates parent, node.id ≠ answer) :
      Settles entry below (.error (.invalidOracleAnswer parent.id parent.displayName answer))

variable {call}

/-- What takes over from several candidates is the host's answer. -/
theorem TakesOver.picked_of_several {current next : Node} (h : call.TakesOver current next)
    (several : 2 ≤ (call.candidates current).length) :
    call.oracle.pick (call.candidates current) call.arguments = some next.id := by
  cases h with
  | only single =>
    rw [single, List.length_singleton] at several
    omega
  | picked _ _ answer => exact answer

/-- Several candidates are stuck with an answer exactly if it is none of them. -/
theorem not_takesOver_iff {current : Node}
    (several : 2 ≤ (call.candidates current).length) {answer : DeclId}
    (answered : call.oracle.pick (call.candidates current) call.arguments = some answer) :
    (∀ next, ¬call.TakesOver current next) ↔
      ∀ node ∈ call.candidates current, node.id ≠ answer := by
  constructor
  · rintro stuck node hnode rfl
    exact stuck node (.picked several hnode answered)
  · intro stranger next htakes
    have picked := htakes.picked_of_several several
    exact stranger next htakes.mem_candidates (Option.some.inj (picked.symm.trans answered))

/-- Without an answer none of several candidates takes over. -/
theorem not_takesOver_of_unanswered {current : Node}
    (several : 2 ≤ (call.candidates current).length)
    (unanswered : call.oracle.pick (call.candidates current) call.arguments = none) :
    ∀ next, ¬call.TakesOver current next := by
  intro next htakes
  have picked := htakes.picked_of_several several
  exact Option.some_ne_none next.id (picked.symm.trans unanswered)

/-- A call succeeds where a declaration with a body has no candidates. -/
theorem Settles.of_ok {entry : Node} {below : List Node} {resolution : Resolution}
    (h : call.Settles entry below (.ok resolution)) :
    call.candidates (below.getLastD entry) = [] ∧ (below.getLastD entry).decl.isPure = false ∧
      resolution = {
        target := (below.getLastD entry).id
        path := (entry :: below).map (·.id)
        associated := call.associated } := by
  cases h with
  | selected last done body =>
    subst last
    exact ⟨done, body, rfl⟩

/-- Wherever nothing takes over, the call settles. -/
theorem exists_settles {entry : Node} {below : List Node}
    (stuck : ∀ next, ¬call.TakesOver (below.getLastD entry) next) :
    ∃ result, call.Settles entry below result := by
  rcases hlist : call.candidates (below.getLastD entry) with _ | ⟨first, _ | ⟨second, rest⟩⟩
  · cases hpure : (below.getLastD entry).decl.isPure with
    | false => exact ⟨_, .selected rfl hlist hpure⟩
    | true => exact ⟨_, .withoutBody rfl hlist hpure⟩
  · exact absurd (.only hlist) (stuck first)
  · have several : 2 ≤ (call.candidates (below.getLastD entry)).length := by
      rw [hlist]
      simp
    cases hpick :
      (call.oracle.pick (call.candidates (below.getLastD entry)) call.arguments).run with
    | none => exact ⟨_, .ambiguous rfl several hpick⟩
    | some answer =>
      exact ⟨_, .invalid rfl several hpick ((not_takesOver_iff several hpick).1 stuck)⟩

end Call

namespace Registry

/-- The declarations that a call of `root` visits: none if it is turned away at its entry. -/
inductive Visits (registry : Registry) (oracle : Oracle Id) (classes : ClassHierarchy Id)
    (root : DeclId) (arguments : List HostType) : List Node → Prop where
  | turnedAway {entry : Node} (registered : registry.node? root = some entry)
      (refused : entry.decl.name = none ∨ oracle.viable entry arguments = false) :
      Visits registry oracle classes root arguments []
  | descends {entry : Node} {below : List Node} (registered : registry.node? root = some entry)
      (named : entry.decl.name ≠ none) (accepts : oracle.viable entry arguments = true)
      (chain : (registry.call oracle classes arguments).MaximalChain entry below) :
      Visits registry oracle classes root arguments (entry :: below)

variable {registry : Registry} {oracle : Oracle Id} {classes : ClassHierarchy Id}
  {root : DeclId} {arguments : List HostType}

/-! ## Before the descent -/

theorem resolve_of_unknown (h : registry.node? root = none) :
    outcome (registry.resolve oracle classes root arguments) = .error (.unknownNode root) := by
  have hentry : registry.entryPoint root = .error (.unknownNode root) := by
    rw [entryPoint, h]
  rw [resolve, hentry]
  exact outcome_bind_of_error (outcome_check _)

theorem resolve_of_unnamed {entry : Node} (h : registry.node? root = some entry)
    (hname : entry.decl.name = none) :
    outcome (registry.resolve oracle classes root arguments) =
      .error (.unnamedEntryPoint entry.id) := by
  have hentry : registry.entryPoint root = .error (.unnamedEntryPoint entry.id) := by
    rw [entryPoint, h]
    simp [hname]
  rw [resolve, hentry]
  exact outcome_bind_of_error (outcome_check _)

theorem entryPoint_of_named {entry : Node} (h : registry.node? root = some entry)
    (hname : entry.decl.name ≠ none) : registry.entryPoint root = .ok entry := by
  rw [entryPoint, h]
  simp [Option.isSome_iff_ne_none.2 hname]

/-- A call may enter at registered declarations with a name, and nowhere else. -/
theorem entryPoint_eq_ok_iff {entry : Node} :
    registry.entryPoint root = .ok entry ↔
      registry.node? root = some entry ∧ entry.decl.name ≠ none := by
  constructor
  · intro h
    unfold entryPoint at h
    split at h
    next => exact nomatch h
    next found hfound =>
      split at h
      next named =>
        cases h
        exact ⟨hfound, Option.isSome_iff_ne_none.1 named⟩
      next => exact nomatch h
  · rintro ⟨registered, named⟩
    exact entryPoint_of_named registered named

theorem resolve_of_rejected {entry : Node} (h : registry.node? root = some entry)
    (hname : entry.decl.name ≠ none) (hviable : oracle.viable entry arguments = false) :
    outcome (registry.resolve oracle classes root arguments) =
      .error (.noViableCandidate entry.displayName arguments .rootRejected) := by
  rw [resolve, entryPoint_of_named h hname, outcome_bind_of_ok (outcome_check _)]
  show outcome (ExceptT.lift (oracle.viable entry arguments) >>= _) = _
  rw [outcome_lift_bind, hviable]
  rfl

/-- Past its entry a call is what the descent makes of it. -/
theorem resolve_of_accepted {entry : Node} (h : registry.node? root = some entry)
    (hname : entry.decl.name ≠ none) (hviable : oracle.viable entry arguments = true) :
    outcome (registry.resolve oracle classes root arguments) =
      match outcome (registry.descend oracle (classes.associated arguments).run arguments
        registry.size entry) with
      | .ok below => settle entry below arguments (classes.associated arguments).run
      | .error e => .error e := by
  rw [resolve, entryPoint_of_named h hname, outcome_bind_of_ok (outcome_check _)]
  show outcome (ExceptT.lift (oracle.viable entry arguments) >>= _) = _
  rw [outcome_lift_bind, hviable]
  show outcome (ExceptT.lift (classes.associated arguments) >>= _) = _
  rw [outcome_lift_bind, outcome_bind]
  cases outcome (registry.descend oracle (classes.associated arguments).run arguments
    registry.size entry) <;> rfl

/-! ## After the descent -/

theorem settle_eq (entry : Node) (below : List Node) (arguments : List HostType)
    (associated : ClassSet) :
    settle entry below arguments associated =
      if (below.getLastD entry).decl.isPure then
        .error (.noViableCandidate entry.displayName arguments
          (.pureWithoutOverride (below.getLastD entry).id (below.getLastD entry).displayName))
      else .ok {
        target := (below.getLastD entry).id
        path := (entry :: below).map (·.id)
        associated } := by
  rw [settle, List.getLastD_eq_getLast?]

section Chain

variable (forest : registry.IsForest) {entry : Node} {below : List Node}
  (h : registry.node? root = some entry) (hname : entry.decl.name ≠ none)
  (hviable : oracle.viable entry arguments = true)
  (chain : (registry.call oracle classes arguments).MaximalChain entry below)

include forest h hname hviable chain

/-- The end of the chain decides. -/
theorem resolve_of_chain :
    outcome (registry.resolve oracle classes root arguments) =
      match (registry.call oracle classes arguments).step (below.getLastD entry) with
      | .ok _ => settle entry below arguments (classes.associated arguments).run
      | .error e => .error e := by
  have hentry : entry ∈ registry.all := (forest.node?_eq_some_iff.1 h).1
  have hbound : below.length < registry.size := by
    have := chain.length_lt forest hentry
    show below.length < (registry.call oracle classes arguments).registry.size
    omega
  have hdescend : outcome (registry.descend oracle (classes.associated arguments).run arguments
      registry.size entry) =
      ((registry.call oracle classes arguments).step (below.getLastD entry)).map fun _ => below :=
    chain.descend_eq forest hentry hbound
  rw [resolve_of_accepted h hname hviable, hdescend]
  cases (registry.call oracle classes arguments).step (below.getLastD entry) <;> rfl

/-- **The chain settles the call.** -/
theorem resolve_of_settles {result : Except CallError Resolution}
    (settles : (registry.call oracle classes arguments).Settles entry below result) :
    outcome (registry.resolve oracle classes root arguments) = result := by
  have hentry : entry ∈ registry.all := (forest.node?_eq_some_iff.1 h).1
  have hlast : below.getLastD entry ∈ registry.all := chain.last_mem_all hentry
  rw [resolve_of_chain forest h hname hviable chain]
  cases settles with
  | selected last done body =>
    subst last
    rw [Call.step_of_nil forest hlast done]
    dsimp only
    rw [settle_eq, if_neg (ne_true_of_eq_false body)]
    rfl
  | withoutBody last done pureEnd =>
    subst last
    rw [Call.step_of_nil forest hlast done]
    dsimp only
    rw [settle_eq, if_pos pureEnd]
    rfl
  | ambiguous last several unanswered =>
    subst last
    rw [Call.step_of_several forest hlast several, unanswered]
    rfl
  | @invalid parent answer last several answered stranger =>
    subst last
    have hnone : ((registry.call oracle classes arguments).candidates
        (below.getLastD entry)).find? (fun node => node.id = answer) = none :=
      List.find?_eq_none.2 fun node hnode => by simpa using stranger node hnode
    rw [Call.step_of_several forest hlast several, answered]
    dsimp only [Id.run]
    rw [hnone]

theorem resolve_iff_settles {result : Except CallError Resolution} :
    outcome (registry.resolve oracle classes root arguments) = result ↔
      (registry.call oracle classes arguments).Settles entry below result := by
  constructor
  · rintro rfl
    obtain ⟨result, settles⟩ := Call.exists_settles chain.stuck
    rw [resolve_of_settles forest h hname hviable chain settles]
    exact settles
  · exact resolve_of_settles forest h hname hviable chain

end Chain

/-- The ways of a call of a registered declaration. -/
theorem resolve_cases (forest : registry.IsForest) (oracle : Oracle Id)
    (classes : ClassHierarchy Id) (arguments : List HostType) {entry : Node}
    (h : registry.node? root = some entry) :
    (entry.decl.name = none ∧ outcome (registry.resolve oracle classes root arguments) =
      .error (.unnamedEntryPoint root)) ∨
    (entry.decl.name ≠ none ∧ oracle.viable entry arguments = false ∧
      outcome (registry.resolve oracle classes root arguments) =
        .error (.noViableCandidate entry.displayName arguments .rootRejected)) ∨
    (entry.decl.name ≠ none ∧ oracle.viable entry arguments = true ∧
      ∃ below, (registry.call oracle classes arguments).MaximalChain entry below ∧
        ∀ result, outcome (registry.resolve oracle classes root arguments) = result ↔
          (registry.call oracle classes arguments).Settles entry below result) := by
  obtain ⟨hentry, hid⟩ := forest.node?_eq_some_iff.1 h
  by_cases hname : entry.decl.name = none
  · exact Or.inl ⟨hname, by rw [resolve_of_unnamed h hname, hid]⟩
  · cases hviable : (oracle.viable entry arguments).run with
    | false => exact Or.inr (Or.inl ⟨hname, hviable, resolve_of_rejected h hname hviable⟩)
    | true =>
      obtain ⟨below, chain⟩ :=
        (registry.call oracle classes arguments).exists_maximalChain forest hentry
      exact Or.inr (Or.inr ⟨hname, hviable, below, chain,
        fun result => resolve_iff_settles forest h hname hviable chain⟩)

/-! ## The visited declarations -/

/-- What a call visits is registered. -/
theorem Visits.mem_all (forest : registry.IsForest) {visited : List Node}
    (visits : registry.Visits oracle classes root arguments visited) :
    ∀ node ∈ visited, node ∈ registry.all := by
  cases visits with
  | turnedAway => exact fun node h => absurd h List.not_mem_nil
  | descends registered named accepts chain =>
    intro node hnode
    rcases List.mem_cons.1 hnode with rfl | hmem
    · exact (forest.node?_eq_some_iff.1 registered).1
    · exact chain.mem_all node hmem

/-- A call that succeeds has settled at the end of what it visits. -/
theorem exists_settles_of_ok (forest : registry.IsForest) {resolution : Resolution}
    (h : outcome (registry.resolve oracle classes root arguments) = .ok resolution) :
    ∃ entry below, registry.Visits oracle classes root arguments (entry :: below) ∧
      (registry.call oracle classes arguments).Settles entry below (.ok resolution) := by
  cases hentry : registry.node? root with
  | none =>
    rw [resolve_of_unknown hentry] at h
    exact nomatch h
  | some entry =>
    rcases resolve_cases forest oracle classes arguments hentry with
      ⟨-, hout⟩ | ⟨-, -, hout⟩ | ⟨named, accepts, below, chain, settles⟩
    · rw [hout] at h
      exact nomatch h
    · rw [hout] at h
      exact nomatch h
    · exact ⟨entry, below, .descends hentry named accepts chain, (settles _).1 h⟩

/-- A call that succeeds visits the declarations on its path, the target last. -/
theorem exists_visits_of_ok (forest : registry.IsForest) {resolution : Resolution}
    (h : outcome (registry.resolve oracle classes root arguments) = .ok resolution) :
    ∃ entry below, registry.Visits oracle classes root arguments (entry :: below) ∧
      resolution.target = (below.getLastD entry).id := by
  obtain ⟨entry, below, visits, settles⟩ := exists_settles_of_ok forest h
  obtain ⟨-, -, rfl⟩ := settles.of_ok
  exact ⟨entry, below, visits, rfl⟩

/-- What a call selects is registered. -/
theorem exists_target_of_ok (forest : registry.IsForest) {resolution : Resolution}
    (h : outcome (registry.resolve oracle classes root arguments) = .ok resolution) :
    ∃ target ∈ registry.all, target.id = resolution.target := by
  obtain ⟨entry, below, visits, htarget⟩ := exists_visits_of_ok forest h
  exact ⟨below.getLastD entry, visits.mem_all forest _ List.getLastD_mem_cons, htarget.symm⟩

/-- The path of a call that succeeds consists of the declarations that it visits. -/
theorem Visits.path_eq (forest : registry.IsForest) {visited : List Node}
    (visits : registry.Visits oracle classes root arguments visited) {resolution : Resolution}
    (h : outcome (registry.resolve oracle classes root arguments) = .ok resolution) :
    resolution.path = visited.map (·.id) := by
  cases visits with
  | @turnedAway entry registered refused =>
    by_cases hname : entry.decl.name = none
    · rw [resolve_of_unnamed registered hname] at h
      exact nomatch h
    · rw [resolve_of_rejected registered hname (refused.resolve_left hname)] at h
      exact nomatch h
  | descends registered named accepts chain =>
    obtain ⟨-, -, rfl⟩ := ((resolve_iff_settles forest registered named accepts chain).1 h).of_ok
    rfl

/-! ## Every call -/

/-- **The outcome of every call.**  A call of an unregistered or an unnamed declaration, or
of one that does not accept the arguments, fails for this reason, and no other call does.
Every other call has exactly one chain, and its outcome is the one in which the chain
settles. -/
theorem resolve_outcome {conversions : Conversions Id}
    (reachable : registry.Reachable conversions) (oracle : Oracle Id)
    (classes : ClassHierarchy Id) (root : DeclId) (arguments : List HostType) :
    (outcome (registry.resolve oracle classes root arguments) = .error (.unknownNode root) ↔
      registry.node? root = none) ∧
    ∀ entry, registry.node? root = some entry →
      (outcome (registry.resolve oracle classes root arguments) =
        .error (.unnamedEntryPoint root) ↔ entry.decl.name = none) ∧
      (entry.decl.name ≠ none →
        (outcome (registry.resolve oracle classes root arguments) =
          .error (.noViableCandidate entry.displayName arguments .rootRejected) ↔
            oracle.viable entry arguments = false) ∧
        (oracle.viable entry arguments = true →
          ∃ below, (registry.call oracle classes arguments).MaximalChain entry below ∧
            (∀ other, (registry.call oracle classes arguments).MaximalChain entry other →
              other = below) ∧
            ∀ result, outcome (registry.resolve oracle classes root arguments) = result ↔
              (registry.call oracle classes arguments).Settles entry below result)) := by
  have forest : registry.IsForest := reachable.isForest
  have hcases := fun entry (h : registry.node? root = some entry) =>
    resolve_cases forest oracle classes arguments h
  refine ⟨⟨?_, resolve_of_unknown⟩, ?_⟩
  · intro hout
    cases h : registry.node? root with
    | none => rfl
    | some entry =>
      -- neither an entry nor a chain leads to this error
      rcases hcases entry h with ⟨-, hother⟩ | ⟨-, -, hother⟩ | ⟨-, -, below, -, settles⟩
      · rw [hother] at hout
        exact nomatch hout
      · rw [hother] at hout
        exact nomatch hout
      · exact nomatch (settles _).1 hout
  · intro entry h
    obtain ⟨hentry, hid⟩ := forest.node?_eq_some_iff.1 h
    refine ⟨⟨?_, ?_⟩, ?_⟩
    · intro hout
      rcases hcases entry h with ⟨hname, -⟩ | ⟨-, -, hother⟩ | ⟨-, -, below, -, settles⟩
      · exact hname
      · rw [hother] at hout
        exact nomatch hout
      · exact nomatch (settles _).1 hout
    · intro hname
      rw [resolve_of_unnamed h hname, hid]
    · intro hname
      refine ⟨⟨?_, resolve_of_rejected h hname⟩, ?_⟩
      · intro hout
        rcases hcases entry h with ⟨hnone, -⟩ | ⟨-, hviable, -⟩ | ⟨-, -, below, -, settles⟩
        · exact absurd hnone hname
        · exact hviable
        · exact nomatch (settles _).1 hout
      · intro hviable
        rcases hcases entry h with ⟨hnone, -⟩ | ⟨-, hrejects, -⟩ | ⟨-, -, below, chain, settles⟩
        · exact absurd hnone hname
        · rw [hviable] at hrejects
          exact nomatch hrejects
        · exact ⟨below, chain, fun other => chain.unique forest hentry, settles⟩

/-- A seed with three overrides, of which the second is a friend of a class and the third,
without a body, has an override of its own. -/
def sampleTree : List Request :=
  [.declare { space := .global, name := some "f" },
    .declare { space := .global, parent := some ⟨0⟩ },
    .declare { space := .global, parent := some ⟨0⟩, friendOf := some ⟨⟨7⟩, .classType, "K"⟩ },
    .declare { space := .global, name := some "g", parent := some ⟨0⟩, isPure := true },
    .declare { space := .global, parent := some ⟨3⟩ }]

/-- The oracle that accepts everything and prefers what was registered last. -/
def latestFirst : Oracle Id where
  viable _ _ := true
  pick candidates _ := candidates.getLast?.map (·.id)
  promiseHolds := noPromiseHolds

/-- Without arguments the friend is hidden, and the chain goes through the override without
a body to its only override. -/
theorem resolve_outcome_sampleTree :
    ∃ entry below, (empty.run .identity sampleTree).node? ⟨0⟩ = some entry ∧
      ((empty.run .identity sampleTree).call latestFirst ⟨fun _ => [], fun _ => none⟩
        []).MaximalChain entry below ∧
      (entry :: below).map (·.id) = [⟨0⟩, ⟨3⟩, ⟨4⟩] := by
  have reachable : (empty.run .identity sampleTree).Reachable .identity := ⟨sampleTree, rfl⟩
  obtain ⟨-, registered⟩ :=
    resolve_outcome reachable latestFirst ⟨fun _ => [], fun _ => none⟩ ⟨0⟩ []
  obtain ⟨-, named⟩ := registered _ rfl
  obtain ⟨-, accepted⟩ := named (by decide)
  obtain ⟨below, chain, -, settles⟩ := accepted rfl
  obtain ⟨-, -, hresolution⟩ := ((settles (.ok ⟨⟨4⟩, [⟨0⟩, ⟨3⟩, ⟨4⟩], .empty⟩)).1 rfl).of_ok
  exact ⟨_, below, rfl, chain, (congrArg Resolution.path hresolution).symm⟩

end Registry
end CustomizationPoints
