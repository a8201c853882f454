import CustomizationPoints.Proofs.Call.ByName
import CustomizationPoints.Proofs.Call.Reentry
import CustomizationPoints.Proofs.Host.StrictOrder

/-!
# Ambiguous calls

A call is ambiguous at a declaration if it comes there, finds several candidates, and the host
does not say which of them comes first (`resolve_ambiguous_iff`).  It goes no further then, so it
is ambiguous at one declaration at most.

For a host that compares candidates two at a time this depends on the comparison.  If it is a
strict order, then the host's silence means that no candidate outranks all others, and a call is
ambiguous exactly where this is so (`ambiguous_iff_undominated`).
-/

namespace CustomizationPoints

/-- Where nobody takes over, a chain ends. -/
theorem Call.MaximalChain.last_eq {call : Call} {entry node : Node} {below : List Node}
    (chain : call.MaximalChain entry below) (hnode : node ∈ entry :: below)
    (stuck : ∀ next, ¬call.TakesOver node next) : below.getLastD entry = node := by
  obtain ⟨before, after, hsplit⟩ := List.append_of_mem hnode
  have hrest := chain.rest hsplit
  cases after with
  | nil =>
    rw [← List.getLastD_cons (a := entry), hsplit, List.getLastD_concat]
  | cons next after => exact absurd (MaximalChain.cons_iff.1 hrest).1 (stuck next)

namespace Registry

variable {registry : Registry} {oracle : Oracle Id} {classes : ClassHierarchy Id}
  {root : DeclId} {arguments : List HostType}

/-- A call fails past its entry in the ways in which its chain can settle. -/
theorem exists_settles_of_error (forest : registry.IsForest) {e : CallError}
    (h : outcome (registry.resolve oracle classes root arguments) = .error e)
    (enters : e.isNoEntry = false) (accepted : e.isNoViableCandidate = false) :
    ∃ entry below, registry.Visits oracle classes root arguments (entry :: below) ∧
      (registry.call oracle classes arguments).Settles entry below (.error e) := by
  cases hentry : registry.node? root with
  | none =>
    rw [resolve_of_unknown hentry] at h
    cases h
    exact nomatch enters
  | some entry =>
    rcases resolve_cases forest oracle classes arguments hentry with
      ⟨-, hout⟩ | ⟨-, -, hout⟩ | ⟨named, accepts, below, chain, settles⟩
    · rw [hout] at h
      cases h
      exact nomatch enters
    · rw [hout] at h
      cases h
      exact nomatch accepted
    · exact ⟨entry, below, .descends hentry named accepts chain, (settles _).1 h⟩

/-- A call is ambiguous at a declaration exactly if it comes there, finds several candidates and
gets no answer. -/
theorem resolve_ambiguous_iff (forest : registry.IsForest) {id : DeclId} :
    (∃ name arguments' ids names, outcome (registry.resolve oracle classes root arguments) =
      .error (.ambiguousOverride id name arguments' ids names)) ↔
    ∃ visited, registry.Visits oracle classes root arguments visited ∧
      ∃ node ∈ visited, node.id = id ∧
        2 ≤ ((registry.call oracle classes arguments).candidates node).length ∧
        oracle.pick ((registry.call oracle classes arguments).candidates node) arguments =
          none := by
  constructor
  · rintro ⟨name, arguments', ids, names, hout⟩
    obtain ⟨entry, below, visits, settles⟩ := exists_settles_of_error forest hout rfl rfl
    cases settles with
    | ambiguous last several unanswered =>
      exact ⟨entry :: below, visits, _, last ▸ List.getLastD_mem_cons, rfl, several, unanswered⟩
  · rintro ⟨visited, visits, node, hnode, rfl, several, unanswered⟩
    cases visits with
    | turnedAway => exact absurd hnode List.not_mem_nil
    | descends registered named accepts chain =>
      have last := chain.last_eq hnode (Call.not_takesOver_of_unanswered several unanswered)
      exact ⟨_, _, _, _, (resolve_iff_settles forest registered named accepts chain).2
        (.ambiguous last several unanswered)⟩

/-- A host that always answers with a candidate is never told that it did not. -/
theorem resolve_ne_invalid (forest : registry.IsForest)
    (answers : ∀ candidates answer, oracle.pick candidates arguments = some answer →
      ∃ winner ∈ candidates, winner.id = answer)
    (parent : DeclId) (name : String) (answer : DeclId) :
    outcome (registry.resolve oracle classes root arguments) ≠
      .error (.invalidOracleAnswer parent name answer) := by
  intro hout
  obtain ⟨entry, below, -, settles⟩ := exists_settles_of_error forest hout rfl rfl
  cases settles with
  | invalid last several answered stranger =>
    obtain ⟨winner, hwinner, hid⟩ := answers _ _ answered
    exact stranger winner hwinner hid

/-- Candidates differ in their identities. -/
theorem nodup_map_id_candidates {call : Call} (forest : call.registry.IsForest) (node : Node) :
    ((call.candidates node).map (·.id)).Nodup :=
  forest.nodup_map_id (forest.nodup_all.filter _) fun _ h => (List.mem_filter.1 h).1

/-- **The unique maximal candidate is the one that outranks all others.**  If the comparison is a
strict order on some declarations with different identities, then there is a maximal one among
them if there is any, the answer is the one that outranks all others, and there is no answer
exactly if there are no declarations or several maximal ones.

So if a host compares the registered declarations of a reachable registry by a strict order, it
never answers with something that is not a candidate, and a call is ambiguous exactly where it
comes to a declaration with several maximal candidates.  There are several exactly if there are
candidates and none of them outranks all others. -/
theorem ambiguous_iff_undominated :
    (∀ (more : Node → Node → Id Bool) (nodes : List Node), (nodes.map (·.id)).Nodup →
      OrdersStrictly more nodes →
        (∀ node, node ∈ (maximal (m := Id) more nodes).run ↔
          node ∈ nodes ∧ ∀ other ∈ nodes, more other node = false) ∧
        (nodes ≠ [] → (maximal (m := Id) more nodes).run ≠ []) ∧
        (∀ answer, uniqueMaximal (m := Id) more nodes = some answer ↔
          ∃ winner ∈ nodes, winner.id = answer ∧ Dominates more nodes winner) ∧
        (uniqueMaximal (m := Id) more nodes = none ↔
          nodes = [] ∨ 2 ≤ (maximal (m := Id) more nodes).run.length)) ∧
    ∀ (conversions : Conversions Id) (registry : Registry), registry.Reachable conversions →
      ∀ (viable : Node → List HostType → Id Bool) (more : Node → Node → List HostType → Id Bool)
        (promiseHolds : Node → String → List HostType → Id Bool) (classes : ClassHierarchy Id)
        (root : DeclId) (arguments : List HostType),
        OrdersStrictly (more · · arguments) registry.all →
        let oracle := Oracle.pairwise viable more promiseHolds
        let candidates := (registry.call oracle classes arguments).candidates
        let several := fun node =>
          2 ≤ (maximal (m := Id) (more · · arguments) (candidates node)).run.length
        (∀ parent name answer, outcome (registry.resolve oracle classes root arguments) ≠
          .error (.invalidOracleAnswer parent name answer)) ∧
        (∀ id, (∃ name arguments' ids names,
          outcome (registry.resolve oracle classes root arguments) =
            .error (.ambiguousOverride id name arguments' ids names)) ↔
          ∃ visited, registry.Visits oracle classes root arguments visited ∧
            ∃ node ∈ visited, node.id = id ∧ several node) ∧
        ∀ node, several node ↔ candidates node ≠ [] ∧
          ¬∃ winner ∈ candidates node, Dominates (more · · arguments) (candidates node) winner := by
  refine ⟨fun more nodes distinct order => ⟨fun node => mem_maximal_iff distinct order,
    maximal_ne_nil distinct order, fun answer => uniqueMaximal_eq_some_iff distinct order,
    uniqueMaximal_eq_none_iff distinct order⟩, ?_⟩
  intro conversions registry reachable viable more promiseHolds classes root arguments order oracle
    candidates several
  have forest : registry.IsForest := reachable.isForest
  have distinct : ∀ node, ((candidates node).map (·.id)).Nodup := nodup_map_id_candidates forest
  have ordered : ∀ node, OrdersStrictly (more · · arguments) (candidates node) := fun node =>
    order.mono fun _ h => (List.mem_filter.1 h).1
  have hsilent : ∀ node, oracle.pick (candidates node) arguments = none ↔
      candidates node = [] ∨ several node :=
    fun node => uniqueMaximal_eq_none_iff (distinct node) (ordered node)
  have hseveral : ∀ node, several node ↔
      2 ≤ (candidates node).length ∧ oracle.pick (candidates node) arguments = none := by
    intro node
    rw [hsilent node]
    constructor
    · intro h
      have hlength : (maximal (m := Id) (more · · arguments) (candidates node)).run.length ≤
          (candidates node).length := by
        rw [maximal_id]
        exact List.length_filter_le _ _
      exact ⟨Nat.le_trans h hlength, Or.inr h⟩
    · rintro ⟨hlength, hnil | h⟩
      · rw [hnil] at hlength
        exact absurd hlength (by decide)
      · exact h
  refine ⟨resolve_ne_invalid forest fun candidates answer => exists_of_uniqueMaximal,
    fun id => ?_, fun node => two_le_length_maximal_iff (distinct node) (ordered node)⟩
  rw [resolve_ambiguous_iff forest]
  simp only [hseveral]
  rfl

/-- A seed and three overrides of it, the last two of one level. -/
def levelTree : List Request :=
  [.declare { space := .global, name := some "f" },
    .declare { space := .global, parent := some ⟨0⟩, constraint := some ⟨1, "A"⟩ },
    .declare { space := .global, parent := some ⟨0⟩, constraint := some ⟨2, "B"⟩ },
    .declare { space := .global, parent := some ⟨0⟩, constraint := some ⟨2, "C"⟩ }]

/-- A host that goes by levels finds the first override to outrank the seed.  A call of the seed is
ambiguous, since none of its overrides outranks the two others. -/
theorem ambiguous_iff_undominated_levelTree :
    let registry := empty.run .identity levelTree
    let more := OrderRule.level.prefers
    let oracle := Oracle.pairwise (m := Id) (fun _ _ => true) (fun a b _ => more a b)
      noPromiseHolds
    let classes : ClassHierarchy Id := ⟨fun _ => [], fun _ => none⟩
    uniqueMaximal (m := Id) more (registry.all.take 2) = some ⟨1⟩ ∧
    (∀ parent name answer, outcome (registry.resolve oracle classes ⟨0⟩ []) ≠
      .error (.invalidOracleAnswer parent name answer)) ∧
    ∃ node, node.id = ⟨0⟩ ∧
      2 ≤ (maximal (m := Id) more ((registry.call oracle classes []).candidates node)).run.length ∧
      ¬∃ winner ∈ (registry.call oracle classes []).candidates node,
        Dominates more ((registry.call oracle classes []).candidates node) winner := by
  intro registry more oracle classes
  have reachable : registry.Reachable .identity := ⟨levelTree, rfl⟩
  obtain ⟨lists, calls⟩ := ambiguous_iff_undominated
  obtain ⟨-, -, answers, -⟩ := lists more (registry.all.take 2) (by decide) (ordersStrictly_level _)
  obtain ⟨valid, ambiguous, undominated⟩ := calls .identity registry reachable (fun _ _ => true)
    (fun a b _ => more a b) noPromiseHolds classes ⟨0⟩ [] (ordersStrictly_level registry.all)
  obtain ⟨winner, hwinner, hid, dominates⟩ : ∃ winner ∈ registry.all.take 2,
      winner.id = ⟨1⟩ ∧ ∀ other ∈ registry.all.take 2, other.id ≠ winner.id →
        more winner other = true := by decide
  obtain ⟨visited, -, node, -, hnode, several⟩ := (ambiguous ⟨0⟩).1 ⟨_, _, _, _, rfl⟩
  exact ⟨(answers ⟨1⟩).2 ⟨winner, hwinner, hid, dominates⟩, valid, node, hnode, several,
    ((undominated node).1 several).2⟩

end Registry
end CustomizationPoints
