import CustomizationPoints.Proofs.Call.Path
import CustomizationPoints.Proofs.Registry.Checked

/-!
# Calls that reach a final declaration

A declaration that is closed to overrides settles every call that reaches it: the call succeeds,
and this declaration is the target.

Two checks of the registration make it so.  Nothing is registered below a final declaration, so no
call goes on from there, and none becomes ambiguous there (`IsChecked.nodesOf_overrides_of_final`).
And no declaration is both final and without a body, so the call may stop there.  Both are checked
once, when a declaration is registered, and hold of the whole registry from then on.

## Hosts that change their mind

For a plain host the statement names the visited declarations.  For any other host it compares two
programs.  `resolveToFinal` resolves a call as well, but when it has come to a final declaration it
asks nothing any more, looks at nothing any more, and succeeds.  It is the same program as `resolve`
(`resolve_eq_resolveToFinal`).
-/

namespace CustomizationPoints
namespace Registry

variable {conversions : Conversions Id} {registry : Registry} {node : Node}

section Checked

variable (checked : registry.IsChecked conversions) (forest : registry.IsForest)
  (h : node ∈ registry.all) (final : node.decl.isFinal = true)

include checked h final

/-- A final declaration has a body. -/
theorem IsChecked.isPure_of_final : node.decl.isPure = false :=
  Bool.eq_false_of_not_eq_true fun pureNode => checked.body node h ⟨pureNode, final⟩

/-- **Nothing is registered below a final declaration.** -/
theorem IsChecked.parent_ne_of_final {other : Node} (hother : other ∈ registry.all) :
    other.decl.parent ≠ some node.id := by
  intro hparent
  have hopen := checked.parentOpen other hother node h hparent
  rw [final] at hopen
  exact nomatch hopen

/-- No override of it can be found. -/
theorem IsChecked.nodesOf_overrides_of_final (forest : registry.IsForest) :
    registry.nodesOf node.overrides = [] := by
  rw [forest.nodesOf_overrides h, List.filter_eq_nil_iff]
  exact fun other hother hparent =>
    checked.parent_ne_of_final h final hother (of_decide_eq_true hparent)

end Checked

/-! ## Any host -/

variable {m : Type → Type} [Monad m]

/-- The descent, ended where it comes to a final declaration. -/
def descendToFinal (registry : Registry) (oracle : Oracle m) (associated : ClassSet)
    (arguments : List HostType) : Nat → Node → ExceptT CallError m (List Node)
  | 0, _ => pure []
  | bound + 1, current =>
    if current.decl.isFinal then pure []
    else do
      match ← registry.stepDown oracle associated arguments current with
      | none => pure []
      | some next =>
        let below ← registry.descendToFinal oracle associated arguments bound next
        return next :: below

/-- Resolving a call that succeeds as soon as it comes to a final declaration. -/
def resolveToFinal (registry : Registry) (oracle : Oracle m) (classes : ClassHierarchy m)
    (root : DeclId) (arguments : List HostType) : ExceptT CallError m Resolution := do
  let entry ← registry.entryPoint root
  unless ← oracle.viable entry arguments do
    throw (.noViableCandidate entry.displayName arguments .rootRejected)
  let associated ← classes.associated arguments
  let below ← registry.descendToFinal oracle associated arguments registry.size entry
  let reached := below.getLastD entry
  if reached.decl.isFinal then
    return { target := reached.id, path := (entry :: below).map (·.id), associated }
  settle entry below arguments associated

variable [LawfulMonad m] (oracle : Oracle m) (associated : ClassSet) (arguments : List HostType)

section Reachable

variable (checked : registry.IsChecked conversions) (forest : registry.IsForest)

include checked forest

/-- At a final declaration there is no step down, and no question about one. -/
theorem stepDown_of_final (h : node ∈ registry.all) (final : node.decl.isFinal = true) :
    registry.stepDown oracle associated arguments node = pure none := by
  rw [stepDown, candidates, visibleOverrides,
    checked.nodesOf_overrides_of_final h final forest, List.filter_nil, selectWhere_nil, liftM_pure,
    pure_bind, Oracle.choose_nil]

/-- So the descent ends there. -/
theorem descend_of_final (h : node ∈ registry.all) (final : node.decl.isFinal = true)
    (bound : Nat) : registry.descend oracle associated arguments bound node = pure [] := by
  cases bound with
  | zero => rfl
  | succ bound =>
    rw [descend, stepDown_of_final oracle associated arguments checked forest h final, pure_bind]

theorem descendToFinal_eq (h : node ∈ registry.all) (bound : Nat) :
    registry.descendToFinal oracle associated arguments bound node =
      registry.descend oracle associated arguments bound node := by
  induction bound generalizing node with
  | zero => rfl
  | succ bound ih =>
    rw [descendToFinal]
    split
    next final => rw [descend_of_final oracle associated arguments checked forest h final]
    next =>
      refine bind_congr_of_satisfiesM
        (satisfiesM_stepDown oracle associated arguments forest h) fun step hstep => ?_
      cases step with
      | none => rfl
      | some next =>
        dsimp only
        rw [ih (hstep next rfl).1]

omit forest in
/-- A call that stops at a final declaration succeeds. -/
theorem settle_of_final {entry : Node} {below : List Node}
    (h : below.getLastD entry ∈ registry.all)
    (final : (below.getLastD entry).decl.isFinal = true) :
    settle entry below arguments associated = .ok {
      target := (below.getLastD entry).id
      path := (entry :: below).map (·.id)
      associated } := by
  rw [settle_eq, checked.isPure_of_final h final, if_neg Bool.false_ne_true]

/-- **A call may stop asking at the first final declaration**, whatever the host. -/
theorem resolve_eq_resolveToFinal (classes : ClassHierarchy m) (root : DeclId) :
    registry.resolve oracle classes root arguments =
      registry.resolveToFinal oracle classes root arguments := by
  rw [resolve, resolveToFinal]
  refine bind_congr_of_satisfiesM
    (satisfiesM_check fun _ h => (entryPoint_eq_ok_iff.1 h).1) fun entry registered => ?_
  have hentry : entry ∈ registry.all := (forest.node?_eq_some_iff.1 registered).1
  have rest : (do
      let associated ← classes.associated arguments
      let below ← registry.descend oracle associated arguments registry.size entry
      settle entry below arguments associated : ExceptT CallError m Resolution) = (do
      let associated ← classes.associated arguments
      let below ← registry.descendToFinal oracle associated arguments registry.size entry
      let reached := below.getLastD entry
      if reached.decl.isFinal then
        return { target := reached.id, path := (entry :: below).map (·.id), associated }
      settle entry below arguments associated) := by
    refine bind_congr fun associated => ?_
    rw [descendToFinal_eq oracle associated arguments checked forest hentry]
    refine bind_congr_of_satisfiesM
      (satisfiesM_descend oracle associated arguments forest hentry registry.size)
        fun below links => ?_
    have hlast := last_mem_all_of_isChain hentry links
    dsimp only
    split
    next final => rw [settle_of_final associated arguments checked hlast final]; rfl
    next => rfl
  refine bind_congr fun accepts => ?_
  split
  next => exact rest
  next => exact bind_congr fun _ => rest

end Reachable

/-! ## A plain host -/

/-- **A final declaration that a call visits is the target.** -/
theorem Visits.outcome_of_final (checked : registry.IsChecked conversions)
    (forest : registry.IsForest) {oracle : Oracle Id} {classes : ClassHierarchy Id}
    {root : DeclId} {visited : List Node}
    (visits : registry.Visits oracle classes root arguments visited) (h : node ∈ visited)
    (final : node.decl.isFinal = true) :
    visited.getLast? = some node ∧
      outcome (registry.resolve oracle classes root arguments) = .ok {
        target := node.id
        path := visited.map (·.id)
        associated := (classes.associated arguments).run } := by
  have hnode := visits.mem_all forest node h
  have done : (registry.call oracle classes arguments).candidates node = [] := by
    refine List.filter_eq_nil_iff.2 fun other hother hcandidate => ?_
    exact checked.parent_ne_of_final hnode final hother (Call.isCandidate_iff.1 hcandidate).1
  cases visits with
  | turnedAway => exact absurd h List.not_mem_nil
  | @descends entry below registered named accepts chain =>
    -- the chain from the final declaration is the rest of the chain, and there is none
    obtain ⟨before, after, hsplit⟩ := List.append_of_mem h
    cases after with
    | cons next after =>
      exact absurd (Call.MaximalChain.cons_iff.1 (chain.rest hsplit)).1
        (Call.not_takesOver_of_nil done)
    | nil =>
      have hlast := getLastD_append_cons before node [] entry
      rw [← hsplit, List.getLastD_cons, List.getLastD_nil] at hlast
      refine ⟨by rw [hsplit, List.getLast?_concat], ?_⟩
      exact resolve_of_settles forest registered named accepts chain
        (.selected hlast done (checked.isPure_of_final hnode final))

/-- **A final declaration settles the call.**  Take any call in a reachable registry.  Over a plain
host, if the call visits a final declaration, be it as its entry, as the only candidate below the
declaration before, or as the host's pick out of several, then it ends there and succeeds: this
declaration is the target and the end of the path.  And over any host a call may stop asking and
succeed as soon as it has come to a final declaration. -/
theorem resolve_of_final (reachable : registry.Reachable conversions) (root : DeclId)
    (arguments : List HostType) :
    (∀ (oracle : Oracle Id) (classes : ClassHierarchy Id) (visited : List Node),
      registry.Visits oracle classes root arguments visited →
        ∀ node ∈ visited, node.decl.isFinal = true →
          visited.getLast? = some node ∧
            outcome (registry.resolve oracle classes root arguments) = .ok {
              target := node.id
              path := visited.map (·.id)
              associated := (classes.associated arguments).run }) ∧
    ∀ {m : Type → Type} [Monad m] [LawfulMonad m] (oracle : Oracle m)
      (classes : ClassHierarchy m), registry.resolve oracle classes root arguments =
        registry.resolveToFinal oracle classes root arguments :=
  ⟨fun _ _ _ visits _ h final =>
    visits.outcome_of_final arguments reachable.isChecked reachable.isForest h final,
  fun oracle classes => resolve_eq_resolveToFinal oracle arguments reachable.isChecked
    reachable.isForest classes root⟩

/-- A seed with an override that has no body.  Below it come an override that is open and one that
is final, and then an override of the final one, which is refused. -/
def closedTree : List Request :=
  [.declare { space := .global, name := some "f" },
    .declare { space := .global, parent := some ⟨0⟩, isPure := true },
    .declare { space := .global, parent := some ⟨1⟩ },
    .declare { space := .global, parent := some ⟨1⟩, isFinal := true },
    .declare { space := .global, parent := some ⟨3⟩ }]

/-- The host picks the final one out of the two candidates, and that settles the call. -/
theorem resolve_of_final_closedTree :
    let registry := empty.run .identity closedTree
    registry.size = 4 ∧
    (∃ visited, registry.Visits latestFirst ⟨fun _ => [], fun _ => none⟩ ⟨0⟩ [] visited ∧
      ∃ node ∈ visited, node.id = ⟨3⟩ ∧ node.decl.isFinal = true ∧
        visited.getLast? = some node ∧
          outcome (registry.resolve latestFirst ⟨fun _ => [], fun _ => none⟩ ⟨0⟩ []) =
            .ok { target := ⟨3⟩, path := visited.map (·.id), associated := .empty }) ∧
    registry.resolve moody.oracle moody.classes ⟨0⟩ [] =
      registry.resolveToFinal moody.oracle moody.classes ⟨0⟩ [] := by
  intro registry
  have reachable : registry.Reachable .identity := ⟨closedTree, rfl⟩
  obtain ⟨plain, any⟩ := resolve_of_final reachable ⟨0⟩ []
  obtain ⟨entry, below, visits, htarget⟩ := exists_visits_of_ok reachable.isForest
    (by rfl : outcome (registry.resolve latestFirst ⟨fun _ => [], fun _ => none⟩ ⟨0⟩ []) =
      .ok ⟨⟨3⟩, [⟨0⟩, ⟨1⟩, ⟨3⟩], .empty⟩)
  have hvisited : below.getLastD entry ∈ entry :: below := List.getLastD_mem_cons
  have final : (below.getLastD entry).decl.isFinal = true :=
    (by decide : ∀ node ∈ registry.all, (⟨3⟩ : DeclId) = node.id → node.decl.isFinal = true) _
      (visits.mem_all reachable.isForest _ hvisited) htarget
  obtain ⟨hlast, hout⟩ := plain _ _ _ visits _ hvisited final
  rw [← htarget] at hout
  exact ⟨by decide, ⟨_, visits, _, hvisited, htarget.symm, final, hlast, hout⟩, any _ _⟩

end Registry
end CustomizationPoints
