import CustomizationPoints.Proofs.Call.Endings

/-!
# The path of a call

A call goes from its entry to an override of it, to an override of that, and so on.  Whatever the
host answers, and however often it changes its mind, the path is a way down in the forest of the
registered declarations.  So a call takes no more turns than there are declarations, and its path
can be found again from its target, by walking up (`resolve_goesDown`).

## Turns of the descent

The descent is given as many turns as there are declarations.  That it never needs one more is
said by `descendThen`, which runs the same turns and then does something else, anything at all:
what it would do then makes no difference, because it never comes to it
(`descendThen_eq`).

## Hosts that change their mind

No host is fixed here.  The statements are about the work of a call in any monad, and follow from
what its steps can end with: a step leads to an override of the declaration before
(`satisfiesM_stepDown`), so the descent leads along a way down (`satisfiesM_descend`).
-/

namespace CustomizationPoints

/-- The resolution selects its target on a way down from `root`. -/
structure Resolution.GoesDown (registry : Registry) (root : DeclId) (resolution : Resolution) :
    Prop where
  /-- The path starts where the call entered. -/
  starts : resolution.path.head? = some root
  /-- It ends with the target. -/
  ends : resolution.path.getLast? = some resolution.target
  /-- The identities on it grow. -/
  increasing : resolution.path.Pairwise fun a b => a.position < b.position
  /-- The walk up from the target comes back on it, and meets the entry at its end. -/
  ancestors : resolution.path.reverse =
    ((registry.ancestors resolution.target).map (·.id)).takeWhile (· ≠ root) ++ [root]
  /-- The entry is the target or an ancestor of it. -/
  isAncestor : registry.isAncestorOrSelf root resolution.target = true
  /-- The call went down as far as the target is deeper than the entry. -/
  depth : ∃ entry target, registry.node? root = some entry ∧
    registry.node? resolution.target = some target ∧
      target.depth = entry.depth + resolution.descent

namespace Registry

/-- What a call of `root` may come to: the end of a way down, if it is a declaration with a
body. -/
inductive WayDown (registry : Registry) (root : DeclId) : Resolution → Prop where
  | intro {entry : Node} {below : List Node} (registered : registry.node? root = some entry)
      (links : (entry :: below).IsChain registry.Overrides)
      (body : (below.getLastD entry).decl.isPure = false) (associated : ClassSet) :
      WayDown registry root {
        target := (below.getLastD entry).id
        path := (entry :: below).map (·.id)
        associated }

variable {m : Type → Type} [Monad m] {registry : Registry}

/-- The descent, doing what `later` says in place of all turns after the first `bound` ones. -/
def descendThen (registry : Registry) (oracle : Oracle m) (associated : ClassSet)
    (arguments : List HostType) (later : Node → ExceptT CallError m (List Node)) :
    Nat → Node → ExceptT CallError m (List Node)
  | 0, current => later current
  | bound + 1, current => do
    match ← registry.stepDown oracle associated arguments current with
    | none => pure []
    | some next =>
      let below ← registry.descendThen oracle associated arguments later bound next
      return next :: below

variable [LawfulMonad m] (oracle : Oracle m) (associated : ClassSet)
  (arguments : List HostType) {current : Node}

/-! ## One step and all steps -/

section Forest

variable (forest : registry.IsForest) (hcurrent : current ∈ registry.all)

include forest hcurrent

/-- **A step leads to an override.** -/
theorem satisfiesM_stepDown : SatisfiesM (fun step => ∀ next, step = some next →
    registry.Overrides current next)
      (registry.stepDown oracle associated arguments current) :=
  (ends_stepDown oracle associated arguments forest hcurrent).satisfiesM.imp
    fun hstep next h => (hstep next h).1

/-- **The descent leads along a way down.** -/
theorem satisfiesM_descend (bound : Nat) :
    SatisfiesM (fun below => (current :: below).IsChain registry.Overrides)
      (registry.descend oracle associated arguments bound current) :=
  (ends_descend oracle associated arguments forest hcurrent bound).satisfiesM.imp
    fun links => links.imp fun _ _ h => h.1

/-- **The descent ends in time**: what it would do after as many turns as there are declarations
from the present one on is never done. -/
theorem descendThen_eq (later : Node → ExceptT CallError m (List Node)) {bound : Nat}
    (hbound : registry.size ≤ current.id.position + bound) :
    registry.descendThen oracle associated arguments later bound current =
      registry.descend oracle associated arguments bound current := by
  induction bound generalizing current with
  | zero => exact absurd (forest.position_lt hcurrent) (by omega)
  | succ bound ih =>
    rw [descendThen, descend]
    refine bind_congr_of_satisfiesM
      (satisfiesM_stepDown oracle associated arguments forest hcurrent) fun step hstep => ?_
    cases step with
    | none => rfl
    | some next =>
      have hnext := hstep next rfl
      have hlt := forest.parent next hnext.1 current.id hnext.2
      dsimp only
      rw [ih hnext.1 (by omega)]

end Forest

/-! ## The whole call -/

/-- **A call that succeeds** has gone down from its entry to a declaration with a body. -/
theorem satisfiesM_resolve (forest : registry.IsForest) (classes : ClassHierarchy m)
    (root : DeclId) :
    SatisfiesM (registry.WayDown root) (registry.resolve oracle classes root arguments) := by
  refine (ends_resolve oracle arguments forest classes root).satisfiesM.imp fun way => ?_
  obtain ⟨registered, -, links, body⟩ := way
  exact .intro registered (links.imp fun _ _ h => h.1) body _

end Registry

/-- A way down is found again from its end. -/
theorem Registry.WayDown.goesDown {registry : Registry} (forest : registry.IsForest)
    {root : DeclId} {resolution : Resolution} (way : registry.WayDown root resolution) :
    resolution.GoesDown registry root := by
  obtain ⟨registered, links, -, associated⟩ := way
  rename_i entry below
  obtain ⟨hentry, rfl⟩ := forest.node?_eq_some_iff.1 registered
  have hordered := forest.pairwise_of_overrides links
  have hwalk := forest.ancestors_of_isChain hentry links
  obtain ⟨rest, hrest⟩ := forest.exists_ancestors hentry
  refine ⟨rfl, ?_, List.pairwise_map.2 hordered, ?_, ?_, entry, below.getLastD entry, registered,
    forest.node?_id (last_mem_all_of_isChain hentry links), ?_⟩
  · rw [List.getLast?_map, List.getLast?_cons, ← List.getLastD_eq_getLast?, Option.map_some]
  · -- the declarations below the entry come later, so the walk does not stop at them
    have hlater : ∀ id ∈ below.reverse.map (·.id), decide (id ≠ entry.id) = true := by
      intro id hid
      obtain ⟨node, hnode, rfl⟩ := List.mem_map.1 hid
      have hlt := (List.pairwise_cons.1 hordered).1 node (List.mem_reverse.1 hnode)
      exact decide_eq_true fun hsame => Nat.lt_irrefl _ (hsame ▸ hlt)
    have hstops : ((below.reverse ++ entry :: rest).map (·.id)).takeWhile (· ≠ entry.id) =
        below.reverse.map (·.id) := by
      rw [List.map_append, List.takeWhile_append_of_pos hlater, List.map_cons,
        List.takeWhile_cons_of_neg (by simp), List.append_nil]
    rw [hwalk, hrest, hstops, ← List.map_reverse, List.reverse_cons, List.map_append,
      List.map_singleton]
  · refine isAncestorOrSelf_iff.2 ⟨entry, ?_, rfl⟩
    rw [hwalk, hrest]
    exact List.mem_append_right _ List.mem_cons_self
  · rw [forest.depth_of_isChain hentry links, List.map_cons, Resolution.descent_cons,
      List.length_map]

namespace Registry

/-- **Every call goes down, and comes to an end.**  The host is any host, also one that answers
the same question differently each time.  In a reachable registry the descent from a registered
declaration takes no more turns than there are declarations: what it would do after them makes no
difference.  And if a call succeeds, then its path is the way down from its entry to its target:
identities grow along it, the walk up from the target comes back on it, and it is as long as the
target is deeper than the entry. -/
theorem resolve_goesDown {conversions : Conversions Id} {registry : Registry}
    (reachable : registry.Reachable conversions) {m : Type → Type} [Monad m] [LawfulMonad m]
    (oracle : Oracle m) (classes : ClassHierarchy m) (root : DeclId)
    (arguments : List HostType) :
    (∀ entry ∈ registry.all, ∀ associated later,
      registry.descendThen oracle associated arguments later registry.size entry =
        registry.descend oracle associated arguments registry.size entry) ∧
    SatisfiesM (Resolution.GoesDown registry root)
      (registry.resolve oracle classes root arguments) := by
  have forest : registry.IsForest := reachable.isForest
  exact ⟨fun entry hentry associated later =>
    descendThen_eq oracle associated arguments forest hentry later (Nat.le_add_left _ _),
    (satisfiesM_resolve oracle arguments forest classes root).imp (·.goesDown forest)⟩

/-- A host that looks at the number of questions before: it says no to the second question, whatever
it is, and prefers what was registered last. -/
def moody : Strategy := fun asked question =>
  match question with
  | .viable .. => asked.size ≠ 1
  | .order candidates _ => candidates.getLast?.map (·.id)
  | .more .. | .promise .. | .implicit .. | .nothrow .. => false
  | .bases _ => []
  | .enclosing _ => none

/-- In the sample this host turns the first override away, and accepts the one that it is asked
about next.  The call goes there and further down, and the walk up from its target comes back on its
path.  Five turns are enough for the descent from the seed. -/
theorem resolve_goesDown_sampleTree :
    let registry := empty.run .identity sampleTree
    (∃ seed, registry.node? ⟨0⟩ = some seed ∧ ∀ later,
      registry.descendThen moody.oracle .empty [] later 5 seed =
        registry.descend moody.oracle .empty [] 5 seed) ∧
    ∃ resolution, ((registry.resolve moody.oracle moody.classes ⟨0⟩ []).run.run #[]).1 =
        .ok resolution ∧
      resolution.path = [⟨0⟩, ⟨3⟩, ⟨4⟩] ∧ resolution.GoesDown registry ⟨0⟩ := by
  intro registry
  have reachable : registry.Reachable .identity := ⟨sampleTree, rfl⟩
  obtain ⟨turns, goesDown⟩ := resolve_goesDown reachable moody.oracle moody.classes ⟨0⟩ []
  obtain ⟨seed, hseed, hid⟩ : ∃ node ∈ registry.all, node.id = ⟨0⟩ := by decide
  obtain ⟨resolution, hrun, hpath⟩ : ∃ resolution,
      ((registry.resolve moody.oracle moody.classes ⟨0⟩ []).run.run #[]).1 = .ok resolution ∧
        resolution.path = [⟨0⟩, ⟨3⟩, ⟨4⟩] := ⟨⟨⟨4⟩, [⟨0⟩, ⟨3⟩, ⟨4⟩], .empty⟩, rfl, rfl⟩
  refine ⟨⟨seed, ?_, fun later => turns seed hseed .empty later⟩, resolution, hrun, hpath,
    of_run_of_satisfiesM goesDown hrun⟩
  rw [← hid]
  exact reachable.isForest.node?_id hseed

end Registry
end CustomizationPoints
