import CustomizationPoints.Proofs.Association.Closure
import CustomizationPoints.Proofs.Call.Path

/-!
# Which declarations can be selected

Every registered declaration with a body is selected by some call that enters at its seed, if the
seed has a name to call it by; a declaration without a body is never selected
(`selectable_iff_body`).

## The call that selects a declaration

There is one way down from the seed to the declaration.  A host that accepts the declarations on
this way and no others leaves the call no choice: at each of them the next one is the only
candidate, and at the last one there is none (`Call.maximalChain_of_way`).

Friends on the way must not be hidden.  Which classes own them does not matter: in a hierarchy in
which everything derives from all of the owners, a single argument of class type is associated
with each of them, of whatever kind they are (`sees_derivingFromOwners`).
-/

namespace CustomizationPoints

/-- The host that accepts these declarations, and no others. -/
def acceptingOnly (nodes : List Node) : Oracle Id where
  viable node _ := decide (node ∈ nodes)
  pick _ _ := none
  promiseHolds := noPromiseHolds

/-- The classes of a host in which everything derives from the owners of these declarations. -/
def derivingFromOwners (nodes : List Node) : ClassHierarchy Id where
  bases _ := nodes.filterMap (·.decl.friendOf)
  enclosing _ := none

/-- In such a hierarchy a call with a class sees all of the declarations. -/
theorem sees_derivingFromOwners {nodes : List Node} {argument : HostType}
    (classLike : argument.kind = .classType ∨ argument.kind = .unionType) {node : Node}
    (h : node ∈ nodes) :
    ((derivingFromOwners nodes).associated [argument]).run.Sees node := by
  refine ClassSet.sees_iff_forall.2 fun owner hfriend => ?_
  have hderives : (derivingFromOwners nodes).Derives argument.id owner.id :=
    ⟨argument, rfl, List.mem_map_of_mem (List.mem_filterMap.2 ⟨node, h, hfriend⟩)⟩
  rw [ClassSet.contains_iff_mem_ids]
  exact (ClassHierarchy.mem_foldlM_addArgument_iff (fun _ _ _ => rfl) [argument] .empty).2
    (Or.inr ⟨argument, List.mem_cons_self, .base classLike (.single hderives)⟩)

namespace Call

variable {call : Call}

/-- Of the declarations on a way down, only the next one overrides the first one. -/
theorem eq_next_of_overrides (forest : call.registry.IsForest) {current next node : Node}
    {rest : List Node} (links : (current :: next :: rest).IsChain call.registry.Overrides)
    (hnode : node ∈ next :: rest) (h : call.registry.Overrides current node) : node = next := by
  rcases List.mem_cons.1 hnode with rfl | hrest
  · rfl
  · -- it also overrides something further down, and has one parent only
    obtain ⟨above, habove, hover⟩ :=
      exists_rel_of_isChain (List.isChain_cons_cons.1 links).2 hrest
    have hsame : current.id = above.id := Option.some.inj (h.2.symm.trans hover.2)
    have hlt := (List.pairwise_cons.1 (forest.pairwise_of_overrides links)).1 above habove
    rw [hsame] at hlt
    exact absurd hlt (Nat.lt_irrefl _)

section Way

variable (forest : call.registry.IsForest) {current : Node} {below : List Node}
  (links : (current :: below).IsChain call.registry.Overrides)
  (sees : ∀ node ∈ below, call.associated.Sees node ∧
    call.oracle.viable node call.arguments = true)
  (only : ∀ node, call.oracle.viable node call.arguments = true →
    node.id.position ≤ current.id.position ∨ node ∈ below)

include forest links sees only

/-- A call that sees and accepts the declarations on a way down, and nothing else that comes later
than its start, has the first of them as its only candidate. -/
theorem candidates_of_way : call.candidates current = below.take 1 := by
  have hbelow : ∀ node ∈ call.candidates current,
      call.registry.Overrides current node ∧ node ∈ below := by
    intro node h
    obtain ⟨hnode, hparent, -, hviable⟩ := mem_candidates.1 h
    have hlt := forest.parent node hnode current.id hparent
    exact ⟨⟨hnode, hparent⟩, (only node hviable).resolve_left (by omega)⟩
  cases below with
  | nil => exact List.eq_nil_iff_forall_not_mem.2 fun node h => List.not_mem_nil (hbelow node h).2
  | cons next rest =>
    have hnext := (List.isChain_cons_cons.1 links).1
    obtain ⟨hsees, hviable⟩ := sees next List.mem_cons_self
    refine List.perm_singleton.1 ((List.perm_ext_iff_of_nodup (forest.nodup_all.filter _)
      (List.nodup_singleton next)).2 fun node => ?_)
    rw [List.mem_singleton]
    constructor
    · intro h
      obtain ⟨hover, hmem⟩ := hbelow node h
      exact eq_next_of_overrides forest links hmem hover
    · rintro rfl
      exact mem_candidates.2 ⟨hnext.1, hnext.2, hsees, hviable⟩

/-- **Such a call follows the way to its end**, and there nothing is left to go on to. -/
theorem maximalChain_of_way :
    call.MaximalChain current below ∧ call.candidates (below.getLastD current) = [] := by
  have hcandidates := candidates_of_way forest links sees only
  induction below generalizing current with
  | nil => exact ⟨MaximalChain.nil_iff.2 fun next => not_takesOver_of_nil hcandidates, hcandidates⟩
  | cons next rest ih =>
    obtain ⟨hnext, hrest⟩ := List.isChain_cons_cons.1 links
    have hlt := forest.parent next hnext.1 current.id hnext.2
    have sees' := fun node h => sees node (List.mem_cons_of_mem next h)
    have only' : ∀ node, call.oracle.viable node call.arguments = true →
        node.id.position ≤ next.id.position ∨ node ∈ rest := by
      intro node hviable
      rcases only node hviable with hle | hmem
      · exact Or.inl (by omega)
      · rcases List.mem_cons.1 hmem with rfl | hmem
        · exact Or.inl (Nat.le_refl _)
        · exact Or.inr hmem
    obtain ⟨chain, hend⟩ := ih hrest sees' only' (candidates_of_way forest hrest sees' only')
    rw [List.getLastD_cons]
    exact ⟨MaximalChain.cons_iff.2 ⟨.only hcandidates, chain⟩, hend⟩

end Way

end Call

namespace Registry

variable {registry : Registry}

section Forest

variable (forest : registry.IsForest)

include forest

/-- At the end of a way down from a declaration with a name stands the target of a call of this
declaration, if it has a body, and if the call sees what is below its entry. -/
theorem resolve_of_way {entry : Node} {below : List Node} (hentry : entry ∈ registry.all)
    (named : entry.decl.name ≠ none) (links : (entry :: below).IsChain registry.Overrides)
    (body : (below.getLastD entry).decl.isPure = false) {classes : ClassHierarchy Id}
    {arguments : List HostType}
    (visible : ∀ node ∈ below, (classes.associated arguments).run.Sees node) :
    outcome (registry.resolve (acceptingOnly (entry :: below)) classes entry.id arguments) = .ok {
      target := (below.getLastD entry).id
      path := (entry :: below).map (·.id)
      associated := (classes.associated arguments).run } := by
  let call := registry.call (acceptingOnly (entry :: below)) classes arguments
  have accepts : ∀ node, call.oracle.viable node arguments = true ↔ node ∈ entry :: below :=
    fun node => decide_eq_true_iff
  have sees : ∀ node ∈ below, call.associated.Sees node ∧
      call.oracle.viable node call.arguments = true := fun node h =>
    ⟨visible node h, (accepts node).2 (List.mem_cons_of_mem entry h)⟩
  have only : ∀ node, call.oracle.viable node call.arguments = true →
      node.id.position ≤ entry.id.position ∨ node ∈ below := by
    intro node h
    rcases List.mem_cons.1 ((accepts node).1 h) with rfl | hmem
    · exact Or.inl (Nat.le_refl _)
    · exact Or.inr hmem
  obtain ⟨chain, hend⟩ : call.MaximalChain entry below ∧
      call.candidates (below.getLastD entry) = [] :=
    Call.maximalChain_of_way forest links sees only
  exact resolve_of_settles forest (forest.node?_id hentry) named
    ((accepts entry).2 List.mem_cons_self) chain (.selected rfl hend body)

/-- There are classes with which a call sees everything on the way. -/
theorem exists_resolve_of_way {seed : Node} {below : List Node} (hseed : seed ∈ registry.all)
    (named : seed.decl.name ≠ none) (links : (seed :: below).IsChain registry.Overrides)
    (body : (below.getLastD seed).decl.isPure = false) :
    ∃ (oracle : Oracle Id) (classes : ClassHierarchy Id) (arguments : List HostType)
      (associated : ClassSet), outcome (registry.resolve oracle classes seed.id arguments) = .ok {
        target := (below.getLastD seed).id
        path := (seed :: below).map (·.id)
        associated } := by
  have visible : ∀ node ∈ below, ((derivingFromOwners (seed :: below)).associated
      [⟨⟨0⟩, .classType, "T"⟩]).run.Sees node := fun node h =>
    sees_derivingFromOwners (Or.inl rfl) (List.mem_cons_of_mem seed h)
  exact ⟨_, _, _, _, resolve_of_way forest hseed named links body visible⟩

/-- A declaration without a body is no target. -/
theorem satisfiesM_target_ne {m : Type → Type} [Monad m] [LawfulMonad m] (oracle : Oracle m)
    (classes : ClassHierarchy m) (root : DeclId) (arguments : List HostType) {node : Node}
    (h : node ∈ registry.all) (pureNode : node.decl.isPure = true) :
    SatisfiesM (·.target ≠ node.id) (registry.resolve oracle classes root arguments) := by
  refine (satisfiesM_resolve oracle arguments forest classes root).imp fun way => ?_
  cases way with
  | intro registered links body associated =>
    intro htarget
    have hlast := last_mem_all_of_isChain (forest.node?_eq_some_iff.1 registered).1 links
    rw [forest.eq_of_id_eq hlast h htarget, pureNode] at body
    exact nomatch body

end Forest

/-- **No declaration with a body is dead, and no other one is selected.**  In a reachable registry
take any declaration with a body whose seed has a name: some call of the seed selects it, and goes
all the way from the seed down to it.  A declaration without a body is not the target of any call,
whatever the entry, the arguments and the host. -/
theorem selectable_iff_body {conversions : Conversions Id}
    (reachable : registry.Reachable conversions) :
    (∀ node ∈ registry.all, node.decl.isPure = false →
      ∀ seed, registry.seedOf? node.id = some seed → seed.decl.name ≠ none →
        ∃ (oracle : Oracle Id) (classes : ClassHierarchy Id) (arguments : List HostType)
          (associated : ClassSet),
          outcome (registry.resolve oracle classes seed.id arguments) = .ok {
            target := node.id
            path := (registry.ancestors node.id).reverse.map (·.id)
            associated }) ∧
    ∀ node ∈ registry.all, node.decl.isPure = true →
      ∀ {m : Type → Type} [Monad m] [LawfulMonad m] (oracle : Oracle m)
        (classes : ClassHierarchy m) (root : DeclId) (arguments : List HostType),
        SatisfiesM (·.target ≠ node.id) (registry.resolve oracle classes root arguments) := by
  have forest : registry.IsForest := reachable.isForest
  refine ⟨fun node hnode body seed hseedOf named => ?_,
    fun node hnode pureNode {m} _ _ oracle classes root arguments =>
      satisfiesM_target_ne forest oracle classes root arguments hnode pureNode⟩
  obtain ⟨start, below, hstart, hroot, hid, links, rfl⟩ := forest.exists_isChain hnode
  obtain rfl : start = seed := by
    rw [seedOf?, forest.node?_id hnode, Option.bind_some, ← hid, forest.node?_id hstart] at hseedOf
    exact Option.some.inj hseedOf
  rw [forest.ancestors_of_seed_isChain hstart hroot links, List.reverse_reverse]
  exact exists_resolve_of_way forest hstart named links body

/-- In the sample the friend, which a call without arguments does not see, is selected by some
call, and the override without a body is not selected by any. -/
theorem selectable_iff_body_sampleTree :
    let registry := empty.run .identity sampleTree
    (∃ (oracle : Oracle Id) (classes : ClassHierarchy Id) (arguments : List HostType)
      (associated : ClassSet), outcome (registry.resolve oracle classes ⟨0⟩ arguments) =
        .ok { target := ⟨2⟩, path := [⟨0⟩, ⟨2⟩], associated }) ∧
    ∀ resolution, outcome (registry.resolve latestFirst ⟨fun _ => [], fun _ => none⟩ ⟨0⟩ []) =
      .ok resolution → resolution.target ≠ ⟨3⟩ := by
  intro registry
  have reachable : registry.Reachable .identity := ⟨sampleTree, rfl⟩
  obtain ⟨selected, never⟩ := selectable_iff_body reachable
  obtain ⟨friendNode, hfriend, hfriendId, hbody⟩ : ∃ node ∈ registry.all,
      node.id = ⟨2⟩ ∧ node.decl.isPure = false := by decide
  obtain ⟨pureNode, hpure, hpureId, hnobody⟩ : ∃ node ∈ registry.all,
      node.id = ⟨3⟩ ∧ node.decl.isPure = true := by decide
  have hselected := selected friendNode hfriend hbody
  rw [hfriendId] at hselected
  refine ⟨hselected _ rfl (by decide), fun resolution hout => ?_⟩
  rw [← hpureId]
  exact of_outcome_of_satisfiesM (never pureNode hpure hnobody latestFirst _ ⟨0⟩ []) hout

end Registry
end CustomizationPoints
