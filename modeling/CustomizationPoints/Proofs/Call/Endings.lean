import CustomizationPoints.Proofs.Call.Effects
import CustomizationPoints.Proofs.Host.Endings
import CustomizationPoints.Proofs.Registry.Ancestry

/-!
# How a call can end

Whatever the host answers, and however often it changes its mind, a call in a forest ends in one of
two ways.  It fails, and then it reports registered declarations by their own identities and names
(`Registry.Reports`).  Or it succeeds, and then its path is a way down on which every declaration
but the first is visible to the call (`Registry.SeenWay`).

Both are carried through the call together (`ends_resolve`), one step after the other: a step reports
the declaration where it fails and the candidates there, which the step before has shown to be
registered, and it leads to a candidate, which is a visible override (`ends_stepDown`).
-/

namespace CustomizationPoints
namespace Registry

/-- A call with these associated classes can pass from `above` to `node`: a registered override
which it can see. -/
def CanPass (registry : Registry) (associated : ClassSet) (above node : Node) : Prop :=
  registry.Overrides above node ∧ associated.Sees node

/-- What a call that fails may say about the declarations: those that it names are registered, and
their names are those by which they are shown.  Candidates are listed in registration order. -/
inductive Reports (registry : Registry) : CallError → Prop where
  | unknownNode {id : DeclId} (unknown : registry.node? id = none) :
      Reports registry (.unknownNode id)
  | unknownFunction {name : QualifiedName} (unknown : registry.find? name = none) :
      Reports registry (.unknownFunction name.space name.name)
  | unnamedEntryPoint {entry : Node} (hentry : entry ∈ registry.all)
      (unnamed : entry.decl.name = none) : Reports registry (.unnamedEntryPoint entry.id)
  | rootRejected {entry : Node} (hentry : entry ∈ registry.all) (arguments : List HostType) :
      Reports registry (.noViableCandidate entry.displayName arguments .rootRejected)
  | pureWithoutOverride {entry target : Node} (hentry : entry ∈ registry.all)
      (htarget : target ∈ registry.all) (arguments : List HostType) :
      Reports registry (.noViableCandidate entry.displayName arguments
        (.pureWithoutOverride target.id target.displayName))
  | ambiguousOverride {parent : Node} {candidates : List Node} (hparent : parent ∈ registry.all)
      (hcandidates : candidates.Sublist registry.all) (arguments : List HostType) :
      Reports registry (.ambiguousOverride parent.id parent.displayName arguments
        (candidates.map (·.id)) (candidates.map (·.displayName)))
  | invalidOracleAnswer {parent : Node} (hparent : parent ∈ registry.all) (answer : DeclId) :
      Reports registry (.invalidOracleAnswer parent.id parent.displayName answer)
  | returnNotConvertible {target : Node} (htarget : target ∈ registry.all)
      (found expected : HostType) :
      Reports registry (.returnNotConvertible target.id target.displayName found expected)

/-- What a call of `root` may come to: the end of a way down from a declaration with a name, seen
from its second declaration on, if the way ends at a declaration with a body. -/
inductive SeenWay (registry : Registry) (root : DeclId) : Resolution → Prop where
  | intro {entry : Node} {below : List Node} {associated : ClassSet}
      (registered : registry.node? root = some entry) (named : entry.decl.name ≠ none)
      (links : (entry :: below).IsChain (registry.CanPass associated))
      (body : (below.getLastD entry).decl.isPure = false) :
      SeenWay registry root {
        target := (below.getLastD entry).id
        path := (entry :: below).map (·.id)
        associated }

variable {m : Type → Type} [Monad m] [LawfulMonad m] {registry : Registry}
  (oracle : Oracle m) (associated : ClassSet) (arguments : List HostType) {current : Node}

/-! ## One step -/

/-- What takes over a call is one of the candidates. -/
theorem ends_choose (hcurrent : current ∈ registry.all) {candidates : List Node}
    (hcandidates : candidates.Sublist registry.all) :
    Ends registry.Reports (fun choice => ∀ next, choice = some next → next ∈ candidates)
      (oracle.choose arguments current candidates) := by
  obtain _ | ⟨first, _ | ⟨second, rest⟩⟩ := candidates
  · exact .pure fun next h => nomatch h
  · refine .pure fun next h => ?_
    cases h
    exact List.mem_singleton.2 rfl
  · rw [Call.choose_of_several oracle arguments current (by simp)]
    refine .bind (.lift .trivial) fun answer _ => ?_
    cases answer with
    | none => exact .throw (.ambiguousOverride hcurrent hcandidates arguments)
    | some answer =>
      dsimp only
      split
      next => exact .throw (.invalidOracleAnswer hcurrent answer)
      next chosen hchosen =>
        refine .pure fun next h => ?_
        cases h
        exact List.mem_of_find?_eq_some hchosen

section Forest

variable (forest : registry.IsForest) (hcurrent : current ∈ registry.all)

include forest hcurrent

/-- Candidates are visible overrides, in registration order. -/
theorem satisfiesM_candidates : SatisfiesM (fun candidates => candidates.Sublist registry.all ∧
    ∀ node ∈ candidates, registry.CanPass associated current node)
      (registry.candidates oracle associated arguments current) := by
  rw [candidates, visibleOverrides, forest.nodesOf_overrides hcurrent]
  refine (satisfiesM_selectWhere _ _).imp fun hkept => ⟨?_, fun node hnode => ?_⟩
  · exact hkept.trans (List.filter_sublist.trans List.filter_sublist)
  · obtain ⟨hoverride, visible⟩ := List.mem_filter.1 (hkept.subset hnode)
    obtain ⟨hnode, hparent⟩ := List.mem_filter.1 hoverride
    exact ⟨⟨hnode, of_decide_eq_true hparent⟩, ClassSet.admits_iff.1 visible⟩

/-- **A step fails where it is, or leads to a visible override.** -/
theorem ends_stepDown : Ends registry.Reports (fun step => ∀ next, step = some next →
    registry.CanPass associated current next)
      (registry.stepDown oracle associated arguments current) :=
  .bind (.lift (satisfiesM_candidates oracle associated arguments forest hcurrent))
    fun _ hcandidates => (ends_choose oracle arguments hcurrent hcandidates.1).imp (fun _ h => h)
      fun _ hchoice next h => hcandidates.2 next (hchoice next h)

/-! ## All steps -/

/-- **The descent fails on its way, or leads along a way down on which it sees everything.** -/
theorem ends_descend (bound : Nat) :
    Ends registry.Reports
      (fun below => (current :: below).IsChain (registry.CanPass associated))
      (registry.descend oracle associated arguments bound current) := by
  induction bound generalizing current with
  | zero => exact .pure (List.isChain_singleton current)
  | succ bound ih =>
    refine .bind (ends_stepDown oracle associated arguments forest hcurrent) fun step hstep => ?_
    cases step with
    | none => exact .pure (List.isChain_singleton current)
    | some next =>
      have hnext := hstep next rfl
      exact (ih hnext.1.1).bind fun below links =>
        .pure (List.isChain_cons_cons.2 ⟨hnext, links⟩)

end Forest

/-! ## The whole call -/

/-- What is no entry is reported as what it is. -/
theorem reports_of_entryPoint_eq_error (forest : registry.IsForest) {root : DeclId} {e : CallError}
    (h : registry.entryPoint root = .error e) : registry.Reports e := by
  unfold entryPoint at h
  split at h
  next unknown =>
    cases h
    exact .unknownNode unknown
  next entry registered =>
    split at h
    next => cases h
    next unnamed =>
      cases h
      exact .unnamedEntryPoint (forest.node?_eq_some_iff.1 registered).1 (by simpa using unnamed)

/-- **Every call ends with a report, or at the end of a way down on which it sees everything but its
entry.** -/
theorem ends_resolve (forest : registry.IsForest) (classes : ClassHierarchy m) (root : DeclId) :
    Ends registry.Reports (registry.SeenWay root)
      (registry.resolve oracle classes root arguments) := by
  rw [resolve]
  refine .bind (.check (fun _ => entryPoint_eq_ok_iff.1)
    fun _ => reports_of_entryPoint_eq_error forest) fun entry enters => ?_
  obtain ⟨registered, named⟩ := enters
  have hentry : entry ∈ registry.all := (forest.node?_eq_some_iff.1 registered).1
  have descends : Ends registry.Reports (registry.SeenWay root) (do
      let associated ← classes.associated arguments
      let below ← registry.descend oracle associated arguments registry.size entry
      settle entry below arguments associated : ExceptT CallError m Resolution) := by
    refine .bind (.lift .trivial) fun associated _ =>
      .bind (ends_descend oracle associated arguments forest hentry registry.size)
        fun below links => ?_
    have hlast := last_mem_all_of_isChain hentry (links.imp fun _ _ h => h.1)
    rw [settle_eq]
    split
    next => exact .throw (.pureWithoutOverride hentry hlast arguments)
    next body => exact .pure (.intro registered named links (Bool.eq_false_of_not_eq_true body))
  refine .bind (.lift .trivial) fun accepts _ => ?_
  dsimp only
  split
  next => exact descends
  next => exact .throw_bind (.rootRejected hentry arguments) _

/-- A call by name ends as the call of the declaration that the name finds. -/
theorem ends_resolveByName (forest : registry.IsForest) (classes : ClassHierarchy m)
    (name : QualifiedName) :
    Ends registry.Reports
      (fun resolution => ∃ entry, registry.find? name = some entry ∧
        registry.SeenWay entry.id resolution)
      (registry.resolveByName oracle classes name arguments) := by
  rw [resolveByName]
  split
  next unknown => exact .throw (.unknownFunction unknown)
  next entry found =>
    exact (ends_resolve oracle arguments forest classes entry.id).imp (fun _ h => h)
      fun _ way => ⟨entry, found, way⟩

/-! ## Its effects -/

variable (conversions : Conversions m) (policy : CallPolicy)

/-- A result that is refused is that of the target. -/
theorem ends_returnConversion {seed target : Node} (htarget : target ∈ registry.all) :
    Ends registry.Reports (fun _ => True)
      (conversions.returnConversion policy seed target) := by
  by_cases converts : ∃ source goal, Converts policy seed target source goal
  · obtain ⟨source, goal, converts⟩ := converts
    rw [returnConversion_of_converts conversions converts]
    refine .bind (.lift .trivial) fun granted _ => ?_
    dsimp only
    split
    next => exact .pure trivial
    next => exact .throw_bind (.returnNotConvertible htarget source goal) _
  · push Not at converts
    obtain ⟨conversion, settled, -⟩ := returnConversion_of_stays conversions converts
    rw [settled]
    exact .pure trivial

theorem ends_effects (forest : registry.IsForest) (id : DeclId) (site : CallSite) :
    Ends registry.Reports (fun _ => True)
      (registry.effects oracle conversions policy id site) := by
  cases hnode : registry.node? id with
  | none =>
    have unknown : registry.withSeed id = .error (.unknownNode id) := by
      rw [withSeed, hnode]
    rw [effects, unknown]
    exact .throw_bind (.unknownNode hnode) _
  | some target =>
    obtain ⟨htarget, rfl⟩ := forest.node?_eq_some_iff.1 hnode
    obtain ⟨seed, -, known⟩ := withSeed_of_mem forest htarget
    rw [effects_of_withSeed known]
    exact .bind (ends_returnConversion conversions policy htarget) fun _ _ =>
      .bind (.lift .trivial) fun _ _ => .bind (.lift .trivial) fun _ _ => .pure trivial

end Registry

/-- **Every call through an engine** ends with a report, or at the end of such a way down. -/
theorem Engine.ends_call {m : Type → Type} [Monad m] [LawfulMonad m] (engine : Engine m)
    (forest : engine.registry.IsForest) (root : DeclId) (site : CallSite) :
    Ends engine.registry.Reports (fun call => engine.registry.SeenWay root call.resolution)
      (engine.call root site) :=
  .bind (Registry.ends_resolve engine.oracle site.arguments forest engine.classes root)
    fun _ way => .bind (Registry.ends_effects engine.oracle engine.conversions
      engine.settings.callPolicy forest _ site) fun _ _ => .pure way

end CustomizationPoints
