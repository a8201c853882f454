import CustomizationPoints.Proofs.Call.Mirror
import CustomizationPoints.Proofs.Call.Outcome
import CustomizationPoints.Proofs.Host.Pairwise
import CustomizationPoints.Proofs.Registry.Renaming

/-!
# The order of registration does not matter to a call

Two registries may hold the same declarations up to a bijection between their identities
(`Registry.Renaming`), for example when the declarations were registered in another order.  A
host that compares candidates two at a time, and that judges corresponding declarations alike,
resolves corresponding calls alike (`resolve_renaming`).  The overrides of a declaration may be
listed in different orders on the two sides.  This is seen in one place only, the list of
candidates of an ambiguous call.

## The argument

The candidates below corresponding declarations correspond, because the bijection respects
the parents (`Call.Alike.map_candidates`).  The unique maximal one among them is the same
under both names (`uniqueMaximal_rename`).  So each call mirrors the other at every registered
declaration, and their chains are mirror images.
-/

namespace CustomizationPoints

namespace Registry

/-- The outcomes of corresponding calls say the same, in the names of either registry.  Only
the candidates of an ambiguous call may be listed in another order. -/
inductive SameOutcome (left right : Registry) (f : DeclId → DeclId) :
    Except CallError Resolution → Except CallError Resolution → Prop where
  | selected {target : DeclId} {path : List DeclId} {associated : ClassSet} :
      SameOutcome left right f (.ok { target, path, associated })
        (.ok { target := f target, path := path.map f, associated })
  | unnamed {entry : DeclId} :
      SameOutcome left right f (.error (.unnamedEntryPoint entry))
        (.error (.unnamedEntryPoint (f entry)))
  | rejected {function : String} {arguments : List HostType} :
      SameOutcome left right f (.error (.noViableCandidate function arguments .rootRejected))
        (.error (.noViableCandidate function arguments .rootRejected))
  | withoutBody {function : String} {arguments : List HostType} {node image : Node}
      (same : left.Matches right f node image) :
      SameOutcome left right f
        (.error (.noViableCandidate function arguments
          (.pureWithoutOverride node.id node.displayName)))
        (.error (.noViableCandidate function arguments
          (.pureWithoutOverride image.id image.displayName)))
  | ambiguous {arguments : List HostType} {parent parentImage : Node}
      {candidates images : List Node} (same : left.Matches right f parent parentImage)
      (listed : ∃ renamed, List.Forall₂ (left.Matches right f) candidates renamed ∧
        renamed.Perm images) :
      SameOutcome left right f
        (.error (.ambiguousOverride parent.id parent.displayName arguments
          (candidates.map (·.id)) (candidates.map (·.displayName))))
        (.error (.ambiguousOverride parentImage.id parentImage.displayName arguments
          (images.map (·.id)) (images.map (·.displayName))))

/-- What corresponds to a selection is the selection of the renamed target. -/
theorem SameOutcome.of_ok {left right : Registry} {f : DeclId → DeclId}
    {resolution : Resolution} {out : Except CallError Resolution}
    (h : left.SameOutcome right f (.ok resolution) out) :
    out = .ok
      { target := f resolution.target
        path := resolution.path.map f
        associated := resolution.associated } := by
  cases h
  rfl

end Registry

namespace Call

open Registry

/-! ## Corresponding calls -/

/-- The two calls have the same arguments, their registries hold the same declarations, and
their hosts judge corresponding declarations alike, two at a time. -/
structure Alike (call other : Call) (f : DeclId → DeclId) (more more' : Node → Node → Id Bool) :
    Prop where
  forest : call.registry.IsForest
  forest' : other.registry.IsForest
  same : call.registry.Renaming other.registry f
  associated : other.associated = call.associated
  arguments : other.arguments = call.arguments
  accepts : ∀ node image, call.registry.Matches other.registry f node image →
    other.oracle.viable image other.arguments = call.oracle.viable node call.arguments
  compares : ∀ a b a' b', call.registry.Matches other.registry f a a' →
    call.registry.Matches other.registry f b b' → more' a' b' = more a b
  pick : ∀ candidates, call.oracle.pick candidates call.arguments =
    uniqueMaximal (m := Id) more candidates
  pick' : ∀ candidates, other.oracle.pick candidates other.arguments =
    uniqueMaximal (m := Id) more' candidates

namespace Alike

variable {call other : Call} {f : DeclId → DeclId} {more more' : Node → Node → Id Bool}
  (alike : call.Alike other f more more') {current : Node}

include alike

theorem isCandidate_image (hcurrent : current ∈ call.registry.all) {node : Node}
    (hnode : node ∈ call.registry.all) :
    other.isCandidate (other.registry.imageIn f current) (other.registry.imageIn f node) =
      call.isCandidate current node := by
  have hdecl := alike.same.decl_image alike.forest hnode
  have hparent : (other.registry.imageIn f node).decl.parent =
      some (other.registry.imageIn f current).id ↔ node.decl.parent = some current.id := by
    rw [hdecl, alike.same.id_image alike.forest alike.forest' hcurrent]
    cases hid : node.decl.parent with
    | none => exact ⟨fun heq => (nomatch heq), fun heq => (nomatch heq)⟩
    | some id =>
      obtain ⟨above, habove, rfl⟩ := alike.forest.exists_parent hnode hid
      rw [Option.map_some, Option.some.injEq, Option.some.injEq]
      exact alike.same.injective alike.forest habove hcurrent
  have hsees : other.associated.Sees (other.registry.imageIn f node) ↔
      call.associated.Sees node := by
    rw [alike.associated, ClassSet.Sees, ClassSet.Sees, hdecl]
  have hviable := alike.accepts node _ (alike.same.matches_image alike.forest alike.forest' hnode)
  rw [Bool.eq_iff_iff, isCandidate_iff, isCandidate_iff, hparent, hsees, hviable]

/-- Corresponding declarations have corresponding candidates. -/
theorem map_candidates (hcurrent : current ∈ call.registry.all) :
    ((call.candidates current).map (other.registry.imageIn f)).Perm
      (other.candidates (other.registry.imageIn f current)) := by
  refine List.Perm.trans (List.Perm.of_eq ?_)
    ((alike.same.map_image_all alike.forest alike.forest').filter _)
  rw [List.filter_map]
  refine congrArg (List.map _) (List.filter_congr fun node hnode => ?_)
  exact (alike.isCandidate_image hcurrent hnode).symm

/-- Corresponding calls do the same at every registered declaration. -/
theorem mirrors (hcurrent : current ∈ call.registry.all) :
    call.Mirrors other f (other.registry.imageIn f) current := by
  have hmem : ∀ node ∈ call.candidates current, node ∈ call.registry.all :=
    fun node hnode => (mem_candidates.1 hnode).1
  have hlisted := alike.map_candidates hcurrent
  have hrenamed : ∀ node ∈ call.candidates current,
      (other.registry.imageIn f node).id = f node.id :=
    fun node hnode => alike.same.id_image alike.forest alike.forest' (hmem node hnode)
  refine ⟨hlisted, hrenamed, fun _ => ?_, fun answer hanswer node hnode hsame => ?_⟩
  · rw [alike.pick, alike.pick']
    refine uniqueMaximal_rename hlisted (fun a ha b hb => ?_) (fun a ha b hb => ?_) hrenamed
    · rw [hrenamed a ha, hrenamed b hb, alike.same.injective alike.forest (hmem a ha) (hmem b hb)]
    · exact alike.compares a b _ _ (alike.same.matches_image alike.forest alike.forest' (hmem a ha))
        (alike.same.matches_image alike.forest alike.forest' (hmem b hb))
  · rw [alike.pick] at hanswer
    obtain ⟨winner, hwinner, rfl⟩ := exists_of_uniqueMaximal hanswer
    exact (alike.same.injective alike.forest (hmem winner hwinner) (hmem node hnode)).1 hsame

/-- Corresponding calls settle in the same way. -/
theorem settles {entry : Node} {below : List Node} {result : Except CallError Resolution}
    (hentry : entry ∈ call.registry.all) (hname : entry.decl.name ≠ none)
    (chain : call.MaximalChain entry below) (settles : call.Settles entry below result) :
    ∃ result', other.Settles (other.registry.imageIn f entry)
        (below.map (other.registry.imageIn f)) result' ∧
      call.registry.SameOutcome other.registry f result result' := by
  have hlast : below.getLastD entry ∈ call.registry.all := chain.last_mem_all hentry
  have hmirrors := alike.mirrors hlast
  have hlisted := hmirrors.listed
  have hmatches := alike.same.matches_image alike.forest alike.forest' hlast
  have hdecl := alike.same.decl_image alike.forest hlast
  have hfunction := alike.same.displayName_image alike.forest hentry hname
  have hend : (below.map (other.registry.imageIn f)).getLastD (other.registry.imageIn f entry) =
      other.registry.imageIn f (below.getLastD entry) := List.getLastD_map
  have hlength : (other.candidates (other.registry.imageIn f (below.getLastD entry))).length =
      (call.candidates (below.getLastD entry)).length := by
    rw [← hlisted.length_eq, List.length_map]
  cases settles with
  | selected last done body =>
    subst last
    have hpath : (other.registry.imageIn f entry :: below.map (other.registry.imageIn f)).map
        (·.id) = ((entry :: below).map (·.id)).map f := by
      rw [← List.map_cons, List.map_map, List.map_map]
      refine List.map_congr_left fun node hnode => ?_
      rcases List.mem_cons.1 hnode with rfl | hmem
      · exact alike.same.id_image alike.forest alike.forest' hentry
      · exact alike.same.id_image alike.forest alike.forest' (chain.mem_all node hmem)
    rw [done, List.map_nil] at hlisted
    refine ⟨_, .selected hend hlisted.nil_eq.symm ?_, ?_⟩
    · rw [hdecl]
      exact body
    · rw [hpath, alike.same.id_image alike.forest alike.forest' hlast, alike.associated]
      exact .selected
  | withoutBody last done pureEnd =>
    subst last
    rw [done, List.map_nil] at hlisted
    refine ⟨_, .withoutBody hend hlisted.nil_eq.symm ?_, ?_⟩
    · rw [hdecl]
      exact pureEnd
    · rw [hfunction, alike.arguments]
      exact .withoutBody hmatches
  | ambiguous last several unanswered =>
    subst last
    refine ⟨_, .ambiguous hend ?_ ?_, ?_⟩
    · rw [hlength]
      exact several
    · rw [hmirrors.picks several, unanswered]
      rfl
    · rw [alike.arguments]
      refine .ambiguous hmatches ⟨_, ?_, hlisted⟩
      rw [List.forall₂_map_right_iff, List.forall₂_same]
      exact fun node hnode => alike.same.matches_image alike.forest alike.forest'
        (mem_candidates.1 hnode).1
  | invalid last several answered stranger =>
    -- the host names a candidate whenever it names anything
    rw [alike.pick] at answered
    obtain ⟨winner, hwinner, hid⟩ := exists_of_uniqueMaximal answered
    exact absurd hid (stranger winner hwinner)

end Alike

end Call

namespace Registry

/-- **The order of registration does not matter to a call.**  Let two reachable registries
hold the same declarations up to a bijection between their identities.  If two hosts that
compare candidates two at a time judge corresponding declarations alike, then corresponding
calls with the same arguments have the same outcome, up to the bijection and to the order in
which the candidates of an ambiguous call are listed. -/
theorem resolve_renaming {conversions conversions' : Conversions Id} {left right : Registry}
    (hleft : left.Reachable conversions) (hright : right.Reachable conversions')
    {f : DeclId → DeclId} (same : left.Renaming right f)
    (viable viable' : Node → List HostType → Id Bool)
    (more more' : Node → Node → List HostType → Id Bool)
    (promiseHolds promiseHolds' : Node → String → List HostType → Id Bool)
    (classes : ClassHierarchy Id) (root : DeclId) (registered : left.node? root ≠ none)
    (arguments : List HostType)
    (accepts : ∀ node image, left.Matches right f node image →
      viable' image arguments = viable node arguments)
    (compares : ∀ a b a' b', left.Matches right f a a' → left.Matches right f b b' →
      more' a' b' arguments = more a b arguments) :
    left.SameOutcome right f
      (outcome (left.resolve (.pairwise viable more promiseHolds) classes root arguments))
      (outcome (right.resolve (.pairwise viable' more' promiseHolds') classes (f root)
        arguments)) := by
  have alike : (left.call (.pairwise viable more promiseHolds) classes arguments).Alike
      (right.call (.pairwise viable' more' promiseHolds') classes arguments) f
      (fun a b => more a b arguments) (fun a b => more' a b arguments) :=
    ⟨hleft.isForest, hright.isForest, same, rfl, rfl, accepts, compares, fun _ => rfl,
      fun _ => rfl⟩
  obtain ⟨entry, hnode⟩ := Option.ne_none_iff_exists'.1 registered
  obtain ⟨hentry, rfl⟩ := hleft.isForest.node?_eq_some_iff.1 hnode
  have himage := same.node?_image hleft.isForest hentry
  have hdecl := same.decl_image hleft.isForest hentry
  have hname : (right.imageIn f entry).decl.name = entry.decl.name := by rw [hdecl]
  have hviable := accepts entry _ (same.matches_image hleft.isForest hright.isForest hentry)
  rcases resolve_cases hleft.isForest (.pairwise viable more promiseHolds) classes arguments
    hnode with ⟨hnone, hout⟩ | ⟨hsome, hrejects, hout⟩ | ⟨hsome, haccepts, below, chain, settles⟩
  · rw [hout, resolve_of_unnamed himage (hname.trans hnone),
      same.id_image hleft.isForest hright.isForest hentry]
    exact .unnamed
  · rw [hout, resolve_of_rejected himage (hname ▸ hsome) (hviable.trans hrejects),
      same.displayName_image hleft.isForest hentry hsome]
    exact .rejected
  · have hmirrors : ∀ current ∈ entry :: below,
        (left.call (.pairwise viable more promiseHolds) classes arguments).Mirrors
          (right.call (.pairwise viable' more' promiseHolds') classes arguments) f
          (right.imageIn f) current := by
      intro current hcurrent
      rcases List.mem_cons.1 hcurrent with rfl | hmem
      · exact alike.mirrors hentry
      · exact alike.mirrors (chain.mem_all current hmem)
    obtain ⟨result', settles', hsame⟩ := alike.settles hentry hsome chain ((settles _).1 rfl)
    rw [resolve_of_settles hright.isForest himage (hname ▸ hsome) (hviable.trans haccepts)
      (chain.mirror hmirrors) settles']
    exact hsame

/-- A seed with two overrides, of which the second has an override of its own. -/
def sampleOrder : List Request :=
  [.declare { space := .global, name := some "f" },
    .declare { space := .global, parent := some ⟨0⟩ },
    .declare { space := .global, name := some "g", parent := some ⟨0⟩, isPure := true },
    .declare { space := .global, parent := some ⟨2⟩ }]

/-- The same declarations, with the two overrides of the seed in the other order. -/
def swappedOrder : List Request :=
  [.declare { space := .global, name := some "f" },
    .declare { space := .global, name := some "g", parent := some ⟨0⟩, isPure := true },
    .declare { space := .global, parent := some ⟨0⟩ },
    .declare { space := .global, parent := some ⟨1⟩ }]

/-- The identities in the other order. -/
def swapped (id : DeclId) : DeclId :=
  if id = ⟨1⟩ then ⟨2⟩ else if id = ⟨2⟩ then ⟨1⟩ else id

theorem swapped_swapped (id : DeclId) : swapped (swapped id) = id := by
  unfold swapped
  by_cases h₁ : id = ⟨1⟩
  · simp [h₁]
  · by_cases h₂ : id = ⟨2⟩
    · simp [h₂]
    · simp [h₁, h₂]

theorem renaming_swapped :
    (empty.run .identity sampleOrder).Renaming (empty.run .identity swappedOrder) swapped := by
  have hcases : ∀ id : DeclId, id.position < 4 → id = ⟨0⟩ ∨ id = ⟨1⟩ ∨ id = ⟨2⟩ ∨ id = ⟨3⟩ := by
    intro id hid
    have hplace : id.position = 0 ∨ id.position = 1 ∨ id.position = 2 ∨ id.position = 3 := by omega
    rcases hplace with h | h | h | h
    · exact Or.inl (DeclId.eq_of_position_eq h)
    · exact Or.inr (Or.inl (DeclId.eq_of_position_eq h))
    · exact Or.inr (Or.inr (Or.inl (DeclId.eq_of_position_eq h)))
    · exact Or.inr (Or.inr (Or.inr (DeclId.eq_of_position_eq h)))
  have hmaps : ∀ id : DeclId, id.position < 4 → (swapped id).position < 4 := by
    intro id hid
    rcases hcases id hid with rfl | rfl | rfl | rfl <;> decide
  refine ⟨⟨?_, ?_, ?_⟩, ?_⟩
  · intro id hid
    exact node?_ne_none_iff.2 (hmaps id (node?_ne_none_iff.1 hid))
  · intro a _ b _ h
    rw [← swapped_swapped a, h, swapped_swapped]
  · intro id hid
    exact ⟨swapped id, node?_ne_none_iff.2 (hmaps id (node?_ne_none_iff.1 hid)), swapped_swapped id⟩
  · intro id node image hnode himage
    have hsome : (empty.run .identity sampleOrder).node? id ≠ none := by
      rw [hnode]
      exact Option.some_ne_none node
    rcases hcases id (node?_ne_none_iff.1 hsome) with rfl | rfl | rfl | rfl
    all_goals
      cases hnode
      cases himage
      rfl

/-- The oracle that accepts everything and prefers declarations with a name. -/
def namedFirst : Oracle Id :=
  .pairwise (fun _ _ => true) (fun a _ _ => a.decl.name.isSome) noPromiseHolds

/-- A host that prefers declarations with a name goes through the same declarations of the
sample in both orders. -/
theorem resolve_renaming_swapped :
    outcome ((empty.run .identity sampleOrder).resolve namedFirst ⟨fun _ => [], fun _ => none⟩
        ⟨0⟩ []) =
      .ok { target := ⟨3⟩, path := [⟨0⟩, ⟨2⟩, ⟨3⟩], associated := .empty } ∧
    outcome ((empty.run .identity swappedOrder).resolve namedFirst ⟨fun _ => [], fun _ => none⟩
        (swapped ⟨0⟩) []) =
      .ok { target := ⟨3⟩, path := [⟨0⟩, ⟨1⟩, ⟨3⟩], associated := .empty } := by
  have hleft : (empty.run .identity sampleOrder).Reachable .identity := ⟨sampleOrder, rfl⟩
  have hright : (empty.run .identity swappedOrder).Reachable .identity := ⟨swappedOrder, rfl⟩
  have hname : ∀ a a', (empty.run .identity sampleOrder).Matches (empty.run .identity swappedOrder)
      swapped a a' → a'.decl.name = a.decl.name := by
    intro a a' h
    have himage := hright.isForest.node?_id h.right
    rw [h.id] at himage
    rw [renaming_swapped.contents a.id a a' (hleft.isForest.node?_id h.left) himage]
  have hsame : (empty.run .identity sampleOrder).SameOutcome (empty.run .identity swappedOrder)
      swapped (.ok { target := ⟨3⟩, path := [⟨0⟩, ⟨2⟩, ⟨3⟩], associated := .empty })
      (outcome ((empty.run .identity swappedOrder).resolve namedFirst
        ⟨fun _ => [], fun _ => none⟩ (swapped ⟨0⟩) [])) :=
    resolve_renaming hleft hright renaming_swapped (fun _ _ => true) (fun _ _ => true)
      (fun a _ _ => a.decl.name.isSome) (fun a _ _ => a.decl.name.isSome) noPromiseHolds
      noPromiseHolds ⟨fun _ => [], fun _ => none⟩ ⟨0⟩ (by decide) [] (fun _ _ _ => rfl)
      fun a _ a' _ ha _ => congrArg Option.isSome (hname a a' ha)
  exact ⟨rfl, hsame.of_ok⟩

end Registry
end CustomizationPoints
