import CustomizationPoints.Proofs.Call.ByName
import CustomizationPoints.Proofs.Call.Selection

/-!
# What friend scope restricts

A friend is meant for the calls whose arguments are associated with its owning class.  The library
says that it is only visible to them, and on the way down it is: at every step a call looks for its
candidates among the overrides that it can see, whatever the host answers
(`SeenWay.seesBelow`).

## Where friend scope does not reach

A call may also enter at a friend, by its identity or by its name, and then it asks whether the
friend accepts the arguments, but never whether it can see the friend.  It works out the associated
classes, and uses them for the overrides of its entry only.

So a call sees its whole path exactly if it sees its entry, and `path_shown_iff_entry_shown` says
which paths there are.  A path is the path of a call with some host if it leads down from a
declaration with a name to one with a body, and if all declarations on it but the first are visible.
A friend that has a name and a body can be selected by any call, with any classes and any arguments:
it is the path that ends where it starts.
-/

namespace CustomizationPoints

/-- If the declaration is a friend, its owner is associated with the call. -/
def Registry.Shows (registry : Registry) (associated : ClassSet) (id : DeclId) : Prop :=
  ∀ node ∈ registry.all, node.id = id →
    ∀ owner, node.decl.friendOf = some owner → associated.contains owner = true

/-- Friend scope restricts the call on its way, though not where it enters. -/
structure Resolution.SeesBelow (registry : Registry) (root : DeclId) (resolution : Resolution) :
    Prop where
  /-- The path starts where the call entered. -/
  starts : resolution.path.head? = some root
  /-- The call sees everything that comes after. -/
  below : ∀ id ∈ resolution.path.tail, registry.Shows resolution.associated id
  /-- It sees its whole path exactly if it sees its entry. -/
  whole : (∀ id ∈ resolution.path, registry.Shows resolution.associated id) ↔
    registry.Shows resolution.associated root

namespace Registry

variable {registry : Registry}

/-! ## On the way -/

/-- What a call goes down to is registered, and visible to it. -/
theorem visible_of_isChain {associated : ClassSet} {entry : Node} {below : List Node}
    (links : (entry :: below).IsChain (registry.CanPass associated)) {node : Node}
    (h : node ∈ below) : node ∈ registry.all ∧ associated.Sees node := by
  obtain ⟨above, -, hoverrides, visible⟩ := exists_rel_of_isChain links h
  exact ⟨hoverrides.1, visible⟩

section Forest

variable (forest : registry.IsForest)

include forest

/-- A registered declaration is shown to the calls that can see it. -/
theorem shows_iff_sees {associated : ClassSet} {node : Node} (h : node ∈ registry.all) :
    registry.Shows associated node.id ↔ associated.Sees node := by
  rw [ClassSet.sees_iff_forall]
  constructor
  · exact fun shows => shows node h rfl
  · intro sees other hother hid
    obtain rfl := forest.eq_of_id_eq hother h hid
    exact sees

/-- **A call sees everything that it goes down to.** -/
theorem SeenWay.seesBelow {root : DeclId} {resolution : Resolution}
    (way : registry.SeenWay root resolution) : resolution.SeesBelow registry root := by
  cases way with
  | @intro entry below associated registered _ links _ =>
    obtain ⟨-, rfl⟩ := forest.node?_eq_some_iff.1 registered
    have hbelow : ∀ id ∈ below.map (·.id), registry.Shows associated id := by
      refine List.forall_mem_map.2 fun node hnode => ?_
      obtain ⟨registered, visible⟩ := visible_of_isChain links hnode
      exact (shows_iff_sees forest registered).2 visible
    refine ⟨rfl, hbelow, ?_⟩
    rw [List.map_cons, List.forall_mem_cons, and_iff_left hbelow]

/-! ## Which ways there are -/

/-- The associated classes of a call are those of its arguments. -/
theorem associated_of_ok {oracle : Oracle Id} {classes : ClassHierarchy Id} {root : DeclId}
    {arguments : List HostType} {resolution : Resolution}
    (h : outcome (registry.resolve oracle classes root arguments) = .ok resolution) :
    resolution.associated = (classes.associated arguments).run := by
  obtain ⟨entry, below, -, settles⟩ := exists_settles_of_ok forest h
  obtain ⟨-, -, rfl⟩ := settles.of_ok
  rfl

/-- **The ways of calls.**  Nothing is asked of the entry but a name. -/
theorem exists_oracle_iff {classes : ClassHierarchy Id} {root : DeclId}
    {arguments : List HostType} {resolution : Resolution} :
    (∃ oracle : Oracle Id,
      outcome (registry.resolve oracle classes root arguments) = .ok resolution) ↔
        registry.SeenWay root resolution ∧
          resolution.associated = (classes.associated arguments).run := by
  constructor
  · rintro ⟨oracle, h⟩
    exact ⟨of_outcome_of_satisfiesM (ends_resolve oracle arguments forest classes root).satisfiesM h,
      associated_of_ok forest h⟩
  · rintro ⟨way, known⟩
    cases way with
    | @intro entry below associated registered named links body =>
      obtain rfl : associated = (classes.associated arguments).run := known
      obtain ⟨hentry, rfl⟩ := forest.node?_eq_some_iff.1 registered
      exact ⟨_, resolve_of_way forest hentry named (links.imp fun _ _ h => h.1) body
        fun node hnode => (visible_of_isChain links hnode).2⟩

end Forest

/-- **Friends are hidden on the way, and not at the entry.**  In a reachable registry let a call
succeed, whatever the host, and entered by identity or by name.  Then every friend on its path but
the first declaration has its owner among the associated classes; so all of them have, the entry
included, exactly if this holds of the entry.

More cannot be said.  With given classes and arguments, a path can be that of a call if and only if
it leads down from a declaration with a name to one with a body, and all declarations on it but the
first are visible. -/
theorem path_shown_iff_entry_shown {conversions : Conversions Id}
    (reachable : registry.Reachable conversions) :
    (∀ {m : Type → Type} [Monad m] [LawfulMonad m] (oracle : Oracle m)
      (classes : ClassHierarchy m) (arguments : List HostType),
      (∀ root, SatisfiesM (Resolution.SeesBelow registry root)
        (registry.resolve oracle classes root arguments)) ∧
      ∀ name, SatisfiesM
        (fun resolution => ∃ entry, registry.Bears name entry ∧
          resolution.SeesBelow registry entry.id)
        (registry.resolveByName oracle classes name arguments)) ∧
    ∀ (classes : ClassHierarchy Id) (arguments : List HostType) (resolution : Resolution),
      (∀ root, (∃ oracle : Oracle Id,
        outcome (registry.resolve oracle classes root arguments) = .ok resolution) ↔
          registry.SeenWay root resolution ∧
            resolution.associated = (classes.associated arguments).run) ∧
      ∀ name, (∃ oracle : Oracle Id,
        outcome (registry.resolveByName oracle classes name arguments) = .ok resolution) ↔
          ∃ entry, registry.Bears name entry ∧ registry.SeenWay entry.id resolution ∧
            resolution.associated = (classes.associated arguments).run := by
  have forest : registry.IsForest := reachable.isForest
  obtain ⟨requests, rfl⟩ := reachable
  have finds : ∀ name entry, (empty.run conversions requests).find? name = some entry ↔
      (empty.run conversions requests).Bears name entry :=
    fun name entry => (namesAgree_run conversions requests).find?_eq_some_iff forest
  refine ⟨fun oracle classes arguments => ⟨fun root => ?_, fun name => ?_⟩,
    fun classes arguments resolution => ⟨fun root => exists_oracle_iff forest, fun name => ?_⟩⟩
  · exact (ends_resolve oracle arguments forest classes root).satisfiesM.imp (·.seesBelow forest)
  · refine (ends_resolveByName oracle arguments forest classes name).satisfiesM.imp ?_
    rintro resolution ⟨entry, found, way⟩
    exact ⟨entry, (finds name entry).1 found, way.seesBelow forest⟩
  · constructor
    · rintro ⟨oracle, h⟩
      rw [resolveByName] at h
      split at h
      next => cases h
      next entry found =>
        exact ⟨entry, (finds name entry).1 found, (exists_oracle_iff forest).1 ⟨oracle, h⟩⟩
    · rintro ⟨entry, bears, way⟩
      obtain ⟨oracle, h⟩ := (exists_oracle_iff forest).2 way
      refine ⟨oracle, ?_⟩
      rw [resolveByName, (finds name entry).2 bears]
      exact h

/-- A seed and a friend of `K` that overrides it, both with names. -/
def namedFriend : List Request :=
  [.declare { space := .parse "lib", name := some "f" },
    .declare {
      space := .parse "lib"
      name := some "g"
      parent := some ⟨0⟩
      friendOf := some ⟨⟨7⟩, .classType, "K"⟩ }]

/-- The classes of a host in which the enumeration `E` is a member of `K`. -/
def memberOfK : ClassHierarchy Id where
  bases _ := []
  enclosing type := if type.id = ⟨8⟩ then some ⟨⟨7⟩, .classType, "K"⟩ else none

/-- A call of the seed with a value of `E` goes down to the friend, and sees all of its path.  With a
number a call cannot see the friend, but some call of the friend by its name selects it. -/
theorem path_shown_iff_entry_shown_namedFriend :
    let registry := empty.run .identity namedFriend
    (∃ resolution, outcome (registry.resolve latestFirst memberOfK ⟨0⟩
        [⟨⟨8⟩, .enumType, "E"⟩]) = .ok resolution ∧ resolution.path = [⟨0⟩, ⟨1⟩] ∧
      ∀ id ∈ resolution.path, registry.Shows resolution.associated id) ∧
    ∃ friendNode ∈ registry.all, ¬registry.Shows .empty friendNode.id ∧ ∃ oracle : Oracle Id,
      outcome (registry.resolveByName oracle memberOfK ⟨.parse "lib", "g"⟩
        [⟨⟨1⟩, .other, "int"⟩]) = .ok ⟨friendNode.id, [friendNode.id], .empty⟩ := by
  intro registry
  have reachable : registry.Reachable .identity := ⟨namedFriend, rfl⟩
  obtain ⟨shown, ways⟩ := path_shown_iff_entry_shown reachable
  constructor
  · obtain ⟨resolution, succeeds, path⟩ : ∃ resolution, outcome (registry.resolve latestFirst
        memberOfK ⟨0⟩ [⟨⟨8⟩, .enumType, "E"⟩]) = .ok resolution ∧
          resolution.path = [⟨0⟩, ⟨1⟩] := ⟨_, rfl, rfl⟩
    have sees := of_outcome_of_satisfiesM ((shown latestFirst memberOfK _).1 ⟨0⟩) succeeds
    have ordinary : ∀ node ∈ registry.all, node.id = ⟨0⟩ → node.decl.friendOf = none := by decide
    refine ⟨resolution, succeeds, path, sees.whole.2 fun node hnode hid owner hfriend => ?_⟩
    exact absurd ((ordinary node hnode hid).symm.trans hfriend) (Option.some_ne_none owner).symm
  · obtain ⟨friendNode, hfriend, hname, owned, body⟩ : ∃ node ∈ registry.all,
        node.decl.qualifiedName? = some ⟨.parse "lib", "g"⟩ ∧
          node.decl.friendOf = some ⟨⟨7⟩, .classType, "K"⟩ ∧ node.decl.isPure = false := by decide
    have bears : registry.Bears ⟨.parse "lib", "g"⟩ friendNode := ⟨hfriend, hname⟩
    have way : registry.SeenWay friendNode.id ⟨friendNode.id, [friendNode.id], .empty⟩ :=
      .intro (reachable.isForest.node?_id hfriend) bears.named (List.isChain_singleton _) body
    refine ⟨friendNode, hfriend, fun shows => ?_, ?_⟩
    · exact Bool.false_ne_true (shows friendNode hfriend rfl _ owned)
    · exact ((ways memberOfK _ _).2 _).2 ⟨friendNode, bears, way, rfl⟩

/-- The friend is hidden from a call of the seed, and selected by the same call of itself, by its
identity or by its name, although its owner is not associated. -/
theorem friend_entered_unseen :
    let registry := empty.run .identity namedFriend
    let arguments := [⟨⟨1⟩, .other, "int"⟩]
    (∃ friendNode ∈ registry.all, friendNode.id = ⟨1⟩ ∧
      ∃ owner ∈ friendNode.decl.friendOf,
        (memberOfK.associated arguments).run.contains owner = false) ∧
    outcome (registry.resolve latestFirst memberOfK ⟨0⟩ arguments) =
      .ok ⟨⟨0⟩, [⟨0⟩], .empty⟩ ∧
    outcome (registry.resolve latestFirst memberOfK ⟨1⟩ arguments) =
      .ok ⟨⟨1⟩, [⟨1⟩], .empty⟩ ∧
    outcome (registry.resolveByName latestFirst memberOfK ⟨.parse "lib", "g"⟩ arguments) =
      .ok ⟨⟨1⟩, [⟨1⟩], .empty⟩ := by
  decide

end Registry
end CustomizationPoints
