import CustomizationPoints.Proofs.Call.Endings
import CustomizationPoints.Proofs.Namespace.Paths
import CustomizationPoints.Proofs.Registry.Names

/-!
# Names in messages

A message shows a declaration by its qualified spelling, or by a label with its identity if it has
no name.  If namespaces are read from paths and names have no colons, then no two registered
declarations are shown alike (`eq_of_displayName_eq`):

* two qualified spellings tell the namespace from the name, and a name in a namespace belongs to one
  declaration at most;
* two labels differ in the digits of the identity;
* a qualified spelling has a colon, and a label has none, whatever is taken for a name.

So a reader can tell from the message of a failed call which declarations it is about.  A failure
reports registered declarations by the names by which they are shown (`Registry.Reports`), and each
of these names leads back to one declaration (`Reports.identifies`).
-/

namespace CustomizationPoints

/-! ## Labels -/

/-- The written identity tells the identity. -/
theorem DeclId.eq_of_text_eq {a b : DeclId} (h : a.text = b.text) : a = b := by
  rw [DeclId.text, DeclId.text, String.append_right_inj] at h
  exact DeclId.eq_of_position_eq (Nat.repr_injective h)

theorem DeclId.colon_notMem_text (id : DeclId) : ':' ∉ id.text.toList := by
  rw [DeclId.text, String.toList_append, List.mem_append, not_or]
  refine ⟨by decide, fun hcolon => ?_⟩
  rw [Nat.toString_eq_repr, Nat.toList_repr] at hcolon
  exact absurd (Nat.isDigit_of_mem_toDigits (by decide) (by decide) hcolon) (by decide)

namespace Node

theorem displayName_of_named {node : Node} {name : String} (h : node.decl.name = some name) :
    node.displayName = node.decl.space.qualify name := by
  rw [displayName, h]

theorem displayName_of_unnamed {node : Node} (h : node.decl.name = none) :
    node.displayName = "<unnamed override " ++ node.id.text ++ ">" := by
  rw [displayName, h]

/-- A label has no colon, while a qualified spelling has. -/
theorem colon_mem_displayName_iff (node : Node) :
    ':' ∈ node.displayName.toList ↔ node.decl.name ≠ none := by
  cases hname : node.decl.name with
  | some name =>
    rw [displayName_of_named hname]
    exact iff_of_true (Namespace.colon_mem_qualify _ name) (Option.some_ne_none name)
  | none =>
    rw [displayName_of_unnamed hname, String.toList_append, String.toList_append, List.mem_append,
      List.mem_append]
    refine iff_of_false ?_ (fun h => h rfl)
    rintro ((hlabel | hid) | hlabel)
    · exact absurd hlabel (by decide)
    · exact node.id.colon_notMem_text hid
    · exact absurd hlabel (by decide)

end Node

/-! ## Names of failures -/

/-- The declarations that a failure mentions by identity, each with the name beside it. -/
def CallError.mentions : CallError → List (DeclId × String)
  | .noViableCandidate _ _ .rootRejected => []
  | .noViableCandidate _ _ (.pureWithoutOverride node nodeName) => [(node, nodeName)]
  | .ambiguousOverride parent parentName _ candidates candidateNames =>
    (parent, parentName) :: candidates.zip candidateNames
  | .invalidOracleAnswer parent parentName _ => [(parent, parentName)]
  | .returnNotConvertible target targetName _ _ => [(target, targetName)]
  | .unknownNode _ | .unnamedEntryPoint _ | .unknownFunction .. => []

namespace Registry

/-- Namespaces are read from paths, and names have no colons. -/
structure PlainlyNamed (registry : Registry) : Prop where
  space : ∀ node ∈ registry.all, ∃ path, node.decl.space = Namespace.parse path
  name : ∀ node ∈ registry.all, ∀ name, node.decl.name = some name → ':' ∉ name.toList

/-- A reader can tell which declarations the failure is about. -/
structure Identifies (registry : Registry) (e : CallError) : Prop where
  /-- Each name is that of the declaration with the identity beside it, and of no other one. -/
  mentions : ∀ mention ∈ e.mentions, (∃ node ∈ registry.all, node.id = mention.1) ∧
    ∀ node ∈ registry.all, node.displayName = mention.2 ↔ node.id = mention.1
  /-- There is a name for each candidate, and they are different. -/
  distinct : ∀ parent parentName arguments candidates candidateNames,
    e = .ambiguousOverride parent parentName arguments candidates candidateNames →
      candidateNames.length = candidates.length ∧ candidateNames.Nodup

variable {registry : Registry} {announced : Set QualifiedName} (forest : registry.IsForest)
  (agree : registry.NamesAgree announced) (plain : registry.PlainlyNamed)

include forest agree plain

/-- **No two declarations are shown alike.** -/
theorem eq_of_displayName_eq {a b : Node} (ha : a ∈ registry.all) (hb : b ∈ registry.all)
    (h : a.displayName = b.displayName) : a = b := by
  have hcolon : a.decl.name ≠ none ↔ b.decl.name ≠ none := by
    rw [← a.colon_mem_displayName_iff, ← b.colon_mem_displayName_iff, h]
  cases hname : a.decl.name with
  | none =>
    have hother : b.decl.name = none := by simpa [hname] using hcolon
    rw [Node.displayName_of_unnamed hname, Node.displayName_of_unnamed hother,
      String.append_left_inj, String.append_right_inj] at h
    exact forest.eq_of_id_eq ha hb (DeclId.eq_of_text_eq h)
  | some name =>
    obtain ⟨otherName, hother⟩ : ∃ otherName, b.decl.name = some otherName :=
      Option.ne_none_iff_exists'.1 (hcolon.1 (by simp [hname]))
    rw [Node.displayName_of_named hname, Node.displayName_of_named hother] at h
    obtain ⟨path, hpath⟩ := plain.space a ha
    obtain ⟨otherPath, hotherPath⟩ := plain.space b hb
    obtain ⟨hspace, rfl⟩ := Namespace.eq_and_eq_of_qualify_eq
      (hpath ▸ Namespace.wellFormed_parse path) (hotherPath ▸ Namespace.wellFormed_parse otherPath)
      (plain.name a ha name hname) (plain.name b hb otherName hother) h
    have hqualified : a.decl.qualifiedName? = some ⟨a.decl.space, name⟩ := by
      rw [Declaration.qualifiedName?, hname, Option.map_some]
    refine agree.eq_of_name_eq forest ha hb hqualified ?_
    rw [Declaration.qualifiedName?, hother, Option.map_some, hspace]

/-- The name by which a declaration is shown leads back to it. -/
theorem displayName_eq_iff {node other : Node} (h : node ∈ registry.all)
    (hother : other ∈ registry.all) :
    other.displayName = node.displayName ↔ other.id = node.id :=
  ⟨fun same => congrArg Node.id (eq_of_displayName_eq forest agree plain hother h same),
    fun same => congrArg Node.displayName (forest.eq_of_id_eq hother h same)⟩

/-- **What a failed call reports, it identifies.** -/
theorem Reports.identifies {e : CallError} (reports : registry.Reports e) :
    registry.Identifies e := by
  have hshown : ∀ node ∈ registry.all, (∃ other ∈ registry.all, other.id = node.id) ∧
      ∀ other ∈ registry.all, other.displayName = node.displayName ↔ other.id = node.id :=
    fun node h => ⟨⟨node, h, rfl⟩, fun other hother =>
      displayName_eq_iff forest agree plain h hother⟩
  cases reports with
  | unknownNode | unknownFunction | unnamedEntryPoint | rootRejected =>
    exact ⟨fun _ h => absurd h List.not_mem_nil, fun _ _ _ _ _ h => nomatch h⟩
  | pureWithoutOverride _ hnode | invalidOracleAnswer hnode | returnNotConvertible hnode =>
    exact ⟨List.forall_mem_singleton.2 (hshown _ hnode), fun _ _ _ _ _ h => nomatch h⟩
  | @ambiguousOverride parent candidates hparent hcandidates arguments =>
    refine ⟨List.forall_mem_cons.2 ⟨hshown parent hparent, ?_⟩, ?_⟩
    · rw [List.zip_map']
      exact List.forall_mem_map.2 fun node hnode => hshown node (hcandidates.subset hnode)
    · rintro _ _ _ _ _ ⟨⟩
      refine ⟨by rw [List.length_map, List.length_map], ?_⟩
      exact (forest.nodup_all.sublist hcandidates).map_on fun a ha b hb =>
        eq_of_displayName_eq forest agree plain (hcandidates.subset ha) (hcandidates.subset hb)

omit forest agree plain

/-- **Declarations can be told by their names.**  Let a registry be reachable, with namespaces that
are read from paths and names without colons.  Then different registered declarations have different
display names, whether they have names or not.  And in every failure of a call, whatever the host,
each name belongs to the declaration with the identity beside it and to no other one, be it the
declaration where the call became ambiguous, where the host answered with a stranger, or where it
stopped without a body; and the names of the candidates are different. -/
theorem displayName_identifies {conversions : Conversions Id} {registry : Registry}
    (reachable : registry.Reachable conversions) (plain : registry.PlainlyNamed) :
    (∀ a ∈ registry.all, ∀ b ∈ registry.all, a ≠ b → a.displayName ≠ b.displayName) ∧
    ∀ {m : Type → Type} [Monad m] [LawfulMonad m] (oracle : Oracle m) (classes : ClassHierarchy m),
      (∀ root arguments,
        FailsOnly registry.Identifies (registry.resolve oracle classes root arguments)) ∧
      (∀ name arguments,
        FailsOnly registry.Identifies (registry.resolveByName oracle classes name arguments)) ∧
      ∀ (model : Conversions m) (settings : Settings) (root : DeclId) (site : CallSite),
        let engine : Engine m := { registry, oracle, classes, conversions := model, settings }
        FailsOnly registry.Identifies (engine.call root site) := by
  have forest : registry.IsForest := reachable.isForest
  obtain ⟨requests, rfl⟩ := reachable
  have agree := namesAgree_run conversions requests
  have identifies := fun e (h : (empty.run conversions requests).Reports e) =>
    h.identifies forest agree plain
  refine ⟨fun a ha b hb differ same => differ (eq_of_displayName_eq forest agree plain ha hb same),
    fun oracle classes => ⟨fun root arguments => ?_, fun name arguments => ?_,
      fun model settings root site => ?_⟩⟩
  · exact ((ends_resolve oracle arguments forest classes root).imp identifies fun _ h => h).failsOnly
  · exact ((ends_resolveByName oracle arguments forest classes name).imp identifies
      fun _ h => h).failsOnly
  · intro engine
    exact ((engine.ends_call forest root site).imp identifies fun _ h => h).failsOnly

/-- A seed in the namespace `a:` with three overrides, of which one has the name of the seed in the
namespace `a`, one has no name, and one has the label of the one without a name for its name. -/
def lookalikeTree : List Request :=
  [.declare { space := .parse "a:", name := some "f" },
    .declare { space := .parse "a", name := some "f", parent := some ⟨0⟩ },
    .declare { space := .parse "a", parent := some ⟨0⟩ },
    .declare { space := .global, name := some "<unnamed override #2>", parent := some ⟨0⟩ }]

/-- The four are shown differently, and a call that finds the three overrides equally good tells
which ones they are. -/
theorem displayName_identifies_lookalikeTree :
    let registry := empty.run .identity lookalikeTree
    (∀ a ∈ registry.all, ∀ b ∈ registry.all, a ≠ b → a.displayName ≠ b.displayName) ∧
    ∃ e, outcome (registry.resolve ⟨fun _ _ => true, fun _ _ => none, noPromiseHolds⟩
        ⟨fun _ => [], fun _ => none⟩ ⟨0⟩ []) = .error e ∧
      e.isAmbiguous = true ∧ e.mentions.map (·.1) = [⟨0⟩, ⟨1⟩, ⟨2⟩, ⟨3⟩] ∧
        registry.Identifies e := by
  intro registry
  have reachable : registry.Reachable .identity := ⟨lookalikeTree, rfl⟩
  have space : ∀ node ∈ registry.all, node.decl.space = .parse node.decl.space.text := by decide
  have name : ∀ node ∈ registry.all, ∀ name ∈ node.decl.name, ':' ∉ name.toList := by decide
  obtain ⟨different, calls⟩ :=
    displayName_identifies reachable ⟨fun node h => ⟨_, space node h⟩, name⟩
  obtain ⟨e, failed, ambiguous, mentioned⟩ : ∃ e, outcome (registry.resolve
      ⟨fun _ _ => true, fun _ _ => none, noPromiseHolds⟩ ⟨fun _ => [], fun _ => none⟩ ⟨0⟩ []) =
        .error e ∧ e.isAmbiguous = true ∧ e.mentions.map (·.1) = [⟨0⟩, ⟨1⟩, ⟨2⟩, ⟨3⟩] :=
    ⟨_, rfl, rfl, rfl⟩
  exact ⟨different, e, failed, ambiguous, mentioned,
    ((calls _ _).1 ⟨0⟩ []).of_outcome failed⟩

end Registry
end CustomizationPoints
