import CustomizationPoints.Proofs.Call.Outcome
import CustomizationPoints.Proofs.Host.Failures
import CustomizationPoints.Proofs.Registry.Names

/-!
# Calls by name

A call by name looks the name up and then calls the declaration that it finds.  The table of names
and the declarations are written in different places, and what is found is only as good as their
agreement.  They agree after every run of requests (`namesAgree_run`), granted or not, and
`names_exact` says what this means for whoever asks for a name, while the registry is being filled
and afterwards.

## What a call by name cannot run into

A name never leads to a declaration that is not registered, nor to one that has no name.  Both are
refusals at the entry of a call, and past its entry a call fails in other ways only
(`failsOnly_resolve`).  Nothing is known about the host here: it may answer each time as it likes,
so the statement is one about the work of the call and not about its outcome.
-/

namespace CustomizationPoints

/-- The failure is that a call may not enter where it was made. -/
def CallError.isNoEntry : CallError → Bool
  | .unknownNode _ | .unnamedEntryPoint _ => true
  | _ => false

namespace Registry

/-- The node is registered and has this name. -/
def Bears (registry : Registry) (name : QualifiedName) (node : Node) : Prop :=
  node ∈ registry.all ∧ node.decl.qualifiedName? = some name

/-! ## Past the entry -/

section Entered

variable {m : Type → Type} [Monad m] [LawfulMonad m]

theorem failsOnly_choose (oracle : Oracle m) (arguments : List HostType) (current : Node)
    (candidates : List Node) :
    FailsOnly (·.isNoEntry = false) (oracle.choose arguments current candidates) := by
  obtain _ | ⟨first, _ | ⟨second, rest⟩⟩ := candidates
  · exact .pure none
  · exact .pure (some first)
  · rw [Call.choose_of_several oracle arguments current (by simp)]
    refine .bind (.lift _) fun answer => ?_
    cases answer with
    | none => exact .throw rfl
    | some answer =>
      dsimp only
      split
      next => exact .throw rfl
      next chosen _ => exact .pure (some chosen)

theorem failsOnly_stepDown (registry : Registry) (oracle : Oracle m) (associated : ClassSet)
    (arguments : List HostType) (current : Node) :
    FailsOnly (·.isNoEntry = false)
      (registry.stepDown oracle associated arguments current) :=
  .bind (.lift _) fun viable => failsOnly_choose oracle arguments current viable

theorem failsOnly_descend (registry : Registry) (oracle : Oracle m) (associated : ClassSet)
    (arguments : List HostType) (bound : Nat) (current : Node) :
    FailsOnly (·.isNoEntry = false)
      (registry.descend oracle associated arguments bound current) := by
  induction bound generalizing current with
  | zero => exact .pure []
  | succ bound ih =>
    refine .bind (registry.failsOnly_stepDown oracle associated arguments current) fun next => ?_
    cases next with
    | none => exact .pure []
    | some next => exact .bind (ih next) fun below => .pure (next :: below)

theorem isNoEntry_of_settle_eq_error {entry : Node} {below : List Node} {arguments : List HostType}
    {associated : ClassSet} {e : CallError}
    (h : settle entry below arguments associated = .error e) : e.isNoEntry = false := by
  rw [settle_eq] at h
  split at h
  next => cases h; rfl
  next => exact nomatch h

/-- A call that may enter fails in other ways only. -/
theorem failsOnly_resolve {registry : Registry} {root : DeclId} {entry : Node}
    (enters : registry.entryPoint root = .ok entry) (oracle : Oracle m)
    (classes : ClassHierarchy m) (arguments : List HostType) :
    FailsOnly (·.isNoEntry = false) (registry.resolve oracle classes root arguments) := by
  rw [resolve, enters]
  refine .bind (.pure entry) fun entry => .bind (.lift _) fun accepts => ?_
  have descends : FailsOnly (·.isNoEntry = false) (do
      let associated ← classes.associated arguments
      let below ← registry.descend oracle associated arguments registry.size entry
      settle entry below arguments associated : ExceptT CallError m Resolution) :=
    .bind (.lift _) fun associated =>
      .bind (registry.failsOnly_descend oracle associated arguments registry.size entry)
        fun below => .check fun _ => isNoEntry_of_settle_eq_error
  dsimp only
  split
  next => exact descends
  next => exact .bind (.throw rfl) fun _ => descends

end Entered

/-! ## Looking up a name -/

section Names

variable {registry : Registry} {announced : Set QualifiedName} {name : QualifiedName}

/-- A name that belongs to no declaration leads nowhere. -/
theorem NamesAgree.find?_eq_none_iff (agree : registry.NamesAgree announced)
    (forest : registry.IsForest) :
    registry.find? name = none ↔ ∀ node, ¬registry.Bears name node := by
  rw [Option.eq_none_iff_forall_ne_some]
  exact forall_congr' fun node => not_congr (agree.find?_eq_some_iff forest)

/-- An ordinary function is refused its name exactly where a declaration has it. -/
theorem NamesAgree.announce_eq_ok_iff (agree : registry.NamesAgree announced) :
    (∃ next, registry.announce name = .ok next) ↔ ∀ node, ¬registry.Bears name node := by
  constructor
  · rintro ⟨next, hnext⟩ node ⟨hmem, hname⟩
    have used := (agree.declared name node.id).2 ⟨node, hmem, rfl, hname⟩
    rcases Registry.announce_eq_ok_iff.1 hnext with ⟨free, -⟩ | ⟨function, -⟩
    · rw [used] at free
      exact nomatch free
    · rw [used] at function
      exact nomatch function
  · intro nobody
    cases used : registry.use? name with
    | none => exact ⟨_, Registry.announce_eq_ok_iff.2 (Or.inl ⟨used, rfl⟩)⟩
    | some use =>
      cases use with
      | ordinaryFunction => exact ⟨_, Registry.announce_eq_ok_iff.2 (Or.inr ⟨used, rfl⟩)⟩
      | customizationPoint id =>
        obtain ⟨node, hmem, -, hname⟩ := (agree.declared name id).1 used
        exact absurd ⟨hmem, hname⟩ (nobody node)

theorem Bears.named {node : Node} (bears : registry.Bears name node) : node.decl.name ≠ none := by
  intro hnone
  have hname := bears.2
  rw [Declaration.qualifiedName?, hnone, Option.map_none] at hname
  exact Option.some_ne_none name hname.symm

/-- A declaration with a name may be entered. -/
theorem Bears.entryPoint_eq {node : Node} (forest : registry.IsForest)
    (bears : registry.Bears name node) : registry.entryPoint node.id = .ok node :=
  entryPoint_of_named (forest.node?_id bears.1) bears.named

end Names

/-! ## Every name -/

/-- **The names and the declarations agree.**  After every run, looking up a name finds the
declaration that has it.  There is one at most, and none if the name was announced for an ordinary
function, which is possible exactly where there is none.  A call by name is the call of this
declaration, whatever the host, and fails for want of a function if there is none; it is never
turned away because its entry is not registered or has no name. -/
theorem names_exact (conversions : Conversions Id) (requests : List Request)
    (name : QualifiedName) :
    let registry := empty.run conversions requests
    (∀ node, registry.find? name = some node ↔ registry.Bears name node) ∧
    (∀ node other, registry.Bears name node → registry.Bears name other → node = other) ∧
    (.announce name ∈ empty.granted conversions requests → ∀ node, ¬registry.Bears name node) ∧
    ((∃ next, registry.announce name = .ok next) ↔ ∀ node, ¬registry.Bears name node) ∧
    ∀ {m : Type → Type} [Monad m] [LawfulMonad m] (oracle : Oracle m)
      (classes : ClassHierarchy m) (arguments : List HostType),
      (∀ node, registry.Bears name node →
        registry.resolveByName oracle classes name arguments =
          registry.resolve oracle classes node.id arguments) ∧
      ((∀ node, ¬registry.Bears name node) →
        registry.resolveByName oracle classes name arguments =
          throw (.unknownFunction name.space name.name)) ∧
      FailsOnly (·.isNoEntry = false) (registry.resolveByName oracle classes name arguments) := by
  intro registry
  have forest : registry.IsForest := Reachable.isForest ⟨requests, rfl⟩
  have agree := namesAgree_run conversions requests
  have finds : ∀ node, registry.find? name = some node ↔ registry.Bears name node :=
    fun node => agree.find?_eq_some_iff forest
  refine ⟨finds, fun node other hnode hother => ?_, fun granted => ?_,
    agree.announce_eq_ok_iff, fun oracle classes arguments => ⟨fun node bears => ?_,
      fun nobody => ?_, ?_⟩⟩
  · exact agree.eq_of_name_eq forest hnode.1 hother.1 hnode.2 hother.2
  · exact agree.announce_eq_ok_iff.1
      ⟨_, announce_eq_ok_iff.2 (Or.inr ⟨(agree.announced name).2 granted, rfl⟩)⟩
  · rw [resolveByName, (finds node).2 bears]
  · rw [resolveByName, (agree.find?_eq_none_iff forest).2 nobody]
  · rw [resolveByName]
    split
    next => exact .throw rfl
    next node found =>
      exact failsOnly_resolve (((finds node).1 found).entryPoint_eq forest) oracle classes
        arguments

/-- A seed with two overrides, of which the second has a name.  An ordinary function is announced
before a declaration asks for its name in vain, and another one after its name is taken. -/
def nameQuarrel : List Request :=
  [.declare { space := .global, name := some "f" },
    .announce ⟨.global, "h"⟩,
    .declare { space := .global, parent := some ⟨0⟩ },
    .declare { space := .global, name := some "h", parent := some ⟨0⟩ },
    .announce ⟨.global, "f"⟩,
    .declare { space := .global, name := some "g", parent := some ⟨0⟩ }]

/-- The named override is called by its name, and is never turned away at its entry; the announced
function is not called. -/
theorem names_exact_nameQuarrel :
    let registry := empty.run .identity nameQuarrel
    (∃ node, registry.Bears ⟨.global, "g"⟩ node ∧ node.id = ⟨2⟩ ∧
      registry.resolveByName latestFirst ⟨fun _ => [], fun _ => none⟩ ⟨.global, "g"⟩ [] =
        registry.resolve latestFirst ⟨fun _ => [], fun _ => none⟩ ⟨2⟩ []) ∧
    (∀ e, outcome (registry.resolveByName latestFirst ⟨fun _ => [], fun _ => none⟩
      ⟨.global, "g"⟩ []) = .error e → e.isNoEntry = false) ∧
    (∀ node, ¬registry.Bears ⟨.global, "h"⟩ node) ∧
    registry.resolveByName latestFirst ⟨fun _ => [], fun _ => none⟩ ⟨.global, "h"⟩ [] =
      throw (.unknownFunction .global "h") := by
  intro registry
  obtain ⟨finds, -, -, -, calls⟩ := names_exact .identity nameQuarrel ⟨.global, "g"⟩
  obtain ⟨-, -, announced, -, fails⟩ := names_exact .identity nameQuarrel ⟨.global, "h"⟩
  obtain ⟨node, found, hid⟩ :
      ∃ node, registry.find? ⟨.global, "g"⟩ = some node ∧ node.id = ⟨2⟩ := ⟨_, rfl, rfl⟩
  have bears := (finds node).1 found
  obtain ⟨called, -, enters⟩ := calls latestFirst ⟨fun _ => [], fun _ => none⟩ []
  have nobody := announced (by decide)
  refine ⟨⟨node, bears, hid, ?_⟩, fun e => enters.of_outcome, nobody,
    (fails latestFirst _ []).2.1 nobody⟩
  rw [← hid]
  exact called node bears

end Registry
end CustomizationPoints
