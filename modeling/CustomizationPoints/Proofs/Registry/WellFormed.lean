import CustomizationPoints.Proofs.Registry.Checked
import CustomizationPoints.Proofs.Registry.Names
import Mathlib.Data.List.Induction

/-!
# Registration accepts the well-formed extensions

What makes a list of declarations well formed can be said without a registry: without
stored seeds, without a table of names, and without an order in which the conditions are
tested.  `WellFormed` says it of the declarations themselves, in the order of their
registration, where the root of a declaration is found by following parents (`RootFrom`).

A registry that was filled by any run holds well-formed declarations, and it accepts one
more exactly if the longer list is well formed again.

## Why one comparison is enough

The definition compares every declaration of a tree with its root, and a registration makes
one comparison, with the stored seed of the parent.  The stored seed is the root
(`rootFrom_iff`), and a new declaration is the root of nothing but itself, so the other
comparisons stay as they were.
-/

namespace CustomizationPoints

/-- Following parents from the declaration at place `i` leads to `root`, which has none. -/
inductive RootFrom (decls : List Declaration) : Nat → Declaration → Prop where
  | here {i : Nat} {decl : Declaration} (entry : decls[i]? = some decl)
      (isRoot : decl.parent = none) : RootFrom decls i decl
  | above {i : Nat} {decl root : Declaration} {parent : DeclId} (entry : decls[i]? = some decl)
      (overrides : decl.parent = some parent) (rest : RootFrom decls parent.position root) :
      RootFrom decls i root

/-- The declarations, in the order of their registration, form trees that meet all rules
under these conversions, beside these ordinary functions. -/
structure WellFormed (conversions : Conversions Id) (decls : List Declaration)
    (announced : Set QualifiedName) : Prop where
  /-- A parent is an earlier declaration. -/
  parentsFirst : ∀ (i : Nat) (decl : Declaration) (parent : DeclId),
    decls[i]? = some decl → decl.parent = some parent → parent.position < i
  /-- A parent is not closed to overrides. -/
  parentsOpen : ∀ (i : Nat) (decl above : Declaration) (parent : DeclId),
    decls[i]? = some decl → decl.parent = some parent →
      decls[parent.position]? = some above → above.isFinal = false
  /-- Two declarations do not share a name. -/
  namesDistinct : ∀ (i j : Nat) (a b : Declaration) (name : QualifiedName),
    decls[i]? = some a → decls[j]? = some b →
      a.qualifiedName? = some name → b.qualifiedName? = some name → i = j
  /-- A declaration does not share its name with an ordinary function. -/
  namesFree : ∀ decl ∈ decls, ∀ name, decl.qualifiedName? = some name → name ∉ announced
  /-- No declaration is both without a body and closed to overrides. -/
  bodies : ∀ decl ∈ decls, ¬(decl.isPure = true ∧ decl.isFinal = true)
  /-- Every declaration agrees with its root. -/
  agrees : ∀ (i : Nat) (decl root : Declaration), decls[i]? = some decl →
    RootFrom decls i root → decl.AgreesWith conversions root

/-- A declaration stays at its place when others are added at the end. -/
theorem getElem?_append_of_eq_some {decls : List Declaration} {i : Nat} {decl : Declaration}
    (h : decls[i]? = some decl) (more : List Declaration) : (decls ++ more)[i]? = some decl := by
  rw [List.getElem?_append_left (List.getElem?_eq_some_iff.1 h).1, h]

/-- Roots stay when declarations are added at the end. -/
theorem RootFrom.append {decls : List Declaration} {i : Nat} {root : Declaration}
    (h : RootFrom decls i root) (more : List Declaration) : RootFrom (decls ++ more) i root := by
  induction h with
  | here entry isRoot => exact .here (getElem?_append_of_eq_some entry more) isRoot
  | above entry overrides _ ih => exact .above (getElem?_append_of_eq_some entry more) overrides ih

/-- The parent of a declaration is a declaration of the same list. -/
theorem WellFormed.exists_parent {conversions : Conversions Id} {decls : List Declaration}
    {announced : Set QualifiedName} (wellFormed : WellFormed conversions decls announced)
    {i : Nat} {decl : Declaration} {parent : DeclId} (h : decls[i]? = some decl)
    (hparent : decl.parent = some parent) : ∃ above, decls[parent.position]? = some above := by
  have hlt := wellFormed.parentsFirst i decl parent h hparent
  exact ⟨_, List.getElem?_eq_getElem (Nat.lt_trans hlt (List.getElem?_eq_some_iff.1 h).1)⟩

/-- A shorter list is well formed, too, also beside fewer functions. -/
theorem WellFormed.of_append {conversions : Conversions Id} {decls more : List Declaration}
    {announced fewer : Set QualifiedName}
    (wellFormed : WellFormed conversions (decls ++ more) announced) (subset : fewer ⊆ announced) :
    WellFormed conversions decls fewer where
  parentsFirst i decl parent hdecl :=
    wellFormed.parentsFirst i decl parent (getElem?_append_of_eq_some hdecl more)
  parentsOpen i decl above parent hdecl hparent habove :=
    wellFormed.parentsOpen i decl above parent (getElem?_append_of_eq_some hdecl more) hparent
      (getElem?_append_of_eq_some habove more)
  namesDistinct i j a b name ha hb :=
    wellFormed.namesDistinct i j a b name (getElem?_append_of_eq_some ha more)
      (getElem?_append_of_eq_some hb more)
  namesFree decl hdecl name hname hfewer :=
    wellFormed.namesFree decl (List.mem_append_left _ hdecl) name hname (subset hfewer)
  bodies decl hdecl := wellFormed.bodies decl (List.mem_append_left _ hdecl)
  agrees i decl root hdecl hroot :=
    wellFormed.agrees i decl root (getElem?_append_of_eq_some hdecl more) (hroot.append more)

namespace Registry

/-- The registered declarations as they were handed over, in registration order. -/
def declarations (registry : Registry) : List Declaration := registry.all.map (·.decl)

theorem mem_declarations {registry : Registry} {decl : Declaration} :
    decl ∈ registry.declarations ↔ ∃ node ∈ registry.all, node.decl = decl :=
  List.mem_map

@[simp] theorem length_declarations (registry : Registry) :
    registry.declarations.length = registry.size := by
  rw [declarations, List.length_map, length_all]

section Forest

variable {registry : Registry} (forest : registry.IsForest)

include forest

theorem IsForest.declarations_add (decl : Declaration) :
    (registry.add decl).declarations = registry.declarations ++ [decl] := by
  rw [declarations, forest.map_all_add decl fun node => node.decl_gaining decl _, decl_newNode,
    declarations]

theorem IsForest.getElem?_declarations {i : Nat} {decl : Declaration} :
    registry.declarations[i]? = some decl ↔
      ∃ node ∈ registry.all, node.id.position = i ∧ node.decl = decl := by
  rw [declarations, List.getElem?_map, Option.map_eq_some_iff]
  constructor
  · rintro ⟨node, hnode, rfl⟩
    exact ⟨node, List.mem_of_getElem? hnode, forest.place i node hnode, rfl⟩
  · rintro ⟨node, hmem, rfl, rfl⟩
    refine ⟨node, ?_, rfl⟩
    rw [← node?_eq_getElem?, forest.node?_id hmem]

/-- **The stored seed is the root.** -/
theorem IsForest.rootFrom_iff {node seed : Node} (hnode : node ∈ registry.all)
    (hseed : seed ∈ registry.all) (hid : seed.id = node.seed) (root : Declaration) :
    RootFrom registry.declarations node.id.position root ↔ root = seed.decl := by
  have hat : ∀ {node : Node}, node ∈ registry.all →
      registry.declarations[node.id.position]? = some node.decl :=
    fun h => forest.getElem?_declarations.2 ⟨_, h, rfl, rfl⟩
  induction node, hnode using forest.induction with
  | seed node h hparent =>
    have hself : seed = node := by
      refine forest.eq_of_id_eq hseed h ?_
      rw [hid, (forest.root node h hparent).1]
    constructor
    · intro hroot
      cases hroot with
      | here entry _ => rw [hself, Option.some.inj (entry.symm.trans (hat h))]
      | above entry overrides _ =>
        rw [Option.some.inj (entry.symm.trans (hat h)), hparent] at overrides
        exact nomatch overrides
    · rintro rfl
      rw [hself]
      exact .here (hat h) hparent
  | override node h above habove hparent ih =>
    -- the parent has the same seed
    have hup := ih (by rw [hid, (forest.below node h above habove hparent).1])
    constructor
    · intro hroot
      cases hroot with
      | here entry isRoot =>
        rw [Option.some.inj (entry.symm.trans (hat h)), hparent] at isRoot
        exact nomatch isRoot
      | above entry overrides rest =>
        rw [Option.some.inj (entry.symm.trans (hat h)), hparent] at overrides
        cases overrides
        exact hup.1 rest
    · intro hroot
      exact .above (hat h) hparent (hup.2 hroot)

end Forest

variable {conversions : Conversions Id} {registry : Registry} {announced : Set QualifiedName}

/-- A forest with an exact table of names whose declarations passed the checks is well
formed. -/
theorem IsChecked.wellFormed (checked : registry.IsChecked conversions)
    (forest : registry.IsForest) (agree : registry.NamesAgree announced) :
    WellFormed conversions registry.declarations announced where
  parentsFirst i decl parent hdecl hparent := by
    obtain ⟨node, hnode, rfl, rfl⟩ := forest.getElem?_declarations.1 hdecl
    exact forest.parent node hnode parent hparent
  parentsOpen i decl above parent hdecl hparent habove := by
    obtain ⟨node, hnode, rfl, rfl⟩ := forest.getElem?_declarations.1 hdecl
    obtain ⟨up, hup, hid, rfl⟩ := forest.getElem?_declarations.1 habove
    rw [← DeclId.eq_of_position_eq hid] at hparent
    exact checked.parentOpen node hnode up hup hparent
  namesDistinct i j a b name ha hb haname hbname := by
    obtain ⟨first, hfirst, rfl, rfl⟩ := forest.getElem?_declarations.1 ha
    obtain ⟨second, hsecond, rfl, rfl⟩ := forest.getElem?_declarations.1 hb
    rw [agree.eq_of_name_eq forest hfirst hsecond haname hbname]
  namesFree decl hdecl name hname hannounced := by
    obtain ⟨node, hnode, rfl⟩ := mem_declarations.1 hdecl
    have hfunction := (agree.announced name).2 hannounced
    rw [(agree.declared name node.id).2 ⟨node, hnode, rfl, hname⟩] at hfunction
    exact nomatch hfunction
  bodies decl hdecl := by
    obtain ⟨node, hnode, rfl⟩ := mem_declarations.1 hdecl
    exact checked.body node hnode
  agrees i decl root hdecl hroot := by
    obtain ⟨node, hnode, rfl, rfl⟩ := forest.getElem?_declarations.1 hdecl
    obtain ⟨seed, hseed, hid, -⟩ := forest.exists_seed hnode
    rw [(forest.rootFrom_iff hnode hseed hid root).1 hroot]
    exact checked.agrees node hnode seed hseed hid

/-- A registry with room admits what would extend it to a well-formed list. -/
theorem admits_of_wellFormed (forest : registry.IsForest)
    (agree : registry.NamesAgree announced) (room : registry.size < UInt32.size)
    {decl : Declaration}
    (wellFormed : WellFormed conversions (registry.declarations ++ [decl]) announced) :
    registry.Admits conversions decl := by
  have hlast : (registry.declarations ++ [decl])[registry.size]? = some decl := by
    rw [← length_declarations, List.getElem?_concat_length]
  have hold : ∀ node ∈ registry.all,
      (registry.declarations ++ [decl])[node.id.position]? = some node.decl := by
    intro node hnode
    rw [List.getElem?_append_left (by rw [length_declarations]; exact forest.position_lt hnode)]
    exact forest.getElem?_declarations.2 ⟨node, hnode, rfl, rfl⟩
  refine ⟨fun id hparent => ?_, fun name hname => ?_,
    wellFormed.bodies decl (List.mem_append_right _ (List.mem_singleton.2 rfl)), room⟩
  · have hfirst := wellFormed.parentsFirst _ decl id hlast hparent
    have hlt : id.position < registry.all.length := by rwa [length_all]
    obtain ⟨node, hnode⟩ : ∃ node, registry.node? id = some node :=
      ⟨_, (node?_eq_getElem? registry id).trans (List.getElem?_eq_getElem hlt)⟩
    obtain ⟨hmem, rfl⟩ := forest.node?_eq_some_iff.1 hnode
    obtain ⟨seed, hseed, hseedId, -⟩ := forest.exists_seed hmem
    refine ⟨node, hnode, ?_, ?_⟩
    · exact wellFormed.parentsOpen _ decl node.decl node.id hlast hparent (hold node hmem)
    · rw [forest.seedAbove_eq hseed hseedId]
      refine wellFormed.agrees _ decl seed.decl hlast (.above hlast hparent ?_)
      exact ((forest.rootFrom_iff hmem hseed hseedId _).2 rfl).append [decl]
  · cases hused : registry.use? name with
    | none => rfl
    | some use =>
      cases use with
      | customizationPoint id =>
        obtain ⟨node, hnode, -, hsame⟩ := (agree.declared name id).1 hused
        have hlt := forest.position_lt hnode
        have heq := wellFormed.namesDistinct _ _ _ _ name (hold node hnode) hlast hsame hname
        omega
      | ordinaryFunction =>
        exact absurd ((agree.announced name).1 hused) (wellFormed.namesFree decl
          (List.mem_append_right _ (List.mem_singleton.2 rfl)) name hname)

/-- What a registry admits leads to a well-formed list. -/
theorem wellFormed_of_admits (forest : registry.IsForest)
    (checked : registry.IsChecked conversions) (agree : registry.NamesAgree announced)
    {decl : Declaration} (admits : registry.Admits conversions decl) :
    WellFormed conversions (registry.declarations ++ [decl]) announced := by
  have h := (checked.add forest admits).wellFormed (forest.add admits) (agree.add forest admits)
  rw [forest.declarations_add] at h
  exact h

/-- The announcement of a function is granted if its name is not that of a declaration. -/
theorem announce_iff_wellFormed (forest : registry.IsForest)
    (checked : registry.IsChecked conversions) (agree : registry.NamesAgree announced)
    (name : QualifiedName) :
    (∃ next, registry.announce name = .ok next) ↔
      WellFormed conversions registry.declarations (announced ∪ {name}) := by
  constructor
  · rintro ⟨next, h⟩
    rcases announce_eq_ok_iff.1 h with ⟨free, rfl⟩ | ⟨known, rfl⟩
    · exact (checked.insertFunction name).wellFormed (forest.insertFunction name)
        (agree.insertFunction free)
    · rw [Set.union_eq_self_of_subset_right
        (Set.singleton_subset_iff.2 ((agree.announced name).1 known))]
      exact checked.wellFormed forest agree
  · intro wellFormed
    cases hused : registry.use? name with
    | none => exact ⟨_, announce_eq_ok_iff.2 (Or.inl ⟨hused, rfl⟩)⟩
    | some use =>
      cases use with
      | ordinaryFunction => exact ⟨_, announce_eq_ok_iff.2 (Or.inr ⟨hused, rfl⟩)⟩
      | customizationPoint id =>
        obtain ⟨node, hnode, -, hname⟩ := (agree.declared name id).1 hused
        exact absurd (Or.inr rfl) (wellFormed.namesFree node.decl
          (mem_declarations.2 ⟨node, hnode, rfl⟩) name hname)

/-- The registered declarations are those of the granted requests. -/
theorem declarations_run (conversions : Conversions Id) (requests : List Request) :
    (empty.run conversions requests).declarations =
      Request.declared (empty.granted conversions requests) := by
  refine (run_induction (P := fun before registry =>
    registry.IsForest ∧ registry.declarations = Request.declared before)
    ⟨isForest_empty, rfl⟩ ?_ requests).2
  rintro before registry request next ⟨forest, same⟩ step
  cases step with
  | declare admits =>
    refine ⟨forest.add admits, ?_⟩
    rw [forest.declarations_add, same, Request.declared_append, Request.declared_declare]
  | announce free =>
    refine ⟨forest.insertFunction _, ?_⟩
    rw [Request.declared_append, Request.declared_announce, List.append_nil, ← same]
    rfl
  | repeated known =>
    refine ⟨forest, ?_⟩
    rw [Request.declared_append, Request.declared_announce, List.append_nil, same]

/-- After any run the granted requests are well formed. -/
theorem wellFormed_run (conversions : Conversions Id) (requests : List Request) :
    WellFormed conversions (empty.run conversions requests).declarations
      (Request.announced (empty.granted conversions requests)) := by
  have reachable : (empty.run conversions requests).Reachable conversions := ⟨requests, rfl⟩
  exact reachable.isChecked.wellFormed reachable.isForest (namesAgree_run conversions requests)

/-- **All requests are granted** if and only if the declarations among them are well formed
beside the announced functions, and there are enough identities. -/
theorem granted_eq_self_iff {conversions : Conversions Id} {requests : List Request} :
    empty.granted conversions requests = requests ↔
      WellFormed conversions (Request.declared requests) (Request.announced requests) ∧
        (Request.declared requests).length ≤ UInt32.size := by
  constructor
  · intro granted
    have reachable : (empty.run conversions requests).Reachable conversions := ⟨requests, rfl⟩
    have same := declarations_run conversions requests
    have wellFormed := wellFormed_run conversions requests
    rw [granted] at same wellFormed
    rw [← same]
    refine ⟨wellFormed, ?_⟩
    rw [length_declarations]
    exact reachable.isForest.room
  · -- the requests before the last one are granted, and the registry that they lead to
    -- accepts the last one
    induction requests using List.reverseRecOn with
    | nil => exact fun _ => rfl
    | append_singleton requests last ih =>
      rintro ⟨wellFormed, room⟩
      have subset : Request.announced requests ⊆ Request.announced (requests ++ [last]) :=
        fun _ h => List.mem_append_left _ h
      rw [Request.declared_append] at wellFormed room
      rw [List.length_append] at room
      have granted := ih ⟨wellFormed.of_append subset, Nat.le_trans (Nat.le_add_right _ _) room⟩
      refine granted_append_eq_self_iff.2 ⟨granted, granted_singleton_eq_self_iff.2 ?_⟩
      have reachable : (empty.run conversions requests).Reachable conversions := ⟨requests, rfl⟩
      have forest := reachable.isForest
      have agree := namesAgree_run conversions requests
      have same := declarations_run conversions requests
      rw [granted] at agree same
      rw [← same] at wellFormed room
      cases last with
      | declare decl =>
        rw [Request.announced_append_declare, Request.declared_declare] at wellFormed
        rw [length_declarations] at room
        exact ⟨_, .declare (admits_of_wellFormed forest agree room wellFormed)⟩
      | announce name =>
        rw [Request.announced_append_announce, Request.declared_announce, List.append_nil]
          at wellFormed
        obtain ⟨next, hnext⟩ :=
          (announce_iff_wellFormed forest reachable.isChecked agree name).2 wellFormed
        exact ⟨next, attempt_eq_ok_iff.1 hnext⟩

/-- **Registration accepts exactly the well-formed extensions.**  After any run the
registered declarations are those of the granted requests, and they are well formed.  While
there is an identity left, one more declaration is accepted if and only if the list stays
well formed with it; it is then the next one.  A function is announced if and only if the
list stays well formed beside it. -/
theorem registers_exactly_wellFormed (conversions : Conversions Id) (requests : List Request) :
    let registry := empty.run conversions requests
    let announced := Request.announced (empty.granted conversions requests)
    registry.declarations = Request.declared (empty.granted conversions requests) ∧
    WellFormed conversions registry.declarations announced ∧
    (registry.size < UInt32.size → ∀ decl,
      (∃ id grown, outcome (registry.register conversions decl) = .ok (id, grown)) ↔
        WellFormed conversions (registry.declarations ++ [decl]) announced) ∧
    (∀ decl id grown, outcome (registry.register conversions decl) = .ok (id, grown) →
      id.position = registry.size ∧ grown.declarations = registry.declarations ++ [decl]) ∧
    ∀ name, (∃ next, registry.announce name = .ok next) ↔
      WellFormed conversions registry.declarations (announced ∪ {name}) := by
  intro registry announced
  have reachable : registry.Reachable conversions := ⟨requests, rfl⟩
  have forest : registry.IsForest := reachable.isForest
  have checked : registry.IsChecked conversions := reachable.isChecked
  have agree : registry.NamesAgree announced := namesAgree_run conversions requests
  refine ⟨declarations_run conversions requests, checked.wellFormed forest agree, ?_, ?_,
    announce_iff_wellFormed forest checked agree⟩
  · intro room decl
    constructor
    · rintro ⟨id, grown, h⟩
      obtain ⟨admits, -⟩ := (registry.register_eq_ok_iff conversions decl id grown).1 h
      exact wellFormed_of_admits forest checked agree admits
    · intro wellFormed
      have admits := admits_of_wellFormed forest agree room wellFormed
      exact ⟨_, _, (registry.register_eq_ok_iff conversions decl _ _).2 ⟨admits, rfl, rfl⟩⟩
  · intro decl id grown h
    obtain ⟨admits, rfl, rfl⟩ := (registry.register_eq_ok_iff conversions decl id grown).1 h
    exact ⟨position_nextId admits.room, forest.declarations_add decl⟩

/-- A run with a seed that never throws, an override without a body, three refusals (of a
taken name, of an override that may throw, and of one of an unknown declaration) and a seed
that spells out its return type. -/
def sampleRun : List Request :=
  [.declare { space := .global, name := some "f", exceptions := .nothrow },
    .announce ⟨.global, "f"⟩,
    .announce ⟨.global, "h"⟩,
    .declare { space := .global, parent := some ⟨0⟩, exceptions := .nothrow, isPure := true },
    .declare { space := .global, parent := some ⟨1⟩ },
    .declare { space := .global, parent := some ⟨7⟩, exceptions := .nothrow },
    .declare { space := .global, name := some "p", returnType := .concrete .wide }]

/-- After the sample run an override below the one without a body is accepted if it has a
name of its own, does not throw either, and leaves its return type to be deduced.  One of the
last seed is accepted if it spells out a type that converts. -/
theorem registers_exactly_wellFormed_sampleRun :
    let registry := empty.run .widening sampleRun
    let staysWellFormed (decl : Declaration) : Prop :=
      WellFormed .widening (registry.declarations ++ [decl])
        (Request.announced (empty.granted .widening sampleRun))
    registry.size = 3 ∧
    staysWellFormed
      { space := .global, name := some "g", parent := some ⟨1⟩, exceptions := .nothrow } ∧
    ¬staysWellFormed { space := .global, name := some "g", parent := some ⟨1⟩ } ∧
    ¬staysWellFormed
      { space := .global, name := some "h", parent := some ⟨1⟩, exceptions := .nothrow } ∧
    ¬staysWellFormed
      { space := .global, parent := some ⟨1⟩, returnType := .concrete .wide,
        exceptions := .nothrow } ∧
    staysWellFormed { space := .global, parent := some ⟨2⟩, returnType := .concrete .narrow } ∧
    ¬staysWellFormed
      { space := .global, parent := some ⟨2⟩, returnType := .concrete ⟨⟨3⟩, .other, "bool"⟩ } ∧
    ¬staysWellFormed { space := .global, parent := some ⟨2⟩ } := by
  intro registry staysWellFormed
  obtain ⟨-, -, accepts, -⟩ := registers_exactly_wellFormed .widening sampleRun
  have room : registry.size < UInt32.size := by decide
  have accepted : ∀ decl id grown,
      outcome (registry.register .widening decl) = .ok (id, grown) → staysWellFormed decl :=
    fun decl id grown h => (accepts room decl).1 ⟨id, grown, h⟩
  have refused : ∀ decl e,
      outcome (registry.register .widening decl) = .error e → ¬staysWellFormed decl := by
    intro decl e h wellFormed
    obtain ⟨id, grown, granted⟩ := (accepts room decl).2 wellFormed
    rw [h] at granted
    exact nomatch granted
  exact ⟨by decide, accepted _ _ _ rfl, refused _ _ rfl, refused _ _ rfl, refused _ _ rfl,
    accepted _ _ _ rfl, refused _ _ rfl, refused _ _ rfl⟩

end Registry
end CustomizationPoints
