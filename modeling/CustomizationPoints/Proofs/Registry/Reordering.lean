import CustomizationPoints.Proofs.Registry.Numbering
import CustomizationPoints.Proofs.Registry.Renaming
import CustomizationPoints.Proofs.Registry.WellFormed
import Mathlib.Data.Fin.VecNotation

/-!
# The order of registration does not decide what is accepted

If all requests of a list are granted, then they are granted in every other order in which a
declaration still comes after the one that it overrides, and the registry is the same up to
the names of the identities (`granted_reorder`).

## The argument

Two neighbouring requests are not exchanged anywhere.  Instead, what a list of requests must
be like to be granted is said without an order of events: its declarations must be well
formed beside its announcements (`granted_eq_self_iff`).  Well-formedness goes by
identities, so it survives a renaming of all identities at once, as long as parents stay first
(`WellFormed.renamed`).

The two registries then hold the same declarations up to the renaming, and everything that is
stored beside the declarations follows from them.
-/

namespace CustomizationPoints

/-! ## Lists of declarations under other identities -/

/-- The lists hold the same declarations, where the declaration with an identity in the first
one has its image under `f` in the second one, and parents come first there, too. -/
structure Declaration.Renamed (decls others : List Declaration) (f : DeclId → DeclId) :
    Prop where
  /-- The renaming is a bijection between the identities of the lists. -/
  bijective : Set.BijOn f {id | id.position < decls.length} {id | id.position < others.length}
  /-- It changes nothing about a declaration but the name of its parent. -/
  contents : ∀ (id : DeclId) (decl : Declaration), decls[id.position]? = some decl →
    others[(f id).position]? = some (decl.rename f)
  /-- A parent comes before its overrides. -/
  parentsFirst : ∀ (id : DeclId) (decl : Declaration) (parent : DeclId),
    decls[id.position]? = some decl → decl.parent = some parent →
      (f parent).position < (f id).position

namespace Declaration.Renamed

variable {decls others : List Declaration} {f : DeclId → DeclId}
  (renamed : Declaration.Renamed decls others f)

include renamed

/-- Every declaration of the second list comes from the first one. -/
theorem exists_origin (room : others.length ≤ UInt32.size) {i : Nat} {other : Declaration}
    (h : others[i]? = some other) : ∃ id decl, decls[id.position]? = some decl ∧
      (f id).position = i ∧ other = decl.rename f := by
  have hi : i < others.length := (List.getElem?_eq_some_iff.1 h).1
  have hplace : (DeclId.mk (UInt32.ofNat i)).position = i :=
    UInt32.toNat_ofNat_of_lt (Nat.lt_of_lt_of_le hi room)
  obtain ⟨id, hid, hsame⟩ := renamed.bijective.surjOn
    (show (DeclId.mk (UInt32.ofNat i)).position < others.length from hplace.symm ▸ hi)
  have hdecl : decls[id.position]? = some decls[id.position] := List.getElem?_eq_getElem hid
  have himage := renamed.contents id _ hdecl
  rw [hsame, hplace, h] at himage
  exact ⟨id, _, hdecl, hsame ▸ hplace, Option.some.inj himage⟩

theorem mem_origin (room : others.length ≤ UInt32.size) {other : Declaration}
    (h : other ∈ others) : ∃ decl ∈ decls, other = decl.rename f := by
  obtain ⟨i, hi⟩ := List.mem_iff_getElem?.1 h
  obtain ⟨id, decl, hdecl, -, hother⟩ := renamed.exists_origin room hi
  exact ⟨decl, List.mem_of_getElem? hdecl, hother⟩

/-- The roots of the second list come from the roots of the first one. -/
theorem rootFrom_origin {conversions : Conversions Id} {announced : Set QualifiedName}
    (wellFormed : WellFormed conversions decls announced) {place : Nat} {root : Declaration}
    (h : RootFrom others place root) : ∀ (id : DeclId) (decl : Declaration),
      (f id).position = place → decls[id.position]? = some decl →
        ∃ origin, RootFrom decls id.position origin ∧ root = origin.rename f := by
  induction h with
  | here entry isRoot =>
    rintro id decl rfl hdecl
    rw [renamed.contents id decl hdecl] at entry
    cases entry
    exact ⟨decl, .here hdecl (Option.map_eq_none_iff.1 isRoot), rfl⟩
  | above entry overrides _ ih =>
    rintro id decl rfl hdecl
    rw [renamed.contents id decl hdecl] at entry
    cases entry
    obtain ⟨parent, hparent, rfl⟩ := Option.map_eq_some_iff.1 overrides
    obtain ⟨above, habove⟩ := wellFormed.exists_parent hdecl hparent
    obtain ⟨origin, hroot, hsame⟩ := ih parent above rfl habove
    exact ⟨origin, .above hdecl hparent hroot, hsame⟩

end Declaration.Renamed

/-- **Well-formedness survives a renaming of the identities.** -/
theorem WellFormed.renamed {conversions : Conversions Id} {decls others : List Declaration}
    {announced : Set QualifiedName} {f : DeclId → DeclId}
    (wellFormed : WellFormed conversions decls announced)
    (renamed : Declaration.Renamed decls others f) (room : others.length ≤ UInt32.size) :
    WellFormed conversions others announced where
  parentsFirst i other parent h hparent := by
    obtain ⟨id, decl, hdecl, rfl, rfl⟩ := renamed.exists_origin room h
    obtain ⟨origin, horigin, rfl⟩ := Option.map_eq_some_iff.1 hparent
    exact renamed.parentsFirst id decl origin hdecl horigin
  parentsOpen i other otherAbove parent h hparent habove := by
    obtain ⟨id, decl, hdecl, rfl, rfl⟩ := renamed.exists_origin room h
    obtain ⟨origin, horigin, rfl⟩ := Option.map_eq_some_iff.1 hparent
    obtain ⟨above, hup⟩ := wellFormed.exists_parent hdecl horigin
    rw [renamed.contents origin above hup] at habove
    cases habove
    exact wellFormed.parentsOpen _ decl above origin hdecl horigin hup
  namesDistinct i j a b name ha hb haname hbname := by
    obtain ⟨first, a, hfirst, rfl, rfl⟩ := renamed.exists_origin room ha
    obtain ⟨second, b, hsecond, rfl, rfl⟩ := renamed.exists_origin room hb
    have hsame := wellFormed.namesDistinct _ _ a b name hfirst hsecond haname hbname
    rw [DeclId.eq_of_position_eq hsame]
  namesFree other h := by
    obtain ⟨decl, hdecl, rfl⟩ := renamed.mem_origin room h
    exact wellFormed.namesFree decl hdecl
  bodies other h := by
    obtain ⟨decl, hdecl, rfl⟩ := renamed.mem_origin room h
    exact wellFormed.bodies decl hdecl
  agrees i other root h hroot := by
    obtain ⟨id, decl, hdecl, rfl, rfl⟩ := renamed.exists_origin room h
    obtain ⟨origin, horigin, rfl⟩ := renamed.rootFrom_origin wellFormed hroot id decl rfl hdecl
    have agrees := wellFormed.agrees _ decl origin hdecl horigin
    exact ⟨agrees.sameKind, agrees.reaches, agrees.nothrow⟩

/-! ## Requests in another order -/

namespace Request

section Order

variable {requests : List Request} (order : Equiv.Perm (Fin requests.length))
  (room : (declared requests).length ≤ UInt32.size)

include room

/-- The declaration with an identity stands at some place, and it receives its new identity at
the new one. -/
theorem exists_newId {id : DeclId} {decl : Declaration}
    (h : (declared requests)[id.position]? = some decl) :
    ∃ place : Fin requests.length, requests.get place = .declare decl ∧
      idAt requests place = id ∧
      newId requests order id = idAt (reorder requests order) (order.symm place) ∧
      (reorder requests order)[(order.symm place).val]? =
        some (.declare (decl.rename (newId requests order))) := by
  obtain ⟨i, hi, rfl⟩ := exists_idAt room h
  obtain ⟨hlt, hget⟩ := List.getElem?_eq_some_iff.1 hi
  have hnew := getElem?_reorder requests order ⟨i, hlt⟩
  rw [List.get_eq_getElem, hget] at hnew
  exact ⟨⟨i, hlt⟩, hget, rfl, newId_idAt room ⟨i, hlt⟩ hi, hnew⟩

/-- The declarations in another order are the same ones under their new identities, if every
parent stays before its overrides. -/
theorem renamed_reorder {conversions : Conversions Id} {announced : Set QualifiedName}
    (wellFormed : WellFormed conversions (declared requests) announced)
    (parentsFirst : ∀ (place above : Fin requests.length) (decl other : Declaration),
      requests.get place = .declare decl → requests.get above = .declare other →
        decl.parent = some (idAt requests above) → order.symm above < order.symm place) :
    Declaration.Renamed (declared requests) (declared (reorder requests order))
      (newId requests order) := by
  have room' : (declared (reorder requests order)).length ≤ UInt32.size := by
    rwa [length_declared_reorder]
  refine ⟨⟨fun id hid => ?_, fun a ha b hb hab => ?_, fun id hid => ?_⟩, ?_, ?_⟩
  · obtain ⟨place, -, -, hid, hnew⟩ := exists_newId order room
      (List.getElem?_eq_getElem hid)
    rw [hid]
    exact (List.getElem?_eq_some_iff.1 (getElem?_position_idAt room' hnew)).1
  · obtain ⟨first, -, rfl, ha, hfirst⟩ := exists_newId order room
      (List.getElem?_eq_getElem ha)
    obtain ⟨second, -, rfl, hb, hsecond⟩ := exists_newId order room
      (List.getElem?_eq_getElem hb)
    rw [ha, hb] at hab
    have hplace := Fin.ext (eq_of_idAt_eq room' hfirst hsecond hab)
    rw [order.symm.injective hplace]
  · obtain ⟨i, hi, rfl⟩ := exists_idAt room' (List.getElem?_eq_getElem hid)
    obtain ⟨place, decl, hplace, rfl⟩ := exists_oldPlace hi
    refine ⟨idAt requests place, ?_, newId_idAt room place hplace⟩
    exact (List.getElem?_eq_some_iff.1 (getElem?_position_idAt room hplace)).1
  · intro id decl h
    obtain ⟨place, -, -, hid, hnew⟩ := exists_newId order room h
    rw [hid]
    exact getElem?_position_idAt room' hnew
  · intro id decl parent h hparent
    obtain ⟨other, hother⟩ := wellFormed.exists_parent h hparent
    obtain ⟨place, hplace, rfl, hid, hnew⟩ := exists_newId order room h
    obtain ⟨above, habove, rfl, hid', hnew'⟩ := exists_newId order room hother
    rw [hid, hid']
    exact idAt_lt room' hnew' hnew (parentsFirst place above decl other hplace habove hparent)

end Order

end Request

/-! ## Registries with the same declarations -/

namespace Registry

/-- The registries are the same up to the names of the identities, in everything that they
store. -/
structure Isomorphic (left right : Registry) (f : DeclId → DeclId) : Prop
    extends left.Renaming right f where
  /-- Corresponding declarations have corresponding seeds. -/
  seed : ∀ id node image, left.node? id = some node → right.node? (f id) = some image →
    image.seed = f node.seed
  /-- They have the same depth. -/
  depth : ∀ id node image, left.node? id = some node → right.node? (f id) = some image →
    image.depth = node.depth
  /-- They have corresponding overrides. -/
  overrides : ∀ id node image, left.node? id = some node → right.node? (f id) = some image →
    {other | other ∈ image.overrides} = f '' {other | other ∈ node.overrides}
  /-- The seeds correspond. -/
  seeds : {id | id ∈ right.seeds} = f '' {id | id ∈ left.seeds}
  /-- Looking up a name finds corresponding declarations, or nothing in both. -/
  names : ∀ name, (right.find? name).map (·.id) = (left.find? name).map fun node => f node.id

/-- Forests with exact tables of names are isomorphic if they hold the same declarations. -/
theorem Renaming.isomorphic {left right : Registry} {f : DeclId → DeclId}
    (same : left.Renaming right f) (hleft : left.IsForest) (hright : right.IsForest)
    {announced announced' : Set QualifiedName} (agree : left.NamesAgree announced)
    (agree' : right.NamesAgree announced') : left.Isomorphic right f := by
  have himage : ∀ {id : DeclId} {node image : Node}, left.node? id = some node →
      right.node? (f id) = some image → node ∈ left.all ∧ image = right.imageIn f node := by
    intro id node image hnode hright
    obtain ⟨hmem, rfl⟩ := hleft.node?_eq_some_iff.1 hnode
    exact ⟨hmem, Option.some.inj (hright.symm.trans (same.node?_image hleft hmem))⟩
  refine ⟨same, fun id node image hnode h => ?_, fun id node image hnode h => ?_,
    fun id node image hnode h => ?_, same.seeds_image hleft hright, fun name => ?_⟩
  · obtain ⟨hmem, rfl⟩ := himage hnode h
    exact (same.seed_depth_image hleft hright hmem).1
  · obtain ⟨hmem, rfl⟩ := himage hnode h
    exact (same.seed_depth_image hleft hright hmem).2
  · obtain ⟨hmem, rfl⟩ := himage hnode h
    exact same.overrides_image hleft hright hmem
  · rw [same.find?_image hleft hright agree agree' name]
    cases hfound : left.find? name with
    | none => rfl
    | some node =>
      have hmem := ((agree.find?_eq_some_iff hleft).1 hfound).1
      rw [Option.map_some, Option.map_some, Option.map_some, same.id_image hleft hright hmem]

theorem getElem?_declarations_of_node? {registry : Registry} {id : DeclId} {node : Node}
    (h : registry.node? id = some node) : registry.declarations[id.position]? = some node.decl := by
  rw [declarations, List.getElem?_map, ← node?_eq_getElem?, h, Option.map_some]

/-- Lists of declarations that differ in identities only make registries that do. -/
theorem renaming_of_renamed {left right : Registry} {f : DeclId → DeclId}
    (renamed : Declaration.Renamed left.declarations right.declarations f) :
    left.Renaming right f where
  bijective := by
    have h := renamed.bijective
    simp only [length_declarations, ← node?_ne_none_iff] at h
    exact h
  contents id node image hnode himage := by
    have hrenamed := renamed.contents id node.decl (getElem?_declarations_of_node? hnode)
    rw [getElem?_declarations_of_node? himage] at hrenamed
    exact Option.some.inj hrenamed

variable {conversions : Conversions Id} {requests : List Request}

/-- **A declaration receives the identity of its place**, if all requests are granted. -/
theorem register_idAt (granted : empty.granted conversions requests = requests) {i : Nat}
    {decl : Declaration} (h : requests[i]? = some (.declare decl)) :
    outcome ((empty.run conversions (requests.take i)).register conversions decl) =
      .ok (Request.idAt requests i, empty.run conversions (requests.take (i + 1))) := by
  have hnext : requests.take (i + 1) = requests.take i ++ [.declare decl] := by
    rw [List.take_add_one, h, Option.toList_some]
  rw [← List.take_append_drop (i + 1) requests, hnext] at granted
  obtain ⟨granted, -⟩ := granted_append_eq_self_iff.1 granted
  obtain ⟨before, last⟩ := granted_append_eq_self_iff.1 granted
  obtain ⟨next, step⟩ := granted_singleton_eq_self_iff.1 last
  cases step with
  | declare admits =>
    refine (register_eq_ok_iff _ conversions decl _ _).2 ⟨admits, ?_, ?_⟩
    · rw [nextId, ← length_declarations, declarations_run, before, Request.idAt]
    · rw [hnext, run_append, run_cons, run_nil, after, attempt_eq_ok_iff.2 (.declare admits)]

/-- **The order of registration does not decide what is accepted.**  If all requests are
granted, they are granted in every other order in which a declaration still comes after the
one that it overrides.  A declaration receives the identity `f id` in the new order where it
received `id` before, and the registries are isomorphic under `f`. -/
theorem granted_reorder (conversions : Conversions Id) (requests : List Request)
    (granted : empty.granted conversions requests = requests)
    (order : Equiv.Perm (Fin requests.length))
    (parentsFirst : ∀ (place above : Fin requests.length) (decl other : Declaration),
      requests.get place = .declare decl → requests.get above = .declare other →
        decl.parent = some (Request.idAt requests above) →
          order.symm above < order.symm place) :
    let reordered := Request.reorder requests order
    let f := Request.newId requests order
    empty.granted conversions reordered = reordered ∧
    (∀ (place : Fin requests.length) (decl : Declaration),
      requests.get place = .declare decl → ∃ id grown grown',
        outcome ((empty.run conversions (requests.take place)).register conversions decl) =
          .ok (id, grown) ∧
        reordered[(order.symm place).val]? = some (.declare (decl.rename f)) ∧
        outcome ((empty.run conversions (reordered.take (order.symm place))).register conversions
          (decl.rename f)) = .ok (f id, grown')) ∧
    (empty.run conversions requests).Isomorphic (empty.run conversions reordered) f := by
  intro reordered f
  obtain ⟨wellFormed, room⟩ := granted_eq_self_iff.1 granted
  have renamed := Request.renamed_reorder order room wellFormed parentsFirst
  have room' : (Request.declared reordered).length ≤ UInt32.size := by
    rwa [Request.length_declared_reorder]
  have granted' : empty.granted conversions reordered = reordered := by
    refine granted_eq_self_iff.2 ⟨?_, room'⟩
    rw [Request.announced_reorder]
    exact wellFormed.renamed renamed room'
  refine ⟨granted', fun place decl h => ?_, ?_⟩
  · have hplace : requests[place.val]? = some (.declare decl) :=
      List.getElem?_eq_some_iff.2 ⟨place.isLt, h⟩
    have hnew : reordered[(order.symm place).val]? = some (.declare (decl.rename f)) := by
      rw [Request.getElem?_reorder, h, Request.rename]
    have hregister := register_idAt granted' hnew
    rw [← Request.newId_idAt room place hplace] at hregister
    exact ⟨_, _, _, register_idAt granted hplace, hnew, hregister⟩
  · have left : (empty.run conversions requests).Reachable conversions := ⟨requests, rfl⟩
    have right : (empty.run conversions reordered).Reachable conversions := ⟨reordered, rfl⟩
    have same : (empty.run conversions requests).Renaming (empty.run conversions reordered) f := by
      refine renaming_of_renamed ?_
      rw [declarations_run, declarations_run, granted, granted']
      exact renamed
    exact same.isomorphic left.isForest right.isForest (namesAgree_run conversions requests)
      (namesAgree_run conversions reordered)

/-- Two seeds, an announced function, and an override of the second seed. -/
def twoTrees : List Request :=
  [.declare { space := .global, name := some "f" },
    .declare { space := .global, name := some "g", exceptions := .nothrow },
    .announce ⟨.global, "h"⟩,
    .declare { space := .global, name := some "k", parent := some ⟨1⟩, exceptions := .nothrow }]

/-- The second tree before the first one, and the announcement at the end. -/
def secondTreeFirst : Equiv.Perm (Fin 4) where
  toFun := ![1, 3, 0, 2]
  invFun := ![2, 0, 3, 1]
  left_inv := show ∀ i, _ = i by decide
  right_inv := show ∀ i, _ = i by decide

/-- The sample with its second tree first, where the override has a parent with another
identity, is granted as well. -/
theorem granted_reorder_twoTrees :
    Request.reorder twoTrees secondTreeFirst =
      [.declare { space := .global, name := some "g", exceptions := .nothrow },
        .declare { space := .global, name := some "k", parent := some ⟨0⟩, exceptions := .nothrow },
        .declare { space := .global, name := some "f" },
        .announce ⟨.global, "h"⟩] ∧
    empty.granted .identity (Request.reorder twoTrees secondTreeFirst) =
      Request.reorder twoTrees secondTreeFirst ∧
    (empty.run .identity twoTrees).Isomorphic
      (empty.run .identity (Request.reorder twoTrees secondTreeFirst))
      (Request.newId twoTrees secondTreeFirst) := by
  have stays : ∀ place above : Fin twoTrees.length,
      (Request.declared [twoTrees.get place]).head?.bind (·.parent) =
        some (Request.idAt twoTrees above) →
          secondTreeFirst.symm above < secondTreeFirst.symm place := by decide
  obtain ⟨granted, -, isomorphic⟩ := granted_reorder .identity twoTrees (by decide)
    secondTreeFirst fun place above decl other hdecl _ hparent =>
      stays place above (by rw [hdecl]; exact hparent)
  exact ⟨by decide, granted, isomorphic⟩

end Registry
end CustomizationPoints
