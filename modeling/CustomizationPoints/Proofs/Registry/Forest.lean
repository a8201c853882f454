import CustomizationPoints.Proofs.Registry.Run
import Mathlib.Data.List.Chain
import Mathlib.Data.List.Nodup
import Mathlib.Data.Nat.Init

/-!
# The forest in the registry

The parents of the registered declarations form a forest.  Seeds, depths and lists of
overrides are stored beside it, and `Registry.IsForest` says that all of it agrees: an
identity is a place, a parent comes before its overrides, the list of overrides of a
declaration holds exactly the declarations with that parent, in registration order, and seed
and depth are those of the parent, one further down.

## The effect of one registration

`all_add` is the equation behind every statement about a registration.  Seen as a list, the
registry after it is the old list with one node more at its end, and the parent of the new
node has gained an override (`Node.gaining`).  No other field of an old node changes, so
each clause of `IsForest` for the new list follows from the same clause for the old one.
-/

namespace CustomizationPoints

theorem DeclId.eq_of_position_eq {a b : DeclId} (h : a.position = b.position) : a = b := by
  cases a
  cases b
  exact congrArg DeclId.mk (UInt32.toNat_inj.1 h)

/-- Every member of a chain but the first is linked to another one. -/
theorem exists_rel_of_isChain {α : Type} {r : α → α → Prop} {a b : α} {rest : List α}
    (links : (a :: rest).IsChain r) (h : b ∈ rest) : ∃ c ∈ a :: rest, r c b := by
  induction rest generalizing a with
  | nil => exact absurd h List.not_mem_nil
  | cons next rest ih =>
    obtain ⟨hnext, hrest⟩ := List.isChain_cons_cons.1 links
    rcases List.mem_cons.1 h with rfl | h
    · exact ⟨a, List.mem_cons_self, hnext⟩
    · obtain ⟨c, hc, hrel⟩ := ih hrest h
      exact ⟨c, List.mem_cons_of_mem a hc, hrel⟩

/-! ## A node beside a new one -/

namespace Node

/-- The node after `decl` was registered as `id`. -/
def gaining (decl : Declaration) (id : DeclId) (node : Node) : Node :=
  if decl.parent = some node.id then node.addOverride id else node

theorem gaining_eq_or (decl : Declaration) (id : DeclId) (node : Node) :
    node.gaining decl id = node.addOverride id ∨ node.gaining decl id = node := by
  unfold gaining
  split
  · exact Or.inl rfl
  · exact Or.inr rfl

@[simp] theorem id_gaining (decl : Declaration) (id : DeclId) (node : Node) :
    (node.gaining decl id).id = node.id := by
  rcases node.gaining_eq_or decl id with h | h <;> rw [h, ← id_addOverride node id]

@[simp] theorem decl_gaining (decl : Declaration) (id : DeclId) (node : Node) :
    (node.gaining decl id).decl = node.decl := by
  rcases node.gaining_eq_or decl id with h | h <;> rw [h, ← decl_addOverride node id]

@[simp] theorem seed_gaining (decl : Declaration) (id : DeclId) (node : Node) :
    (node.gaining decl id).seed = node.seed := by
  rcases node.gaining_eq_or decl id with h | h <;> rw [h, ← seed_addOverride node id]

@[simp] theorem depth_gaining (decl : Declaration) (id : DeclId) (node : Node) :
    (node.gaining decl id).depth = node.depth := by
  rcases node.gaining_eq_or decl id with h | h <;> rw [h, ← depth_addOverride node id]

@[simp] theorem displayName_gaining (decl : Declaration) (id : DeclId) (node : Node) :
    (node.gaining decl id).displayName = node.displayName := by
  rcases node.gaining_eq_or decl id with h | h <;> rw [h, ← displayName_addOverride node id]

theorem overrides_gaining (decl : Declaration) (id : DeclId) (node : Node) :
    (node.gaining decl id).overrides =
      node.overrides ++ if decl.parent = some node.id then [id] else [] := by
  unfold gaining
  split
  · rw [overrides_addOverride]
  · rw [List.append_nil]

end Node

namespace Registry

/-- The registered declarations, in registration order. -/
def all (registry : Registry) : List Node := registry.nodes.toList

@[simp] theorem length_all (registry : Registry) : registry.all.length = registry.size := rfl

theorem node?_eq_getElem? (registry : Registry) (id : DeclId) :
    registry.node? id = registry.all[id.position]? := by
  rw [node?, all, Array.getElem?_toList]

theorem node?_ne_none_iff {registry : Registry} {id : DeclId} :
    registry.node? id ≠ none ↔ id.position < registry.size := by
  rw [node?_eq_getElem?, ne_eq, List.getElem?_eq_none_iff, length_all, not_le]

/-- The stored seeds, depths and lists of overrides agree with the parents. -/
structure IsForest (registry : Registry) : Prop where
  /-- There are enough identities. -/
  room : registry.size ≤ UInt32.size
  /-- An identity is a place. -/
  place : ∀ (i : Nat) (node : Node), registry.all[i]? = some node → node.id.position = i
  /-- A parent comes before its overrides. -/
  parent : ∀ node ∈ registry.all, ∀ id, node.decl.parent = some id →
    id.position < node.id.position
  /-- The overrides of a declaration are the declarations with this parent, in order. -/
  overrides : ∀ node ∈ registry.all, node.overrides =
    (registry.all.filter fun other => other.decl.parent = some node.id).map (·.id)
  /-- The seeds are the declarations without a parent, in order. -/
  seeds : registry.seeds = (registry.all.filter (·.decl.isSeed)).map (·.id)
  /-- A declaration without a parent is its own seed. -/
  root : ∀ node ∈ registry.all, node.decl.parent = none → node.seed = node.id ∧ node.depth = 0
  /-- An override has the seed of its parent and is one further down. -/
  below : ∀ node ∈ registry.all, ∀ above ∈ registry.all, node.decl.parent = some above.id →
    node.seed = above.seed ∧ node.depth = above.depth + 1

namespace IsForest

variable {registry : Registry} (forest : registry.IsForest)

include forest

/-! ## Identities and nodes -/

theorem node?_eq_some_iff {id : DeclId} {node : Node} :
    registry.node? id = some node ↔ node ∈ registry.all ∧ node.id = id := by
  rw [node?_eq_getElem?]
  constructor
  · intro h
    exact ⟨List.mem_of_getElem? h, DeclId.eq_of_position_eq (forest.place _ node h)⟩
  · rintro ⟨hmem, rfl⟩
    obtain ⟨i, hi⟩ := List.mem_iff_getElem?.1 hmem
    rw [forest.place i node hi]
    exact hi

theorem node?_id {node : Node} (h : node ∈ registry.all) :
    registry.node? node.id = some node :=
  forest.node?_eq_some_iff.2 ⟨h, rfl⟩

/-- Registered declarations with the same identity are the same. -/
theorem eq_of_id_eq {a b : Node} (ha : a ∈ registry.all) (hb : b ∈ registry.all)
    (h : a.id = b.id) : a = b := by
  have hab := forest.node?_id ha
  rw [h, forest.node?_id hb] at hab
  exact (Option.some.inj hab).symm

/-- Different registered declarations have different identities. -/
theorem nodup_map_id {nodes : List Node} (hdistinct : nodes.Nodup)
    (h : ∀ node ∈ nodes, node ∈ registry.all) : (nodes.map (·.id)).Nodup :=
  hdistinct.map_on fun a ha b hb => forest.eq_of_id_eq (h a ha) (h b hb)

theorem position_lt {node : Node} (h : node ∈ registry.all) :
    node.id.position < registry.size := by
  have hnode := forest.node?_id h
  rw [node?_eq_getElem?] at hnode
  obtain ⟨hlt, -⟩ := List.getElem?_eq_some_iff.1 hnode
  exact hlt

/-- What a registered declaration overrides is registered. -/
theorem exists_parent {node : Node} (h : node ∈ registry.all) {id : DeclId}
    (hparent : node.decl.parent = some id) : ∃ above ∈ registry.all, above.id = id := by
  have hlt : id.position < registry.all.length :=
    Nat.lt_trans (forest.parent node h id hparent) (forest.position_lt h)
  have hnode : registry.node? id = some registry.all[id.position] := by
    rw [node?_eq_getElem?, List.getElem?_eq_getElem hlt]
  exact ⟨_, (forest.node?_eq_some_iff.1 hnode).1, (forest.node?_eq_some_iff.1 hnode).2⟩

/-- The places of the declarations count up from zero. -/
theorem map_position_all :
    registry.all.map (fun node => node.id.position) = List.range registry.size := by
  refine List.ext_getElem (by rw [List.length_map, length_all, List.length_range]) ?_
  intro i hi _
  rw [List.getElem_map, List.getElem_range]
  rw [List.length_map] at hi
  exact forest.place i _ (List.getElem?_eq_getElem hi)

/-- The declarations are in the order of their places. -/
theorem pairwise_all : registry.all.Pairwise fun a b => a.id.position < b.id.position := by
  have h : (registry.all.map fun node => node.id.position).Pairwise (· < ·) := by
    rw [forest.map_position_all]
    exact List.pairwise_lt_range
  exact List.pairwise_map.1 h

theorem nodup_all : registry.all.Nodup := by
  have h : (registry.all.map fun node => node.id.position).Nodup := by
    rw [forest.map_position_all]
    exact List.nodup_range
  exact List.Nodup.of_map _ h

/-- On a way from parents to overrides the identities are in order. -/
theorem pairwise_of_isChain {nodes : List Node}
    (links : nodes.IsChain fun above node =>
      node ∈ registry.all ∧ node.decl.parent = some above.id) :
    nodes.Pairwise fun a b => a.id.position < b.id.position := by
  have hgrow : (nodes.map fun node => node.id.position).IsChain (· < ·) := by
    rw [List.isChain_map]
    exact links.imp fun a b h => forest.parent b h.1 a.id h.2
  exact List.pairwise_map.1 hgrow.pairwise

/-! ## Lists of overrides -/

/-- Looking up the identities of registered declarations gives the declarations back. -/
theorem nodesOf_map_id {nodes : List Node} (h : ∀ node ∈ nodes, node ∈ registry.all) :
    registry.nodesOf (nodes.map (·.id)) = nodes := by
  rw [nodesOf, List.filterMap_map]
  induction nodes with
  | nil => rfl
  | cons node rest ih =>
    have hnode : registry.node? node.id = some node := forest.node?_id (h node List.mem_cons_self)
    rw [List.filterMap_cons, Function.comp_apply, hnode,
      ih fun other hother => h other (List.mem_cons_of_mem _ hother)]

/-- Among registered declarations, an identity finds the one that has it. -/
theorem find?_id {nodes : List Node} (h : ∀ node ∈ nodes, node ∈ registry.all) {id : DeclId}
    {node : Node} : nodes.find? (fun other => decide (other.id = id)) = some node ↔
      node ∈ nodes ∧ node.id = id := by
  have hsound : ∀ {found : Node},
      nodes.find? (fun other => decide (other.id = id)) = some found →
        found ∈ nodes ∧ found.id = id := by
    intro found hfound
    have hid := List.find?_some hfound
    exact ⟨List.mem_of_find?_eq_some hfound, of_decide_eq_true hid⟩
  refine ⟨hsound, ?_⟩
  rintro ⟨hnode, rfl⟩
  cases hfind : nodes.find? fun other => decide (other.id = node.id) with
  | none => exact absurd (decide_eq_true rfl) (List.find?_eq_none.1 hfind node hnode)
  | some found =>
    obtain ⟨hfound, hid⟩ := hsound hfind
    rw [forest.eq_of_id_eq (h found hfound) (h node hnode) hid]

/-- The overrides of a registered declaration are the declarations with this parent. -/
theorem nodesOf_overrides {node : Node} (h : node ∈ registry.all) :
    registry.nodesOf node.overrides =
      registry.all.filter fun other => other.decl.parent = some node.id := by
  rw [forest.overrides node h]
  exact forest.nodesOf_map_id fun other hother => (List.mem_filter.1 hother).1

theorem mem_overrides_iff {node : Node} (h : node ∈ registry.all) {id : DeclId} :
    id ∈ node.overrides ↔
      ∃ other ∈ registry.all, other.decl.parent = some node.id ∧ other.id = id := by
  rw [forest.overrides node h, List.mem_map]
  simp only [List.mem_filter, decide_eq_true_eq, and_assoc]

/-! ## Seeds -/

theorem mem_seeds_iff {id : DeclId} :
    id ∈ registry.seeds ↔ ∃ node ∈ registry.all, node.decl.parent = none ∧ node.id = id := by
  rw [forest.seeds, List.mem_map]
  simp only [List.mem_filter, Declaration.isSeed, Option.isNone_iff_eq_none, and_assoc]

/-- What holds of seeds and goes on from a declaration to its overrides holds of every registered
declaration. -/
@[elab_as_elim]
theorem induction {P : ∀ node ∈ registry.all, Prop}
    (seed : ∀ node (h : node ∈ registry.all), node.decl.parent = none → P node h)
    (override : ∀ node (h : node ∈ registry.all) above (habove : above ∈ registry.all),
      node.decl.parent = some above.id → P above habove → P node h)
    (node : Node) (h : node ∈ registry.all) : P node h := by
  -- the parent comes earlier
  induction hplace : node.id.position using Nat.strong_induction_on generalizing node with
  | _ place ih =>
    cases hparent : node.decl.parent with
    | none => exact seed node h hparent
    | some id =>
      obtain ⟨above, habove, rfl⟩ := forest.exists_parent h hparent
      have hlt := forest.parent node h above.id hparent
      exact override node h above habove hparent
        (ih above.id.position (hplace ▸ hlt) above habove rfl)

/-- The seed of a registered declaration is registered, and is a seed. -/
theorem exists_seed {node : Node} (h : node ∈ registry.all) :
    ∃ seed ∈ registry.all, seed.id = node.seed ∧ seed.decl.parent = none := by
  induction node, h using forest.induction with
  | seed node h hparent =>
    exact ⟨node, h, (forest.root node h hparent).1.symm, hparent⟩
  | override node h above habove hparent ih =>
    -- the parent has the same seed
    rwa [(forest.below node h above habove hparent).1]

theorem seedAbove_eq {node seed : Node} (hseed : seed ∈ registry.all)
    (hid : seed.id = node.seed) : registry.seedAbove node = seed := by
  rw [seedAbove, ← hid, forest.node?_id hseed, Option.getD_some]

end IsForest

/-! ## The effect of one registration -/

/-- The node that a registration adds. -/
def newNode (registry : Registry) (decl : Declaration) : Node :=
  match decl.parent.bind registry.node? with
  | none => { id := registry.nextId, seed := registry.nextId, depth := 0, decl }
  | some parent =>
    { id := registry.nextId, seed := parent.seed, depth := parent.depth + 1, decl }

@[simp] theorem id_newNode (registry : Registry) (decl : Declaration) :
    (registry.newNode decl).id = registry.nextId := by
  unfold newNode
  split <;> rfl

@[simp] theorem decl_newNode (registry : Registry) (decl : Declaration) :
    (registry.newNode decl).decl = decl := by
  unfold newNode
  split <;> rfl

@[simp] theorem overrides_newNode (registry : Registry) (decl : Declaration) :
    (registry.newNode decl).overrides = [] := by
  unfold newNode
  split <;> rfl

theorem add_eq_insert (registry : Registry) (decl : Declaration) :
    registry.add decl = registry.insert registry.nextId (registry.newNode decl).seed
      (registry.newNode decl).depth decl := by
  unfold add newNode place
  cases decl.parent.bind registry.node? <;> rfl

/-- What a registration does to the nodes that were there: one of them may gain an
override. -/
theorem IsForest.modify_parent {registry : Registry} (forest : registry.IsForest)
    (decl : Declaration) (id : DeclId) :
    (match decl.parent with
      | some parent => registry.nodes.modify parent.position (·.addOverride id)
      | none => registry.nodes).toList = registry.all.map (Node.gaining decl id) := by
  cases hparent : decl.parent with
  | none =>
    refine (List.map_id'' (fun node => ?_) _).symm
    rw [Node.gaining, if_neg (by rw [hparent]; exact Option.some_ne_none _ ∘ Eq.symm)]
  | some parent =>
    simp only [Array.toList_modify]
    refine List.ext_getElem? fun i => ?_
    rw [List.getElem?_modify, List.getElem?_map]
    cases hnode : registry.all[i]? with
    | none =>
      rw [all] at hnode
      rw [hnode]
      rfl
    | some node =>
      have hplace := forest.place i node hnode
      rw [all] at hnode
      rw [hnode, Option.map_eq_map, Option.map_some, Option.map_some, Node.gaining, hparent]
      congr 1
      by_cases h : parent = node.id
      · rw [if_pos (by rw [h, hplace]), if_pos (by rw [h])]
      · rw [if_neg fun hpos => h (DeclId.eq_of_position_eq (hpos.trans hplace.symm)),
          if_neg fun hsome => h (Option.some.inj hsome)]

/-- **The registry after a registration.** -/
theorem IsForest.all_add {registry : Registry} (forest : registry.IsForest)
    (decl : Declaration) :
    (registry.add decl).all =
      registry.all.map (Node.gaining decl registry.nextId) ++ [registry.newNode decl] := by
  have hnew : Node.mk registry.nextId (registry.newNode decl).seed
      (registry.newNode decl).depth decl [] = registry.newNode decl := by
    unfold newNode
    cases decl.parent.bind registry.node? <;> rfl
  rw [add_eq_insert, all, insert, hnew, Array.toList_push]
  exact congrArg (· ++ [registry.newNode decl]) (forest.modify_parent decl registry.nextId)

@[simp] theorem size_add (registry : Registry) (decl : Declaration) :
    (registry.add decl).size = registry.size + 1 := by
  rw [add_eq_insert, size_insert]

theorem IsForest.mem_all_add {registry : Registry} (forest : registry.IsForest)
    {decl : Declaration} {node : Node} :
    node ∈ (registry.add decl).all ↔
      (∃ old ∈ registry.all, old.gaining decl registry.nextId = node) ∨
        node = registry.newNode decl := by
  rw [forest.all_add, List.mem_append, List.mem_map, List.mem_singleton]

/-- What the gain of an override leaves as it is, is listed as before, and for the new node at the
end. -/
theorem IsForest.map_all_add {α : Type} {registry : Registry} (forest : registry.IsForest)
    (decl : Declaration) {f : Node → α}
    (hkept : ∀ node : Node, f (node.gaining decl registry.nextId) = f node) :
    (registry.add decl).all.map f = registry.all.map f ++ [f (registry.newNode decl)] := by
  rw [forest.all_add, List.map_append, List.map_map, List.map_singleton]
  exact congrArg (List.map · _ ++ _) (funext hkept)

/-- Lists of identities that depend on the declarations alone grow at their end. -/
theorem IsForest.map_id_filter_add {registry : Registry} (forest : registry.IsForest)
    (decl : Declaration) (p : Declaration → Bool) :
    ((registry.add decl).all.filter fun node => p node.decl).map (·.id) =
      ((registry.all.filter fun node => p node.decl).map (·.id)) ++
        if p decl then [registry.nextId] else [] := by
  have hdecl : (fun node : Node => p node.decl) ∘ Node.gaining decl registry.nextId =
      fun node => p node.decl := by
    funext node
    rw [Function.comp_apply, Node.decl_gaining]
  have hid : (fun node : Node => node.id) ∘ Node.gaining decl registry.nextId =
      fun node => node.id := by
    funext node
    rw [Function.comp_apply, Node.id_gaining]
  rw [forest.all_add, List.filter_append, List.filter_map, hdecl, List.map_append,
    List.map_map, hid]
  congr 1
  cases hp : p decl <;> simp [hp]

theorem Admits.exists_parent {registry : Registry} {conversions : Conversions Id}
    {decl : Declaration} (forest : registry.IsForest)
    (admits : registry.Admits conversions decl) {id : DeclId} (h : decl.parent = some id) :
    ∃ above ∈ registry.all, above.id = id := by
  obtain ⟨above, hnode, -⟩ := admits.parent id h
  obtain ⟨hmem, hid⟩ := forest.node?_eq_some_iff.1 hnode
  exact ⟨above, hmem, hid⟩

/-- A new declaration comes after everything that it can override. -/
theorem Admits.parent_lt {registry : Registry} {conversions : Conversions Id}
    {decl : Declaration} (forest : registry.IsForest)
    (admits : registry.Admits conversions decl) {id : DeclId} (h : decl.parent = some id) :
    id.position < registry.nextId.position := by
  obtain ⟨above, hmem, rfl⟩ := admits.exists_parent forest h
  rw [position_nextId admits.room]
  exact forest.position_lt hmem

/-- Nothing overrides a declaration that is not registered yet. -/
theorem IsForest.parent_ne_nextId {registry : Registry} (forest : registry.IsForest)
    (room : registry.size < UInt32.size) {node : Node} (h : node ∈ registry.all) :
    node.decl.parent ≠ some registry.nextId := by
  intro hparent
  have hlt := Nat.lt_trans (forest.parent node h _ hparent) (forest.position_lt h)
  rw [position_nextId room] at hlt
  exact Nat.lt_irrefl _ hlt

/-- A new declaration does not override itself. -/
theorem Admits.parent_ne_nextId {registry : Registry} {conversions : Conversions Id}
    {decl : Declaration} (forest : registry.IsForest)
    (admits : registry.Admits conversions decl) : decl.parent ≠ some registry.nextId :=
  fun hparent => Nat.lt_irrefl _ (admits.parent_lt forest hparent)

/-- Nothing in the grown registry overrides the new declaration. -/
theorem Admits.parent_ne_nextId_of_mem_add {registry : Registry} {conversions : Conversions Id}
    {decl : Declaration} (forest : registry.IsForest)
    (admits : registry.Admits conversions decl) {node : Node}
    (h : node ∈ (registry.add decl).all) : node.decl.parent ≠ some registry.nextId := by
  rcases forest.mem_all_add.1 h with ⟨old, hold, rfl⟩ | rfl
  · rw [Node.decl_gaining]
    exact forest.parent_ne_nextId admits.room hold
  · rw [decl_newNode]
    exact admits.parent_ne_nextId forest

/-! ## Every reachable registry holds a forest -/

theorem isForest_empty : empty.IsForest where
  room := Nat.zero_le _
  place i node h := by simp [all, empty] at h
  parent node h := by simp [all, empty] at h
  overrides node h := by simp [all, empty] at h
  seeds := rfl
  root node h := by simp [all, empty] at h
  below node h := by simp [all, empty] at h

theorem IsForest.insertFunction {registry : Registry} (forest : registry.IsForest)
    (name : QualifiedName) : (registry.insertFunction name).IsForest where
  room := forest.room
  place := forest.place
  parent := forest.parent
  overrides := forest.overrides
  seeds := forest.seeds
  root := forest.root
  below := forest.below

/-- A registration keeps the forest. -/
theorem IsForest.add {registry : Registry} (forest : registry.IsForest)
    {conversions : Conversions Id} {decl : Declaration}
    (admits : registry.Admits conversions decl) : (registry.add decl).IsForest where
  room := by
    rw [size_add]
    exact admits.room
  place i node h := by
    rw [forest.all_add, List.getElem?_append, List.length_map, length_all] at h
    split at h
    next hlt =>
      rw [List.getElem?_map, Option.map_eq_some_iff] at h
      obtain ⟨old, hold, rfl⟩ := h
      rw [Node.id_gaining]
      exact forest.place i old hold
    next hge =>
      obtain ⟨hlt, hnode⟩ := List.getElem?_eq_some_iff.1 h
      rw [List.getElem_singleton] at hnode
      rw [List.length_singleton] at hlt
      rw [← hnode, id_newNode, position_nextId admits.room]
      omega
  parent node h id hparent := by
    rcases forest.mem_all_add.1 h with ⟨old, hold, rfl⟩ | rfl
    · rw [Node.decl_gaining] at hparent
      rw [Node.id_gaining]
      exact forest.parent old hold id hparent
    · rw [decl_newNode] at hparent
      rw [id_newNode]
      exact admits.parent_lt forest hparent
  overrides node h := by
    rw [forest.map_id_filter_add decl fun other => other.parent = some node.id]
    rcases forest.mem_all_add.1 h with ⟨old, hold, rfl⟩ | rfl
    · rw [Node.overrides_gaining, forest.overrides old hold, Node.id_gaining]
      simp only [decide_eq_true_eq]
    · have hold : ∀ other ∈ registry.all,
          ¬decide (other.decl.parent = some registry.nextId) = true := by
        intro other hother
        simpa using forest.parent_ne_nextId admits.room hother
      rw [overrides_newNode, id_newNode, List.filter_eq_nil_iff.2 hold]
      simp [admits.parent_ne_nextId forest]
  seeds := by
    rw [forest.map_id_filter_add decl Declaration.isSeed, ← forest.seeds, add_eq_insert]
    cases hseed : decl.isSeed <;> simp [insert, hseed]
  root node h hparent := by
    rcases forest.mem_all_add.1 h with ⟨old, hold, rfl⟩ | rfl
    · rw [Node.decl_gaining] at hparent
      rw [Node.seed_gaining, Node.id_gaining, Node.depth_gaining]
      exact forest.root old hold hparent
    · rw [decl_newNode] at hparent
      rw [newNode, hparent]
      exact ⟨rfl, rfl⟩
  below node h above habove hparent := by
    rcases forest.mem_all_add.1 habove with ⟨oldAbove, holdAbove, rfl⟩ | rfl
    · rw [Node.id_gaining] at hparent
      rw [Node.seed_gaining, Node.depth_gaining]
      rcases forest.mem_all_add.1 h with ⟨old, hold, rfl⟩ | rfl
      · rw [Node.decl_gaining] at hparent
        rw [Node.seed_gaining, Node.depth_gaining]
        exact forest.below old hold oldAbove holdAbove hparent
      · rw [decl_newNode] at hparent
        rw [newNode, hparent, Option.bind_some, forest.node?_id holdAbove]
        exact ⟨rfl, rfl⟩
    · rw [id_newNode] at hparent
      exact absurd hparent (admits.parent_ne_nextId_of_mem_add forest h)

/-- A registration keeps what is registered, up to one override more. -/
theorem IsForest.node?_add {registry : Registry} (forest : registry.IsForest)
    {conversions : Conversions Id} {decl : Declaration}
    (admits : registry.Admits conversions decl) {id : DeclId} {node : Node}
    (h : registry.node? id = some node) :
    (registry.add decl).node? id = some (node.gaining decl registry.nextId) := by
  obtain ⟨hmem, rfl⟩ := forest.node?_eq_some_iff.1 h
  have hgained : node.gaining decl registry.nextId ∈ (registry.add decl).all :=
    forest.mem_all_add.2 (Or.inl ⟨node, hmem, rfl⟩)
  exact (forest.add admits).node?_eq_some_iff.2 ⟨hgained, Node.id_gaining decl _ node⟩

/-- **Every reachable registry holds a forest.** -/
theorem Reachable.isForest {conversions : Conversions Id} {registry : Registry}
    (reachable : registry.Reachable conversions) : registry.IsForest := by
  refine reachable.induction isForest_empty ?_
  intro registry request next forest step
  cases step with
  | declare admits => exact forest.add admits
  | announce _ => exact forest.insertFunction _
  | repeated _ => exact forest

end Registry
end CustomizationPoints
