import CustomizationPoints.Proofs.Registry.Forest

/-!
# What the checks establish for a whole forest

A registration compares the new declaration with its parent and with the seed of its tree,
and with nothing else.  `Registry.IsChecked` is what this amounts to for all registered
declarations at once: no parent is closed to overrides, every declaration has a body or may
be overridden, and every declaration agrees with the seed of its tree.
-/

namespace CustomizationPoints

namespace Registry

/-- The registered declarations have passed the checks. -/
structure IsChecked (conversions : Conversions Id) (registry : Registry) : Prop where
  /-- What is overridden is not closed to overrides. -/
  parentOpen : ∀ node ∈ registry.all, ∀ above ∈ registry.all,
    node.decl.parent = some above.id → above.decl.isFinal = false
  /-- Without a body, a declaration may be overridden. -/
  body : ∀ node ∈ registry.all, ¬(node.decl.isPure = true ∧ node.decl.isFinal = true)
  /-- A declaration agrees with the seed of its tree. -/
  agrees : ∀ node ∈ registry.all, ∀ seed ∈ registry.all, seed.id = node.seed →
    node.decl.AgreesWith conversions seed.decl

variable {conversions : Conversions Id} {registry : Registry}

/-- A new declaration agrees with the seed of its tree, which may be itself. -/
theorem Admits.agrees_newNode {decl : Declaration} (forest : registry.IsForest)
    (admits : registry.Admits conversions decl) {seed : Node}
    (hseed : seed ∈ (registry.add decl).all) (hid : seed.id = (registry.newNode decl).seed) :
    decl.AgreesWith conversions seed.decl := by
  cases hparent : decl.parent with
  | none =>
    have hself : seed.id = (registry.newNode decl).id := by
      rw [hid, newNode, hparent]
      rfl
    have hnew : registry.newNode decl ∈ (registry.add decl).all :=
      forest.mem_all_add.2 (Or.inr rfl)
    rw [(forest.add admits).eq_of_id_eq hseed hnew hself, decl_newNode]
    exact .refl conversions decl
  | some id =>
    obtain ⟨above, hnode, -, agrees⟩ := admits.parent id hparent
    obtain ⟨habove, rfl⟩ := forest.node?_eq_some_iff.1 hnode
    obtain ⟨root, hroot, hrootId, -⟩ := forest.exists_seed habove
    have hsame : (root.gaining decl registry.nextId).id = seed.id := by
      rw [Node.id_gaining, hid, newNode, hparent, Option.bind_some, hnode, hrootId]
    have hgained : root.gaining decl registry.nextId ∈ (registry.add decl).all :=
      forest.mem_all_add.2 (Or.inl ⟨root, hroot, rfl⟩)
    rw [← (forest.add admits).eq_of_id_eq hgained hseed hsame, Node.decl_gaining]
    rw [forest.seedAbove_eq hroot hrootId] at agrees
    exact agrees

theorem isChecked_empty : empty.IsChecked conversions where
  parentOpen node h := by simp [all, empty] at h
  body node h := by simp [all, empty] at h
  agrees node h := by simp [all, empty] at h

theorem IsChecked.insertFunction (checked : registry.IsChecked conversions)
    (name : QualifiedName) : (registry.insertFunction name).IsChecked conversions where
  parentOpen := checked.parentOpen
  body := checked.body
  agrees := checked.agrees

/-- The checks of one registration keep what the checks before have established. -/
theorem IsChecked.add (checked : registry.IsChecked conversions)
    (forest : registry.IsForest) {decl : Declaration}
    (admits : registry.Admits conversions decl) : (registry.add decl).IsChecked conversions where
  parentOpen node h above habove hparent := by
    rcases forest.mem_all_add.1 habove with ⟨oldAbove, holdAbove, rfl⟩ | rfl
    · rw [Node.id_gaining] at hparent
      rw [Node.decl_gaining]
      rcases forest.mem_all_add.1 h with ⟨old, hold, rfl⟩ | rfl
      · rw [Node.decl_gaining] at hparent
        exact checked.parentOpen old hold oldAbove holdAbove hparent
      · rw [decl_newNode] at hparent
        obtain ⟨parent, hnode, hopen, -⟩ := admits.parent oldAbove.id hparent
        rw [forest.node?_id holdAbove] at hnode
        cases hnode
        exact hopen
    · rw [id_newNode] at hparent
      exact absurd hparent (admits.parent_ne_nextId_of_mem_add forest h)
  body node h := by
    rcases forest.mem_all_add.1 h with ⟨old, hold, rfl⟩ | rfl
    · rw [Node.decl_gaining]
      exact checked.body old hold
    · rw [decl_newNode]
      exact admits.body
  agrees node h seed hseed hid := by
    rcases forest.mem_all_add.1 h with ⟨old, hold, rfl⟩ | rfl
    · rw [Node.seed_gaining] at hid
      obtain ⟨root, hroot, hrootId, -⟩ := forest.exists_seed hold
      have hgained : root.gaining decl registry.nextId ∈ (registry.add decl).all :=
        forest.mem_all_add.2 (Or.inl ⟨root, hroot, rfl⟩)
      rw [← (forest.add admits).eq_of_id_eq hgained hseed
        (by rw [Node.id_gaining, hrootId, hid]), Node.decl_gaining, Node.decl_gaining]
      exact checked.agrees old hold root hroot hrootId
    · rw [decl_newNode]
      exact admits.agrees_newNode forest hseed hid

/-- **In a reachable registry the checks hold of the whole forest.** -/
theorem Reachable.isChecked (reachable : registry.Reachable conversions) :
    registry.IsChecked conversions := by
  refine (reachable.induction (P := fun registry =>
    registry.IsForest ∧ registry.IsChecked conversions)
    ⟨isForest_empty, isChecked_empty⟩ ?_).2
  rintro registry request next ⟨forest, checked⟩ step
  cases step with
  | declare admits => exact ⟨forest.add admits, checked.add forest admits⟩
  | announce _ => exact ⟨forest.insertFunction _, checked.insertFunction _⟩
  | repeated _ => exact ⟨forest, checked⟩

end Registry
end CustomizationPoints
