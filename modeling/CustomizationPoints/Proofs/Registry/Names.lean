import CustomizationPoints.Proofs.Registry.Forest

/-!
# The names in use

The table of names is filled beside the nodes, one entry at a time, and a later entry hides
an earlier one.  `Registry.NamesAgree` says that nothing is ever hidden: the table points to
a declaration exactly if the declaration is registered and has this name, and it marks an
ordinary function exactly if the function was announced.  So a name belongs to one
declaration at most, and to no declaration if it belongs to a function.

Every entry is written only where the name is free, and that is all the argument needs.
-/

namespace CustomizationPoints

namespace Registry

/-- The table of names agrees with the declarations and with the announced functions. -/
structure NamesAgree (registry : Registry) (announced : Set QualifiedName) : Prop where
  /-- A name points to the registered declaration that has it. -/
  declared : ∀ name id, registry.use? name = some (.customizationPoint id) ↔
    ∃ node ∈ registry.all, node.id = id ∧ node.decl.qualifiedName? = some name
  /-- A name marks a function that was announced. -/
  announced : ∀ name, registry.use? name = some .ordinaryFunction ↔ name ∈ announced

/-- A registration puts the name of the declaration in use and leaves the other names
alone. -/
theorem use?_add (registry : Registry) (decl : Declaration) (name : QualifiedName) :
    (registry.add decl).use? name =
      if decl.qualifiedName? = some name then some (.customizationPoint registry.nextId)
      else registry.use? name := by
  rw [add_eq_insert, insert, use?, Declaration.qualifiedName?]
  cases decl.name with
  | none =>
    rw [Option.map_none, if_neg (Option.some_ne_none name ∘ Eq.symm)]
    rfl
  | some own =>
    rw [Option.map_some, List.lookup_cons]
    by_cases h : name = ⟨decl.space, own⟩
    · simp [h]
    · simp [Ne.symm h, beq_false_of_ne h, use?]

/-- A look-up goes through the table to the place of a declaration. -/
theorem find?_eq_some_iff_use? {registry : Registry} {name : QualifiedName} {node : Node} :
    registry.find? name = some node ↔
      ∃ id, registry.use? name = some (.customizationPoint id) ∧ registry.node? id = some node := by
  rw [find?]
  cases registry.use? name with
  | none => simp
  | some use => cases use <;> simp

/-- The table stays as it is when a known function is announced again, and gains one entry
when a new one is. -/
theorem NamesAgree.insertFunction {registry : Registry} {announced : Set QualifiedName}
    (agree : registry.NamesAgree announced) {name : QualifiedName}
    (free : registry.use? name = none) :
    (registry.insertFunction name).NamesAgree (announced ∪ {name}) where
  declared other id := by
    rw [use?_insertFunction]
    by_cases h : other = name
    · rw [if_pos h]
      refine ⟨fun hfunction => (nomatch hfunction), fun hnode => ?_⟩
      have hused := (agree.declared other id).2 hnode
      rw [h, free] at hused
      exact nomatch hused
    · rw [if_neg h]
      exact agree.declared other id
  announced other := by
    rw [use?_insertFunction, Set.mem_union, Set.mem_singleton_iff]
    by_cases h : other = name
    · rw [if_pos h]
      exact ⟨fun _ => Or.inr h, fun _ => rfl⟩
    · rw [if_neg h, agree.announced other]
      exact ⟨Or.inl, fun hor => hor.resolve_right h⟩

/-- A registration keeps the table in agreement. -/
theorem NamesAgree.add {registry : Registry} {announced : Set QualifiedName}
    (agree : registry.NamesAgree announced) (forest : registry.IsForest)
    {conversions : Conversions Id} {decl : Declaration}
    (admits : registry.Admits conversions decl) :
    (registry.add decl).NamesAgree announced where
  declared name id := by
    rw [use?_add]
    by_cases h : decl.qualifiedName? = some name
    · rw [if_pos h]
      constructor
      · intro hid
        cases hid
        exact ⟨registry.newNode decl, forest.mem_all_add.2 (Or.inr rfl), id_newNode _ _,
          by rw [decl_newNode, h]⟩
      · rintro ⟨node, hmem, rfl, hname⟩
        rcases forest.mem_all_add.1 hmem with ⟨old, hold, rfl⟩ | rfl
        · -- an old declaration of this name would have kept the new one out
          rw [Node.decl_gaining] at hname
          have hused := (agree.declared name old.id).2 ⟨old, hold, rfl, hname⟩
          rw [admits.name name h] at hused
          exact nomatch hused
        · rw [id_newNode]
    · rw [if_neg h, agree.declared name id]
      constructor
      · rintro ⟨node, hmem, hid, hname⟩
        exact ⟨node.gaining decl registry.nextId, forest.mem_all_add.2 (Or.inl ⟨node, hmem, rfl⟩),
          by rw [Node.id_gaining, hid], by rw [Node.decl_gaining, hname]⟩
      · rintro ⟨node, hmem, hid, hname⟩
        rcases forest.mem_all_add.1 hmem with ⟨old, hold, rfl⟩ | rfl
        · rw [Node.id_gaining] at hid
          rw [Node.decl_gaining] at hname
          exact ⟨old, hold, hid, hname⟩
        · rw [decl_newNode] at hname
          exact absurd hname h
  announced name := by
    rw [use?_add]
    by_cases h : decl.qualifiedName? = some name
    · rw [if_pos h, ← agree.announced name, admits.name name h]
      exact ⟨fun hfunction => (nomatch hfunction), fun hnone => (nomatch hnone)⟩
    · rw [if_neg h]
      exact agree.announced name

theorem namesAgree_empty : empty.NamesAgree (Request.announced []) where
  declared name id := by simp [all, empty, use?]
  announced name := by simp [empty, use?, Request.announced]

/-- **The table of names is exact after every run.** -/
theorem namesAgree_run (conversions : Conversions Id) (requests : List Request) :
    (empty.run conversions requests).NamesAgree
      (Request.announced (empty.granted conversions requests)) := by
  refine (run_induction (P := fun before registry =>
    registry.IsForest ∧ registry.NamesAgree (Request.announced before))
    ⟨isForest_empty, namesAgree_empty⟩ ?_ requests).2
  rintro before registry request next ⟨forest, agree⟩ step
  cases step with
  | declare admits =>
    rw [Request.announced_append_declare]
    exact ⟨forest.add admits, agree.add forest admits⟩
  | announce free =>
    rw [Request.announced_append_announce]
    exact ⟨forest.insertFunction _, agree.insertFunction free⟩
  | repeated known =>
    rw [Request.announced_append_announce, Set.union_eq_self_of_subset_right
      (Set.singleton_subset_iff.2 ((agree.announced _).1 known))]
    exact ⟨forest, agree⟩

/-- A name belongs to one declaration at most. -/
theorem NamesAgree.eq_of_name_eq {registry : Registry} {announced : Set QualifiedName}
    (agree : registry.NamesAgree announced) (forest : registry.IsForest) {a b : Node}
    (ha : a ∈ registry.all) (hb : b ∈ registry.all) {name : QualifiedName}
    (hname : a.decl.qualifiedName? = some name) (hsame : b.decl.qualifiedName? = some name) :
    a = b := by
  have hused := (agree.declared name a.id).2 ⟨a, ha, rfl, hname⟩
  rw [(agree.declared name b.id).2 ⟨b, hb, rfl, hsame⟩] at hused
  exact forest.eq_of_id_eq ha hb (NameUse.customizationPoint.inj (Option.some.inj hused)).symm

/-- Looking up a name finds the declaration to which it belongs. -/
theorem NamesAgree.find?_eq_some_iff {registry : Registry} {announced : Set QualifiedName}
    (agree : registry.NamesAgree announced) (forest : registry.IsForest) {name : QualifiedName}
    {node : Node} : registry.find? name = some node ↔
      node ∈ registry.all ∧ node.decl.qualifiedName? = some name := by
  rw [find?_eq_some_iff_use?]
  constructor
  · rintro ⟨id, used, h⟩
    obtain ⟨hmem, rfl⟩ := forest.node?_eq_some_iff.1 h
    obtain ⟨other, hother, hid, hname⟩ := (agree.declared name node.id).1 used
    rw [forest.eq_of_id_eq hmem hother hid.symm]
    exact ⟨hother, hname⟩
  · rintro ⟨hmem, hname⟩
    exact ⟨node.id, (agree.declared name node.id).2 ⟨node, hmem, rfl, hname⟩,
      forest.node?_id hmem⟩

end Registry
end CustomizationPoints
