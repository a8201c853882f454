import CustomizationPoints.Host.ClassTable
import CustomizationPoints.Proofs.Association.BaseWalk

/-!
# The classes associated with a call

A table of classes is filled with facts, one at a time: that a class derives from another
one, or is a member of another one.  Which classes such a table associates with a call can be
said in terms of the facts alone (`contains_associated_iff`).

## From the table to the facts

* The bases of a type are those that were recorded for its identity, whatever the kind and
  name with which it was recorded (`mem_basesOf_foldl`).  So going to a base is a recorded
  edge between identities (`derives_hierarchy_ofFacts`).
* The enclosing class of a type is the one in the last fact about its identity
  (`enclosing?_ofFacts`).

Facts may repeat, and the edges may form diamonds and cycles; nothing below excludes it.
-/

namespace CustomizationPoints

/-! ## What the facts say -/

namespace ClassFact

/-- It is recorded that a class with the first identity derives from one with the second. -/
def Derives (facts : List ClassFact) (derived base : TypeId) : Prop :=
  ∃ lower upper : HostType, .base lower upper ∈ facts ∧ lower.id = derived ∧ upper.id = base

/-- The last fact about the membership of a type with this identity names `outer` as the
enclosing class. -/
def LastEnclosing (facts : List ClassFact) (nested : TypeId) (outer : HostType) : Prop :=
  ∃ before inner after, facts = before ++ .member inner outer :: after ∧ inner.id = nested ∧
    ∀ other enclosing, .member other enclosing ∈ after → other.id ≠ nested

/-- No fact is about the membership of a type with this identity. -/
def NoEnclosing (facts : List ClassFact) (nested : TypeId) : Prop :=
  ∀ other enclosing, .member other enclosing ∈ facts → other.id ≠ nested

theorem not_lastEnclosing_nil {nested : TypeId} {outer : HostType} :
    ¬LastEnclosing [] nested outer := by
  rintro ⟨before, inner, after, hfacts, -⟩
  simp at hfacts

theorem noEnclosing_cons {fact : ClassFact} {rest : List ClassFact} {nested : TypeId} :
    NoEnclosing (fact :: rest) nested ↔
      (∀ other enclosing, fact = .member other enclosing → other.id ≠ nested) ∧
        NoEnclosing rest nested := by
  constructor
  · intro h
    exact ⟨fun other enclosing hfact => h other enclosing (hfact ▸ List.mem_cons_self),
      fun other enclosing hmem => h other enclosing (List.mem_cons_of_mem _ hmem)⟩
  · rintro ⟨hfact, hrest⟩ other enclosing hmem
    rcases List.mem_cons.1 hmem with heq | hmem
    · exact hfact other enclosing heq.symm
    · exact hrest other enclosing hmem

/-- A later fact hides an earlier one. -/
theorem lastEnclosing_cons {fact : ClassFact} {rest : List ClassFact} {nested : TypeId}
    {outer : HostType} : LastEnclosing (fact :: rest) nested outer ↔
      LastEnclosing rest nested outer ∨
        (NoEnclosing rest nested ∧ ∃ inner, fact = .member inner outer ∧ inner.id = nested) := by
  constructor
  · rintro ⟨_ | ⟨first, before⟩, inner, after, hfacts, hid, hlast⟩
    · obtain ⟨rfl, rfl⟩ := List.cons.inj hfacts
      exact Or.inr ⟨hlast, inner, rfl, hid⟩
    · obtain ⟨rfl, rfl⟩ := List.cons.inj hfacts
      exact Or.inl ⟨before, inner, after, rfl, hid, hlast⟩
  · rintro (⟨before, inner, after, rfl, hid, hlast⟩ | ⟨hnone, inner, rfl, hid⟩)
    · exact ⟨fact :: before, inner, after, rfl, hid, hlast⟩
    · exact ⟨[], inner, rest, rfl, hid, hnone⟩

end ClassFact

/-! ## What the table answers -/

namespace ClassTable

theorem mem_basesOf_addBase {table : ClassTable} {lower upper type base : HostType} :
    base ∈ (table.addBase lower upper).basesOf type ↔
      base ∈ table.basesOf type ∨ (lower.id = type.id ∧ upper = base) := by
  by_cases known : upper ∈ table.basesOf lower
  · rw [addBase, if_pos known]
    refine ⟨Or.inl, fun h => h.elim (fun hmem => hmem) ?_⟩
    rintro ⟨hid, rfl⟩
    rw [basesOf, hid] at known
    exact known
  · rw [addBase, if_neg known]
    by_cases hid : type.id = lower.id
    · simp [basesOf, hid, eq_comm]
    · simp [basesOf, List.lookup_cons, Ne.symm hid, beq_false_of_ne hid]

/-- **The bases of a type** are those that were recorded for its identity. -/
theorem mem_basesOf_foldl (facts : List ClassFact) (table : ClassTable) {type base : HostType} :
    base ∈ (facts.foldl record table).basesOf type ↔
      base ∈ table.basesOf type ∨ ∃ lower, .base lower base ∈ facts ∧ lower.id = type.id := by
  induction facts generalizing table with
  | nil => simp
  | cons fact rest ih =>
    rw [List.foldl_cons, ih]
    cases fact with
    | base lower upper =>
      rw [record, mem_basesOf_addBase, or_assoc]
      refine or_congr_right ⟨?_, ?_⟩
      · rintro (⟨hid, rfl⟩ | ⟨other, hmem, hid⟩)
        · exact ⟨lower, List.mem_cons_self, hid⟩
        · exact ⟨other, List.mem_cons_of_mem _ hmem, hid⟩
      · rintro ⟨other, hmem, hid⟩
        rcases List.mem_cons.1 hmem with heq | hmem
        · cases heq
          exact Or.inl ⟨hid, rfl⟩
        · exact Or.inr ⟨other, hmem, hid⟩
    | member inner outer =>
      rw [record, basesOf_setEnclosing]
      simp

/-- **The enclosing class of a type** is the one that was recorded last for its identity. -/
theorem enclosing?_foldl (facts : List ClassFact) (table : ClassTable) {type outer : HostType} :
    (facts.foldl record table).enclosing? type = some outer ↔
      ClassFact.LastEnclosing facts type.id outer ∨
        (ClassFact.NoEnclosing facts type.id ∧ table.enclosing? type = some outer) := by
  induction facts generalizing table with
  | nil => simp [ClassFact.not_lastEnclosing_nil, ClassFact.NoEnclosing]
  | cons fact rest ih =>
    rw [List.foldl_cons, ih, ClassFact.lastEnclosing_cons, ClassFact.noEnclosing_cons, or_assoc]
    refine or_congr_right ?_
    cases fact with
    | base lower upper => simp [record]
    | member inner enclosing =>
      rw [record, enclosing?_setEnclosing]
      by_cases hid : inner.id = type.id
      · rw [if_pos hid.symm]
        constructor
        · rintro ⟨hnone, hsame⟩
          exact Or.inl ⟨hnone, inner, by rw [Option.some.inj hsame], hid⟩
        · rintro (⟨hnone, other, hfact, -⟩ | ⟨⟨hother, -⟩, -⟩)
          · cases hfact
            exact ⟨hnone, rfl⟩
          · exact absurd hid (hother inner enclosing rfl)
      · simp [hid, Ne.symm hid]

theorem derives_hierarchy_ofFacts (facts : List ClassFact) {derived base : TypeId} :
    ((ofFacts facts).hierarchy (m := Id)).Derives derived base ↔
      ClassFact.Derives facts derived base := by
  constructor
  · rintro ⟨type, rfl, hbase⟩
    obtain ⟨upper, hupper, rfl⟩ := List.mem_map.1 hbase
    rcases (mem_basesOf_foldl facts empty).1 hupper with hempty | ⟨lower, hfact, hid⟩
    · exact absurd hempty List.not_mem_nil
    · exact ⟨lower, upper, hfact, hid, rfl⟩
  · rintro ⟨lower, upper, hfact, rfl, rfl⟩
    have hupper : upper ∈ (ofFacts facts).basesOf lower :=
      (mem_basesOf_foldl facts empty).2 (Or.inr ⟨lower, hfact, rfl⟩)
    exact ⟨lower, rfl, List.mem_map_of_mem hupper⟩

theorem enclosing?_ofFacts (facts : List ClassFact) {type outer : HostType} :
    (ofFacts facts).enclosing? type = some outer ↔
      ClassFact.LastEnclosing facts type.id outer := by
  rw [ofFacts, enclosing?_foldl, enclosing?_empty]
  simp

/-- A table does not look at the kind or the name of a type. -/
theorem keyedById_hierarchy (table : ClassTable) :
    (table.hierarchy (m := Id)).KeyedById := by
  intro a b h
  show table.basesOf a = table.basesOf b
  rw [basesOf, basesOf, h]

end ClassTable

/-! ## The classes of one argument, and of all -/

/-- A class or union can be a member of a class. -/
theorem HostType.kind_ne_other_of_classLike {type : HostType}
    (classLike : type.kind = .classType ∨ type.kind = .unionType) : type.kind ≠ .other := by
  rcases classLike with h | h
  · rw [h]
    decide
  · rw [h]
    decide

namespace ClassHierarchy

/-- The hierarchy associates a class with this identity with the argument. -/
inductive Associates (hierarchy : ClassHierarchy Id) (argument : HostType) (id : TypeId) :
    Prop where
  /-- A class or union is associated with itself. -/
  | self (classLike : argument.kind = .classType ∨ argument.kind = .unionType)
      (same : id = argument.id)
  /-- It is associated with its enclosing class, and so is an enumeration. -/
  | outer {enclosing : HostType} (nestable : argument.kind ≠ .other)
      (encloses : (hierarchy.enclosing argument).run = some enclosing)
      (same : id = enclosing.id)
  /-- It is associated with its bases. -/
  | base (classLike : argument.kind = .classType ∨ argument.kind = .unionType)
      (derives : Relation.TransGen hierarchy.Derives argument.id id)

variable {hierarchy : ClassHierarchy Id}

theorem mem_addArgument_of_classLike (keyed : hierarchy.KeyedById) (found : ClassSet)
    {argument : HostType} (classLike : argument.kind = .classType ∨ argument.kind = .unionType)
    {id : TypeId} : id ∈ (hierarchy.addArgument found argument).run.ids ↔
      id ∈ found.ids ∨ hierarchy.Associates argument id := by
  have hwalk : hierarchy.addArgument found argument = hierarchy.addBases [] [argument]
      ((found.insert argument).insertAll (hierarchy.enclosing argument).run.toList) := by
    unfold addArgument
    rcases classLike with h | h <;> rw [h] <;> rfl
  rw [hwalk, mem_addBases_iff keyed, ClassSet.mem_ids_insertAll_toList, ClassSet.mem_ids_insert]
  constructor
  · rintro (((hfound | hself) | ⟨enclosing, hencloses, hid⟩) | hderives)
    · exact Or.inl hfound
    · exact Or.inr (.self classLike hself)
    · exact Or.inr (.outer (HostType.kind_ne_other_of_classLike classLike) hencloses hid)
    · exact Or.inr (.base classLike hderives)
  · rintro (hfound | hassociates)
    · exact Or.inl (Or.inl (Or.inl hfound))
    · cases hassociates with
      | self _ hself => exact Or.inl (Or.inl (Or.inr hself))
      | outer _ hencloses hid => exact Or.inl (Or.inr ⟨_, hencloses, hid⟩)
      | base _ hderives => exact Or.inr hderives

/-- **What one more argument adds.** -/
theorem mem_addArgument_iff (keyed : hierarchy.KeyedById) (found : ClassSet)
    (argument : HostType) {id : TypeId} :
    id ∈ (hierarchy.addArgument found argument).run.ids ↔
      id ∈ found.ids ∨ hierarchy.Associates argument id := by
  cases hkind : argument.kind with
  | classType => exact mem_addArgument_of_classLike keyed found (Or.inl hkind)
  | unionType => exact mem_addArgument_of_classLike keyed found (Or.inr hkind)
  | enumType =>
    have henum : hierarchy.addArgument found argument =
        found.insertAll (hierarchy.enclosing argument).run.toList := by
      unfold addArgument
      rw [hkind]
      rfl
    rw [henum]
    refine ClassSet.mem_ids_insertAll_toList.trans (or_congr_right ⟨?_, ?_⟩)
    · rintro ⟨enclosing, hencloses, hid⟩
      exact .outer (by rw [hkind]; decide) hencloses hid
    · intro hassociates
      cases hassociates with
      | self classLike _ => simp [hkind] at classLike
      | outer _ hencloses hid => exact ⟨_, hencloses, hid⟩
      | base classLike _ => simp [hkind] at classLike
  | other =>
    have hother : hierarchy.addArgument found argument = found := by
      unfold addArgument
      rw [hkind]
      rfl
    rw [hother]
    refine ⟨Or.inl, fun h => h.elim (fun hfound => hfound) fun hassociates => ?_⟩
    cases hassociates with
    | self classLike _ => simp [hkind] at classLike
    | outer nestable _ _ => exact absurd hkind nestable
    | base classLike _ => simp [hkind] at classLike

/-- What the arguments of a call add, one after the other. -/
theorem mem_foldlM_addArgument_iff (keyed : hierarchy.KeyedById) (arguments : List HostType)
    (found : ClassSet) {id : TypeId} :
    id ∈ (arguments.foldlM hierarchy.addArgument found).run.ids ↔
      id ∈ found.ids ∨ ∃ argument ∈ arguments, hierarchy.Associates argument id := by
  induction arguments generalizing found with
  | nil =>
    rw [List.foldlM_nil]
    simp
  | cons argument rest ih =>
    rw [List.foldlM_cons]
    refine (ih (hierarchy.addArgument found argument).run).trans ?_
    rw [mem_addArgument_iff keyed, or_assoc]
    simp

end ClassHierarchy

/-- What a table associates with one argument, in terms of the recorded facts. -/
theorem ClassTable.associates_hierarchy_iff (facts : List ClassFact) (argument : HostType)
    {id : TypeId} : ((ofFacts facts).hierarchy (m := Id)).Associates argument id ↔
      ((argument.kind = .classType ∨ argument.kind = .unionType) ∧
        (id = argument.id ∨
          (∃ outer, ClassFact.LastEnclosing facts argument.id outer ∧ id = outer.id) ∨
          Relation.TransGen (ClassFact.Derives facts) argument.id id)) ∨
      (argument.kind = .enumType ∧
        ∃ outer, ClassFact.LastEnclosing facts argument.id outer ∧ id = outer.id) := by
  have hderives : ((ofFacts facts).hierarchy (m := Id)).Derives = ClassFact.Derives facts := by
    funext derived base
    exact propext (derives_hierarchy_ofFacts facts)
  have hencloses : ∀ {outer : HostType},
      (((ofFacts facts).hierarchy (m := Id)).enclosing argument).run = some outer ↔
        ClassFact.LastEnclosing facts argument.id outer := enclosing?_ofFacts facts
  constructor
  · intro h
    cases h with
    | self classLike same => exact Or.inl ⟨classLike, Or.inl same⟩
    | @outer outer nestable encloses same =>
      have hlast := hencloses.1 encloses
      cases hkind : argument.kind with
      | classType => exact Or.inl ⟨Or.inl rfl, Or.inr (Or.inl ⟨outer, hlast, same⟩)⟩
      | unionType => exact Or.inl ⟨Or.inr rfl, Or.inr (Or.inl ⟨outer, hlast, same⟩)⟩
      | enumType => exact Or.inr ⟨rfl, outer, hlast, same⟩
      | other => exact absurd hkind nestable
    | base classLike derives =>
      rw [hderives] at derives
      exact Or.inl ⟨classLike, Or.inr (Or.inr derives)⟩
  · rintro (⟨classLike, same | ⟨outer, hlast, same⟩ | derives⟩ | ⟨hkind, outer, hlast, same⟩)
    · exact .self classLike same
    · exact .outer (HostType.kind_ne_other_of_classLike classLike) (hencloses.2 hlast) same
    · rw [← hderives] at derives
      exact .base classLike derives
    · exact .outer (by rw [hkind]; decide) (hencloses.2 hlast) same

/-- **The classes associated with a call**, in terms of the recorded facts.  A class or union
among the arguments brings itself, the class that was last recorded as enclosing it, and
everything above it along recorded edges; an enumeration brings the class that was last
recorded as enclosing it; any other type brings nothing.  All of this goes by identity. -/
theorem contains_associated_iff (facts : List ClassFact) (arguments : List HostType)
    (type : HostType) :
    (((ClassTable.ofFacts facts).hierarchy (m := Id)).associated arguments).run.contains type =
        true ↔
      ∃ argument ∈ arguments,
        ((argument.kind = .classType ∨ argument.kind = .unionType) ∧
          (type.id = argument.id ∨
            (∃ outer, ClassFact.LastEnclosing facts argument.id outer ∧ type.id = outer.id) ∨
            Relation.TransGen (ClassFact.Derives facts) argument.id type.id)) ∨
        (argument.kind = .enumType ∧
          ∃ outer, ClassFact.LastEnclosing facts argument.id outer ∧ type.id = outer.id) := by
  have keyed := (ClassTable.ofFacts facts).keyedById_hierarchy
  rw [ClassSet.contains_iff_mem_ids]
  refine (ClassHierarchy.mem_foldlM_addArgument_iff keyed arguments .empty).trans ?_
  rw [ClassSet.ids_empty, or_iff_right List.not_mem_nil]
  refine exists_congr fun argument => and_congr_right fun _ => ?_
  exact ClassTable.associates_hierarchy_iff facts argument

end CustomizationPoints
