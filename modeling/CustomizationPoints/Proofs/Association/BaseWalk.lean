import CustomizationPoints.Association.Walk
import Mathlib.Data.List.TakeWhile
import Mathlib.Logic.Relation

/-!
# What the walk over the bases finds

The walk over the bases keeps a stack of classes that wait and a list of identities that had
their turn.  What it finds can be said without either: starting from one class, it finds the
identities that can be reached by going from a class to one of its bases, once or more often
(`mem_addBases_iff`).

This is shown for plain hierarchies that go by the identity of a class
(`ClassHierarchy.KeyedById`), where the steps are steps between identities (`Derives`).

## The invariant

That nothing else is found is clear step by step.  That nothing is missed rests on one
invariant: every base of a class that had its turn is found already, and has had its turn
too or waits for it (`ClassHierarchy.Explored`).  When nothing waits any more, the classes
that had their turn are closed under going to a base.
-/

namespace CustomizationPoints

/-! ## Identities in a set -/

namespace ClassSet

/-- The identities of the classes in the set. -/
def ids (set : ClassSet) : List TypeId := set.classes.map (·.id)

/-- A set contains a type exactly if it has its identity. -/
theorem contains_iff_mem_ids {set : ClassSet} {type : HostType} :
    set.contains type = true ↔ type.id ∈ set.ids := by
  rw [contains_eq_true_iff, ids, List.mem_map]

@[simp] theorem ids_empty : empty.ids = [] := rfl

theorem mem_ids_insert {set : ClassSet} {type : HostType} {id : TypeId} :
    id ∈ (set.insert type).ids ↔ id ∈ set.ids ∨ id = type.id := by
  unfold insert
  split
  next present =>
    refine ⟨Or.inl, fun h => h.elim (fun hmem => hmem) ?_⟩
    rintro rfl
    exact contains_iff_mem_ids.1 present
  next => simp [ids]

theorem mem_ids_insertAll {set : ClassSet} {types : List HostType} {id : TypeId} :
    id ∈ (set.insertAll types).ids ↔ id ∈ set.ids ∨ id ∈ types.map (·.id) := by
  induction types generalizing set with
  | nil => simp
  | cons type rest ih =>
    rw [insertAll_cons, ih, mem_ids_insert, List.map_cons, List.mem_cons, or_assoc]

/-- The class that was inserted, if there was one, is found. -/
theorem mem_ids_insertAll_toList {found : ClassSet} {outer : Option HostType} {id : TypeId} :
    id ∈ (found.insertAll outer.toList).ids ↔
      id ∈ found.ids ∨ ∃ enclosing, outer = some enclosing ∧ id = enclosing.id := by
  rw [mem_ids_insertAll]
  cases outer <;> simp

end ClassSet

namespace ClassHierarchy

/-! ## One step of the walk -/

section Step

variable {m : Type → Type} [Monad m] (hierarchy : ClassHierarchy m) {expanded : List TypeId}
  {pending : List HostType} (found : ClassSet)

/-- The walk ends when every class that waits has had its turn. -/
theorem addBases_of_done (done : pending.dropWhile (fun type => type.id ∈ expanded) = []) :
    hierarchy.addBases expanded pending found = pure found := by
  rw [addBases]
  split
  next => rfl
  next next rest waiting =>
    rw [done] at waiting
    exact absurd waiting.symm (List.cons_ne_nil next rest)

/-- The first class that has not had its turn is expanded next. -/
theorem addBases_of_waiting {next : HostType} {rest : List HostType}
    (waiting : pending.dropWhile (fun type => type.id ∈ expanded) = next :: rest) :
    hierarchy.addBases expanded pending found = (do
      let bases ← hierarchy.bases next
      hierarchy.addBases (next.id :: expanded) (bases.reverse ++ rest)
        (found.insertAll bases)) := by
  rw [addBases]
  split
  next done =>
    rw [waiting] at done
    exact absurd done (List.cons_ne_nil next rest)
  next next' rest' waiting' =>
    rw [waiting] at waiting'
    cases waiting'
    rfl

/-- What waits has had its turn, is next, or waits behind the next one. -/
theorem mem_of_waiting {next : HostType} {rest : List HostType}
    (waiting : pending.dropWhile (fun type => type.id ∈ expanded) = next :: rest)
    {type : HostType} (h : type ∈ pending) : type.id ∈ expanded ∨ type = next ∨ type ∈ rest := by
  rw [← List.takeWhile_append_dropWhile (p := fun type => type.id ∈ expanded) (l := pending),
    waiting, List.mem_append, List.mem_cons] at h
  refine h.imp_left fun hskipped => ?_
  simpa using List.mem_takeWhile_imp hskipped

end Step

/-! ## Going to a base -/

variable (hierarchy : ClassHierarchy Id)

/-- The bases of a class depend on its identity alone. -/
def KeyedById : Prop :=
  ∀ a b : HostType, a.id = b.id → hierarchy.bases a = hierarchy.bases b

/-- A class with the first identity has a base with the second. -/
def Derives (derived base : TypeId) : Prop :=
  ∃ type : HostType, type.id = derived ∧ base ∈ (hierarchy.bases type).run.map (·.id)

/-- Every base of an expanded class is found, and is expanded itself or waits. -/
def Explored (expanded : List TypeId) (pending : List HostType) (found : ClassSet) : Prop :=
  ∀ derived ∈ expanded, ∀ base, hierarchy.Derives derived base →
    base ∈ found.ids ∧ (base ∈ expanded ∨ base ∈ pending.map (·.id))

variable {hierarchy}

theorem KeyedById.derives_iff (keyed : hierarchy.KeyedById) {type : HostType} {base : TypeId} :
    hierarchy.Derives type.id base ↔ base ∈ (hierarchy.bases type).run.map (·.id) := by
  constructor
  · rintro ⟨other, hid, hbase⟩
    rwa [keyed other type hid] at hbase
  · exact fun hbase => ⟨type, rfl, hbase⟩

/-- Expanding the next class keeps the walk explored. -/
theorem Explored.expand (keyed : hierarchy.KeyedById) {expanded : List TypeId}
    {pending rest : List HostType} {next : HostType} {found : ClassSet}
    (explored : hierarchy.Explored expanded pending found)
    (waiting : pending.dropWhile (fun type => type.id ∈ expanded) = next :: rest) :
    hierarchy.Explored (next.id :: expanded) ((hierarchy.bases next).run.reverse ++ rest)
      (found.insertAll (hierarchy.bases next).run) := by
  intro derived hderived base hbase
  rw [ClassSet.mem_ids_insertAll, List.map_append, List.mem_append, List.map_reverse,
    List.mem_reverse]
  rcases List.mem_cons.1 hderived with rfl | hexpanded
  · have hnew := keyed.derives_iff.1 hbase
    exact ⟨Or.inr hnew, Or.inr (Or.inl hnew)⟩
  · obtain ⟨hfound, hnext⟩ := explored derived hexpanded base hbase
    refine ⟨Or.inl hfound, ?_⟩
    rcases hnext with hold | hwaits
    · exact Or.inl (List.mem_cons_of_mem _ hold)
    · obtain ⟨type, htype, rfl⟩ := List.mem_map.1 hwaits
      rcases mem_of_waiting waiting htype with hskipped | rfl | hrest
      · exact Or.inl (List.mem_cons_of_mem _ hskipped)
      · exact Or.inl List.mem_cons_self
      · exact Or.inr (Or.inr (List.mem_map_of_mem hrest))

/-- Nothing is found but what was found before and what lies above a class that waits. -/
theorem addBases_sound (expanded : List TypeId) (pending : List HostType) (found : ClassSet)
    {id : TypeId} (h : id ∈ (hierarchy.addBases expanded pending found).run.ids) :
    id ∈ found.ids ∨ ∃ start ∈ pending, Relation.TransGen hierarchy.Derives start.id id := by
  induction expanded, pending, found using addBases.induct with
  | case1 expanded pending found done =>
    rw [addBases_of_done hierarchy found done] at h
    exact Or.inl h
  | case2 expanded pending found next rest waiting ih =>
    rw [addBases_of_waiting hierarchy found waiting] at h
    have hsuffix : next :: rest <:+ pending := waiting ▸ List.dropWhile_suffix _
    have hnext : next ∈ pending := hsuffix.subset List.mem_cons_self
    rcases ih (hierarchy.bases next).run h with hfound | ⟨start, hstart, hreach⟩
    · rcases ClassSet.mem_ids_insertAll.1 hfound with hold | hbase
      · exact Or.inl hold
      · exact Or.inr ⟨next, hnext, .single ⟨next, rfl, hbase⟩⟩
    · rcases List.mem_append.1 hstart with hbase | hrest
      · have hstep : hierarchy.Derives next.id start.id :=
          ⟨next, rfl, List.mem_map_of_mem (List.mem_reverse.1 hbase)⟩
        exact Or.inr ⟨next, hnext, .head hstep hreach⟩
      · exact Or.inr ⟨start, hsuffix.subset (List.mem_cons_of_mem _ hrest), hreach⟩

/-- The walk ends with a set of identities that is closed under going to a base, and has found
every base of a member. -/
theorem exists_closed (keyed : hierarchy.KeyedById) (expanded : List TypeId)
    (pending : List HostType) (found : ClassSet)
    (explored : hierarchy.Explored expanded pending found) :
    found.ids ⊆ (hierarchy.addBases expanded pending found).run.ids ∧
      ∃ reached : List TypeId, expanded ⊆ reached ∧ pending.map (·.id) ⊆ reached ∧
        ∀ derived ∈ reached, ∀ base, hierarchy.Derives derived base →
          base ∈ reached ∧ base ∈ (hierarchy.addBases expanded pending found).run.ids := by
  induction expanded, pending, found using addBases.induct with
  | case1 expanded pending found done =>
    have hpending : pending.map (·.id) ⊆ expanded := by
      intro id hid
      obtain ⟨type, htype, rfl⟩ := List.mem_map.1 hid
      simpa using List.dropWhile_eq_nil_iff.1 done type htype
    rw [addBases_of_done hierarchy found done]
    refine ⟨List.Subset.refl _, expanded, List.Subset.refl _, hpending, ?_⟩
    intro derived hderived base hbase
    obtain ⟨hfound, hnext⟩ := explored derived hderived base hbase
    exact ⟨hnext.elim (fun hold => hold) fun hwaits => hpending hwaits, hfound⟩
  | case2 expanded pending found next rest waiting ih =>
    rw [addBases_of_waiting hierarchy found waiting]
    obtain ⟨hgrow, reached, hexpanded, hpending, hclosed⟩ :=
      ih (hierarchy.bases next).run (explored.expand keyed waiting)
    have hnext : next.id ∈ reached := hexpanded List.mem_cons_self
    refine ⟨fun id hid => hgrow (ClassSet.mem_ids_insertAll.2 (Or.inl hid)), reached,
      fun id hid => hexpanded (List.mem_cons_of_mem _ hid), ?_, hclosed⟩
    intro id hid
    obtain ⟨type, htype, rfl⟩ := List.mem_map.1 hid
    rcases mem_of_waiting waiting htype with hskipped | rfl | hrest
    · exact hexpanded (List.mem_cons_of_mem _ hskipped)
    · exact hnext
    · exact hpending (List.mem_map_of_mem (List.mem_append_right _ hrest))

/-- **What the walk finds**: the identities above the class at which it starts. -/
theorem mem_addBases_iff (keyed : hierarchy.KeyedById) (type : HostType) (found : ClassSet)
    {id : TypeId} : id ∈ (hierarchy.addBases [] [type] found).run.ids ↔
      id ∈ found.ids ∨ Relation.TransGen hierarchy.Derives type.id id := by
  constructor
  · intro h
    rcases addBases_sound [] [type] found h with hfound | ⟨start, hstart, hreach⟩
    · exact Or.inl hfound
    · rw [List.mem_singleton.1 hstart] at hreach
      exact Or.inr hreach
  · have explored : hierarchy.Explored [] [type] found := fun _ h => absurd h List.not_mem_nil
    obtain ⟨hgrow, reached, -, hpending, hclosed⟩ := exists_closed keyed [] [type] found explored
    have hstart : type.id ∈ reached := hpending (List.mem_singleton.2 rfl)
    -- along the path every identity is reached, and so the last one is found
    have hreached : ∀ {id : TypeId}, Relation.TransGen hierarchy.Derives type.id id →
        id ∈ reached ∧ id ∈ (hierarchy.addBases [] [type] found).run.ids := by
      intro id hpath
      induction hpath with
      | single hstep => exact hclosed _ hstart _ hstep
      | tail _ hstep ih => exact hclosed _ ih.1 _ hstep
    rintro (hfound | hpath)
    · exact hgrow hfound
    · exact (hreached hpath).2

end ClassHierarchy
end CustomizationPoints
