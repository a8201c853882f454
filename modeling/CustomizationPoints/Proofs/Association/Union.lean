import CustomizationPoints.Proofs.Association.BaseWalk
import Mathlib.Data.List.Nodup

/-!
# Associated classes as a union

The classes associated with a call are gathered in one set, argument by argument, while each
argument walks over its bases by itself.  For a plain hierarchy this comes to a union that keeps the
order: the set of a call is the set of its first arguments, followed by what the others bring that
is new (`associated_union`).

## Discoveries

What is put into the set does not depend on what is in it.  So an argument has a list of
*discoveries*, which is found without the set (`ClassHierarchy.discoveries`): the argument itself,
its enclosing class, and the bases of every class that the walk expands, repetitions included.  A
call puts the discoveries of its arguments into the empty set, one after the other
(`associated_eq_insertAll`).

The rest is about insertion.  An identity keeps the place and the type of its first insertion, which
gives both the union (`ClassSet.classes_insertAll`) and the type that an identity ends up with
(`ClassSet.find?_classes_insertAll`).

## Order and multiplicity

Two calls with the same arguments, in another order or more often, have the same discoveries up to
order.  So the same identities are found.  The types that are found can differ only where
two discoveries share an identity and are different types.
-/

namespace CustomizationPoints

/-! ## Insertion -/

namespace ClassSet

theorem insertAll_append (set : ClassSet) (first second : List HostType) :
    set.insertAll (first ++ second) = (set.insertAll first).insertAll second :=
  List.foldl_append

/-- What is in the set already is not inserted. -/
theorem insert_of_contains {set : ClassSet} {type : HostType} (h : set.contains type = true) :
    set.insert type = set := if_pos h

theorem classes_insert_of_not_contains {set : ClassSet} {type : HostType}
    (h : set.contains type = false) : (set.insert type).classes = set.classes ++ [type] := by
  rw [insert, if_neg (ne_true_of_eq_false h)]

theorem mem_of_mem_insertAll {set : ClassSet} {types : List HostType} {type : HostType}
    (h : type ∈ (set.insertAll types).classes) : type ∈ set.classes ∨ type ∈ types := by
  induction types generalizing set with
  | nil => exact Or.inl h
  | cons first rest ih =>
    rcases ih h with hset | hrest
    · cases hfirst : set.contains first with
      | true =>
        rw [insert_of_contains hfirst] at hset
        exact Or.inl hset
      | false =>
        rw [classes_insert_of_not_contains hfirst, List.mem_append, List.mem_singleton] at hset
        exact hset.imp_right fun hsame => List.mem_cons.2 (Or.inl hsame)
    · exact Or.inr (List.mem_cons_of_mem first hrest)

/-- **Insertion is a union.**  What is new comes after what is there, in its own order. -/
theorem classes_insertAll (set : ClassSet) (types : List HostType) :
    (set.insertAll types).classes =
      set.classes ++ (empty.insertAll types).classes.filter fun type => !set.contains type := by
  induction types generalizing set with
  | nil => exact (List.append_nil _).symm
  | cons first rest ih =>
    -- both sides continue from a set with `first` in it, and the statement holds for the rest of both
    have hempty : (empty.insertAll (first :: rest)).classes =
        first :: (empty.insertAll rest).classes.filter
          fun type => !(empty.insert first).contains type := ih (empty.insert first)
    rw [insertAll_cons, ih, hempty]
    cases hfirst : set.contains first with
    | true =>
      rw [insert_of_contains hfirst, List.filter_cons_of_neg (by simp [hfirst]), List.filter_filter]
      congr 2
      funext type
      rw [contains_insert, contains_empty, Bool.false_or]
      by_cases hsame : first.id = type.id
      · have hknown : set.contains type = true := by
          rw [contains_iff_mem_ids] at hfirst ⊢
          rwa [← hsame]
        simp [hknown]
      · simp [hsame]
    | false =>
      rw [classes_insert_of_not_contains hfirst, List.filter_cons_of_pos (by simp [hfirst]),
        List.filter_filter, List.append_assoc, List.singleton_append]
      congr 3
      funext type
      rw [contains_insert, contains_insert, contains_empty, Bool.false_or, Bool.not_or]

/-- **An identity keeps the type with which it was inserted first.** -/
theorem find?_classes_insertAll (set : ClassSet) (types : List HostType) (id : TypeId) :
    (set.insertAll types).classes.find? (fun type => type.id = id) =
      (set.classes ++ types).find? fun type => type.id = id := by
  induction types generalizing set with
  | nil => rw [insertAll_nil, List.append_nil]
  | cons first rest ih =>
    rw [insertAll_cons, ih]
    cases hfirst : set.contains first with
    | true =>
      rw [insert_of_contains hfirst, List.find?_append, List.find?_append]
      by_cases hid : first.id = id
      · -- the identity is in the set, so neither list is looked at
        obtain ⟨known, hknown, hsame⟩ := contains_eq_true_iff.1 hfirst
        have hfound : (set.classes.find? fun type => type.id = id).isSome = true :=
          List.find?_isSome.2 ⟨known, hknown, by simpa [hid] using hsame⟩
        rw [Option.or_of_isSome hfound, Option.or_of_isSome hfound]
      · rw [List.find?_cons_of_neg (by simpa using hid)]
    | false =>
      rw [classes_insert_of_not_contains hfirst, List.append_assoc, List.singleton_append]

/-- No identity is inserted twice. -/
theorem nodup_ids_insertAll {set : ClassSet} (h : set.ids.Nodup) (types : List HostType) :
    (set.insertAll types).ids.Nodup := by
  induction types generalizing set with
  | nil => exact h
  | cons first rest ih =>
    refine ih ?_
    cases hfirst : set.contains first with
    | true => rwa [insert_of_contains hfirst]
    | false =>
      rw [ids, classes_insert_of_not_contains hfirst, List.map_append, List.map_singleton]
      refine List.nodup_append_comm.1 (List.nodup_cons.2 ⟨fun hmem => ?_, h⟩)
      exact Bool.false_ne_true (hfirst.symm.trans (contains_iff_mem_ids.2 hmem))

/-- The same classes in another order are the same classes. -/
theorem sameClasses_of_perm {left right : ClassSet} (h : left.classes.Perm right.classes) :
    left.sameClasses right = true := by
  rw [sameClasses, Bool.and_eq_true, decide_eq_true_iff, List.all_eq_true]
  exact ⟨h.length_eq, fun type htype => decide_eq_true (h.subset htype)⟩

end ClassSet

/-! ## Discoveries -/

namespace ClassHierarchy

/-- The classes that the walk over the bases expands, in order. -/
def expansions (hierarchy : ClassHierarchy Id) (expanded : List TypeId)
    (pending : List HostType) : List HostType :=
  match _waiting : pending.dropWhile fun type => type.id ∈ expanded with
  | [] => []
  | next :: rest =>
    next :: hierarchy.expansions (next.id :: expanded) ((hierarchy.bases next).run.reverse ++ rest)
termination_by unexpanded expanded
decreasing_by exact unexpanded_cons_lt (fresh_of_dropWhile _waiting)

variable (hierarchy : ClassHierarchy Id)

/-- The types that turn up while one argument is worked on, in order and with repetitions. -/
def discoveries (argument : HostType) : List HostType :=
  match argument.kind with
  | .classType | .unionType =>
    argument :: ((hierarchy.enclosing argument).run.toList ++
      (hierarchy.expansions [] [argument]).flatMap fun type => (hierarchy.bases type).run)
  | .enumType => (hierarchy.enclosing argument).run.toList
  | .other => []

/-- The hierarchy names the type in some answer. -/
def Answers (type : HostType) : Prop :=
  ∃ asked, type ∈ (hierarchy.bases asked).run ∨ (hierarchy.enclosing asked).run = some type

theorem expansions_of_done {expanded : List TypeId} {pending : List HostType}
    (done : pending.dropWhile (fun type => type.id ∈ expanded) = []) :
    hierarchy.expansions expanded pending = [] := by
  rw [expansions]
  split
  next => rfl
  next next rest waiting => exact nomatch done.symm.trans waiting

theorem expansions_of_waiting {expanded : List TypeId} {pending : List HostType} {next : HostType}
    {rest : List HostType}
    (waiting : pending.dropWhile (fun type => type.id ∈ expanded) = next :: rest) :
    hierarchy.expansions expanded pending = next ::
      hierarchy.expansions (next.id :: expanded)
        ((hierarchy.bases next).run.reverse ++ rest) := by
  rw [expansions]
  split
  next done => exact nomatch done.symm.trans waiting
  next next' rest' waiting' =>
    cases waiting'.symm.trans waiting
    rfl

/-- The walk inserts the bases of the classes that it expands. -/
theorem addBases_eq_insertAll (expanded : List TypeId) (pending : List HostType)
    (found : ClassSet) : (hierarchy.addBases expanded pending found).run =
      found.insertAll ((hierarchy.expansions expanded pending).flatMap
        fun type => (hierarchy.bases type).run) := by
  induction expanded, pending, found using addBases.induct with
  | case1 expanded pending found done =>
    rw [addBases_of_done hierarchy found done, expansions_of_done hierarchy done]
    rfl
  | case2 expanded pending found next rest waiting ih =>
    rw [addBases_of_waiting hierarchy found waiting, expansions_of_waiting hierarchy waiting,
      List.flatMap_cons, ClassSet.insertAll_append]
    exact ih (hierarchy.bases next).run

theorem addArgument_eq_insertAll (found : ClassSet) (argument : HostType) :
    (hierarchy.addArgument found argument).run =
      found.insertAll (hierarchy.discoveries argument) := by
  have hclassLike : (hierarchy.addBases [] [argument]
      ((found.insert argument).insertAll (hierarchy.enclosing argument).run.toList)).run =
      found.insertAll (argument :: ((hierarchy.enclosing argument).run.toList ++
        (hierarchy.expansions [] [argument]).flatMap fun type => (hierarchy.bases type).run)) := by
    rw [addBases_eq_insertAll, ClassSet.insertAll_cons, ClassSet.insertAll_append]
  unfold addArgument discoveries
  cases argument.kind with
  | classType => exact hclassLike
  | unionType => exact hclassLike
  | enumType => rfl
  | other => rfl

theorem foldlM_addArgument_eq_insertAll (arguments : List HostType) (found : ClassSet) :
    (arguments.foldlM hierarchy.addArgument found).run =
      found.insertAll (arguments.flatMap hierarchy.discoveries) := by
  induction arguments generalizing found with
  | nil => rfl
  | cons argument rest ih =>
    rw [List.foldlM_cons, List.flatMap_cons, ClassSet.insertAll_append,
      ← addArgument_eq_insertAll]
    exact ih (hierarchy.addArgument found argument).run

/-- **The associated classes are the discoveries**, inserted one after the other. -/
theorem associated_eq_insertAll (arguments : List HostType) :
    (hierarchy.associated arguments).run =
      ClassSet.empty.insertAll (arguments.flatMap hierarchy.discoveries) :=
  hierarchy.foldlM_addArgument_eq_insertAll arguments .empty

/-- What is discovered is an argument or an answer. -/
theorem answers_of_mem_discoveries {argument type : HostType}
    (h : type ∈ hierarchy.discoveries argument) : type = argument ∨ hierarchy.Answers type := by
  have houter (h : type ∈ (hierarchy.enclosing argument).run.toList) : hierarchy.Answers type :=
    ⟨argument, Or.inr (Option.mem_toList.1 h)⟩
  have hclassLike (h : type ∈ argument :: ((hierarchy.enclosing argument).run.toList ++
      (hierarchy.expansions [] [argument]).flatMap fun type => (hierarchy.bases type).run)) :
      type = argument ∨ hierarchy.Answers type := by
    rcases List.mem_cons.1 h with hself | h
    · exact Or.inl hself
    · refine Or.inr ((List.mem_append.1 h).elim houter fun h => ?_)
      obtain ⟨derived, -, hbase⟩ := List.mem_flatMap.1 h
      exact ⟨derived, Or.inl hbase⟩
  unfold discoveries at h
  cases hkind : argument.kind with
  | classType => exact hclassLike (by rwa [hkind] at h)
  | unionType => exact hclassLike (by rwa [hkind] at h)
  | enumType => exact Or.inr (houter (by rwa [hkind] at h))
  | other =>
    rw [hkind] at h
    exact absurd h List.not_mem_nil

/-! ## The same arguments -/

section SameArguments

variable {hierarchy} {xs ys : List HostType}

theorem mem_flatMap_discoveries_congr (same : ∀ type, type ∈ xs ↔ type ∈ ys) (type : HostType) :
    type ∈ xs.flatMap hierarchy.discoveries ↔ type ∈ ys.flatMap hierarchy.discoveries := by
  rw [List.mem_flatMap, List.mem_flatMap]
  exact exists_congr fun argument => and_congr_left fun _ => same argument

/-- The same arguments lead to the same identities. -/
theorem contains_associated_congr (same : ∀ type, type ∈ xs ↔ type ∈ ys) (type : HostType) :
    (hierarchy.associated xs).run.contains type = (hierarchy.associated ys).run.contains type := by
  rw [Bool.eq_iff_iff, ClassSet.contains_iff_mem_ids, ClassSet.contains_iff_mem_ids,
    associated_eq_insertAll, associated_eq_insertAll, ClassSet.mem_ids_insertAll,
    ClassSet.mem_ids_insertAll, List.mem_map, List.mem_map]
  simp only [mem_flatMap_discoveries_congr same]

/-- Where an identity stands for one discovery only, every discovery is found as it is. -/
theorem mem_associated_iff (distinct : ∀ a ∈ xs.flatMap hierarchy.discoveries,
      ∀ b ∈ xs.flatMap hierarchy.discoveries, a.id = b.id → a = b) (type : HostType) :
    type ∈ (hierarchy.associated xs).run.classes ↔ type ∈ xs.flatMap hierarchy.discoveries := by
  rw [associated_eq_insertAll]
  constructor
  · exact fun h => (ClassSet.mem_of_mem_insertAll h).resolve_left List.not_mem_nil
  · intro h
    have hid : type.id ∈ (ClassSet.empty.insertAll (xs.flatMap hierarchy.discoveries)).ids :=
      ClassSet.mem_ids_insertAll.2 (Or.inr (List.mem_map_of_mem h))
    obtain ⟨known, hknown, hsame⟩ := List.mem_map.1 hid
    have hdiscovered := (ClassSet.mem_of_mem_insertAll hknown).resolve_left List.not_mem_nil
    rwa [← distinct known hdiscovered type h hsame]

end SameArguments

theorem nodup_ids_associated (arguments : List HostType) :
    (hierarchy.associated arguments).run.ids.Nodup := by
  have hempty : ClassSet.empty.ids.Nodup := List.nodup_nil
  rw [associated_eq_insertAll]
  exact ClassSet.nodup_ids_insertAll hempty _

/-- **The classes of a call are the union of those of its arguments.**

* The classes of some arguments and some more are those of the first ones, followed by those of the
  others whose identity is new, in their order.  The classes of a single argument are those that are
  associated with it.
* No identity occurs twice.  It occurs with the type that is discovered first, and all discoveries
  are arguments or answers.
* Two calls with the same arguments, in whatever order and however often, see the same declarations.
  If moreover different discoveries have different identities, then the two calls are associated with
  the same classes. -/
theorem associated_union (xs ys : List HostType) :
    let ofCall := fun arguments => (hierarchy.associated arguments).run
    (ofCall (xs ++ ys)).classes = (ofCall xs).classes ++
      (ofCall ys).classes.filter (fun type => !(ofCall xs).contains type) ∧
    (∀ argument, ofCall [argument] = (hierarchy.associatedWith argument).run) ∧
    (ofCall xs).ids.Nodup ∧
    (∀ id, (ofCall xs).classes.find? (fun type => type.id = id) =
      (xs.flatMap hierarchy.discoveries).find? fun type => type.id = id) ∧
    (∀ type ∈ xs.flatMap hierarchy.discoveries, type ∈ xs ∨ hierarchy.Answers type) ∧
    ((∀ type, type ∈ xs ↔ type ∈ ys) →
      (∀ node, (ofCall xs).admits node = (ofCall ys).admits node) ∧
      ((∀ a ∈ xs.flatMap hierarchy.discoveries, ∀ b ∈ xs.flatMap hierarchy.discoveries,
          a.id = b.id → a = b) → (ofCall xs).sameClasses (ofCall ys) = true)) := by
  intro ofCall
  refine ⟨?_, fun _ => rfl, hierarchy.nodup_ids_associated xs, fun id => ?_, fun type h => ?_,
    fun same => ⟨fun node => ?_, fun distinct => ?_⟩⟩
  · show (hierarchy.associated (xs ++ ys)).run.classes = _
    rw [associated_eq_insertAll, List.flatMap_append, ClassSet.insertAll_append,
      ClassSet.classes_insertAll, ← associated_eq_insertAll, ← associated_eq_insertAll]
  · show (hierarchy.associated xs).run.classes.find? _ = _
    rw [associated_eq_insertAll, ClassSet.find?_classes_insertAll]
    rfl
  · obtain ⟨argument, hargument, hmem⟩ := List.mem_flatMap.1 h
    rcases hierarchy.answers_of_mem_discoveries hmem with rfl | answers
    · exact Or.inl hargument
    · exact Or.inr answers
  · unfold ClassSet.admits
    cases node.decl.friendOf with
    | none => rfl
    | some owner => exact contains_associated_congr same owner
  · have hxs := (hierarchy.nodup_ids_associated xs).of_map
    have hys := (hierarchy.nodup_ids_associated ys).of_map
    have distinct' : ∀ a ∈ ys.flatMap hierarchy.discoveries,
        ∀ b ∈ ys.flatMap hierarchy.discoveries, a.id = b.id → a = b := fun a ha b hb =>
      distinct a ((mem_flatMap_discoveries_congr same a).2 ha) b
        ((mem_flatMap_discoveries_congr same b).2 hb)
    refine ClassSet.sameClasses_of_perm ((List.perm_ext_iff_of_nodup hxs hys).2 fun type => ?_)
    rw [mem_associated_iff distinct, mem_associated_iff distinct',
      mem_flatMap_discoveries_congr same]

/-- A class. -/
def chicken : HostType := ⟨⟨1⟩, .classType, "Chicken"⟩

/-- Another class. -/
def egg : HostType := ⟨⟨2⟩, .classType, "Egg"⟩

/-- The two classes derive from each other, and both are members of the first. -/
def circular : ClassHierarchy Id where
  bases type := if type.id = chicken.id then [egg] else [chicken]
  enclosing _ := some chicken

/-- Whichever of the two comes first, and however often, a call is associated with both. -/
theorem associated_union_circular :
    (circular.associated [egg, chicken, egg]).run.sameClasses
      (circular.associated [chicken, egg]).run = true := by
  obtain ⟨-, -, -, -, discovered, congr⟩ :=
    circular.associated_union [egg, chicken, egg] [chicken, egg]
  have hdiscovered : ∀ type ∈ [egg, chicken, egg].flatMap circular.discoveries,
      type = chicken ∨ type = egg := by
    intro type htype
    rcases discovered type htype with hargument | ⟨asked, hbase | houter⟩
    · simp only [List.mem_cons, List.not_mem_nil, or_false] at hargument
      tauto
    · unfold circular at hbase
      dsimp only at hbase
      split at hbase
      · exact Or.inr (List.mem_singleton.1 hbase)
      · exact Or.inl (List.mem_singleton.1 hbase)
    · exact Or.inl (Option.some.inj houter).symm
  refine (congr fun type => by simp only [List.mem_cons]; tauto).2 fun a ha b hb hid => ?_
  rcases hdiscovered a ha with rfl | rfl <;> rcases hdiscovered b hb with rfl | rfl
  · rfl
  · exact absurd hid (by decide)
  · exact absurd hid (by decide)
  · rfl

end ClassHierarchy

end CustomizationPoints
