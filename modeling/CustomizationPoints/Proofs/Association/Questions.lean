import CustomizationPoints.Proofs.Association.Turns
import Mathlib.Data.List.Nodup

/-!
# What is asked about classes

Working out the classes associated with a call puts questions about classes to the host and no
others, whatever the host answers (`records_associated`).

## Argument by argument

The arguments are worked on one after another, and each has its own share of the questions
(`ArgumentQuestions`).  A class or union is asked for its enclosing class and then starts a walk of
its own over the bases, which asks about each identity at most once; an enumeration is asked for its
enclosing class; about any other type nothing is asked.  What earlier arguments have led to makes no
difference to this: a class that two arguments derive from is asked about for each of them.
-/

namespace CustomizationPoints

/-- Whether the question is about the classes of the host. -/
def Question.isAboutClasses : Question → Bool
  | .bases _ | .enclosing _ => true
  | .viable .. | .order .. | .more .. | .promise .. | .implicit .. | .nothrow .. => false

theorem Question.isAboutClasses_iff {question : Question} : question.isAboutClasses = true ↔
    (∃ type, question = .bases type) ∨ ∃ type, question = .enclosing type := by
  cases question <;> simp [isAboutClasses]

/-! ## One argument -/

/-- The questions that are asked while one argument is worked on. -/
inductive ArgumentQuestions (argument : HostType) : List Question → Prop where
  /-- A class or union is asked for its enclosing class.  Then classes are asked for their bases, no
  two of them with the same identity. -/
  | classLike (h : argument.kind = .classType ∨ argument.kind = .unionType)
      (types : List HostType) (once : (types.map (·.id)).Nodup) :
      ArgumentQuestions argument (.enclosing argument :: types.map .bases)
  /-- An enumeration is asked for its enclosing class only. -/
  | enumeration (h : argument.kind = .enumType) :
      ArgumentQuestions argument [.enclosing argument]
  /-- About any other type nothing is asked. -/
  | other (h : argument.kind = .other) : ArgumentQuestions argument []

namespace ArgumentQuestions

variable {argument : HostType} {questions : List Question}

theorem isAboutClasses (h : ArgumentQuestions argument questions) :
    ∀ question ∈ questions, question.isAboutClasses = true := by
  cases h with
  | classLike _ types _ =>
    refine List.forall_mem_cons.2 ⟨rfl, fun question hquestion => ?_⟩
    obtain ⟨type, -, rfl⟩ := List.mem_map.1 hquestion
    rfl
  | enumeration _ => exact List.forall_mem_singleton.2 rfl
  | other _ => exact fun _ h => absurd h List.not_mem_nil

/-- There is one question for each identity at most, and one more. -/
theorem length_le (h : ArgumentQuestions argument questions) :
    questions.length ≤ UInt32.size + 1 := by
  cases h with
  | classLike _ types once =>
    have hle := TypeId.length_le_of_nodup once
    rw [List.length_map] at hle
    rw [List.length_cons, List.length_map]
    exact Nat.succ_le_succ hle
  | enumeration _ => exact Nat.le_add_left 1 _
  | other _ => exact Nat.zero_le _

end ArgumentQuestions

variable (strategy : Strategy)

/-- A walk from the beginning asks about each identity at most once. -/
theorem records_addBases (pending : List HostType) (found : ClassSet) (asked : Array Question) :
    ∃ (set : ClassSet) (types : List HostType),
      Records (strategy.classes.addBases [] pending found) asked set
        (types.map Question.bases) ∧
      (types.map (·.id)).Nodup := by
  obtain ⟨reached, set, questions, hrun, turns⟩ := reaches_addBases strategy [] pending found asked
  obtain ⟨types, hasked, hreached⟩ := BaseWalk.Turn.asked_of_reaches turns
  have hnodup := BaseWalk.Turn.nodup_of_reaches turns List.nodup_nil
  dsimp only at hasked hreached hnodup
  rw [hreached, List.append_nil, List.nodup_reverse] at hnodup
  refine ⟨set, types, ?_, hnodup⟩
  rw [Records, ← hasked]
  exact hrun

/-- **The questions about one argument**, whatever was found and asked before. -/
theorem records_addArgument (found : ClassSet) (argument : HostType) (asked : Array Question) :
    ∃ set questions, Records (strategy.classes.addArgument found argument) asked set questions ∧
      ArgumentQuestions argument questions := by
  have hclassLike (h : argument.kind = .classType ∨ argument.kind = .unionType) :
      ∃ set questions, Records (do
        let outer ← strategy.classes.enclosing argument
        strategy.classes.addBases [] [argument] ((found.insert argument).insertAll outer.toList))
          asked set questions ∧ ArgumentQuestions argument questions := by
    obtain ⟨set, types, hwalk, once⟩ := records_addBases strategy [argument]
      ((found.insert argument).insertAll (strategy asked (.enclosing argument)).toList)
      (asked.push (.enclosing argument))
    exact ⟨set, _, .ask_bind hwalk, .classLike h types once⟩
  unfold ClassHierarchy.addArgument
  cases hkind : argument.kind with
  | classType => exact hclassLike (Or.inl hkind)
  | unionType => exact hclassLike (Or.inr hkind)
  | enumType =>
    exact ⟨_, _, (Records.ask strategy (.enclosing argument) asked).bind_pure _,
      .enumeration hkind⟩
  | other => exact ⟨found, [], .pure found asked, .other hkind⟩

/-! ## All arguments -/

theorem records_foldlM_addArgument (arguments : List HostType) (found : ClassSet)
    (asked : Array Question) :
    ∃ set questions, Records (arguments.foldlM strategy.classes.addArgument found) asked set
        questions ∧
      ∀ question ∈ questions, question.isAboutClasses = true := by
  induction arguments generalizing found asked with
  | nil => exact ⟨found, [], .pure found asked, fun _ h => absurd h List.not_mem_nil⟩
  | cons argument rest ih =>
    obtain ⟨first, share, hfirst, hshare⟩ := records_addArgument strategy found argument asked
    obtain ⟨set, others, hrest, hothers⟩ := ih first (asked ++ share)
    rw [List.foldlM_cons]
    exact ⟨set, share ++ others, hfirst.bind hrest,
      List.forall_mem_append.2 ⟨hshare.isAboutClasses, hothers⟩⟩

/-- **Only questions about classes are asked about the associated classes.** -/
theorem records_associated (arguments : List HostType) (asked : Array Question) :
    ∃ set questions, Records (strategy.classes.associated arguments) asked set questions ∧
      ∀ question ∈ questions, question.isAboutClasses = true :=
  records_foldlM_addArgument strategy arguments .empty asked

/-- **Working out the associated classes comes to an end, and asks nothing twice for an argument.**
The host is any host, also one that answers the same question differently each time.

* No walk over bases takes turns for ever, and the walk takes them until no class waits.
* Among the questions of a call, those about an argument are the ones that come after the questions
  about the arguments before it.  They are as `ArgumentQuestions` says, so there are no more of them
  than there are identities, and one. -/
theorem associated_asks_once :
    WellFounded (flip (BaseWalk.Turn strategy)) ∧
    (∀ (expanded : List TypeId) (pending : List HostType) (found : ClassSet)
      (asked : Array Question), ∃ reached set questions,
        Records (strategy.classes.addBases expanded pending found) asked set questions ∧
        Relation.ReflTransGen (BaseWalk.Turn strategy) ⟨asked, expanded, pending, found⟩
          ⟨asked ++ questions, reached, [], set⟩) ∧
    ∀ (before : List HostType) (argument : HostType) (after : List HostType)
      (asked : Array Question), ∃ found earlier set share whole later,
        Records (strategy.classes.associated before) asked found earlier ∧
        Records (strategy.classes.addArgument found argument) (asked ++ earlier) set share ∧
        Records (strategy.classes.associated (before ++ argument :: after)) asked whole
          (earlier ++ (share ++ later)) ∧
        ArgumentQuestions argument share ∧ share.length ≤ UInt32.size + 1 := by
  refine ⟨BaseWalk.Turn.wellFounded strategy, reaches_addBases strategy,
    fun before argument after asked => ?_⟩
  obtain ⟨found, earlier, hbefore, -⟩ := records_associated strategy before asked
  obtain ⟨set, share, hargument, hshare⟩ :=
    records_addArgument strategy found argument (asked ++ earlier)
  obtain ⟨whole, later, hafter, -⟩ :=
    records_foldlM_addArgument strategy after set (asked ++ earlier ++ share)
  refine ⟨found, earlier, set, share, whole, later, hbefore, hargument, ?_, hshare,
    hshare.length_le⟩
  rw [ClassHierarchy.associated, List.foldlM_append]
  refine hbefore.bind ?_
  rw [List.foldlM_cons]
  exact hargument.bind hafter

end CustomizationPoints
