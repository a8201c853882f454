import CustomizationPoints.Proofs.Call.Chain
import CustomizationPoints.Proofs.Host.Record

/-!
# What a descent asks

A descent asks level by level.  At each declaration through which it goes, it asks every
admitted override whether it accepts the arguments, in registration order, and if several do,
which of them is the most specialized one.  `Descent.Inquiry` says this of a whole descent,
from the forest of the parents alone: which declarations it goes through, and which questions
it asks on the way.

The host may look at the record and change its mind at any time.  So a level is worked out
for one record, and the record that it leaves behind is the one for the next level.

## No question twice

An override has one parent, and identities grow on the way down.  So the overrides that are
asked about at different levels differ, and nobody is asked twice (`Inquiry.nodup_asked`).
-/

namespace CustomizationPoints

/-- The declaration about which the question asks whether it accepts a call. -/
def Question.viable? : Question → Option Node
  | .viable node _ => some node
  | .order .. | .more .. | .promise .. | .bases _ | .enclosing _ | .implicit ..
  | .nothrow .. => none

/-- The declarations about which the question asks anything. -/
def Question.about : Question → List Node
  | .viable node _ => [node]
  | .order candidates _ => candidates
  | .more left right _ => [left, right]
  | .promise node _ _ => [node]
  | .bases _ | .enclosing _ | .implicit .. | .nothrow .. => []

/-- A descent that puts its questions to a strategy. -/
structure Descent where
  registry : Registry
  strategy : Strategy
  associated : ClassSet
  arguments : List HostType

namespace Descent

variable (descent : Descent)

/-- The overrides of a declaration that the call sees, in registration order. -/
def admitted (current : Node) : List Node :=
  descent.registry.all.filter fun node =>
    node.decl.parent = some current.id && descent.associated.Sees node

/-- The question whether each admitted override accepts the arguments. -/
def viableQuestions (current : Node) : List Question :=
  (descent.admitted current).map (.viable · descent.arguments)

/-- The admitted overrides that accept the arguments. -/
def accepted (asked : Array Question) (current : Node) : List Node :=
  descent.strategy.accepted descent.arguments asked (descent.admitted current)

/-- The questions at one declaration. -/
def level (asked : Array Question) (current : Node) : List Question :=
  descent.viableQuestions current ++
    if 2 ≤ (descent.accepted asked current).length then
      [.order (descent.accepted asked current) descent.arguments]
    else []

/-- The descent goes on at the only override that accepts the arguments, or at the one that the
host names out of several. -/
inductive Follows (asked : Array Question) (current next : Node) : Prop where
  | only (single : descent.accepted asked current = [next])
  | picked (several : 2 ≤ (descent.accepted asked current).length)
      (member : next ∈ descent.accepted asked current)
      (answer : descent.strategy (asked ++ descent.viableQuestions current)
        (.order (descent.accepted asked current) descent.arguments) = some next.id)

/-- Started at `current` on the record `asked`, the descent goes through `below` and asks these
questions. -/
inductive Inquiry : Array Question → Node → List Node → List Question → Prop where
  | ends {asked : Array Question} {current : Node}
      (stuck : ∀ next, ¬descent.Follows asked current next) :
      Inquiry asked current [] (descent.level asked current)
  | goesOn {asked : Array Question} {current next : Node} {below : List Node}
      {questions : List Question} (follows : descent.Follows asked current next)
      (rest : Inquiry (asked ++ descent.level asked current) next below questions) :
      Inquiry asked current (next :: below) (descent.level asked current ++ questions)

variable {descent}

theorem mem_admitted {current node : Node} :
    node ∈ descent.admitted current ↔ node ∈ descent.registry.all ∧
      node.decl.parent = some current.id ∧ descent.associated.Sees node := by
  rw [admitted, List.mem_filter, Bool.and_eq_true, decide_eq_true_eq, decide_eq_true_eq]

theorem mem_admitted_of_mem_accepted {asked : Array Question} {current node : Node}
    (h : node ∈ descent.accepted asked current) : node ∈ descent.admitted current :=
  (descent.strategy.accepted_sublist descent.arguments asked _).subset h

theorem Follows.mem_admitted {asked : Array Question} {current next : Node}
    (h : descent.Follows asked current next) : next ∈ descent.admitted current := by
  cases h with
  | only single => exact mem_admitted_of_mem_accepted (single ▸ List.mem_singleton.2 rfl)
  | picked _ member _ => exact mem_admitted_of_mem_accepted member

theorem not_follows_of_nil {asked : Array Question} {current next : Node}
    (h : descent.accepted asked current = []) : ¬descent.Follows asked current next := by
  intro follows
  cases follows with
  | only single => exact List.cons_ne_nil _ _ (single.symm.trans h)
  | picked several _ _ =>
    rw [h, List.length_nil] at several
    omega

theorem follows_iff_of_singleton {asked : Array Question} {current only next : Node}
    (h : descent.accepted asked current = [only]) :
    descent.Follows asked current next ↔ only = next := by
  constructor
  · intro follows
    cases follows with
    | only single => exact (List.cons.inj (h.symm.trans single)).1
    | picked several _ _ =>
      rw [h, List.length_singleton] at several
      omega
  · rintro rfl
    exact .only h

theorem follows_iff_of_several {asked : Array Question} {current next : Node}
    (several : 2 ≤ (descent.accepted asked current).length) :
    descent.Follows asked current next ↔ next ∈ descent.accepted asked current ∧
      descent.strategy (asked ++ descent.viableQuestions current)
        (.order (descent.accepted asked current) descent.arguments) = some next.id := by
  constructor
  · intro follows
    cases follows with
    | only single =>
      rw [single, List.length_singleton] at several
      omega
    | picked _ member answer => exact ⟨member, answer⟩
  · rintro ⟨member, answer⟩
    exact .picked several member answer

/-! ## One level -/

/-- Of several candidates the descent asks for one, and takes the one that the host names. -/
theorem records_choose (strategy : Strategy) (arguments : List HostType) (current : Node)
    {candidates : List Node} (several : 2 ≤ candidates.length) (asked : Array Question) :
    Records (strategy.oracle.choose arguments current candidates).run asked
      (match strategy asked (.order candidates arguments) with
      | none => .error (.ambiguousOverride current.id current.displayName arguments
          (candidates.map (·.id)) (candidates.map (·.displayName)))
      | some answer =>
        match candidates.find? fun node => node.id = answer with
        | none => .error (.invalidOracleAnswer current.id current.displayName answer)
        | some chosen => .ok (some chosen))
      [.order candidates arguments] := by
  rw [Call.choose_of_several _ arguments current several]
  cases hanswer : strategy asked (.order candidates arguments) with
  | none => exact (Records.lift_ask hanswer).bind_ok_of_nil (.throw _ _)
  | some answer =>
    refine (Records.lift_ask hanswer).bind_ok_of_nil ?_
    dsimp only
    cases candidates.find? fun node => node.id = answer with
    | none => exact .throw _ _
    | some chosen => exact .return_ok _ _

section Forest

variable (forest : descent.registry.IsForest) {current : Node}
  (hcurrent : current ∈ descent.registry.all) (asked : Array Question)

include forest hcurrent

/-- The stored overrides give the admitted ones, in their order. -/
theorem visibleOverrides_eq :
    descent.registry.visibleOverrides descent.associated current = descent.admitted current := by
  rw [Registry.visibleOverrides, forest.nodesOf_overrides hcurrent, List.filter_filter, admitted]
  refine List.filter_congr fun node _ => ?_
  rw [ClassSet.decide_sees, Bool.and_comm]

theorem records_candidates :
    Records (descent.registry.candidates descent.strategy.oracle descent.associated
      descent.arguments current) asked (descent.accepted asked current)
      (descent.viableQuestions current) := by
  rw [Registry.candidates, visibleOverrides_eq forest hcurrent]
  exact records_selectWhere descent.strategy descent.arguments asked (descent.admitted current)

/-- **One step of the descent** asks the questions of its level, and leads to the declaration
that follows, if there is one. -/
theorem records_stepDown :
    ∃ result, Records (descent.registry.stepDown descent.strategy.oracle descent.associated
        descent.arguments current).run asked result (descent.level asked current) ∧
      ∀ next, result = .ok (some next) ↔ descent.Follows asked current next := by
  have hcandidates : Records (liftM (descent.registry.candidates descent.strategy.oracle
      descent.associated descent.arguments current) : ExceptT CallError Interview (List Node)).run
      asked (.ok (descent.accepted asked current)) (descent.viableQuestions current) :=
    .lift (records_candidates forest hcurrent asked)
  by_cases several : 2 ≤ (descent.accepted asked current).length
  · rw [level, if_pos several]
    refine ⟨_, hcandidates.bind_ok (records_choose _ _ _ several _), fun next => ?_⟩
    have hregistered : ∀ node ∈ descent.accepted asked current, node ∈ descent.registry.all :=
      fun node h => (mem_admitted.1 (mem_admitted_of_mem_accepted h)).1
    rw [follows_iff_of_several several]
    cases hanswer : descent.strategy (asked ++ descent.viableQuestions current)
        (.order (descent.accepted asked current) descent.arguments) with
    | none => simp
    | some answer =>
      rw [Option.some.injEq, eq_comm (a := answer), ← forest.find?_id hregistered]
      dsimp only
      cases (descent.accepted asked current).find? fun node => decide (node.id = answer) with
      | none => simp
      | some chosen => simp
  · rw [level, if_neg several, List.append_nil]
    rcases hlist : descent.accepted asked current with _ | ⟨only, _ | ⟨second, rest⟩⟩
    · rw [hlist] at hcandidates
      refine ⟨.ok none, hcandidates.bind_ok_of_nil (.return_ok _ _), fun next => ?_⟩
      exact ⟨fun h => (nomatch h), fun follows => absurd follows (not_follows_of_nil hlist)⟩
    · rw [hlist] at hcandidates
      refine ⟨.ok (some only), hcandidates.bind_ok_of_nil (.return_ok _ _), fun next => ?_⟩
      rw [follows_iff_of_singleton hlist, Except.ok.injEq, Option.some.injEq]
    · rw [hlist] at several
      exact absurd (by simp) several

end Forest

/-! ## The whole descent -/

/-- **A descent asks level by level**, and if it ends without a failure, it returns the
declarations that it went through. -/
theorem exists_inquiry (forest : descent.registry.IsForest) (bound : Nat) {current : Node}
    (hcurrent : current ∈ descent.registry.all)
    (hbound : descent.registry.size ≤ current.id.position + bound) (asked : Array Question) :
    ∃ below questions result, descent.Inquiry asked current below questions ∧
      Records (descent.registry.descend descent.strategy.oracle descent.associated
        descent.arguments bound current).run asked result questions ∧
      ∀ nodes, result = .ok nodes → nodes = below := by
  induction bound generalizing current asked with
  | zero =>
    have hlt := forest.position_lt hcurrent
    omega
  | succ bound ih =>
    obtain ⟨step, hstep, hfollows⟩ := records_stepDown forest hcurrent asked
    have hstuck : (∀ next, step ≠ .ok (some next)) →
        descent.Inquiry asked current [] (descent.level asked current) :=
      fun h => .ends fun next follows => h next ((hfollows next).2 follows)
    rw [Registry.descend]
    cases step with
    | error e =>
      exact ⟨[], _, .error e, hstuck (by rintro _ ⟨⟩), hstep.bind_error, by rintro _ ⟨⟩⟩
    | ok answer =>
      cases answer with
      | none =>
        refine ⟨[], _, .ok [], hstuck (by rintro _ ⟨⟩), hstep.bind_ok_of_nil (.return_ok _ _), ?_⟩
        rintro nodes ⟨⟩
        rfl
      | some next =>
        have follows := (hfollows next).1 rfl
        obtain ⟨hnext, hparent, -⟩ := mem_admitted.1 follows.mem_admitted
        have hlt := forest.parent next hnext current.id hparent
        obtain ⟨below, questions, result, inquiry, hrest, hbelow⟩ :=
          ih hnext (by omega) (asked ++ descent.level asked current)
        cases result with
        | error e =>
          exact ⟨next :: below, _, .error e, .goesOn follows inquiry,
            hstep.bind_ok hrest.bind_error, by rintro _ ⟨⟩⟩
        | ok nodes =>
          obtain rfl := hbelow nodes rfl
          refine ⟨next :: nodes, _, .ok (next :: nodes), .goesOn follows inquiry,
            hstep.bind_ok (hrest.bind_ok_of_nil (.return_ok _ _)), ?_⟩
          rintro others ⟨⟩
          rfl

/-! ## Who is asked -/

theorem filterMap_viable?_level (asked : Array Question) (current : Node) :
    (descent.level asked current).filterMap Question.viable? = descent.admitted current := by
  have hviable : (descent.viableQuestions current).filterMap Question.viable? =
      descent.admitted current := by
    rw [viableQuestions, List.filterMap_map]
    exact List.filterMap_some
  have horder : (if 2 ≤ (descent.accepted asked current).length then
      [Question.order (descent.accepted asked current) descent.arguments] else []).filterMap
        Question.viable? = [] := by
    split <;> rfl
  rw [level, List.filterMap_append, hviable, horder, List.append_nil]

/-- At one declaration only the admitted overrides are asked about. -/
theorem mem_admitted_of_about {asked : Array Question} {current node : Node}
    {question : Question} (h : question ∈ descent.level asked current)
    (habout : node ∈ question.about) : node ∈ descent.admitted current := by
  rw [level, List.mem_append] at h
  rcases h with h | h
  · obtain ⟨other, hother, rfl⟩ := List.mem_map.1 h
    rwa [List.mem_singleton.1 habout]
  · split at h
    next =>
      rw [List.mem_singleton.1 h] at habout
      exact mem_admitted_of_mem_accepted habout
    next => exact absurd h List.not_mem_nil

namespace Inquiry

variable {asked : Array Question} {current : Node} {below : List Node} {questions : List Question}
  (inquiry : descent.Inquiry asked current below questions)

include inquiry

/-- The descent goes from a declaration to an admitted override of it. -/
theorem links : (current :: below).IsChain fun above node => node ∈ descent.admitted above := by
  induction inquiry with
  | ends stuck => exact List.isChain_singleton _
  | goesOn follows _ ih => exact List.isChain_cons_cons.2 ⟨follows.mem_admitted, ih⟩

/-- **Exactly the admitted overrides** of the visited declarations are asked whether they
accept the arguments, level by level and in registration order. -/
theorem filterMap_viable? :
    questions.filterMap Question.viable? = (current :: below).flatMap descent.admitted := by
  induction inquiry with
  | ends stuck =>
    rw [filterMap_viable?_level, List.flatMap_cons, List.flatMap_nil, List.append_nil]
  | goesOn follows _ ih =>
    rw [List.filterMap_append, filterMap_viable?_level, ih, ← List.flatMap_cons]

/-- Nothing else is asked about in any way. -/
theorem about {question : Question} (h : question ∈ questions) {node : Node}
    (habout : node ∈ question.about) :
    ∃ above ∈ current :: below, node ∈ descent.admitted above := by
  induction inquiry with
  | ends stuck => exact ⟨_, List.mem_cons_self, mem_admitted_of_about h habout⟩
  | goesOn follows _ ih =>
    rcases List.mem_append.1 h with h | h
    · exact ⟨_, List.mem_cons_self, mem_admitted_of_about h habout⟩
    · obtain ⟨above, habove, hnode⟩ := ih h
      exact ⟨above, List.mem_cons_of_mem _ habove, hnode⟩

/-- What the descent goes to is an admitted override of what it comes from. -/
theorem exists_admitted {node : Node} (h : node ∈ below) :
    ∃ above ∈ current :: below, node ∈ descent.admitted above :=
  exists_rel_of_isChain inquiry.links h

theorem last_mem_all (hcurrent : current ∈ descent.registry.all) :
    below.getLastD current ∈ descent.registry.all := by
  rcases List.mem_cons.1 (List.getLastD_mem_cons : below.getLastD current ∈ current :: below) with
    h | h
  · rwa [h]
  · obtain ⟨above, -, hnode⟩ := inquiry.exists_admitted h
    exact (mem_admitted.1 hnode).1

section Forest

variable (forest : descent.registry.IsForest)

include forest

theorem pairwise : (current :: below).Pairwise fun a b => a.id.position < b.id.position :=
  forest.pairwise_of_isChain (inquiry.links.imp fun _ _ h =>
    ⟨(mem_admitted.1 h).1, (mem_admitted.1 h).2.1⟩)

/-- What is asked about comes after the declaration at which the descent starts. -/
theorem position_lt {node : Node} (h : node ∈ (current :: below).flatMap descent.admitted) :
    current.id.position < node.id.position := by
  obtain ⟨above, habove, hnode⟩ := List.mem_flatMap.1 h
  obtain ⟨hmem, hparent, -⟩ := mem_admitted.1 hnode
  have hlt := forest.parent node hmem above.id hparent
  rcases List.mem_cons.1 habove with rfl | hbelow
  · exact hlt
  · exact Nat.lt_trans ((List.pairwise_cons.1 (inquiry.pairwise forest)).1 above hbelow) hlt

/-- **Nobody is asked twice**, and the declaration at which the descent starts not at all. -/
theorem nodup_asked :
    ((current :: (current :: below).flatMap descent.admitted).map (·.id)).Nodup := by
  have hregistered : ∀ node ∈ (current :: below).flatMap descent.admitted,
      node ∈ descent.registry.all := by
    intro node h
    obtain ⟨above, -, hnode⟩ := List.mem_flatMap.1 h
    exact (mem_admitted.1 hnode).1
  have hdistinct : ((current :: below).flatMap descent.admitted).Nodup := by
    refine List.nodup_flatMap.2 ⟨fun above _ => forest.nodup_all.filter _, ?_⟩
    -- a common override would have both declarations as its parent
    refine (inquiry.pairwise forest).imp fun {a b} hlt node ha hb => ?_
    have hparent := (mem_admitted.1 ha).2.1.symm.trans (mem_admitted.1 hb).2.1
    rw [Option.some.inj hparent] at hlt
    exact Nat.lt_irrefl _ hlt
  rw [List.map_cons, List.nodup_cons]
  constructor
  · intro h
    obtain ⟨node, hnode, hid⟩ := List.mem_map.1 h
    have hlt := inquiry.position_lt forest hnode
    rw [hid] at hlt
    exact Nat.lt_irrefl _ hlt
  · exact forest.nodup_map_id hdistinct hregistered

end Forest

end Inquiry

end Descent
end CustomizationPoints
