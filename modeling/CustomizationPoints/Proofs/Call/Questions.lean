import CustomizationPoints.Engine
import CustomizationPoints.Proofs.Association.Questions
import CustomizationPoints.Proofs.Call.Effects
import CustomizationPoints.Proofs.Call.Inquiry
import CustomizationPoints.Proofs.Call.Outcome

/-!
# What a call asks

A call asks, in this order: whether its entry accepts the arguments, which classes are
associated with them, what the descent needs to know at each level, and what the effects
depend on.  A part is reached only if the parts before it went well, so a call that fails asks
nothing more (`call_questions`).

The host is a strategy, which answers in view of the whole record.  The statements hold for
every strategy, and so for hosts that contradict themselves.
-/

namespace CustomizationPoints

/-- The engine that puts all of its questions to the strategy. -/
def Strategy.engine (strategy : Strategy) (registry : Registry) (settings : Settings) :
    Engine Interview where
  registry := registry
  oracle := strategy.oracle
  classes := strategy.classes
  conversions := strategy.conversions
  settings := settings

/-! ## Questions about classes -/

namespace Question

variable {question : Question} (h : question.isAboutClasses = true)

include h

theorem viable?_of_isAboutClasses : question.viable? = none := by
  rcases isAboutClasses_iff.1 h with ⟨type, rfl⟩ | ⟨type, rfl⟩
  · rfl
  · rfl

theorem about_of_isAboutClasses : question.about = [] := by
  rcases isAboutClasses_iff.1 h with ⟨type, rfl⟩ | ⟨type, rfl⟩
  · rfl
  · rfl

end Question

/-! ## Questions about effects -/

/-- The question whether the declaration can throw: one if its promise has a condition. -/
def promiseQuestions (target : Node) (arguments : List HostType) : List Question :=
  match target.decl.exceptions with
  | .conditional condition => [.promise target condition arguments]
  | .nothrow | .mayThrow => []

/-- The questions about the effects of a call of `target`, on the record `asked`. -/
inductive EffectQuestions (strategy : Strategy) (asked : Array Question) (policy : CallPolicy)
    (seed target : Node) (arguments : List HostType) : List Question → Prop where
  /-- Without a conversion there is the promise only. -/
  | unconverted (stays : ∀ source goal, ¬Converts policy seed target source goal) :
      EffectQuestions strategy asked policy seed target arguments
        (promiseQuestions target arguments)
  /-- If the host knows no conversion, that is the end. -/
  | refused {source goal : HostType} (converts : Converts policy seed target source goal)
      (refused : strategy asked (.implicit source goal) = false) :
      EffectQuestions strategy asked policy seed target arguments [.implicit source goal]
  /-- If it does, then whether the conversion can throw is asked last. -/
  | converted {source goal : HostType} (converts : Converts policy seed target source goal)
      (granted : strategy asked (.implicit source goal) = true) :
      EffectQuestions strategy asked policy seed target arguments
        (.implicit source goal :: promiseQuestions target arguments ++ [.nothrow source goal])

namespace EffectQuestions

variable {strategy : Strategy} {asked : Array Question} {policy : CallPolicy} {seed target : Node}
  {arguments : List HostType} {questions : List Question}
  (effects : EffectQuestions strategy asked policy seed target arguments questions)

include effects

/-- Nobody is asked again whether it accepts the arguments. -/
theorem filterMap_viable? : questions.filterMap Question.viable? = [] := by
  have hpromise : (promiseQuestions target arguments).filterMap Question.viable? = [] := by
    unfold promiseQuestions
    split <;> rfl
  cases effects with
  | unconverted _ => exact hpromise
  | refused _ _ => rfl
  | converted _ _ =>
    rw [List.cons_append, List.filterMap_cons_none rfl, List.filterMap_append, hpromise]
    rfl

/-- Of all declarations, only the target is asked about. -/
theorem about {question : Question} (h : question ∈ questions) {node : Node}
    (habout : node ∈ question.about) : node = target := by
  have hpromise : question ∈ promiseQuestions target arguments → node = target := by
    unfold promiseQuestions
    split
    · intro hmem
      rw [List.mem_singleton.1 hmem] at habout
      exact List.mem_singleton.1 habout
    · exact fun hmem => absurd hmem List.not_mem_nil
    · exact fun hmem => absurd hmem List.not_mem_nil
  cases effects with
  | unconverted _ => exact hpromise h
  | refused _ _ =>
    rw [List.mem_singleton.1 h] at habout
    exact absurd habout List.not_mem_nil
  | converted _ _ =>
    rw [List.cons_append, List.mem_cons, List.mem_append, List.mem_singleton] at h
    rcases h with rfl | h | rfl
    · exact absurd habout List.not_mem_nil
    · exact hpromise h
    · exact absurd habout List.not_mem_nil

end EffectQuestions

namespace Registry

variable {registry : Registry} (strategy : Strategy) (asked : Array Question)

theorem records_isNothrow (target : Node) (arguments : List HostType) :
    ∃ promised, Records (strategy.oracle.isNothrow target arguments) asked promised
      (promiseQuestions target arguments) := by
  unfold Oracle.isNothrow promiseQuestions
  cases target.decl.exceptions with
  | nothrow => exact ⟨true, .pure true asked⟩
  | mayThrow => exact ⟨false, .pure false asked⟩
  | conditional condition => exact ⟨_, .ask strategy (.promise target condition arguments) asked⟩

/-- At most one question is asked to settle what happens to the result. -/
theorem records_returnConversion (policy : CallPolicy) (seed target : Node) :
    (∃ conversion, (∀ source goal, ¬Converts policy seed target source goal) ∧
      strategy.conversions.returnIsNothrow conversion = pure true ∧
      Records (strategy.conversions.returnConversion policy seed target).run asked
        (.ok conversion) []) ∨
    ∃ source goal, Converts policy seed target source goal ∧
      ((strategy asked (.implicit source goal) = false ∧
        ∃ e, Records (strategy.conversions.returnConversion policy seed target).run asked
          (.error e) [.implicit source goal]) ∨
      (strategy asked (.implicit source goal) = true ∧
        Records (strategy.conversions.returnConversion policy seed target).run asked
          (.ok (.implicit source goal)) [.implicit source goal])) := by
  by_cases h : ∃ source goal, Converts policy seed target source goal
  · obtain ⟨source, goal, converts⟩ := h
    refine Or.inr ⟨source, goal, converts, ?_⟩
    rw [returnConversion_of_converts _ converts]
    cases hanswer : strategy asked (.implicit source goal) with
    | false => exact Or.inl ⟨rfl, _, (Records.lift_ask hanswer).bind_ok_of_nil (.throw _ _)⟩
    | true => exact Or.inr ⟨rfl, (Records.lift_ask hanswer).bind_ok_of_nil (.return_ok _ _)⟩
  · have stays : ∀ source goal, ¬Converts policy seed target source goal :=
      fun source goal converts => h ⟨source, goal, converts⟩
    obtain ⟨conversion, hconversion, hnothrow⟩ :=
      returnConversion_of_stays strategy.conversions stays
    refine Or.inl ⟨conversion, stays, hnothrow, ?_⟩
    rw [hconversion]
    exact .return_ok conversion asked

/-- **The effects of a call** ask about the conversion of the result and about promises. -/
theorem records_effects {target : DeclId} {node seed : Node}
    (withSeed : registry.withSeed target = .ok (node, seed)) (policy : CallPolicy)
    (site : CallSite) :
    ∃ result questions, Records (registry.effects strategy.oracle strategy.conversions policy target
        site).run asked result questions ∧
      EffectQuestions strategy asked policy seed node site.arguments questions := by
  rw [effects_of_withSeed withSeed]
  rcases records_returnConversion strategy asked policy seed node with
    ⟨conversion, stays, hnothrow, hconversion⟩ |
      ⟨source, goal, converts, ⟨hrefused, e, hconversion⟩ | ⟨hgranted, hconversion⟩⟩
  · obtain ⟨promised, hpromised⟩ := records_isNothrow strategy asked node site.arguments
    have hreturn : Records (strategy.conversions.returnIsNothrow conversion)
        (asked ++ promiseQuestions node site.arguments) true [] := by
      rw [hnothrow]
      exact .pure true _
    exact ⟨_, _, hconversion.bind_ok (hpromised.lift.bind_ok_of_nil
      (hreturn.lift.bind_ok_of_nil (.return_ok _ _))), .unconverted stays⟩
  · exact ⟨_, _, hconversion.bind_error, .refused converts hrefused⟩
  · obtain ⟨promised, hpromised⟩ := records_isNothrow strategy
      (asked.push (.implicit source goal)) node site.arguments
    have hreturn : Records (strategy.conversions.nothrow source goal)
        (asked.push (.implicit source goal) ++ promiseQuestions node site.arguments) _
          [.nothrow source goal] := .ask strategy (.nothrow source goal) _
    exact ⟨_, _, hconversion.bind_ok (hpromised.lift.bind_ok
      (hreturn.lift.bind_ok_of_nil (.return_ok _ _))), .converted converts hgranted⟩

/-! ## Questions about the selection -/

section Entry

variable {root : DeclId} {entry : Node} {arguments : List HostType}

/-- Without an entry there is nothing to ask about. -/
theorem records_resolve_of_noEntry
    (noEntry : ∀ entry, registry.node? root = some entry → entry.decl.name = none) :
    ∃ e, Records (registry.resolve strategy.oracle strategy.classes root arguments).run asked
      (.error e) [] := by
  have hentry : ∃ e, registry.entryPoint root = .error e := by
    cases hnode : registry.node? root with
    | none => exact ⟨.unknownNode root, by rw [entryPoint, hnode]⟩
    | some entry =>
      refine ⟨.unnamedEntryPoint entry.id, ?_⟩
      rw [entryPoint, hnode]
      simp [noEntry entry hnode]
  obtain ⟨e, hentry⟩ := hentry
  exact ⟨e, (Records.check hentry asked).bind_error⟩

variable (h : registry.node? root = some entry) (hname : entry.decl.name ≠ none)

include h hname

/-- An entry that does not accept the arguments is asked, and nobody else. -/
theorem records_resolve_of_refused
    (refused : strategy asked (.viable entry arguments) = false) :
    ∃ e, Records (registry.resolve strategy.oracle strategy.classes root arguments).run asked
      (.error e) [.viable entry arguments] :=
  ⟨_, (Records.check (entryPoint_of_named h hname) asked).bind_ok
    ((Records.lift_ask refused).bind_ok_of_nil (.throw _ _))⟩

/-- Past its entry, a call asks about classes and then descends. -/
theorem records_resolve_of_accepted (forest : registry.IsForest)
    (accepts : strategy asked (.viable entry arguments) = true) :
    ∃ associated classQuestions below descentQuestions result,
      Records (strategy.classes.associated arguments) (asked.push (.viable entry arguments))
        associated classQuestions ∧
      (∀ question ∈ classQuestions, question.isAboutClasses = true) ∧
      Descent.Inquiry ⟨registry, strategy, associated, arguments⟩
        (asked.push (.viable entry arguments) ++ classQuestions) entry below descentQuestions ∧
      Records (registry.resolve strategy.oracle strategy.classes root arguments).run asked result
        (.viable entry arguments :: (classQuestions ++ descentQuestions)) ∧
      ∀ resolution, result = .ok resolution → resolution = {
        target := (below.getLastD entry).id
        path := (entry :: below).map (·.id)
        associated } := by
  obtain ⟨associated, classQuestions, hassociated, hclasses⟩ :=
    records_associated strategy arguments (asked.push (.viable entry arguments))
  obtain ⟨below, descentQuestions, descended, inquiry, hdescend, hbelow⟩ :=
    @Descent.exists_inquiry ⟨registry, strategy, associated, arguments⟩ forest registry.size entry
      (forest.node?_eq_some_iff.1 h).1 (Nat.le_add_left _ _)
      (asked.push (.viable entry arguments) ++ classQuestions)
  refine ⟨associated, classQuestions, below, descentQuestions,
    descended.bind fun below => settle entry below arguments associated,
    hassociated, hclasses, inquiry, ?_, ?_⟩
  · refine (Records.check (entryPoint_of_named h hname) asked).bind_ok
      ((Records.lift_ask accepts).bind_ok (hassociated.lift.bind_ok ?_))
    cases descended with
    | error e => exact hdescend.bind_error
    | ok nodes => exact hdescend.bind_ok_of_nil (.check rfl _)
  · intro resolution hresult
    cases descended with
    | error e => exact nomatch hresult
    | ok nodes =>
      obtain rfl := hbelow nodes rfl
      have hsettle : settle entry nodes arguments associated = .ok resolution := hresult
      rw [settle_eq] at hsettle
      split at hsettle
      · exact nomatch hsettle
      · exact (Except.ok.inj hsettle).symm

end Entry

end Registry

/-! ## The whole call -/

/-- The parts of a call whose entry has accepted the arguments, on the record `asked`, and its
selection of a declaration. -/
structure Descent.Conversation (descent : Descent) (policy : CallPolicy) (entry : Node)
    (asked : Array Question) (below : List Node) (selection : Except CallError Resolution)
    (classQuestions descentQuestions effectQuestions : List Question) : Prop where
  /-- First the classes associated with the arguments are worked out. -/
  classes : Records (descent.strategy.classes.associated descent.arguments) asked
    descent.associated classQuestions
  /-- This takes questions about classes only. -/
  onlyClasses : ∀ question ∈ classQuestions, question.isAboutClasses = true
  /-- Then the descent asks level by level. -/
  levels : descent.Inquiry (asked ++ classQuestions) entry below descentQuestions
  /-- After a failure nothing is asked. -/
  failed : ∀ e, selection = .error e → effectQuestions = []
  /-- A selected declaration is the last one of the descent. -/
  selected : ∀ resolution, selection = .ok resolution → resolution = {
    target := (below.getLastD entry).id
    path := (entry :: below).map (·.id)
    associated := descent.associated }
  /-- Its effects are asked about last. -/
  effects : ∀ resolution, selection = .ok resolution →
    ∃ seed, descent.registry.node? (below.getLastD entry).seed = some seed ∧
      EffectQuestions descent.strategy (asked ++ (classQuestions ++ descentQuestions)) policy seed
        (below.getLastD entry) descent.arguments effectQuestions

namespace Descent.Conversation

variable {descent : Descent} {policy : CallPolicy} {entry : Node} {asked : Array Question}
  {below : List Node} {selection : Except CallError Resolution}
  {classQuestions descentQuestions effectQuestions : List Question}
  (conversation : descent.Conversation policy entry asked below selection classQuestions
    descentQuestions effectQuestions)

include conversation

/-- The effects are those of the last declaration, if there is anything to ask about them. -/
theorem effects_or : effectQuestions = [] ∨ ∃ asked seed, EffectQuestions descent.strategy asked
    policy seed (below.getLastD entry) descent.arguments effectQuestions := by
  cases hselection : selection with
  | error e => exact Or.inl (conversation.failed e hselection)
  | ok resolution =>
    obtain ⟨seed, -, effects⟩ := conversation.effects resolution hselection
    exact Or.inr ⟨_, seed, effects⟩

/-- After the entry, exactly the admitted overrides of the visited declarations are asked
whether they accept the arguments. -/
theorem filterMap_viable? :
    (classQuestions ++ descentQuestions ++ effectQuestions).filterMap Question.viable? =
      (entry :: below).flatMap descent.admitted := by
  have hclasses : classQuestions.filterMap Question.viable? = [] :=
    List.filterMap_eq_nil_iff.2 fun question h =>
      Question.viable?_of_isAboutClasses (conversation.onlyClasses question h)
  have heffects : effectQuestions.filterMap Question.viable? = [] := by
    rcases conversation.effects_or with rfl | ⟨_, _, effects⟩
    · rfl
    · exact effects.filterMap_viable?
  rw [List.filterMap_append, List.filterMap_append, hclasses, heffects,
    conversation.levels.filterMap_viable?, List.nil_append, List.append_nil]

/-- No other declaration is asked about. -/
theorem about {question : Question}
    (h : question ∈ classQuestions ++ descentQuestions ++ effectQuestions) {node : Node}
    (habout : node ∈ question.about) :
    node = entry ∨ ∃ above ∈ entry :: below, node ∈ descent.admitted above := by
  rcases List.mem_append.1 h with h | h
  · rcases List.mem_append.1 h with h | h
    · rw [Question.about_of_isAboutClasses (conversation.onlyClasses question h)] at habout
      exact absurd habout List.not_mem_nil
    · exact Or.inr (conversation.levels.about h habout)
  · rcases conversation.effects_or with rfl | ⟨_, _, effects⟩
    · exact absurd h List.not_mem_nil
    · rw [effects.about h habout]
      exact (List.mem_cons.1 (List.getLastD_mem_cons : below.getLastD entry ∈ entry :: below)).imp
        (fun hlast => hlast) conversation.levels.exists_admitted

end Descent.Conversation

/-- A call whose entry accepts the arguments. -/
theorem Registry.records_call_of_accepted {registry : Registry} (forest : registry.IsForest)
    (strategy : Strategy) (settings : Settings) {root : DeclId} {entry : Node}
    (h : registry.node? root = some entry) (hname : entry.decl.name ≠ none) (site : CallSite)
    {asked : Array Question} (accepts : strategy asked (.viable entry site.arguments) = true) :
    ∃ result associated below selection classQuestions descentQuestions effectQuestions,
      Records ((strategy.engine registry settings).call root site).run asked result
        (.viable entry site.arguments :: (classQuestions ++ descentQuestions ++ effectQuestions)) ∧
      Records ((strategy.engine registry settings).resolve root site.arguments).run asked selection
        (.viable entry site.arguments :: (classQuestions ++ descentQuestions)) ∧
      Descent.Conversation ⟨registry, strategy, associated, site.arguments⟩ settings.callPolicy
        entry (asked.push (.viable entry site.arguments)) below selection classQuestions
        descentQuestions effectQuestions := by
  obtain ⟨associated, classQuestions, below, descentQuestions, selection, hassociated, hclasses,
    inquiry, hresolve, hselected⟩ :=
      records_resolve_of_accepted strategy asked h hname forest accepts
  cases hselection : selection with
  | error e =>
    rw [hselection] at hresolve
    refine ⟨.error e, associated, below, .error e, classQuestions, descentQuestions, [], ?_,
      hresolve, ⟨hassociated, hclasses, inquiry, fun _ _ => rfl, fun _ h => (nomatch h),
        fun _ h => (nomatch h)⟩⟩
    rw [List.append_nil]
    exact Records.bind_error hresolve
  | ok resolution =>
    have hsame := hselected resolution hselection
    rw [hselection] at hresolve
    have hlast := inquiry.last_mem_all (forest.node?_eq_some_iff.1 h).1
    obtain ⟨seed, hseed, hwithSeed⟩ := withSeed_of_mem forest hlast
    have htarget : resolution.target = (below.getLastD entry).id := by rw [hsame]
    rw [← htarget] at hwithSeed
    obtain ⟨result, effectQuestions, heffects, effects⟩ := records_effects strategy
      (asked ++ (.viable entry site.arguments :: (classQuestions ++ descentQuestions)))
      hwithSeed settings.callPolicy site
    refine ⟨result.map (ResolvedCall.mk resolution), associated, below, .ok resolution,
      classQuestions, descentQuestions, effectQuestions, hresolve.bind_ok ?_, hresolve,
      ⟨hassociated, hclasses, inquiry, fun _ h => (nomatch h), ?_, ?_⟩⟩
    · cases result with
      | error e => exact heffects.bind_error
      | ok value => exact heffects.bind_ok_of_nil (.return_ok _ _)
    · rintro _ ⟨⟩
      exact hsame
    · rintro _ ⟨⟩
      exact ⟨seed, hseed, effects⟩

/-- **What a call asks.**  Let a call enter a reachable registry at `root`, on any record.

* If there is no declaration with a name at `root`, nothing is asked.
* Otherwise the first question is whether the entry accepts the arguments.  If it does not, this
  is the only one.
* If it does, then the questions about the associated classes follow, then those of the descent,
  level by level.  If no declaration is selected, that is all; otherwise the questions about
  effects come last.

So the declarations that are asked whether they accept the arguments are the entry and the
admitted overrides of the visited declarations.  No two of them are the same, and no other
declaration is asked about in any way. -/
theorem Registry.call_questions {conversions : Conversions Id} {registry : Registry}
    (reachable : registry.Reachable conversions) (strategy : Strategy) (settings : Settings)
    (root : DeclId) (site : CallSite) (asked : Array Question) :
    let engine := strategy.engine registry settings
    ∃ result questions, Records (engine.call root site).run asked result questions ∧
      ((∀ entry, registry.node? root = some entry → entry.decl.name = none) → questions = []) ∧
      ∀ entry, registry.node? root = some entry → entry.decl.name ≠ none →
        let gate : Question := .viable entry site.arguments
        (strategy asked (.viable entry site.arguments) = false → questions = [gate]) ∧
        (strategy asked (.viable entry site.arguments) = true →
          ∃ associated below selection classQuestions descentQuestions effectQuestions,
            let descent : Descent := ⟨registry, strategy, associated, site.arguments⟩
            questions = gate :: (classQuestions ++ descentQuestions ++ effectQuestions) ∧
            Records (engine.resolve root site.arguments).run asked selection
              (gate :: (classQuestions ++ descentQuestions)) ∧
            descent.Conversation settings.callPolicy entry (asked.push gate) below selection
              classQuestions descentQuestions effectQuestions ∧
            questions.filterMap Question.viable? =
              entry :: (entry :: below).flatMap descent.admitted ∧
            ((questions.filterMap Question.viable?).map (·.id)).Nodup ∧
            ∀ question ∈ questions, ∀ node ∈ question.about, node = entry ∨
              ∃ above ∈ entry :: below, node ∈ registry.all ∧
                node.decl.parent = some above.id ∧ associated.Sees node) := by
  intro engine
  have forest : registry.IsForest := reachable.isForest
  by_cases hentry : ∃ entry, registry.node? root = some entry ∧ entry.decl.name ≠ none
  · obtain ⟨entry, h, hname⟩ := hentry
    have hunique : ∀ other, registry.node? root = some other → other = entry :=
      fun other hother => Option.some.inj (hother.symm.trans h)
    cases haccepts : strategy asked (.viable entry site.arguments) with
    | false =>
      obtain ⟨e, hresolve⟩ := records_resolve_of_refused strategy asked h hname haccepts
      refine ⟨.error e, [.viable entry site.arguments], Records.bind_error hresolve,
        fun hnone => absurd (hnone entry h) hname, fun other hother _ => ?_⟩
      obtain rfl := hunique other hother
      exact ⟨fun _ => rfl, fun haccepts' => nomatch haccepts.symm.trans haccepts'⟩
    | true =>
      obtain ⟨result, associated, below, selection, classQuestions, descentQuestions,
        effectQuestions, hcall, hresolve, conversation⟩ :=
        records_call_of_accepted forest strategy settings h hname site haccepts
      refine ⟨result, _, hcall, fun hnone => absurd (hnone entry h) hname,
        fun other hother _ => ?_⟩
      obtain rfl := hunique other hother
      have hviable : (Question.viable other site.arguments ::
          (classQuestions ++ descentQuestions ++ effectQuestions)).filterMap Question.viable? =
            other :: (other :: below).flatMap
              (Descent.admitted ⟨registry, strategy, associated, site.arguments⟩) :=
        congrArg (List.cons other) conversation.filterMap_viable?
      refine ⟨fun hrefused => (nomatch hrefused.symm.trans haccepts), fun _ =>
        ⟨associated, below, selection, classQuestions, descentQuestions, effectQuestions, rfl,
          hresolve, conversation, hviable, ?_, ?_⟩⟩
      · rw [hviable]
        exact conversation.levels.nodup_asked forest
      · intro question hquestion node habout
        rcases List.mem_cons.1 hquestion with rfl | hquestion
        · exact Or.inl (List.mem_singleton.1 habout)
        · refine (conversation.about hquestion habout).imp_right ?_
          rintro ⟨above, habove, hnode⟩
          exact ⟨above, habove, Descent.mem_admitted.1 hnode⟩
  · have noEntry : ∀ entry, registry.node? root = some entry → entry.decl.name = none :=
      fun entry h => not_not.1 fun hname => hentry ⟨entry, h, hname⟩
    obtain ⟨e, hresolve⟩ := records_resolve_of_noEntry strategy asked noEntry
    exact ⟨.error e, [], Records.bind_error hresolve, fun _ => rfl,
      fun entry h hname => absurd (noEntry entry h) hname⟩

/-- The strategy that says yes to everything, prefers what was registered last, and knows of no
class but the arguments. -/
def obliging : Strategy := fun _ question =>
  match question with
  | .viable .. | .more .. | .promise .. | .implicit .. | .nothrow .. => true
  | .order candidates _ => candidates.getLast?.map (·.id)
  | .bases _ => []
  | .enclosing _ => none

/-- In the sample the friend is not asked about.  The two other overrides of the seed are, then
which of them comes first, and at last the override of the one that does. -/
theorem call_questions_sampleTree :
    ∃ result questions, Records ((obliging.engine (Registry.empty.run .identity Registry.sampleTree)
        {}).call ⟨0⟩ {}).run #[] result questions ∧
      questions.map (fun question => question.about.map (·.id)) =
        [[⟨0⟩], [⟨1⟩], [⟨3⟩], [⟨1⟩, ⟨3⟩], [⟨4⟩]] ∧
      ((questions.filterMap Question.viable?).map (·.id)).Nodup := by
  have reachable : (Registry.empty.run .identity Registry.sampleTree).Reachable .identity :=
    ⟨Registry.sampleTree, rfl⟩
  obtain ⟨result, questions, hcall, -, hentry⟩ :=
    Registry.call_questions reachable obliging {} ⟨0⟩ {} #[]
  obtain ⟨-, haccepted⟩ := hentry _ rfl (by decide)
  obtain ⟨associated, below, selection, classQuestions, descentQuestions, effectQuestions, -, -, -,
    -, hnodup, -⟩ := haccepted rfl
  refine ⟨result, questions, hcall, ?_, hnodup⟩
  have hrecord := congrArg (fun run => run.2.toList) hcall
  rw [Array.toList_appendList] at hrecord
  have hquestions : questions = _ := hrecord.symm
  rw [hquestions]
  rfl

end CustomizationPoints
