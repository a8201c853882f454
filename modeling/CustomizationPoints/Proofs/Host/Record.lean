import CustomizationPoints.Host.Interview

/-!
# Work that adds questions to the record

Work on the record of questions is a function from one record to another.  What the library
does with the record is simpler: it adds questions at the end.  `Records` says which ones, and
what the work comes to, for one record to start from; the answers of a host may depend on it.

There is one rule for each way in which the library puts work together, so that the questions
of a piece of work are found by following its definition.  Work that may fail is covered by
the same relation: a failure is what it comes to, and what was asked before stays on the record.
-/

namespace CustomizationPoints

/-- Started on the record `asked`, the work comes to `a` and adds these questions. -/
def Records {α : Type} (work : Interview α) (asked : Array Question) (a : α)
    (questions : List Question) : Prop :=
  work.run asked = (a, asked ++ questions)

theorem appendList_append (asked : Array Question) (first second : List Question) :
    asked ++ (first ++ second) = asked ++ first ++ second := by
  refine Array.ext' ?_
  rw [Array.toList_appendList, Array.toList_appendList, Array.toList_appendList,
    List.append_assoc]

namespace Records

variable {α β ε : Type} {asked : Array Question} {questions others : List Question}

protected theorem pure (a : α) (asked : Array Question) : Records (pure a) asked a [] :=
  congrArg (Prod.mk a) Array.appendList_nil.symm

/-- The second piece of work starts on the record that the first one leaves. -/
protected theorem bind {work : Interview α} {next : α → Interview β} {a : α} {b : β}
    (first : Records work asked a questions)
    (second : Records (next a) (asked ++ questions) b others) :
    Records (work >>= next) asked b (questions ++ others) := by
  have hrun : (work >>= next).run asked = (next (work.run asked).1).run (work.run asked).2 := rfl
  rw [Records, hrun, first, appendList_append]
  exact second

/-- What is done with the result adds nothing. -/
theorem bind_pure {work : Interview α} {a : α} (h : Records work asked a questions) (f : α → β) :
    Records (work >>= fun x => pure (f x)) asked (f a) questions := by
  rw [← List.append_nil questions]
  exact h.bind (.pure (f a) _)

/-- Work comes to one result only, and adds one list of questions. -/
theorem unique {work : Interview α} {a b : α} (h : Records work asked a questions)
    (other : Records work asked b others) : b = a ∧ others = questions := by
  obtain ⟨hresult, hrecord⟩ := Prod.mk.inj (other.symm.trans h)
  refine ⟨hresult, ?_⟩
  have hlist := congrArg Array.toList hrecord
  rw [Array.toList_appendList, Array.toList_appendList] at hlist
  exact List.append_cancel_left hlist

/-- A question is answered in view of the record before it. -/
theorem ask (strategy : Strategy) (question : Question) (asked : Array Question) :
    Records (strategy.ask question) asked (strategy asked question) [question] := rfl

/-- Work that begins with a question. -/
theorem ask_bind {strategy : Strategy} {question : Question} {next : question.Answer → Interview β}
    {b : β} (second : Records (next (strategy asked question)) (asked.push question) b others) :
    Records (strategy.ask question >>= next) asked b (question :: others) :=
  (ask strategy question asked).bind second

/-! ## Work that may fail -/

/-- After a success the work goes on. -/
theorem bind_ok {work : ExceptT ε Interview α} {next : α → ExceptT ε Interview β} {a : α}
    {result : Except ε β} (first : Records work.run asked (.ok a) questions)
    (second : Records (next a).run (asked ++ questions) result others) :
    Records (work >>= next).run asked result (questions ++ others) := by
  rw [ExceptT.run_bind]
  exact first.bind second

/-- After a success the work goes on without asking. -/
theorem bind_ok_of_nil {work : ExceptT ε Interview α} {next : α → ExceptT ε Interview β} {a : α}
    {result : Except ε β} (first : Records work.run asked (.ok a) questions)
    (second : Records (next a).run (asked ++ questions) result []) :
    Records (work >>= next).run asked result questions := by
  rw [← List.append_nil questions]
  exact first.bind_ok second

/-- A failure ends the work. -/
theorem bind_error {work : ExceptT ε Interview α} {next : α → ExceptT ε Interview β} {e : ε}
    (first : Records work.run asked (.error e) questions) :
    Records (work >>= next).run asked (.error e) questions := by
  rw [ExceptT.run_bind, ← List.append_nil questions]
  exact first.bind (.pure _ _)

/-- Asking, as a step of work that may fail. -/
theorem lift {work : Interview α} {a : α} (h : Records work asked a questions) :
    Records (liftM work : ExceptT ε Interview α).run asked (.ok a) questions := by
  have hrun : (liftM work : ExceptT ε Interview α).run.run asked =
      (.ok (work.run asked).1, (work.run asked).2) := rfl
  rw [Records, hrun, h]

/-- A question with a known answer, as a step of work that may fail. -/
theorem lift_ask {strategy : Strategy} {question : Question} {answer : question.Answer}
    (h : strategy asked question = answer) :
    Records (liftM (strategy.ask question) : ExceptT ε Interview question.Answer).run asked
      (.ok answer) [question] := by
  rw [← h]
  exact .lift (.ask strategy question asked)

/-- A check asks nobody. -/
theorem check {x result : Except ε α} (h : x = result) (asked : Array Question) :
    Records (liftM x : ExceptT ε Interview α).run asked result [] := by
  rw [h]
  exact .pure result asked

theorem throw (e : ε) (asked : Array Question) :
    Records (MonadExcept.throw e : ExceptT ε Interview α).run asked (.error e) [] := .pure _ asked

theorem return_ok (a : α) (asked : Array Question) :
    Records (pure a : ExceptT ε Interview α).run asked (.ok a) [] := .pure _ asked

end Records

/-! ## Asking about every member of a list -/

/-- The declarations that accept the arguments, if they are asked about one after another. -/
def Strategy.accepted (strategy : Strategy) (arguments : List HostType) :
    Array Question → List Node → List Node
  | _, [] => []
  | asked, node :: rest =>
    let others := strategy.accepted arguments (asked.push (.viable node arguments)) rest
    if strategy asked (.viable node arguments) then node :: others else others

theorem Strategy.accepted_sublist (strategy : Strategy) (arguments : List HostType)
    (asked : Array Question) (nodes : List Node) :
    (strategy.accepted arguments asked nodes).Sublist nodes := by
  induction nodes generalizing asked with
  | nil => exact List.Sublist.slnil
  | cons node rest ih =>
    rw [accepted]
    split
    · exact (ih _).cons_cons node
    · exact (ih _).cons node

/-- Every declaration is asked about once, whatever the answers are. -/
theorem records_selectWhere (strategy : Strategy) (arguments : List HostType)
    (asked : Array Question) (nodes : List Node) :
    Records (selectWhere (fun node => strategy.ask (.viable node arguments)) nodes) asked
      (strategy.accepted arguments asked nodes) (nodes.map (.viable · arguments)) := by
  induction nodes generalizing asked with
  | nil => exact .pure [] asked
  | cons node rest ih =>
    rw [selectWhere_cons, List.map_cons]
    exact .ask_bind ((ih (asked.push (.viable node arguments))).bind_pure _)

end CustomizationPoints
