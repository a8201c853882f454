import CustomizationPoints.Host.Specialization

/-!
# Questions to the host, on the record

Which questions are asked, and in which order, is a fact about the library and not about
the host.  Here a question is a value, and a host is a *strategy*: a function from the
questions asked so far and the present one to an answer.  A strategy that looks at the past
is a host that changes its mind.  Working over the record of questions, every capability of
a strategy notes its question and answers it.
-/

namespace CustomizationPoints

/-- A question to the host. -/
inductive Question where
  /-- Does the declaration accept these arguments? -/
  | viable (node : Node) (arguments : List HostType)
  /-- Which candidate is the most specialized one? -/
  | order (candidates : List Node) (arguments : List HostType)
  /-- Is the first declaration more specialized than the second? -/
  | more (left right : Node) (arguments : List HostType)
  /-- Does the conditional promise not to throw hold? -/
  | promise (node : Node) (condition : String) (arguments : List HostType)
  /-- What are the base classes? -/
  | bases (type : HostType)
  /-- What is the enclosing class? -/
  | enclosing (type : HostType)
  /-- Is there an implicit conversion? -/
  | implicit (source target : HostType)
  /-- Is it certain that the conversion does not throw? -/
  | nothrow (source target : HostType)
  deriving DecidableEq

namespace Question

/-- What an answer to the question looks like. -/
@[reducible] def Answer : Question → Type
  | .viable .. | .more .. | .promise .. | .implicit .. | .nothrow .. => Bool
  | .order .. => Option DeclId
  | .bases _ => List HostType
  | .enclosing _ => Option HostType

/-- The question as one line of a record. -/
def text : Question → String
  | .viable node _ => "viable " ++ node.id.text
  | .order candidates _ =>
    "order " ++ ",".intercalate (candidates.map fun node => node.id.text)
  | .more left right _ => "more " ++ left.id.text ++ ">" ++ right.id.text
  | .promise node condition arguments =>
    "noexcept " ++ node.id.text ++ " " ++ condition ++ " " ++ HostType.argumentList arguments
  | .bases type => "bases " ++ type.label
  | .enclosing type => "enclosing " ++ type.label
  | .implicit source target => "implicit " ++ source.label ++ "->" ++ target.label
  | .nothrow source target => "nothrow " ++ source.label ++ "->" ++ target.label

end Question

/-- Work that asks the host, with the record of the questions asked so far. -/
abbrev Interview := StateM (Array Question)

/-- A host: an answer to every question, given the questions that were asked before. -/
abbrev Strategy := Array Question → (question : Question) → question.Answer

namespace Strategy

/-- Note the question and answer it. -/
def ask (strategy : Strategy) (question : Question) : Interview question.Answer :=
  fun asked => (strategy asked question, asked.push question)

/-- Note the question only. -/
def note (question : Question) : Interview Unit := fun asked => ((), asked.push question)

/-- The strategy as an oracle that picks among candidates at once. -/
def oracle (strategy : Strategy) : Oracle Interview where
  viable node arguments := strategy.ask (.viable node arguments)
  pick candidates arguments := strategy.ask (.order candidates arguments)
  promiseHolds node condition arguments := strategy.ask (.promise node condition arguments)

/-- The strategy as an oracle that compares candidates two at a time. -/
def pairwiseOracle (strategy : Strategy) : Oracle Interview where
  viable node arguments := strategy.ask (.viable node arguments)
  pick candidates arguments := do
    note (.order candidates arguments)
    uniqueMaximal (fun left right => strategy.ask (.more left right arguments)) candidates
  promiseHolds node condition arguments := strategy.ask (.promise node condition arguments)

/-- The strategy as a class hierarchy. -/
def classes (strategy : Strategy) : ClassHierarchy Interview where
  bases type := strategy.ask (.bases type)
  enclosing type := strategy.ask (.enclosing type)

/-- The strategy as a set of conversions. -/
def conversions (strategy : Strategy) : Conversions Interview where
  implicit source target := strategy.ask (.implicit source target)
  nothrow source target := strategy.ask (.nothrow source target)

@[simp] theorem ask_run (strategy : Strategy) (question : Question)
    (asked : Array Question) :
    (strategy.ask question).run asked = (strategy asked question, asked.push question) := rfl

end Strategy
end CustomizationPoints
