import CustomizationPoints.Declaration

/-!
# Calls that cannot be made

A failed call is an ordinary outcome.  A host finds out whether a customization point can
be used with some arguments by making the call and looking at the reason of its failure.
-/

namespace CustomizationPoints

/-- Why no declaration could be selected. -/
inductive NoViableReason where
  /-- The declaration through which the call entered does not accept the arguments. -/
  | rootRejected
  /-- The call came to a declaration without a body, and none of its overrides could take
  it further. -/
  | pureWithoutOverride (node : DeclId) (nodeName : String)
  deriving DecidableEq

/-- Why a call failed. -/
inductive CallError where
  /-- Nothing accepts the arguments. -/
  | noViableCandidate (function : String) (arguments : List HostType)
      (reason : NoViableReason)
  /-- Several overrides accept the arguments, and none of them comes first. -/
  | ambiguousOverride (parent : DeclId) (parentName : String) (arguments : List HostType)
      (candidates : List DeclId) (candidateNames : List String)
  /-- The host picked something that was not a candidate. -/
  | invalidOracleAnswer (parent : DeclId) (parentName : String) (answer : DeclId)
  /-- The declaration is not registered. -/
  | unknownNode (id : DeclId)
  /-- The declaration has no name to call it by. -/
  | unnamedEntryPoint (id : DeclId)
  /-- The result does not convert to what the seed returns. -/
  | returnNotConvertible (target : DeclId) (targetName : String) (found expected : HostType)
  /-- No customization point has this name. -/
  | unknownFunction (space : Namespace) (name : String)
  deriving DecidableEq

/-- The end of the message, where there is more to say. -/
def NoViableReason.explanation : NoViableReason → String
  | .rootRejected => ""
  | .pureWithoutOverride _ nodeName =>
    ": `" ++ nodeName ++ "` is pure and no override is viable"

namespace CallError

/-- The text of the failure. -/
def message : CallError → String
  | .noViableCandidate function arguments reason =>
    "no viable candidate for `" ++ function ++ HostType.argumentList arguments ++ "`"
      ++ reason.explanation
  | .ambiguousOverride _ parentName arguments _ candidateNames =>
    "ambiguous override of `" ++ parentName ++ "` for arguments "
      ++ HostType.argumentList arguments ++ ": candidates are "
      ++ ", ".intercalate candidateNames
  | .invalidOracleAnswer _ parentName answer =>
    "constraint oracle selected " ++ answer.text
      ++ ", which is not a viable override of `" ++ parentName ++ "`"
  | .unknownNode id => "declaration " ++ id.text ++ " is not registered"
  | .unnamedEntryPoint id =>
    id.text ++ " is an unnamed override and can only be reached through its seed"
  | .returnNotConvertible _ targetName found expected =>
    "`" ++ targetName ++ "` returns `" ++ found.name
      ++ "`, which does not convert to the seed's `" ++ expected.name ++ "`"
  | .unknownFunction space name =>
    "no customization point named `" ++ name ++ "` in namespace `" ++ space.text ++ "`"

/-- Whether the failure says that the arguments do not fit. -/
def isNoViableCandidate : CallError → Bool
  | .noViableCandidate .. => true
  | _ => false

/-- Whether the failure says that too many declarations fit. -/
def isAmbiguous : CallError → Bool
  | .ambiguousOverride .. => true
  | _ => false

end CallError
end CustomizationPoints
