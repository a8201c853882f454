/-!
# Call policies

What a call through the seed of a tree does with the result.
-/

namespace CustomizationPoints

/-- How a call through the seed reaches the selected declaration. -/
inductive CallPolicy where
  /-- The seed forwards the call and converts the result to its own return type. -/
  | forwarding
  /-- The tree is one set of overloads: the selected declaration is called directly, and
  its result is not converted. -/
  | flatOverloadSet
  deriving DecidableEq

/-- Calls are forwarded unless the host asks for something else. -/
instance : Inhabited CallPolicy := ⟨.forwarding⟩

namespace CallPolicy

/-- The name of the policy in a settings file. -/
def keyword : CallPolicy → String
  | .forwarding => "forwarding"
  | .flatOverloadSet => "flat-overload-set"

/-- The name of the policy in the description of an engine. -/
def label : CallPolicy → String
  | .forwarding => "Forwarding"
  | .flatOverloadSet => "FlatOverloadSet"

/-- The policy with this name in a settings file. -/
def ofKeyword? (keyword : String) : Option CallPolicy :=
  if keyword = CallPolicy.forwarding.keyword then some .forwarding
  else if keyword = CallPolicy.flatOverloadSet.keyword then some .flatOverloadSet
  else none

@[simp] theorem ofKeyword?_keyword (policy : CallPolicy) :
    ofKeyword? policy.keyword = some policy := by
  cases policy <;> rfl

end CallPolicy
end CustomizationPoints
