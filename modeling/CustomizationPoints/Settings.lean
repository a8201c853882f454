import CustomizationPoints.Call.Policy
import CustomizationPoints.Toml.Document

/-!
# Settings of an engine

A host sets the call policy of an engine in code or in a file:

    call_policy = "flat-overload-set"

A file may hold other keys as well; they are passed over, but the whole file must be a
valid document.  Without the key the policy is `forwarding`.
-/

namespace CustomizationPoints

/-- The settings of an engine. -/
structure Settings where
  callPolicy : CallPolicy := default
  deriving DecidableEq, Inhabited

/-- Why settings cannot be read. -/
inductive SettingsError where
  /-- There is no file, or it does not hold text. -/
  | unreadable
  /-- The text is not a valid document, or names no policy where it should. -/
  | malformed
  deriving DecidableEq

namespace Settings

/-- The settings as a file. -/
def text (settings : Settings) : String :=
  "call_policy = \"" ++ settings.callPolicy.keyword ++ "\"\n"

/-- The settings as the description of an engine shows them. -/
def label (settings : Settings) : String :=
  "EngineConfig \x7b call_policy: " ++ settings.callPolicy.label ++ " \x7d"

/-- The policy that a value names: by its name, or as the one key of a table, where it
stands for itself and its value is empty. -/
def policyOf? : Toml.Value → Option CallPolicy
  | .string keyword => CallPolicy.ofKeyword? keyword
  | .inlineTable [(keyword, value)] | .table _ [(keyword, value)] =>
    if value.isEmptyContainer then CallPolicy.ofKeyword? keyword else none
  | _ => none

/-- The settings in a text. -/
def parse (source : String) : Except SettingsError Settings :=
  match Toml.parse? source with
  | none => .error .malformed
  | some entries =>
    match entries.lookup "call_policy" with
    | none => .ok {}
    | some value =>
      match policyOf? value with
      | none => .error .malformed
      | some callPolicy => .ok { callPolicy }

/-- The settings in a file with these bytes, or `none` for a file that cannot be read. -/
def ofFile (content : Option ByteArray) : Except SettingsError Settings :=
  match content.bind String.fromUTF8? with
  | none => .error .unreadable
  | some source => parse source

end Settings
end CustomizationPoints
