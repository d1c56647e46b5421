import TrackingPlan.Schema.Error
import TrackingPlan.Schema.Kind
import TrackingPlan.Text.Template
/-!
# Fault — everything that can stop an operation

Besides the errors of schemas there are values of the wrong sort in a document or in options, a template that cannot be
filled in, and questions about what is not there.
-/
namespace TrackingPlan

inductive Fault where
  | schema (e : SchemaError)
  | template (f : Template.Fault)
  -- Documents
  /-- An object was needed for its members. -/
  | notAnObject
  /-- `required` is not a list of names, nor anything else that holds names. -/
  | notNames
  /-- The definitions have no entries to go through or to look among. -/
  | noEntries
  | unusableId
  | idPastEnd
  | templateNotText
  | notJson
  | numberTooLong
  | isDirectory
  -- Nodes
  | notPrimitive (kind : Kind)
  /-- A bare node where the kind decides. -/
  | unknownNode
  | noKind
  | noEnum
  | noSuchType (id : String)
  /-- A custom type that stands for itself by way of others. -/
  | endlessAlias
  -- Names
  /-- A title that is not a text cannot be turned into a type name. -/
  | titleNotText
  /-- A path with a name that is not a text cannot be joined. -/
  | pathNotText
  | nameNotText
  | noSuchSymbol
  -- Options
  | notLanguage (found : Json)
  | notCall (found : Json)
  /-- An option that cannot be given such a value. -/
  | optionRefused
  /-- An option that cannot be given a value at all. -/
  | optionFixed
  /-- The export was given a value of its own and cannot be run. -/
  | exportReplaced
  /-- The language was set to a value that was never checked and cannot be exported. -/
  | languageUnchecked

namespace Fault

def kindLabel (k : Kind) : String := "Type." ++ k.text.toUpper

/-- The text of a fault, for those that have one. -/
def message? : Fault → Option String
  | .schema e => some e.message
  | .notPrimitive k => some (kindLabel k ++ " is not a primitive type")
  | .unknownNode => some "Unknown schema node: SchemaNode"
  | .notLanguage v => some (v.literalText ++ " is not a valid Language")
  | .notCall v => some (v.literalText ++ " is not a valid AnalyticsCall")
  | _ => none

end Fault
end TrackingPlan
