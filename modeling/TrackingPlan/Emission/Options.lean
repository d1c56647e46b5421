import TrackingPlan.Fault
import TrackingPlan.Naming.Dialect
/-!
# Options — settings of one emission

Options are made from the entries of an object, one after the other.  The language has to be one of the known ones; the
other settings are taken as they are and read as given or not.  Keys that name no setting are passed over, except the
four that an options value keeps for itself: its sort and its identity cannot be set, its export can only be lost, and
an object in place of all its settings replaces them without a check.
-/
namespace TrackingPlan

/-- A language, or a value put in its place unchecked. -/
inductive LanguageSetting where
  | known (l : Language)
  | unchecked (v : Json)

structure Options where
  language : LanguageSetting := .known .typescript
  /-- Custom types are referenced by name, where the target can. -/
  defSupport : Json := .bool true
  /-- Enums of the same values share one id. -/
  uniqueEnums : Json := .bool false
  /-- The template for custom types without a description. -/
  description : Json := .str "Custom type for \x7bsource\x7d"
  exportReplaced : Bool := false

def Language.ofJson (v : Json) : Except Fault Language :=
  match Language.all.find? (fun l => v.isText l.text) with
  | some l => .ok l
  | none => .error (.notLanguage v)

namespace Options

/-- The settings an object holds in place of the present ones, those it lacks being the usual ones. -/
def replacedBy (ms : List (String × Json)) : Options :=
  let usual : Options := {}
  { language := (ms.lookup "language").elim usual.language .unchecked
    defSupport := (ms.lookup "def_support").getD usual.defSupport
    uniqueEnums := (ms.lookup "unique_enums").getD usual.uniqueEnums
    description := (ms.lookup "custom_type_description").getD usual.description
    exportReplaced := (ms.lookup "to_dict").isSome }

def set (o : Options) (key : String) (v : Json) : Except Fault Options :=
  match key with
  | "language" => (Language.ofJson v).map (fun l => { o with language := .known l })
  | "def_support" => .ok { o with defSupport := v }
  | "unique_enums" => .ok { o with uniqueEnums := v }
  | "custom_type_description" => .ok { o with description := v }
  | "to_dict" => .ok { o with exportReplaced := true }
  | "__class__" => .error .optionRefused
  | "__weakref__" => .error .optionFixed
  | "__dict__" => match v with
    | .obj ms => .ok (replacedBy ms)
    | _ => .error .optionRefused
  | _ => .ok o

def setAll (o : Options) : List (String × Json) → Except Fault Options
  | [] => .ok o
  | (k, v) :: ms => match o.set k v with
    | .ok o' => o'.setAll ms
    | .error f => .error f

/-- **Options from the entries of an object.** -/
def ofJson : Json → Except Fault Options
  | .obj ms => setAll {} ms
  | _ => .error .notAnObject

/-- The language to emit, checked now if it was not before. -/
def emitted (o : Options) : Except Fault Language :=
  match o.language with
  | .known l => .ok l
  | .unchecked v => Language.ofJson v

/-- **The settings as an object.** -/
def toJson (o : Options) : Except Fault Json :=
  if o.exportReplaced then .error .exportReplaced
  else match o.language with
    | .unchecked _ => .error .languageUnchecked
    | .known l => .ok (.obj [("language", .str l.text), ("def_support", o.defSupport),
        ("unique_enums", o.uniqueEnums), ("custom_type_description", o.description)])

end Options
end TrackingPlan
