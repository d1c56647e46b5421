import TrackingPlan.Text.Words
import TrackingPlan.Text.Unicode.Upper
/-!
# Casing — the case styles of identifiers

A style writes the words of a text one after another.  Words hold ASCII letters and digits only, so the ASCII case
maps do; `upperFirst` works on any text and takes the full upper-case form of its first character.
-/
namespace TrackingPlan

inductive Casing where
  | pascal
  | camel
  | upperCamel
  | snake
  | screamingSnake
deriving DecidableEq

namespace Casing

def lowered (w : List Char) : List Char := w.map Char.toLower
def uppered (w : List Char) : List Char := w.map Char.toUpper

def capitalized : List Char → List Char
  | c :: cs => c.toUpper :: lowered cs
  | [] => []

def upperFirst : List Char → List Char
  | c :: cs => Unicode.upper c ++ cs
  | [] => []

def underscored (ws : List (List Char)) : List Char := List.intercalate ['_'] ws

def pascalWords (ws : List (List Char)) : List Char := ws.flatMap capitalized

def camelWords : List (List Char) → List Char
  | w :: ws => lowered w ++ pascalWords ws
  | [] => []

/-- **The text in a style.** -/
def apply (style : Casing) (cs : List Char) : List Char :=
  let ws := Words.words cs
  match style with
  | .pascal => pascalWords ws
  | .camel => camelWords ws
  | .upperCamel => upperFirst (camelWords ws)
  | .snake => underscored (ws.map lowered)
  | .screamingSnake => underscored (ws.map uppered)

def convert (style : Casing) (s : String) : String := String.ofList (style.apply s.toList)

end Casing
end TrackingPlan
