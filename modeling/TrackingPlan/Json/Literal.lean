import TrackingPlan.Json.Value
import TrackingPlan.Number.Numeral
import TrackingPlan.Text.Quoted
/-!
# Literal — values as messages and ids show them

Texts are quoted as in `Quoted`, null and the truth values are `None`, `True` and `False`, lists stand in square
brackets and objects in braces.  A path of values is written as a tuple, with a comma behind a single member.
-/
namespace TrackingPlan
namespace Json

def separated (parts : List (List Char)) : List Char := List.intercalate [',', ' '] parts

mutual
def literal : Json → List Char
  | .null => "None".toList
  | .bool true => "True".toList
  | .bool false => "False".toList
  | .int n => Numeral.intDigits n
  | .float x => Numeral.double .literal x
  | .str s => Quoted.quote s.toList
  | .arr xs => '[' :: (separated (itemLiterals xs) ++ [']'])
  | .obj ms => '\x7b' :: (separated (memberLiterals ms) ++ ['\x7d'])
def itemLiterals : List Json → List (List Char)
  | [] => []
  | x :: xs => literal x :: itemLiterals xs
def memberLiterals : List (String × Json) → List (List Char)
  | [] => []
  | (k, v) :: ms => (Quoted.quote k.toList ++ ':' :: ' ' :: literal v) :: memberLiterals ms
end

def tupleLiteral (vs : List Json) : List Char :=
  match vs with
  | [v] => '(' :: (literal v ++ [',', ')'])
  | _ => '(' :: (separated (itemLiterals vs) ++ [')'])

def literalText (v : Json) : String := String.ofList v.literal

/-- A value as it stands in running text: a text as it is, anything else by its literal. -/
def plainText : Json → String
  | .str s => s
  | v => v.literalText

def tupleText (vs : List Json) : String := String.ofList (tupleLiteral vs)

end Json
end TrackingPlan
