/-!
# Words — splitting a text at its word boundaries

A word is a run of capitals, a run of small letters with at most one capital in front, or a run of digits; anything
else separates words and belongs to none.  The last capital of a run belongs to the small letters after it, so
`XMLHttp` is `XML`, `Http`.  Letters and digits are those of ASCII.

Whether two neighbouring characters stand in one word shows from the two and the one after them (`joined`), so `words`
is one pass from the right.
-/
namespace TrackingPlan
namespace Words

def isWordChar (c : Char) : Bool := c.isUpper || c.isLower || c.isDigit

def startsLower : List Char → Bool
  | c :: _ => c.isLower
  | [] => false

/-- Whether `a` and `b`, neighbours with `after` behind them, stand in one word. -/
def joined (a b : Char) (after : List Char) : Bool :=
  (a.isDigit && b.isDigit) || ((a.isUpper || a.isLower) && b.isLower)
    || (a.isUpper && b.isUpper && !startsLower after)

/-- Puts a character in front of the first word. -/
def extend (c : Char) : List (List Char) → List (List Char)
  | w :: ws => (c :: w) :: ws
  | [] => [[c]]

/-- **The words of a text**, in order. -/
def words : List Char → List (List Char)
  | [] => []
  | [a] => if isWordChar a then [[a]] else []
  | a :: b :: after =>
    if !isWordChar a then words (b :: after)
    else if joined a b after then extend a (words (b :: after))
    else [a] :: words (b :: after)

def split (s : String) : List String := (words s.toList).map String.ofList

end Words
end TrackingPlan
