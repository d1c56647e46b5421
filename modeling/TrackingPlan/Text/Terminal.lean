/-!
# Terminal — texts without terminal sequences

A terminal sequence is the escape character, `[`, any number of digits, `;` and `?`, and a letter, all of ASCII.  What
only begins like one is left as it is.
-/
namespace TrackingPlan
namespace Terminal

def escape : Char := '\x1b'

def isParameter (c : Char) : Bool := c.isDigit || c == ';' || c == '?'

/-- The text without its sequences, `read` being what may be the start of one, last character first. -/
def withoutFrom (read : List Char) : List Char → List Char
  | [] => read.reverse
  | c :: cs =>
    if c = escape then read.reverse ++ withoutFrom [c] cs
    else match read with
      | [] => c :: withoutFrom [] cs
      | [e] => if c = '[' then withoutFrom [c, e] cs else e :: c :: withoutFrom [] cs
      | read =>
        if isParameter c then withoutFrom (c :: read) cs
        else if c.isAlpha then withoutFrom [] cs
        else read.reverse ++ c :: withoutFrom [] cs

/-- **The text without terminal sequences.** -/
def without (s : String) : String := String.ofList (withoutFrom [] s.toList)

end Terminal
end TrackingPlan
