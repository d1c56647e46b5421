import TrackingPlan.Text.Unicode.Printable
/-!
# Quoted — a text as a quoted literal

The quote is `'`, or `"` when the text has a `'` and no `"`.  The backslash and the quote in use are written after a
backslash; newline, return and tab as `\n`, `\r`, `\t`; any other hidden character by its code in lower-case
hexadecimal, two digits after `\x`, four after `\u`, eight after `\U`.  With `asciiOnly` a character past ASCII is
written by its code even if it shows.
-/
namespace TrackingPlan
namespace Quoted

def hexDigits (width n : Nat) : List Char :=
  let ds := Nat.toDigits 16 n
  List.replicate (width - ds.length) '0' ++ ds

def codeEscape (c : Char) : List Char :=
  if c.toNat < 0x100 then '\\' :: 'x' :: hexDigits 2 c.toNat
  else if c.toNat < 0x10000 then '\\' :: 'u' :: hexDigits 4 c.toNat
  else '\\' :: 'U' :: hexDigits 8 c.toNat

def quoteFor (cs : List Char) : Char :=
  if cs.contains '\'' && !cs.contains '"' then '"' else '\''

def escape (asciiOnly : Bool) (quote c : Char) : List Char :=
  if c = quote ∨ c = '\\' then ['\\', c]
  else if c = '\n' then ['\\', 'n']
  else if c = '\r' then ['\\', 'r']
  else if c = '\t' then ['\\', 't']
  else if Unicode.isPrintable c && !(asciiOnly && 0x7f < c.toNat) then [c]
  else codeEscape c

def quoteWith (asciiOnly : Bool) (cs : List Char) : List Char :=
  let quote := quoteFor cs
  quote :: (cs.flatMap (escape asciiOnly quote) ++ [quote])

def quote (cs : List Char) : List Char := quoteWith false cs

end Quoted
end TrackingPlan
