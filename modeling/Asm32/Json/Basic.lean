import Asm32.Numeral

/-!
# JSON values and their text

The values that reports are made of, and the form in which they are written: members in the order
given, two spaces of indentation for each level, and nothing between the brackets of an empty
list or object.  In a string a quote, a backslash and the control characters are escaped; every
other character stands for itself.
-/

namespace Asm32

inductive Json
  | null
  | nat (n : Nat)
  | str (s : String)
  | arr (items : List Json)
  | obj (members : List (String × Json))

namespace Json

/-- A character as it is written in a string. -/
def escapeChar (c : Char) : List Char :=
  if c = '"' then ['\\', '"']
  else if c = '\\' then ['\\', '\\']
  else if c.toNat = 0x8 then ['\\', 'b']
  else if c.toNat = 0xC then ['\\', 'f']
  else if c = '\n' then ['\\', 'n']
  else if c = '\r' then ['\\', 'r']
  else if c = '\t' then ['\\', 't']
  else if c.toNat < 0x20 then ['\\', 'u'] ++ Numeral.padded 4 16 c.toNat
  else [c]

/-- A string between quotes. -/
def quote (s : String) : String :=
  "\"" ++ String.ofList (s.toList.flatMap escapeChar) ++ "\""

/-- The start of a line at a level of nesting. -/
def newLine (level : Nat) : String := "\n" ++ String.ofList (List.replicate (2 * level) ' ')

mutual

/-- The text of a value that stands at a level of nesting. -/
def prettyAt (level : Nat) : Json → String
  | null          => "null"
  | nat n         => Numeral.decimal n
  | str s         => quote s
  | arr []        => "[]"
  | arr (x :: xs) => "[" ++ prettyItems (level + 1) (x :: xs) ++ newLine level ++ "]"
  | obj []        => "\x7b\x7d"
  | obj (m :: ms) => "\x7b" ++ prettyMembers (level + 1) (m :: ms) ++ newLine level ++ "\x7d"

def prettyItems (level : Nat) : List Json → String
  | []           => ""
  | [x]          => newLine level ++ prettyAt level x
  | x :: y :: xs => newLine level ++ prettyAt level x ++ "," ++ prettyItems level (y :: xs)

def prettyMembers (level : Nat) : List (String × Json) → String
  | []                => ""
  | [(k, v)]          => newLine level ++ quote k ++ ": " ++ prettyAt level v
  | (k, v) :: m :: ms =>
    newLine level ++ quote k ++ ": " ++ prettyAt level v ++ "," ++ prettyMembers level (m :: ms)

end

/-- The text of a value. -/
def pretty (j : Json) : String := prettyAt 0 j

end Json

end Asm32
