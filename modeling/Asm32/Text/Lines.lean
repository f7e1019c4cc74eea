/-!
# Text — lines

A line ends at a line feed, and a carriage return right before that line feed belongs to the
line's end.  A carriage return anywhere else is an ordinary character, and what follows the
last line feed is a line only when it is not empty.
-/

namespace Asm32.Text

/-- The lines of a text, without their ends. -/
def splitLines : List Char → List (List Char)
  | []                 => []
  | '\n' :: cs         => [] :: splitLines cs
  | '\r' :: '\n' :: cs => [] :: splitLines cs
  | c :: cs            =>
    match splitLines cs with
    | []      => [[c]]
    | l :: ls => (c :: l) :: ls

/-- The lines of a string, without their ends. -/
def lines (s : String) : List String := (splitLines s.toList).map String.ofList

/-- The lines of a string, each with its number, counted from one. -/
def numberedLines (s : String) : List (Nat × String) :=
  (lines s).zipIdx.map fun (l, i) => (i + 1, l)

end Asm32.Text
