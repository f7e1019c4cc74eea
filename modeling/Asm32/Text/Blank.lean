import Asm32.Text.Ranges

/-!
# Text — blank characters

A character is blank when it has the `White_Space` property.  Trimming takes the blank
characters off an end; `words` cuts a text at its separators and keeps what is between them.

The functions work on lists of characters; `trimmed` and `trimmedEnd` are their forms on
strings.
-/

namespace Asm32.Text

/-- The characters with the `White_Space` property. -/
def blanks : Ranges :=
  [(0x9, 0xD), (0x20, 0x20), (0x85, 0x85), (0xA0, 0xA0), (0x1680, 0x1680), (0x2000, 0x200A),
   (0x2028, 0x2029), (0x202F, 0x202F), (0x205F, 0x205F), (0x3000, 0x3000)]

def isBlank (c : Char) : Bool := blanks.contains c

/-- The text without its leading blanks. -/
def trimStart (cs : List Char) : List Char := cs.dropWhile isBlank

/-- The text without its trailing blanks. -/
def trimEnd (cs : List Char) : List Char := (cs.reverse.dropWhile isBlank).reverse

/-- The text without the blanks at either end. -/
def trim (cs : List Char) : List Char := trimEnd (trimStart cs)

def trimmed (s : String) : String := String.ofList (trim s.toList)

def trimmedEnd (s : String) : String := String.ofList (trimEnd s.toList)

/-- The maximal runs of characters that are no separator, in order; none of them is empty. -/
def words (sep : Char → Bool) : List Char → List (List Char)
  | []      => []
  | c :: cs =>
    if sep c then words sep cs
    else match cs with
      | []     => [[c]]
      | d :: _ =>
        if sep d then [c] :: words sep cs
        else match words sep cs with
          | []      => [[c]]
          | w :: ws => (c :: w) :: ws

/-- The runs of characters between blanks. -/
def fields (s : String) : List String := (words isBlank s.toList).map String.ofList

end Asm32.Text
