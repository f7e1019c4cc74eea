import Asm32.Image
import Asm32.Instr.Decode
import Asm32.Instr.Text
import Asm32.Json.Forms

/-!
# Disassembly

The words of an image as source text.  A word that holds no instruction is shown as data.
-/

namespace Asm32

/-- A range of addresses: `first` is in it and `last` is the first that is not. -/
structure AddressRange where
  first : UInt32
  last : UInt32
deriving DecidableEq, Repr

def AddressRange.contains (r : AddressRange) (a : UInt32) : Bool := r.first ≤ a && a < r.last

namespace Word

/-- A word as source text. -/
def text (w : Word) : String :=
  match Instr.decode? w.raw with
  | some i => i.text
  | none   => ".word 0x" ++ Numeral.hexColumn 8 w.raw.toNat

/-- The line of a word, with its bits in hexadecimal if `showBytes` is set. -/
def line (showBytes : Bool) (w : Word) : String :=
  let bytes := if showBytes then Numeral.hexColumn 8 w.raw.toNat ++ "  " else ""
  "0x" ++ Numeral.hexColumn 8 w.address.toNat ++ ": " ++ bytes ++ w.text ++ "\n"

def toJson (w : Word) : Json :=
  .obj [("addr", .nat w.address.toNat), ("raw", .nat w.raw.toNat), ("text", .str w.text),
    ("decoded", ((Instr.decode? w.raw).map Instr.toJson).getD .null)]

end Word

namespace Image

/-- The words of an image that lie in a range, or all of them. -/
def wordsIn (img : Image) : Option AddressRange → List Word
  | none   => img.words
  | some r => img.words.filter fun w => r.contains w.address

/-- The source text of an image, or of the part of it in a range. -/
def render (img : Image) (range : Option AddressRange) (showBytes : Bool) : String :=
  String.join ((img.wordsIn range).map (Word.line showBytes))

/-- The words of an image and what they hold, as JSON. -/
def toJson (img : Image) : Json := .arr (img.words.map Word.toJson)

end Image

end Asm32
