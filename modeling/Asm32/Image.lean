import Asm32.Numeral
import Asm32.Text.Blank
import Asm32.Text.Lines

/-!
# Images

An image is a list of words at addresses.  It is read from a listing, in which the first two
fields of each line are a word and its address in hexadecimal, or from a binary, whose words lie
one after the other from a base address on.
-/

namespace Asm32

/-- A word at its address. -/
structure Word where
  address : UInt32
  raw : UInt32
deriving DecidableEq, Repr

structure Image where
  words : List Word
deriving DecidableEq, Repr

/-- Why a text or a file is no image. -/
inductive ImageError
  | missingAddress (line : Nat)
  | badOpcode (line : Nat) (field : String) (cause : Numeral.RangeError)
  | badAddress (line : Nat) (field : String) (cause : Numeral.RangeError)
  | unevenLength (bytes : Nat)
deriving DecidableEq, Repr

namespace ImageError

def message : ImageError → String
  | missingAddress n => "line " ++ Numeral.decimal n ++ ": missing address field"
  | badOpcode n f _  => "line " ++ Numeral.decimal n ++ ": bad opcode `" ++ f ++ "`"
  | badAddress n f _ => "line " ++ Numeral.decimal n ++ ": bad address `" ++ f ++ "`"
  | unevenLength n   => "image length " ++ Numeral.decimal n ++ " is not a multiple of 4"

/-- What lies behind an error. -/
def cause? : ImageError → Option String
  | badOpcode _ _ c | badAddress _ _ c => some c.message
  | missingAddress _ | unevenLength _  => none

end ImageError

namespace Image

/-- The word that a field of a listing spells. -/
def readHexWord (field : String) : Except Numeral.RangeError UInt32 :=
  (Numeral.readBelow 16 UInt32.size field.toList).map UInt32.ofNat

/-- The word of a line of a listing.  A blank line has none. -/
def readLine (number : Nat) (line : String) : Except ImageError (Option Word) :=
  match Text.fields line with
  | []              => .ok none
  | [_]             => .error (.missingAddress number)
  | op :: addr :: _ =>
    match readHexWord op with
    | .error e => .error (.badOpcode number op e)
    | .ok raw  =>
      match readHexWord addr with
      | .error e    => .error (.badAddress number addr e)
      | .ok address => .ok (some ⟨address, raw⟩)

/-- The words of the numbered lines of a listing, up to the first line at fault. -/
def readLines : List (Nat × String) → Except ImageError (List Word)
  | []             => .ok []
  | (n, l) :: rest =>
    match readLine n l with
    | .error e     => .error e
    | .ok none     => readLines rest
    | .ok (some w) => (readLines rest).map (w :: ·)

/-- The image of a listing. -/
def ofListing (text : String) : Except ImageError Image :=
  (readLines (Text.numberedLines text)).map Image.mk

/-- The word of four bytes, least significant first. -/
def wordOfBytes (a b c d : UInt8) : UInt32 :=
  a.toUInt32 ||| b.toUInt32 <<< 8 ||| c.toUInt32 <<< 16 ||| d.toUInt32 <<< 24

/-- The words of a binary from an address on; one to three bytes at the end make no word. -/
def wordsFrom (address : UInt32) : List UInt8 → List Word
  | a :: b :: c :: d :: rest =>
    ⟨address, wordOfBytes a b c d⟩ :: wordsFrom (address + 4) rest
  | _ => []

/-- The image of a binary. -/
def ofBinary (bytes : List UInt8) (base : UInt32) : Except ImageError Image :=
  if bytes.length % 4 = 0 then .ok ⟨wordsFrom base bytes⟩
  else .error (.unevenLength bytes.length)

/-- The first word at an address. -/
def wordAt? (img : Image) (address : UInt32) : Option UInt32 :=
  (img.words.find? (·.address == address)).map Word.raw

end Image

end Asm32
