import Asm32.Session

/-!
# Listings and binaries

The two written forms of a program.  A listing has one line for each instruction: its word and its
address in hexadecimal, then its source.  A binary has the words alone, least significant byte
first.
-/

namespace Asm32

/-- The bytes of a word, least significant first. -/
def wordToBytes (w : UInt32) : List UInt8 :=
  [w.toUInt8, (w >>> 8).toUInt8, (w >>> 16).toUInt8, (w >>> 24).toUInt8]

/-- The line of a listing, without its end. -/
def Item.listingLine (a : Item) : String :=
  Numeral.hexColumn 8 a.opcode.toNat ++ " " ++ Numeral.hexColumn 4 a.address.toNat ++ " "
    ++ Text.trimmed a.text

/-- The listing of a program. -/
def listing (items : List Item) : String :=
  String.join (items.map fun a => a.listingLine ++ "\n")

/-- The binary of a program. -/
def binary (items : List Item) : List UInt8 := items.flatMap fun a => wordToBytes a.opcode

end Asm32
