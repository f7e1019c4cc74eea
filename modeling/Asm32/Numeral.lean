/-!
# Numerals

Numbers and the digits that spell them, most significant first, in a base up to sixteen.

Writing gives the fewest digits (`digits`), in lower case, with zeros in front where a column has
a least width (`padded`).  Reading takes digits of either case.  `valueOf?` reads a number of any
size and says only whether the text is one; `readBelow` reads a number under a bound and says
what is wrong with the text: it stops at the first character that is no digit or takes the number
past the bound.
-/

namespace Asm32.Numeral

/-- The character for a digit below sixteen. -/
def digitChar (d : Nat) : Char := if d < 10 then Char.ofNat (48 + d) else Char.ofNat (87 + d)

/-- The value of a character as a digit in `base`. -/
def digitValue? (base : Nat) (c : Char) : Option Nat :=
  let v := if '0' ≤ c ∧ c ≤ '9' then some (c.toNat - 48)
    else if 'a' ≤ c ∧ c ≤ 'f' then some (c.toNat - 87)
    else if 'A' ≤ c ∧ c ≤ 'F' then some (c.toNat - 55)
    else none
  v.filter (· < base)

def isDigit (base : Nat) (c : Char) : Bool := (digitValue? base c).isSome

/-! ### Writing -/

/-- The digits of `n`, when it has at most `fuel` of them. -/
def digitsWithin (base : Nat) : Nat → Nat → List Char
  | 0, _        => []
  | fuel + 1, n =>
    if n < base then [digitChar n]
    else digitsWithin base fuel (n / base) ++ [digitChar (n % base)]

/-- The digits of `n`: one for zero, and no leading zero otherwise.  A number has no more digits
in any base than bits. -/
def digits (base n : Nat) : List Char := digitsWithin base (n.log2 + 1) n

/-- The digits of `n`, with zeros in front up to `width` of them. -/
def padded (width base n : Nat) : List Char :=
  List.replicate (width - (digits base n).length) '0' ++ digits base n

def decimal (n : Nat) : String := String.ofList (digits 10 n)

def hex (n : Nat) : String := String.ofList (digits 16 n)

/-- Hexadecimal digits in a column of at least `width`. -/
def hexColumn (width n : Nat) : String := String.ofList (padded width 16 n)

/-- A number in decimal digits, with a sign when it is negative. -/
def signed (n : Int) : String :=
  if n < 0 then "-" ++ decimal n.natAbs else decimal n.natAbs

/-! ### Reading -/

/-- The number that follows `acc` by the given digits. -/
def valueFrom? (base acc : Nat) : List Char → Option Nat
  | []      => some acc
  | c :: cs => (digitValue? base c).bind fun d => valueFrom? base (acc * base + d) cs

/-- The number that one or more digits spell. -/
def valueOf? (base : Nat) : List Char → Option Nat
  | [] => none
  | cs => valueFrom? base 0 cs

/-- Why a text is no number of the wanted range. -/
inductive RangeError
  | empty
  | invalidDigit
  | tooLarge
  | tooSmall
deriving DecidableEq, Repr

def RangeError.message : RangeError → String
  | .empty        => "cannot parse integer from empty string"
  | .invalidDigit => "invalid digit found in string"
  | .tooLarge     => "number too large to fit in target type"
  | .tooSmall     => "number too small to fit in target type"

/-- The number below `bound` that follows `acc` by the given digits. -/
def readFrom (base bound acc : Nat) : List Char → Except RangeError Nat
  | []      => .ok acc
  | c :: cs =>
    match digitValue? base c with
    | none   => .error .invalidDigit
    | some d =>
      if acc * base + d < bound then readFrom base bound (acc * base + d) cs
      else .error .tooLarge

/-- The number below `bound` that a text spells.  A plus sign may stand before the digits. -/
def readBelow (base bound : Nat) : List Char → Except RangeError Nat
  | []             => .error .empty
  | '+' :: c :: cs => readFrom base bound 0 (c :: cs)
  | cs             => readFrom base bound 0 cs

end Asm32.Numeral
