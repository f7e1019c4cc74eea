import Asm32.Symbol

/-!
# Operands

An operand is a register or a constant.  In source text a constant is a number or the name of a
label, which stands for its address; a label that is not bound yet leaves the operand unresolved.
-/

namespace Asm32

inductive Operand
  | reg (r : Reg)
  | imm (value : Int)
deriving DecidableEq, Repr

/-- A value, or the label that it waits for. -/
inductive Resolution (α : Type)
  | resolved (value : α)
  | unresolved (label : String)
deriving DecidableEq, Repr

/-- The character with which the name of a label starts. -/
def labelSigil : Char := '@'

/-- The largest constant that source text can spell. -/
def maxConstant : Nat := 0x7FFFFFFFFFFFFFFF

namespace Operand

/-- The number that digits spell: hexadecimal after `0x`, binary after `0b`, else decimal. -/
def magnitude? : List Char → Option Nat
  | '0' :: 'x' :: ds => Numeral.valueOf? 16 ds
  | '0' :: 'b' :: ds => Numeral.valueOf? 2 ds
  | ds               => Numeral.valueOf? 10 ds

/-- The number that digits spell, unless it is too large for a constant. -/
def boundedMagnitude? (ds : List Char) : Option Nat :=
  (magnitude? ds).filter (· ≤ maxConstant)

/-- The constant that a numeric token spells. -/
def constant? : List Char → Option Int
  | '-' :: ds => (boundedMagnitude? ds).map fun m => -(m : Int)
  | ds        => (boundedMagnitude? ds).map fun m => (m : Int)

/-- The constant that a numeric token spells, or the fault of a token that spells none. -/
def readConstant (token : String) : Except Fault Int :=
  match constant? token.toList with
  | some v => .ok v
  | none   => .error (.invalidNumber token)

/-- A token is numeric when it starts with a digit, or with a minus sign and a digit. -/
def looksNumeric : List Char → Bool
  | '-' :: c :: _ => Numeral.isDigit 10 c
  | c :: _        => Numeral.isDigit 10 c
  | []            => false

/-- The general register whose number the digits spell. -/
def gpr? (ds : List Char) : Option Reg :=
  (Numeral.valueOf? 10 ds).bind fun n => if h : n < 16 then some (.gpr ⟨n, h⟩) else none

/-- The operand that a token stands for. -/
def read (symbols : SymbolTable) (token : String) : Except Fault (Resolution Operand) :=
  match token.toList with
  | 'r' :: ds =>
    match gpr? ds with
    | some r => .ok (.resolved (.reg r))
    | none   => .error (.invalidRegister token)
  | cs =>
    match Reg.special? token with
    | some r => .ok (.resolved (.reg r))
    | none   =>
      if looksNumeric cs then (readConstant token).map fun v => .resolved (.imm v)
      else if cs.head? = some labelSigil ∧ 1 < cs.length then
        match symbols.lookup token with
        | some a => .ok (.resolved (.imm a.toNat))
        | none   => .ok (.unresolved token)
      else .error (.unknownOperand token)

/-- The operands that tokens stand for, read in order up to the first that is at fault or
unresolved. -/
def readAll (symbols : SymbolTable) :
    List String → Except Fault (Resolution (List Operand))
  | []      => .ok (.resolved [])
  | t :: ts =>
    match read symbols t with
    | .error e            => .error e
    | .ok (.unresolved l) => .ok (.unresolved l)
    | .ok (.resolved a)   =>
      match readAll symbols ts with
      | .error e            => .error e
      | .ok (.unresolved l) => .ok (.unresolved l)
      | .ok (.resolved as)  => .ok (.resolved (a :: as))

/-- The register of an operand that is one. -/
def reg? : Operand → Option Reg
  | .reg r => some r
  | .imm _ => none

end Operand

end Asm32
