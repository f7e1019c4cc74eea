import Asm32.Numeral

/-!
# Registers

The machine has sixteen general registers, the program counter, the stack pointer, the flags, and
a sink that discards what is written to it.  In a word a register takes five bits; fourteen of the
thirty-two codes name no register.
-/

namespace Asm32

/-- The width of a register in a word. -/
def registerBits : Nat := 5

/-- A general register, by its number. -/
abbrev Gpr := Fin 16

/-- A number that no general register has. -/
structure Gpr.OutOfRange where
  index : Nat
deriving DecidableEq, Repr

def Gpr.OutOfRange.message (e : Gpr.OutOfRange) : String :=
  "register index " ++ Numeral.decimal e.index ++ " out of range 0..=15"

/-- The general register of a number. -/
def Gpr.ofNat (n : Nat) : Except Gpr.OutOfRange Gpr :=
  if h : n < 16 then .ok ⟨n, h⟩ else .error ⟨n⟩

inductive Reg
  | gpr (n : Gpr)
  | pc
  | sp
  | flags
  | drop
deriving DecidableEq, Repr

namespace Reg

/-- The code of a register in a word. -/
def code : Reg → Nat
  | gpr n => n
  | pc    => 16
  | sp    => 17
  | flags => 18
  | drop  => 31

/-- The register of a code. -/
def ofCode? (c : Nat) : Option Reg :=
  if h : c < 16 then some (gpr ⟨c, h⟩)
  else match c with
    | 16 => some pc
    | 17 => some sp
    | 18 => some flags
    | 31 => some drop
    | _  => none

/-- The register that a name other than a numbered one stands for. -/
def special? (name : String) : Option Reg :=
  if name = "pc" then some pc
  else if name = "sp" then some sp
  else if name = "flags" then some flags
  else if name = "drop" then some drop
  else none

/-- The name of a register in source text. -/
def name : Reg → String
  | gpr n => "r" ++ Numeral.decimal n
  | pc    => "pc"
  | sp    => "sp"
  | flags => "flags"
  | drop  => "drop"

/-- A name is special only with the first letter of one that is. -/
theorem special?_eq_none {name : String} {c : Char} (h : name.toList.head? = some c)
    (hc : c ∉ ['p', 's', 'f', 'd']) : special? name = none := by
  have hne : ∀ other : String, other.toList.head? ≠ some c → name ≠ other := by
    rintro other hother rfl
    exact hother h
  simp only [List.mem_cons, List.not_mem_nil, or_false, not_or] at hc
  obtain ⟨hp, hs, hf, hd⟩ := hc
  rw [special?, if_neg (hne "pc" (by simpa using Ne.symm hp)),
    if_neg (hne "sp" (by simpa using Ne.symm hs)),
    if_neg (hne "flags" (by simpa using Ne.symm hf)),
    if_neg (hne "drop" (by simpa using Ne.symm hd))]

theorem code_lt (r : Reg) : r.code < 1 <<< registerBits := by
  cases r <;> simp only [code, registerBits] <;> omega

/-- A register is read back from its code. -/
theorem ofCode?_code (r : Reg) : ofCode? r.code = some r := by
  cases r with
  | gpr n                  => simp [code, ofCode?]
  | pc | sp | flags | drop => rfl

end Reg

end Asm32
