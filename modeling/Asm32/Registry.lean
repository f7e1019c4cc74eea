import Asm32.Instr.Operands
import Asm32.Event

/-!
# The registry of mnemonics

A registry says which encoder makes the words of a mnemonic.  A mnemonic may be registered again:
the latest registration counts, and the ones it displaces are returned and logged.
-/

namespace Asm32

/-- Mnemonics to be registered for an encoder. -/
structure Registration where
  encoder : Encoder
  mnemonics : List String

/-- The registration of a group's own mnemonics. -/
def Group.registration (g : Group) : Registration := ⟨g.encoder, g.mnemonics⟩

/-- The registered mnemonics with their encoders, the latest first. -/
structure Registry where
  entries : List (String × Encoder)

/-- What a registration ends with. -/
structure Registered where
  registry : Registry
  /-- The registrations that are displaced, each with its mnemonic, in order. -/
  displaced : List (String × Encoder)
  /-- What is logged. -/
  events : List Event

namespace Registry

def empty : Registry := ⟨[]⟩

/-- The encoder of a mnemonic. -/
def lookup (r : Registry) (m : String) : Option Encoder := r.entries.lookup m

def isEmpty (r : Registry) : Bool := r.entries.isEmpty

def insert (r : Registry) (m : String) (e : Encoder) : Registry := ⟨(m, e) :: r.entries⟩

@[simp] theorem lookup_insert_self (r : Registry) (m : String) (e : Encoder) :
    (r.insert m e).lookup m = some e := by
  simp [lookup, insert]

theorem lookup_insert_of_ne {m n : String} (r : Registry) (e : Encoder) (h : n ≠ m) :
    (r.insert m e).lookup n = r.lookup n := by
  have hb : (n == m) = false := beq_false_of_ne h
  simp [lookup, insert, List.lookup_cons, hb]

/-- Registers mnemonics for `e` one after the other.  One that is found already displaces what it is
found with, and this is logged. -/
def registerEach (e : Encoder) (r : Registry) : List String → Registered
  | []      => ⟨r, [], []⟩
  | m :: ms =>
    let rest := registerEach e (r.insert m e) ms
    match r.lookup m with
    | none     => rest
    | some old =>
      { rest with
        displaced := (m, old) :: rest.displaced
        events := .mnemonicReregistered m old.group e.group :: rest.events }

/-- Carries out a registration. -/
def register (r : Registry) (x : Registration) : Registered :=
  registerEach x.encoder r x.mnemonics

/-- Carries out registrations in order. -/
def registerAll (r : Registry) (xs : List Registration) : Registry :=
  xs.foldl (fun r x => (r.register x).registry) r

/-- The registry of the instruction set. -/
def standard : Registry := empty.registerAll (Group.all.map Group.registration)

/-- The word of an instruction in source form, or the label that it waits for. -/
def dispatch (r : Registry) (symbols : SymbolTable) (m : String) (tokens : List String) :
    Except Fault (Resolution UInt32) :=
  match r.lookup m with
  | none   => .error (.unknownMnemonic m)
  | some e =>
    match Operand.readAll symbols tokens with
    | .error f            => .error f
    | .ok (.unresolved l) => .ok (.unresolved l)
    | .ok (.resolved ops) => (e.encode m ops).map .resolved

end Registry

end Asm32
