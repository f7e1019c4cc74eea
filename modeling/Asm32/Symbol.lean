import Asm32.Fault

/-!
# Symbols

A symbol table binds labels to addresses.  A label is bound once: a second declaration is refused
and leaves the table as it was, so the names of a table are distinct.
-/

namespace Asm32

/-- A label, the address it is bound to, and the line that declares it. -/
structure Symbol where
  name : String
  address : UInt32
  line : Nat
deriving DecidableEq, Repr

/-- The declared labels, the latest first. -/
structure SymbolTable where
  symbols : List Symbol
  nodup : (symbols.map Symbol.name).Nodup
deriving DecidableEq

namespace SymbolTable

def empty : SymbolTable := ⟨[], List.nodup_nil⟩

/-- The declaration of a name. -/
def find? (t : SymbolTable) (name : String) : Option Symbol :=
  t.symbols.find? (·.name == name)

/-- The address that a name is bound to. -/
def lookup (t : SymbolTable) (name : String) : Option UInt32 := (t.find? name).map Symbol.address

def size (t : SymbolTable) : Nat := t.symbols.length

def isEmpty (t : SymbolTable) : Bool := t.symbols.isEmpty

theorem not_mem_names_of_find?_eq_none {t : SymbolTable} {name : String}
    (h : t.find? name = none) : name ∉ t.symbols.map Symbol.name := by
  intro hm
  obtain ⟨s, hs, rfl⟩ := List.mem_map.mp hm
  have := List.find?_eq_none.mp h s hs
  simp at this

/-- Binds a name, unless it is bound already. -/
def declare (t : SymbolTable) (name : String) (address : UInt32) (line : Nat) :
    Except Fault SymbolTable :=
  match h : t.find? name with
  | some s => .error (.duplicateLabel name s.line)
  | none   => .ok ⟨⟨name, address, line⟩ :: t.symbols,
      List.nodup_cons.mpr ⟨not_mem_names_of_find?_eq_none h, t.nodup⟩⟩

@[simp] theorem lookup_empty (name : String) : empty.lookup name = none := rfl

/-- A declaration is refused when the name is bound, and else puts the name in front. -/
theorem declare_cases (t : SymbolTable) (name : String) (address : UInt32) (line : Nat) :
    (∃ y, t.find? name = some y ∧
      t.declare name address line = .error (.duplicateLabel name y.line)) ∨
    (t.find? name = none ∧ ∃ t', t.declare name address line = .ok t' ∧
      t'.symbols = ⟨name, address, line⟩ :: t.symbols) := by
  unfold declare
  split
  · rename_i y h
    exact Or.inl ⟨y, h, rfl⟩
  · rename_i h
    exact Or.inr ⟨h, _, rfl, rfl⟩

/-- A declaration binds its name and leaves every other name as it was. -/
theorem lookup_declare {t t' : SymbolTable} {name : String} {address : UInt32} {line : Nat}
    (h : t.declare name address line = .ok t') (n : String) :
    t'.lookup n = if n = name then some address else t.lookup n := by
  obtain ⟨y, -, hd⟩ | ⟨-, t'', hd, hsymbols⟩ := t.declare_cases name address line
  · rw [hd] at h
    cases h
  · rw [hd] at h
    obtain rfl := Except.ok.inj h
    by_cases hn : n = name
    · simp [lookup, find?, hsymbols, hn]
    · simp [lookup, find?, hsymbols, hn, Ne.symm hn]

end SymbolTable

end Asm32
