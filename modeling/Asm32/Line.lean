import Asm32.Operand
import Asm32.Text.Blank
import Asm32.Text.Lines
import Asm32.Text.Lowercase

/-!
# Lines of source

A line holds nothing, the declaration of a label, or a statement.  What follows a semicolon is a
comment.

A label is declared by its name and a colon, and the name is an at sign and at least one more
character that is not blank.  A statement is a mnemonic and its operands, which are divided by
commas or blanks; the mnemonic counts in lower case.
-/

namespace Asm32

/-- An instruction in source form. -/
structure Statement where
  line : Nat
  mnemonic : String
  operands : List String
  /-- The line as it was written, without the blanks at its end. -/
  text : String
deriving DecidableEq, Repr

inductive Line
  | blank
  | label (name : String)
  | statement (s : Statement)
deriving DecidableEq, Repr

namespace Line

/-- The character that starts a comment. -/
def commentSign : Char := ';'

/-- The part of a line before its comment, without the blanks around it. -/
def code (raw : List Char) : List Char := Text.trim (raw.takeWhile (· != commentSign))

/-- The characters that divide the parts of a statement. -/
def isSeparator (c : Char) : Bool := c == ',' || Text.isBlank c

/-- The name that a declaration declares. -/
def labelName? (code : List Char) : Option (List Char) :=
  let name := code.takeWhile (· != ':')
  match code.dropWhile (· != ':') with
  | []        => none
  | _ :: rest =>
    if 1 < name.length ∧ !name.any Text.isBlank ∧ rest.all Text.isBlank then some name else none

/-- The statement of a code part, whose line is `raw`. -/
def statementOf (number : Nat) (raw code : List Char) : Statement :=
  let parts := (Text.words isSeparator code).map String.ofList
  { line := number
    mnemonic := Text.lowercase (parts.headD "")
    operands := parts.tail
    text := String.ofList (Text.trimEnd raw) }

/-- Reads a line of source. -/
def read (number : Nat) (raw : String) : Except Fault Line :=
  match code raw.toList with
  | []      => .ok .blank
  | c :: cs =>
    if c = labelSigil then
      match labelName? (c :: cs) with
      | some name => .ok (.label (String.ofList name))
      | none      => .error (.malformedLabel (String.ofList (c :: cs)))
    else .ok (.statement (statementOf number raw.toList (c :: cs)))

theorem eq_statementOf_of_read {number : Nat} {raw : String} {st : Statement}
    (h : read number raw = .ok (.statement st)) :
    st = statementOf number raw.toList (code raw.toList) := by
  rw [read] at h
  split at h
  · cases h
  · rename_i c cs hcode
    rw [hcode]
    split at h
    · split at h <;> cases h
    · cases h
      rfl

end Line

end Asm32
