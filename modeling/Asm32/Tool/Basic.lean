import Asm32.Numeral
import Asm32.Operand
import Asm32.Text.Blank

/-!
# Tools and files

A tool is a function from its options and the files it can see to what it prints and writes.  The
view of the files says what reading a file gives and whether writing one is refused.
-/

namespace Asm32.Tool

/-- Why a file cannot be read or written. -/
inductive FileError
  | notFound
  | notText
  | other (message : String)
deriving DecidableEq, Repr

def FileError.message : FileError → String
  | .notFound => "No such file or directory (os error 2)"
  | .notText  => "stream did not contain valid UTF-8"
  | .other m  => m

/-- The files that a tool can see. -/
structure Files where
  read : String → Except FileError ByteArray
  /-- The error with which writing to a name fails, if it does. -/
  refuses : String → Option FileError

/-- The text of a file. -/
def Files.readText (files : Files) (name : String) : Except FileError String :=
  match files.read name with
  | .error e  => .error e
  | .ok bytes =>
    match String.fromUTF8? bytes with
    | some s => .ok s
    | none   => .error .notText

/-- Why a tool stops: a text and, where something lies behind it, the cause. -/
structure Failure where
  text : String
  cause : Option String
deriving DecidableEq, Repr

def Failure.report (f : Failure) : String :=
  match f.cause with
  | none   => "Error: " ++ f.text ++ "\n"
  | some c => "Error: " ++ f.text ++ "\n\nCaused by:\n    " ++ c ++ "\n"

/-- What a run of a tool leaves behind. -/
structure Outcome where
  exitCode : Nat
  stdout : String
  stderr : String
  /-- The name and the content of the file that was written. -/
  file : Option (String × ByteArray)

/-- A run that stops with a failure, after it has printed `stderr`. -/
def Outcome.failed (stderr : String) (f : Failure) : Outcome where
  exitCode := 1
  stdout := ""
  stderr := stderr ++ f.report
  file := none

/-- The number, in the range of a word, that an option spells. -/
def wordOf (v : Int) : Except Numeral.RangeError UInt32 :=
  if v < 0 then .error .tooSmall
  else if v < UInt32.size then .ok (UInt32.ofNat v.toNat)
  else .error .tooLarge

end Asm32.Tool
