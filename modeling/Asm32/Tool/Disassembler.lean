import Asm32.Tool.Basic
import Asm32.Disassembly

/-!
# The disassembler as a tool

Reads an image from a listing or a binary and shows all its words, or those in a range of
addresses.
-/

namespace Asm32.Tool.Disassembler

/-- The form of the input. -/
inductive Source
  | listing
  /-- A binary that lies at `base`, as it was typed, after `skip` bytes that are no part of it. -/
  | binary (base : String) (skip : Nat)
deriving DecidableEq, Repr

/-- What is shown. -/
inductive Command
  | dump (showBytes : Bool)
  | dumpJson
  /-- The words from `first` on and before `last`, as they were typed. -/
  | range (first last : String) (showBytes : Bool)
deriving DecidableEq, Repr

structure Options where
  input : String
  source : Source
  command : Command
  /-- The file to write instead of printing. -/
  output : Option String

/-- The address that an option spells. -/
def readAddress (typed : String) : Except Failure UInt32 :=
  match Operand.readConstant (Text.trimmed typed) with
  | .error f => .error ⟨f.message, none⟩
  | .ok v    =>
    match wordOf v with
    | .ok a    => .ok a
    | .error e => .error ⟨e.message, none⟩

def imageFailure (e : ImageError) : Failure := ⟨e.message, e.cause?⟩

/-- The image that the input holds. -/
def load (files : Files) (input : String) : Source → Except Failure Image
  | .listing =>
    match files.readText input with
    | .error e => .error ⟨"reading " ++ input, some e.message⟩
    | .ok text => (Image.ofListing text).mapError imageFailure
  | .binary base skip =>
    match readAddress base with
    | .error f => .error f
    | .ok base =>
      match files.read input with
      | .error e  => .error ⟨"reading " ++ input, some e.message⟩
      | .ok bytes =>
        if skip ≤ bytes.size then
          (Image.ofBinary (bytes.data.toList.drop skip) base).mapError imageFailure
        else .error ⟨"--skip exceeds file size", none⟩

/-- What a command shows of an image. -/
def display (img : Image) : Command → Except Failure String
  | .dump showBytes             => .ok (img.render none showBytes)
  | .dumpJson                   => .ok img.toJson.pretty
  | .range first last showBytes =>
    match readAddress first with
    | .error f  => .error f
    | .ok first =>
      match readAddress last with
      | .error f => .error f
      | .ok last =>
        if first ≤ last then .ok (img.render (some ⟨first, last⟩) showBytes)
        else .error ⟨"end must be >= start", none⟩

/-- Runs the tool. -/
def execute (files : Files) (opts : Options) : Outcome :=
  match load files opts.input opts.source with
  | .error f => .failed "" f
  | .ok img  =>
    match display img opts.command with
    | .error f => .failed "" f
    | .ok text =>
      match opts.output with
      | none      => ⟨0, text, "", none⟩
      | some name =>
        match files.refuses name with
        | some e => .failed "" ⟨e.message, none⟩
        | none   => ⟨0, "", "", some (name, text.toUTF8)⟩

end Asm32.Tool.Disassembler
