import Asm32.Tool.Assembler
import Asm32.Tool.Disassembler

/-!
# The command line

`as SOURCE [DEST] [--origin=O] [--format=hex|bin|json] [--keep-going]` assembles a file.

`disasm INPUT [--input-format=listing|bin] [--base=B] [--skip=N] dump|range …` shows an image,
where `dump` takes `--format=text|json`, `--show-bytes` and `--out=FILE`, and `range` takes a first
and a last address, `--show-bytes` and `--out=FILE`.
-/

namespace Asm32.CommandLine

open Tool

/-- The value of an option `--name=value`; the latest counts. -/
def option? (name : String) (args : List String) : Option String :=
  let start := ("--" ++ name ++ "=").toList
  (args.reverse.find? fun a => start.isPrefixOf a.toList).map fun a =>
    String.ofList (a.toList.drop start.length)

def isOption (a : String) : Bool := ['-', '-'].isPrefixOf a.toList

def plain (args : List String) : List String := args.filter fun a => !isOption a

def assembler? (args : List String) : Option Assembler.Options := do
  let format ← match (option? "format" args).getD "hex" with
    | "hex"  => some Format.listing
    | "bin"  => some Format.binary
    | "json" => some Format.json
    | _      => none
  let (input, output) ← match plain args with
    | [i]    => some (i, none)
    | [i, o] => some (i, some o)
    | _      => none
  return { input, output, format
           origin := (option? "origin" args).getD "0"
           keepGoing := args.contains "--keep-going" }

def disassembler? (args : List String) : Option Disassembler.Options := do
  let source ← match (option? "input-format" args).getD "listing" with
    | "listing" => some Disassembler.Source.listing
    | "bin"     =>
      (Numeral.valueOf? 10 ((option? "skip" args).getD "0").toList).map fun skip =>
        Disassembler.Source.binary ((option? "base" args).getD "0") skip
    | _ => none
  let showBytes := args.contains "--show-bytes"
  let (input, command) ← match plain args with
    | [i, "dump"] =>
      match (option? "format" args).getD "text" with
      | "text" => some (i, Disassembler.Command.dump showBytes)
      | "json" => some (i, .dumpJson)
      | _      => none
    | [i, "range", first, last] => some (i, .range first last showBytes)
    | _                         => none
  return { input, source, command, output := option? "out" args }

def fileError : IO.Error → FileError
  | .noFileOrDirectory .. => .notFound
  | e                     => .other (toString e)

/-- Runs a tool on the file system: the input is read before the run, and the tool is told when its
file could not be written. -/
def perform (input : String) (tool : Files → Outcome) : IO UInt32 := do
  let content ← try Except.ok <$> IO.FS.readBinFile input
    catch e => pure (Except.error (fileError e))
  let first := tool ⟨fun _ => content, fun _ => none⟩
  let outcome ← match first.file with
    | none               => pure first
    | some (name, bytes) =>
      try
        IO.FS.writeBinFile name bytes
        pure first
      catch e => pure (tool ⟨fun _ => content, fun _ => some (fileError e)⟩)
  (← IO.getStderr).putStr outcome.stderr
  (← IO.getStdout).putStr outcome.stdout
  return UInt32.ofNat outcome.exitCode

end Asm32.CommandLine

open Asm32 CommandLine in
def main (args : List String) : IO UInt32 := do
  let run? := match args with
    | "as" :: rest =>
      (assembler? rest).map fun o => (o.input, fun fs => Tool.Assembler.execute fs o)
    | "disasm" :: rest =>
      (disassembler? rest).map fun o => (o.input, fun fs => Tool.Disassembler.execute fs o)
    | _ => none
  match run? with
  | some (input, tool) => perform input tool
  | none               =>
    (← IO.getStderr).putStrLn
      "usage: as SOURCE [DEST] | disasm INPUT dump | disasm INPUT range FIRST LAST"
    return 2
