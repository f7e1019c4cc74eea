import Asm32.Tool.Basic
import Asm32.Listing
import Asm32.Json.Forms

/-!
# The assembler as a tool

Assembles a source file and writes the program as a listing, a binary or JSON.

A line at fault is reported once, with its source.  The tool stops at the first report, unless it
is told to keep going; then it reports every line at fault, those of the first pass before those of
the second.  A file is written only when no line is at fault.
-/

namespace Asm32.Tool

/-- The form in which a program is written. -/
inductive Format
  | listing
  | binary
  | json
deriving DecidableEq, Repr

/-- The bytes of a program in a format. -/
def Format.write : Format → List Item → ByteArray
  | .listing, items => (Asm32.listing items).toUTF8
  | .binary, items  => ⟨(Asm32.binary items).toArray⟩
  | .json, items    => (Json.pretty (.arr (items.map Item.toJson))).toUTF8

namespace Assembler

/-! ### Lines at fault -/

/-- How a run over a source ends. -/
inductive Ending
  | done (items : List Item)
  /-- The first line at fault ended the run. -/
  | aborted
  /-- So many lines are at fault. -/
  | failed (lines : Nat)
deriving DecidableEq, Repr

/-- A run over a source: the faults it reports, in order, and how it ends. -/
structure Run where
  reports : List LineFault
  ending : Ending
deriving DecidableEq, Repr

/-- Reads numbered lines, and lists those at fault.  Without `keepGoing` the first of them is the
last line read. -/
def scan (keepGoing : Bool) (s : Session) : List (Nat × String) → Session × List LineFault
  | []               => (s, [])
  | (n, raw) :: rest =>
    match s.addLine n raw with
    | (s', .ok ())   => scan keepGoing s' rest
    | (s', .error e) =>
      if keepGoing then
        let after := scan keepGoing s' rest
        (after.1, e :: after.2)
      else (s', [e])

/-- The faults of the second pass in lines that are not reported yet. -/
def newFaults (reported : List Nat) : List (Except LineFault Item) → List LineFault
  | []               => []
  | .ok _ :: rest    => newFaults reported rest
  | .error e :: rest =>
    if e.line ∈ reported then newFaults reported rest
    else e :: newFaults (e.line :: reported) rest

/-- Ends a run in which the lines `reports` are at fault. -/
def Run.ofReports (keepGoing : Bool) (results : List (Except LineFault Item)) :
    List LineFault → Run
  | []      => ⟨[], .done (results.filterMap Except.toOption)⟩
  | e :: es =>
    if keepGoing then ⟨e :: es, .failed (e :: es).length⟩ else ⟨[e], .aborted⟩

/-- Assembles a source and reports its faults. -/
def run (source : String) (setting : Setting) (keepGoing : Bool) : Run :=
  let scanned := scan keepGoing (.start .standard setting) (Text.numberedLines source)
  let results := scanned.1.finish
  let second := newFaults (scanned.2.map LineFault.line) results
  .ofReports keepGoing results (scanned.2 ++ second)

/-! ### Reports -/

/-- A text at the right of a column of at least `width`. -/
def rightAligned (width : Nat) (s : String) : String :=
  String.ofList (List.replicate (width - s.length) ' ') ++ s

/-- A fault with the source of its line. -/
def report (lines : List String) (e : LineFault) : String :=
  let source := match e.line with
    | 0     => none
    | i + 1 => lines[i]?
  let shown := match source with
    | some l =>
      "  " ++ rightAligned 4 (Numeral.decimal e.line) ++ " | " ++ Text.trimmedEnd l ++ "\n"
    | none => ""
  e.message ++ "\n" ++ shown

/-! ### The tool -/

structure Options where
  input : String
  /-- The file to write; by default the name of the input with `.hex` after it. -/
  output : Option String
  /-- The address of the first instruction, as it was typed. -/
  origin : String
  format : Format
  keepGoing : Bool

/-- The address that the option for the origin spells, or what is wrong with it. -/
def readOrigin (typed : String) : Except String UInt32 :=
  match Operand.readConstant (Text.trimmed typed) with
  | .error f => .error f.message
  | .ok v    =>
    match wordOf v with
    | .ok a    => .ok a
    | .error _ => .error ("address out of range: " ++ typed)

/-- What is printed about an origin that is no address. -/
def badOrigin (typed reason : String) : String :=
  "error: invalid value '" ++ typed ++ "' for '--origin <ORIGIN>': " ++ reason
    ++ "\n\nFor more information, try '--help'.\n"

/-- Runs the tool. -/
def execute (files : Files) (opts : Options) : Outcome :=
  match readOrigin opts.origin with
  | .error reason => ⟨2, "", badOrigin opts.origin reason, none⟩
  | .ok origin    =>
    match files.readText opts.input with
    | .error e   => .failed "" ⟨"reading " ++ opts.input, some e.message⟩
    | .ok source =>
      let r := run source ⟨origin⟩ opts.keepGoing
      let stderr := String.join (r.reports.map (report (Text.lines source)))
      match r.ending with
      | .aborted    => .failed stderr ⟨"assembly aborted", none⟩
      | .failed n   => .failed stderr ⟨Numeral.decimal n ++ " line(s) failed to assemble", none⟩
      | .done items =>
        let output := opts.output.getD (opts.input ++ ".hex")
        match files.refuses output with
        | some e => .failed stderr ⟨"writing " ++ output, some e.message⟩
        | none   => ⟨0, "", stderr, some (output, opts.format.write items)⟩

end Assembler

end Asm32.Tool
