import Asm32.Numeral

/-!
# Reading JSON

A text is read into nodes.  A node keeps what the reader of a value needs to decide: a number keeps
its spelling, an object keeps all its members in order, and a string is the text it denotes, or
nothing when an escape in it is half of a pair that is not completed.
-/

namespace Asm32.Json

inductive Node
  | null
  | bool (b : Bool)
  | number (spelling : List Char)
  | string (text : Option String)
  | array (items : List Node)
  | object (members : List (Option String × Node))

/-- The characters that may stand between the parts of a text. -/
def isGap (c : Char) : Bool := c == ' ' || c == '\n' || c == '\t' || c == '\r'

def skipGaps (cs : List Char) : List Char := cs.dropWhile isGap

/-! ### Strings -/

/-- A part of a string: a character, or a sixteen-bit unit that an escape spells. -/
inductive Piece
  | char (c : Char)
  | unit (u : Nat)

/-- The character that an escape of one letter stands for. -/
def shortEscape? : Char → Option Char
  | '"'  => some '"'
  | '\\' => some '\\'
  | '/'  => some '/'
  | 'b'  => some (Char.ofNat 0x8)
  | 'f'  => some (Char.ofNat 0xC)
  | 'n'  => some '\n'
  | 'r'  => some '\r'
  | 't'  => some '\t'
  | _    => none

/-- The parts of a string up to its closing quote, and what follows the quote. -/
def pieces? : List Char → Option (List Piece × List Char)
  | [] => none
  | '"' :: cs => some ([], cs)
  | '\\' :: 'u' :: a :: b :: c :: d :: cs => do
    let u ← Numeral.valueOf? 16 [a, b, c, d]
    let (ps, rest) ← pieces? cs
    return (.unit u :: ps, rest)
  | '\\' :: e :: cs => do
    let c ← shortEscape? e
    let (ps, rest) ← pieces? cs
    return (.char c :: ps, rest)
  | c :: cs => do
    guard (c != '\\' && 0x20 ≤ c.toNat)
    let (ps, rest) ← pieces? cs
    return (.char c :: ps, rest)

def isHighUnit (u : Nat) : Bool := 0xD800 ≤ u && u < 0xDC00

def isLowUnit (u : Nat) : Bool := 0xDC00 ≤ u && u < 0xE000

/-- The characters that the parts of a string denote.  Two units make one character when the first
is a high and the second a low half; a half alone denotes nothing. -/
def denotation? : List Piece → Option (List Char)
  | []                       => some []
  | .char c :: ps            => (denotation? ps).map (c :: ·)
  | .unit u :: .unit v :: ps =>
    if isHighUnit u then
      if isLowUnit v then
        (denotation? ps).map (Char.ofNat (0x10000 + (u - 0xD800) * 0x400 + (v - 0xDC00)) :: ·)
      else none
    else if isLowUnit u then none
    else (denotation? (.unit v :: ps)).map (Char.ofNat u :: ·)
  | .unit u :: ps =>
    if isHighUnit u || isLowUnit u then none else (denotation? ps).map (Char.ofNat u :: ·)

/-- The string that starts after an opening quote. -/
def string? (cs : List Char) : Option (Option String × List Char) :=
  (pieces? cs).map fun (ps, rest) => ((denotation? ps).map String.ofList, rest)

/-! ### Numbers -/

/-- One or more digits. -/
def digits? (cs : List Char) : Option (List Char × List Char) :=
  let ds := cs.takeWhile (Numeral.isDigit 10)
  if ds.isEmpty then none else some (ds, cs.dropWhile (Numeral.isDigit 10))

/-- The whole part of a number: a zero, or digits that do not start with one. -/
def whole? (cs : List Char) : Option (List Char × List Char) := do
  let (ds, rest) ← digits? cs
  guard (ds.head? != some '0' || ds.length == 1)
  return (ds, rest)

/-- The fraction of a number, if there is one. -/
def fraction? : List Char → Option (List Char × List Char)
  | '.' :: cs => (digits? cs).map fun (ds, rest) => ('.' :: ds, rest)
  | cs        => some ([], cs)

/-- The exponent of a number, if there is one. -/
def exponent? : List Char → Option (List Char × List Char)
  | c :: cs =>
    if c = 'e' ∨ c = 'E' then
      match cs with
      | s :: cs' =>
        if s = '+' ∨ s = '-' then (digits? cs').map fun (ds, rest) => (c :: s :: ds, rest)
        else (digits? cs).map fun (ds, rest) => (c :: ds, rest)
      | [] => none
    else some ([], c :: cs)
  | [] => some ([], [])

/-- A number, as it is spelt. -/
def number? (cs : List Char) : Option (List Char × List Char) := do
  let (sign, cs) := match cs with
    | '-' :: cs => (['-'], cs)
    | cs        => ([], cs)
  let (w, cs) ← whole? cs
  let (f, cs) ← fraction? cs
  let (e, cs) ← exponent? cs
  return (sign ++ w ++ f ++ e, cs)

/-! ### Values -/

mutual

/-- The value at the start of a text, and what follows it. -/
def value? : Nat → List Char → Option (Node × List Char)
  | 0, _         => none
  | fuel + 1, cs =>
    match skipGaps cs with
    | 'n' :: 'u' :: 'l' :: 'l' :: rest => some (.null, rest)
    | 't' :: 'r' :: 'u' :: 'e' :: rest => some (.bool true, rest)
    | 'f' :: 'a' :: 'l' :: 's' :: 'e' :: rest => some (.bool false, rest)
    | '"' :: rest => (string? rest).map fun (s, rest) => (.string s, rest)
    | '[' :: rest =>
      match skipGaps rest with
      | ']' :: rest => some (.array [], rest)
      | rest        => (items? fuel rest).map fun (xs, rest) => (.array xs, rest)
    | '\x7b' :: rest =>
      match skipGaps rest with
      | '\x7d' :: rest => some (.object [], rest)
      | rest           => (members? fuel rest).map fun (ms, rest) => (.object ms, rest)
    | rest => (number? rest).map fun (n, rest) => (.number n, rest)

/-- The values of a list up to its closing bracket. -/
def items? : Nat → List Char → Option (List Node × List Char)
  | 0, _         => none
  | fuel + 1, cs => do
    let (x, rest) ← value? fuel cs
    match skipGaps rest with
    | ']' :: rest => return ([x], rest)
    | ',' :: rest =>
      let (xs, rest) ← items? fuel rest
      return (x :: xs, rest)
    | _ => none

/-- The members of an object up to its closing bracket. -/
def members? : Nat → List Char → Option (List (Option String × Node) × List Char)
  | 0, _         => none
  | fuel + 1, cs =>
    match skipGaps cs with
    | '"' :: rest => do
      let (k, rest) ← string? rest
      match skipGaps rest with
      | ':' :: rest =>
        let (v, rest) ← value? fuel rest
        match skipGaps rest with
        | '\x7d' :: rest => return ([(k, v)], rest)
        | ',' :: rest    =>
          let (ms, rest) ← members? fuel rest
          return ((k, v) :: ms, rest)
        | _ => none
      | _ => none
    | _ => none

end

namespace Node

/-- The value that a whole text spells. -/
def ofText? (s : String) : Option Node := do
  let cs := s.toList
  let (v, rest) ← value? (2 * cs.length + 2) cs
  guard (skipGaps rest).isEmpty
  return v

/-- The number that a node spells in digits alone, when it is below `bound`. -/
def natBelow? (bound : Nat) : Node → Option Nat
  | .number ds => (Numeral.valueOf? 10 ds).filter (· < bound)
  | _          => none

/-- The text of a node that is a string. -/
def text? : Node → Option String
  | .string t => t
  | _         => none

/-- The single member of an object that has one. -/
def tagged? : Node → Option (String × Node)
  | .object [(some tag, v)] => some (tag, v)
  | _                       => none

/-- The name of a case without contents: a string, or an object that gives it `null`. -/
def caseName? : Node → Option String
  | .string t => t
  | .object [(some tag, .null)] => some tag
  | _ => none

/-- The one member of a given name. -/
def member? (ms : List (String × Node)) (key : String) : Option Node :=
  match ms.filter (·.1 == key) with
  | [(_, v)] => some v
  | _        => none

/-- The parts of a record with the given keys, in their order: from an object that has each key
once, whatever else it has, or from a list of as many values. -/
def record? (keys : List String) : Node → Option (List Node)
  | .array xs  => if xs.length = keys.length then some xs else none
  | .object ms => do
    let ms ← ms.mapM fun (k, v) => k.map fun k => (k, v)
    keys.mapM (member? ms)
  | _ => none

end Node

end Asm32.Json
