import Asm32.Json.Basic
import Asm32.Json.Node
import Asm32.Session

/-!
# JSON forms

How registers, operations, instructions and assembled items are written as JSON, and how the
smaller ones of them are read.
-/

namespace Asm32

open Json (Node)

namespace Gpr

def toJson (n : Gpr) : Json := .nat n

def ofJson? (j : Node) : Option Gpr := do
  let n ← j.natBelow? UInt8.size
  (ofNat n).toOption

end Gpr

namespace Reg

def toJson : Reg → Json
  | gpr n => .obj [("Gpr", Gpr.toJson n)]
  | pc    => .str "Pc"
  | sp    => .str "Sp"
  | flags => .str "Flags"
  | drop  => .str "Drop"

/-- The register of a case name. -/
def ofCaseName? (n : String) : Option Reg :=
  if n = "Pc" then some pc
  else if n = "Sp" then some sp
  else if n = "Flags" then some flags
  else if n = "Drop" then some drop
  else none

def ofJson? (j : Node) : Option Reg :=
  match j.tagged? with
  | some ("Gpr", v) => (Gpr.ofJson? v).map gpr
  | _               => j.caseName?.bind ofCaseName?

end Reg

def Group.toJson (g : Group) : Json := .str g.name

def Group.ofJson? (j : Node) : Option Group := j.caseName?.bind ofName?

def AluOp.toJson (op : AluOp) : Json := .str op.name

def AluOp.ofJson? (j : Node) : Option AluOp := j.caseName?.bind ofName?

def MoveOp.toJson (op : MoveOp) : Json := .str op.name

def MoveOp.ofJson? (j : Node) : Option MoveOp := j.caseName?.bind ofName?

def Cond.toJson (c : Cond) : Json := .str c.text

def Cond.ofJson? (j : Node) : Option Cond := j.text?.bind ofText?

namespace Packed

def toJson (p : Packed) : Json :=
  .obj [("value", .nat p.value.toNat), ("shift", .nat p.shift.toNat)]

def ofJson? (j : Node) : Option Packed :=
  match j.record? ["value", "shift"] with
  | some [v, s] => do
    return ⟨UInt32.ofNat (← v.natBelow? UInt32.size), UInt8.ofNat (← s.natBelow? UInt8.size)⟩
  | _ => none

end Packed

namespace Setting

def toJson (s : Setting) : Json := .obj [("origin", .nat s.origin.toNat)]

def ofJson? (j : Node) : Option Setting :=
  match j.record? ["origin"] with
  | some [v] => (v.natBelow? UInt32.size).map fun n => ⟨UInt32.ofNat n⟩
  | _        => none

end Setting

def Instr.toJson : Instr → Json
  | ldi dest p            => .obj [("Ldi", .obj [("dest", dest.toJson), ("packed", p.toJson)])]
  | alu op dest src0 src1 =>
    .obj [("Alu", .obj [("op", op.toJson), ("dest", dest.toJson), ("src0", src0.toJson),
      ("src1", (src1.map Reg.toJson).getD .null)])]
  | move op dest src =>
    .obj [("Move", .obj [("op", op.toJson), ("dest", dest.toJson), ("src", src.toJson)])]
  | skip cond => .obj [("Skip", .obj [("cond", cond.toJson)])]

def Item.toJson (a : Item) : Json :=
  .obj [("line", .nat a.line), ("address", .nat a.address.toNat), ("opcode", .nat a.opcode.toNat),
    ("text", .str a.text)]

end Asm32
