import Asm32.Group

/-!
# Events

What an assembly logs while it runs.
-/

namespace Asm32

inductive Level
  | debug
  | info
  | warn
deriving DecidableEq, Repr

def Level.name : Level → String
  | .debug => "DEBUG"
  | .info  => "INFO"
  | .warn  => "WARN"

inductive Event
  /-- A label is bound to the address of the next instruction. -/
  | labelDeclared (line : Nat) (label : String) (address : UInt32)
  /-- An instruction waits for a label that is not bound yet. -/
  | deferred (line : Nat) (label : String) (address : UInt32)
  /-- All source is read: how many instructions, labels and waiting instructions there are. -/
  | scanComplete (instructions labels deferred : Nat)
  /-- A waiting instruction is encoded. -/
  | resolved (line : Nat) (address : UInt32)
  /-- A mnemonic of the group `old` now belongs to `group`. -/
  | mnemonicReregistered (mnemonic : String) (old group : Group)
deriving DecidableEq, Repr

namespace Event

def level : Event → Level
  | labelDeclared .. | deferred .. | resolved .. => .debug
  | scanComplete .. => .info
  | mnemonicReregistered .. => .warn

def message : Event → String
  | labelDeclared ..        => "label declared"
  | deferred ..             => "deferred on forward label"
  | scanComplete ..         => "scan complete"
  | resolved ..             => "resolved deferred line"
  | mnemonicReregistered .. => "mnemonic re-registered"

end Event

end Asm32
