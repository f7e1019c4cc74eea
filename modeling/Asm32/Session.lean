import Asm32.Slot

/-!
# Assembling in two passes

A session reads a program line by line.  The first pass binds labels to the address of the next
instruction and encodes every instruction whose labels are bound; an instruction that names a
label which is not bound yet keeps its slot and waits.  The second pass, `Session.finished`, encodes
the waiting instructions with all labels known; it ends with what became of every instruction
(`Session.finish`) and with the whole log (`Session.finalEvents`).

A session goes on after a fault.  A line that cannot be read, or that declares a label again,
leaves no trace in it; an instruction at fault keeps its slot and its address.  All that a
declaration and a statement do is said once, in `Session.declareLabel_cases` and
`Session.adds_addStatement`.

The second pass can break off (`Session.finish?`) when slots and records do not fit together.  A
session carries the proof that they do, so `Session.finished` is total.
-/

namespace Asm32

/-- The size of a word in bytes. -/
def wordBytes : Nat := 4

/-- What an assembly is told beside its source: the address of the first instruction. -/
structure Setting where
  origin : UInt32
deriving DecidableEq, Repr

/-- A program that is being assembled. -/
structure Session where
  registry : Registry
  symbols : SymbolTable
  /-- The address of the next instruction. -/
  address : UInt32
  slots : Array Slot
  /-- The instructions that wait for a label, in the order in which they were read. -/
  waiting : Array Waiting
  events : Array Event
  matched : Slot.Matched slots waiting

namespace Session

/-- A session in which nothing has been read. -/
def start (registry : Registry) (setting : Setting) : Session where
  registry := registry
  symbols := .empty
  address := setting.origin
  slots := #[]
  waiting := #[]
  events := #[]
  matched := Slot.matched_empty

def log (s : Session) (e : Event) : Session := { s with events := s.events.push e }

/-- Gives the next slot and the next address to an instruction that does not wait. -/
def place (s : Session) (a : Slot) (h : a ≠ .waiting) : Session :=
  { s with
    address := s.address + UInt32.ofNat wordBytes
    slots := s.slots.push a
    matched := s.matched.push h }

/-- Gives the next slot and the next address to an instruction that waits. -/
def defer (s : Session) (st : Statement) : Session :=
  { s with
    address := s.address + UInt32.ofNat wordBytes
    slots := s.slots.push .waiting
    waiting := s.waiting.push ⟨st, s.address, s.slots.size⟩
    matched := s.matched.push_waiting rfl }

/-- Binds a label to the address of the next instruction. -/
def declareLabel (s : Session) (line : Nat) (name : String) : Session × Except LineFault Unit :=
  match s.symbols.declare name s.address line with
  | .ok t    => ({ s with symbols := t }.log (.labelDeclared line name s.address), .ok ())
  | .error f => (s, .error ⟨line, f⟩)

/-- All that a declaration does: it is refused and changes nothing, or it puts its label in front
and is logged. -/
theorem declareLabel_cases (s : Session) (line : Nat) (name : String) :
    (∃ y, s.symbols.find? name = some y ∧
      s.declareLabel line name = (s, .error ⟨line, .duplicateLabel name y.line⟩)) ∨
    (s.symbols.find? name = none ∧ ∃ t, s.symbols.declare name s.address line = .ok t ∧
      t.symbols = ⟨name, s.address, line⟩ :: s.symbols.symbols ∧
      s.declareLabel line name =
        ({ s with symbols := t }.log (.labelDeclared line name s.address), .ok ())) := by
  rcases s.symbols.declare_cases name s.address line with ⟨y, hy, hd⟩ | ⟨hnone, t, hd, ht⟩
  · exact .inl ⟨y, hy, by rw [declareLabel, hd]⟩
  · exact .inr ⟨hnone, t, hd, ht, by rw [declareLabel, hd]⟩

/-- Encodes a statement, or lets it wait for a label. -/
def addStatement (s : Session) (st : Statement) : Session × Except LineFault Unit :=
  match s.registry.dispatch s.symbols st.mnemonic st.operands with
  | .ok (.resolved op)  => (s.place (.ready (st.item s.address op)) Slot.noConfusion, .ok ())
  | .ok (.unresolved l) => ((s.defer st).log (.deferred st.line l s.address), .ok ())
  | .error f            =>
    (s.place (.failed ⟨st.line, f⟩) Slot.noConfusion, .error ⟨st.line, f⟩)

/-- What a statement leaves in a session, by what dispatch makes of it: its slot, its record if it
waits, and what is logged. -/
inductive Leaves (s : Session) (st : Statement) (s' : Session) :
    Except Fault (Resolution UInt32) → Prop
  | word {op : UInt32} (slots_eq : s'.slots = s.slots.push (.ready (st.item s.address op)))
      (waiting_eq : s'.waiting = s.waiting) (events_eq : s'.events = s.events) :
      Leaves s st s' (.ok (.resolved op))
  | record {l : String} (slots_eq : s'.slots = s.slots.push .waiting)
      (waiting_eq : s'.waiting = s.waiting.push ⟨st, s.address, s.slots.size⟩)
      (events_eq : s'.events = s.events.push (.deferred st.line l s.address)) :
      Leaves s st s' (.ok (.unresolved l))
  | fault {f : Fault} (slots_eq : s'.slots = s.slots.push (.failed ⟨st.line, f⟩))
      (waiting_eq : s'.waiting = s.waiting) (events_eq : s'.events = s.events) :
      Leaves s st s' (.error f)

/-- All that a statement does to a session, and the answer to it. -/
structure Adds (s : Session) (st : Statement) (s' : Session) (answer : Except LineFault Unit) :
    Prop where
  registry_eq : s'.registry = s.registry
  symbols_eq : s'.symbols = s.symbols
  address_eq : s'.address = s.address + UInt32.ofNat wordBytes
  leaves : Leaves s st s' (s.registry.dispatch s.symbols st.mnemonic st.operands)
  /-- A statement is refused for its fault, never because it waits. -/
  answer_eq : answer =
    ((s.registry.dispatch s.symbols st.mnemonic st.operands).map fun _ => ()).mapError
      (LineFault.mk st.line)

theorem adds_addStatement (s : Session) (st : Statement) :
    Adds s st (s.addStatement st).1 (s.addStatement st).2 := by
  rw [addStatement]
  cases hd : s.registry.dispatch s.symbols st.mnemonic st.operands with
  | error f => exact ⟨rfl, rfl, rfl, by rw [hd]; exact .fault rfl rfl rfl, by rw [hd]; rfl⟩
  | ok r =>
      cases r with
      | resolved op =>
          exact ⟨rfl, rfl, rfl, by rw [hd]; exact .word rfl rfl rfl, by rw [hd]; rfl⟩
      | unresolved l =>
          exact ⟨rfl, rfl, rfl, by rw [hd]; exact .record rfl rfl rfl, by rw [hd]; rfl⟩

theorem addStatement_eq_error_iff {s : Session} {st : Statement} {r : LineFault} :
    (s.addStatement st).2 = .error r ↔
      ∃ f, s.registry.dispatch s.symbols st.mnemonic st.operands = .error f ∧
        r = ⟨st.line, f⟩ := by
  rw [(s.adds_addStatement st).answer_eq]
  cases s.registry.dispatch s.symbols st.mnemonic st.operands with
  | ok _ =>
      constructor
      · intro h
        cases h
      · rintro ⟨f, h, -⟩
        cases h
  | error f =>
      constructor
      · intro h
        cases h
        exact ⟨f, rfl, rfl⟩
      · rintro ⟨_, h, rfl⟩
        cases h
        rfl

theorem addStatement_eq_ok_iff {s : Session} {st : Statement} :
    (s.addStatement st).2 = .ok () ↔
      ∀ f, s.registry.dispatch s.symbols st.mnemonic st.operands ≠ .error f := by
  rw [(s.adds_addStatement st).answer_eq]
  cases s.registry.dispatch s.symbols st.mnemonic st.operands with
  | ok _ =>
      refine ⟨fun _ f h => ?_, fun _ => rfl⟩
      cases h
  | error f =>
      refine ⟨fun h => ?_, fun h => absurd rfl (h f)⟩
      cases h

/-- Reads one line of source. -/
def addLine (s : Session) (line : Nat) (raw : String) : Session × Except LineFault Unit :=
  match Line.read line raw with
  | .error f            => (s, .error ⟨line, f⟩)
  | .ok .blank          => (s, .ok ())
  | .ok (.label name)   => s.declareLabel line name
  | .ok (.statement st) => s.addStatement st

/-- Reads numbered lines in order, up to the first that is at fault. -/
def addLines (s : Session) : List (Nat × String) → Session × Except LineFault Unit
  | []               => (s, .ok ())
  | (n, raw) :: rest =>
    match s.addLine n raw with
    | (s', .ok ())   => s'.addLines rest
    | (s', .error e) => (s', .error e)

/-- Reads a whole source, up to the first line that is at fault. -/
def addSource (s : Session) (source : String) : Session × Except LineFault Unit :=
  s.addLines (Text.numberedLines source)

/-- One of the ways to feed a session. -/
inductive Call
  | line (number : Nat) (raw : String)
  | label (line : Nat) (name : String)
  | statement (st : Statement)
  | source (text : String)
deriving DecidableEq, Repr

/-- Performs a call. -/
def call (s : Session) : Call → Session × Except LineFault Unit
  | .line number raw => s.addLine number raw
  | .label line name => s.declareLabel line name
  | .statement st    => s.addStatement st
  | .source text     => s.addSource text

/-- Performs calls in order, each whatever became of the ones before. -/
def callAll (s : Session) : List Call → Session × List (Except LineFault Unit)
  | []      => (s, [])
  | c :: cs =>
    let first := s.call c
    let rest := first.1.callAll cs
    (rest.1, first.2 :: rest.2)

/-- The second pass: logs that all source is read, and does what is left to do. -/
def secondPass? (s : Session) : Option Finished :=
  let log := s.events.push (.scanComplete s.slots.size s.symbols.size s.waiting.size)
  Slot.finishAll? s.registry s.symbols s.slots log s.waiting

/-- What the session ends with. -/
def finished (s : Session) : Finished :=
  s.secondPass?.get (s.matched.isSome_finishAll? s.registry s.symbols _)

/-- What becomes of every instruction, in order, unless the second pass breaks off. -/
def finish? (s : Session) : Option (List (Except LineFault Item)) :=
  s.secondPass?.map Finished.results

/-- What becomes of every instruction, in order. -/
def finish (s : Session) : List (Except LineFault Item) := s.finished.results

/-- The log of the session with what the second pass adds to it. -/
def finalEvents (s : Session) : List Event := s.finished.events

theorem secondPass?_eq (s : Session) : s.secondPass? = some s.finished :=
  (Option.some_get _).symm

theorem finish?_eq (s : Session) : s.finish? = some s.finish := by
  rw [finish?, secondPass?_eq]
  rfl

theorem finalEvents_eq (s : Session) :
    s.finalEvents = s.events.toList
      ++ .scanComplete s.slots.size s.symbols.size s.waiting.size
      :: s.waiting.toList.flatMap fun w => (w.resolve s.registry s.symbols).2 := by
  obtain ⟨⟨filled, log⟩, hfill, hrest⟩ := Option.bind_eq_some_iff.mp s.secondPass?_eq
  obtain ⟨results, -, hfinished⟩ := Option.map_eq_some_iff.mp hrest
  rw [finalEvents, ← hfinished]
  show log.toList = _
  rw [Slot.fillAll_log hfill, Array.toList_push, List.append_assoc, List.singleton_append]

end Session

end Asm32
