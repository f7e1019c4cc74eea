import Asm32.Line
import Asm32.Registry

/-!
# Slots

An instruction of a program takes one word, and so one address, whether it has been encoded, waits
for a label, or is at fault.  The first pass over the source gives it a slot in the program.  An
instruction that waits leaves its slot open; it is kept in a record with the number of the slot,
and the second pass fills the slot with what becomes of it, and logs that it has been encoded.

The second pass breaks off (`none`) at a record whose slot does not exist, and at a slot that is
still open when all records are done.  Neither happens when the open slots are those of the records
(`Slot.Matched`).
-/

namespace Asm32

/-- An instruction that has been assembled. -/
structure Item where
  line : Nat
  address : UInt32
  opcode : UInt32
  text : String
deriving DecidableEq, Repr

/-- The item of a statement whose word is known. -/
def Statement.item (st : Statement) (address opcode : UInt32) : Item :=
  ⟨st.line, address, opcode, st.text⟩

/-- The place of an instruction in the program. -/
inductive Slot
  | ready (item : Item)
  /-- The instruction waits for a label. -/
  | waiting
  | failed (fault : LineFault)
deriving DecidableEq, Repr

/-- An instruction that waits for a label, and the number of its slot. -/
structure Waiting where
  statement : Statement
  address : UInt32
  slot : Nat
deriving DecidableEq, Repr

namespace Waiting

/-- What a waiting instruction becomes with the labels of `symbols`, and what is logged for it. -/
def resolve (registry : Registry) (symbols : SymbolTable) (w : Waiting) : Slot × List Event :=
  match registry.dispatch symbols w.statement.mnemonic w.statement.operands with
  | .ok (.resolved op)  =>
    (.ready (w.statement.item w.address op), [.resolved w.statement.line w.address])
  | .ok (.unresolved l) => (.failed ⟨w.statement.line, .undefinedLabel l⟩, [])
  | .error f            => (.failed ⟨w.statement.line, f⟩, [])

theorem resolve_ne_waiting (registry : Registry) (symbols : SymbolTable) (w : Waiting) :
    (w.resolve registry symbols).1 ≠ .waiting := by
  unfold resolve
  split <;> exact Slot.noConfusion

end Waiting

/-- What an assembly ends with: what became of every instruction, in order, and all that was
logged. -/
structure Finished where
  results : List (Except LineFault Item)
  events : List Event

namespace Slot

/-- Fills the slots of waiting instructions, one after the other, and goes on with the log. -/
def fillAll (registry : Registry) (symbols : SymbolTable) (slots : Array Slot) (log : Array Event) :
    List Waiting → Option (Array Slot × Array Event)
  | []      => some (slots, log)
  | w :: ws =>
    if h : w.slot < slots.size then
      let outcome := w.resolve registry symbols
      fillAll registry symbols (slots.set w.slot outcome.1 h) (log ++ outcome.2) ws
    else none

/-- What became of a slot, unless it is still open. -/
def result? : Slot → Option (Except LineFault Item)
  | ready a  => some (.ok a)
  | failed e => some (.error e)
  | waiting  => none

/-- The open slots are those of the waiting instructions. -/
def Matched (slots : Array Slot) (ws : Array Waiting) : Prop :=
  ∀ i, slots[i]? = some .waiting ↔ ∃ w ∈ ws, w.slot = i

theorem matched_empty : Matched #[] #[] := by
  intro i
  simp

/-- A slot that is not open needs no record. -/
theorem Matched.push {slots : Array Slot} {ws : Array Waiting} (h : Matched slots ws) {a : Slot}
    (ha : a ≠ .waiting) : Matched (slots.push a) ws := by
  intro i
  rw [← h i, Array.getElem?_push]
  by_cases hi : i = slots.size
  · simp [hi, ha]
  · simp [hi]

/-- An open slot comes with the record of its instruction. -/
theorem Matched.push_waiting {slots : Array Slot} {ws : Array Waiting} (h : Matched slots ws)
    {w : Waiting} (hw : w.slot = slots.size) : Matched (slots.push .waiting) (ws.push w) := by
  intro i
  rw [Array.getElem?_push]
  by_cases hi : i = slots.size
  · rw [if_pos hi]
    exact ⟨fun _ => ⟨w, Array.mem_push_self, by rw [hw, hi]⟩, fun _ => rfl⟩
  · rw [if_neg hi, h i]
    constructor
    · rintro ⟨v, hv, rfl⟩
      exact ⟨v, Array.mem_push_of_mem w hv, rfl⟩
    · rintro ⟨v, hv, rfl⟩
      rcases Array.mem_push.mp hv with hv | rfl
      · exact ⟨v, hv, rfl⟩
      · exact absurd hw hi

/-- Filling succeeds when every record has its slot.  A slot without a record stays as it was, and
any other holds what a record of it became. -/
theorem fillAll_slots (registry : Registry) (symbols : SymbolTable) (ws : List Waiting) :
    ∀ (slots : Array Slot) (log : Array Event), (∀ w ∈ ws, w.slot < slots.size) →
      ∃ filled log', fillAll registry symbols slots log ws = some (filled, log') ∧
        filled.size = slots.size ∧
        ∀ i, (filled[i]? = slots[i]? ∧ ∀ w ∈ ws, w.slot ≠ i) ∨
          ∃ w ∈ ws, w.slot = i ∧ filled[i]? = some (w.resolve registry symbols).1 := by
  induction ws with
  | nil =>
      intro slots log _
      exact ⟨slots, log, rfl, rfl, fun i => Or.inl ⟨rfl, fun w hw => absurd hw List.not_mem_nil⟩⟩
  | cons w ws ih =>
      intro slots log h
      have hw : w.slot < slots.size := h w List.mem_cons_self
      obtain ⟨filled, log', hf, hsize, hi⟩ := ih
        (slots.set w.slot (w.resolve registry symbols).1 hw) (log ++ (w.resolve registry symbols).2)
        (fun v hv => by rw [Array.size_set]; exact h v (List.mem_cons_of_mem w hv))
      refine ⟨filled, log', by rw [fillAll, dif_pos hw, hf], by rw [hsize, Array.size_set],
        fun i => ?_⟩
      rcases hi i with ⟨hs, hn⟩ | ⟨v, hv, e, hs⟩
      · rw [Array.getElem?_set] at hs
        by_cases e : w.slot = i
        · rw [if_pos e] at hs
          exact Or.inr ⟨w, List.mem_cons_self, e, hs⟩
        · rw [if_neg e] at hs
          refine Or.inl ⟨hs, fun v hv => ?_⟩
          rcases List.mem_cons.mp hv with rfl | hv
          · exact e
          · exact hn v hv
      · exact Or.inr ⟨v, List.mem_cons_of_mem w hv, e, hs⟩

/-- Filling logs what each record logs, in order. -/
theorem fillAll_log {registry : Registry} {symbols : SymbolTable} {ws : List Waiting} :
    ∀ {slots filled : Array Slot} {log log' : Array Event},
      fillAll registry symbols slots log ws = some (filled, log') →
        log'.toList = log.toList ++ ws.flatMap fun w => (w.resolve registry symbols).2 := by
  induction ws with
  | nil =>
      intro slots filled log log' h
      obtain ⟨-, rfl⟩ := Prod.mk.inj (Option.some.inj h)
      rw [List.flatMap_nil, List.append_nil]
  | cons w ws ih =>
      intro slots filled log log' h
      rw [fillAll] at h
      split at h
      · rw [ih h, List.flatMap_cons, Array.toList_appendList, List.append_assoc]
      · cases h

/-- The second pass: fills the slots of the waiting instructions, goes on with the log, and tells
what became of every slot. -/
def finishAll? (registry : Registry) (symbols : SymbolTable) (slots : Array Slot)
    (log : Array Event) (ws : Array Waiting) : Option Finished :=
  (fillAll registry symbols slots log ws.toList).bind fun done =>
    (done.1.toList.mapM result?).map fun results => ⟨results, done.2.toList⟩

theorem isSome_mapM_result? {slots : List Slot} (h : .waiting ∉ slots) :
    (slots.mapM result?).isSome := by
  induction slots with
  | nil => rfl
  | cons a slots ih =>
      obtain ⟨hw, ht⟩ := List.ne_and_not_mem_of_not_mem_cons h
      obtain ⟨r, hr⟩ : ∃ r, a.result? = some r := by
        cases a with
        | ready a => exact ⟨_, rfl⟩
        | waiting => exact absurd rfl hw
        | failed e => exact ⟨_, rfl⟩
      obtain ⟨rs, hrs⟩ := Option.isSome_iff_exists.mp (ih ht)
      simp [List.mapM_cons, hr, hrs]

theorem Matched.slot_lt {slots : Array Slot} {ws : Array Waiting} (h : Matched slots ws) :
    ∀ w ∈ ws.toList, w.slot < slots.size := fun w hw =>
  (Array.getElem?_eq_some_iff.mp ((h w.slot).mpr ⟨w, Array.mem_toList_iff.mp hw, rfl⟩)).1

/-- The second pass does not break off when the open slots are those of the waiting
instructions. -/
theorem Matched.isSome_finishAll? {slots : Array Slot} {ws : Array Waiting} (h : Matched slots ws)
    (registry : Registry) (symbols : SymbolTable) (log : Array Event) :
    (finishAll? registry symbols slots log ws).isSome := by
  obtain ⟨filled, log', hf, -, hi⟩ := fillAll_slots registry symbols ws.toList slots log h.slot_lt
  rw [finishAll?, hf, Option.bind_some, Option.isSome_map]
  apply isSome_mapM_result?
  intro hm
  obtain ⟨i, ho⟩ := List.mem_iff_getElem?.mp hm
  rw [Array.getElem?_toList] at ho
  rcases hi i with ⟨hs, hn⟩ | ⟨w, -, -, hs⟩
  · rw [hs] at ho
    obtain ⟨w, hw, rfl⟩ := (h i).mp ho
    exact hn w (Array.mem_toList_iff.mpr hw) rfl
  · rw [hs] at ho
    exact Waiting.resolve_ne_waiting registry symbols w (Option.some.inj ho)

end Slot

end Asm32
