import Asm32.Session
import Asm32.Proofs.Resolution

/-!
# Two passes do the work of one

A session encodes an instruction when it is read, if it can, and else when the program ends.  What
becomes of it is nevertheless what one pass with all labels known would make of it (`onePass`).

The argument follows the list of the instructions that the session was fed, each with the answer
that was given for it (`Session.fedAll`).  `Session.Tracks` says how the session holds that list:
the instruction with the number `i` has the slot `i` and the address of the `i`-th word; its slot
holds what its dispatch with the labels declared so far gives, or is open and has a record.  Every
call keeps this (`Tracks.call`), a later declaration because it changes no settled instruction.

**Two passes** (`Session.finish?_callAll`).  After any calls, the second pass gives for each
instruction what one pass with the labels of the whole program gives.
-/

namespace Asm32

/-- What becomes of a statement at an address when the labels are those of `symbols`. -/
def onePass (registry : Registry) (symbols : SymbolTable) (st : Statement) (address : UInt32) :
    Except LineFault Item :=
  match registry.dispatch symbols st.mnemonic st.operands with
  | .ok (.resolved op)  => .ok (st.item address op)
  | .ok (.unresolved l) => .error ⟨st.line, .undefinedLabel l⟩
  | .error f            => .error ⟨st.line, f⟩

/-- The address of the word with the number `i`. -/
def Setting.addressOf (setting : Setting) (i : Nat) : UInt32 :=
  setting.origin + UInt32.ofNat (4 * i)

namespace Session

/-! ### The instructions that a session is fed -/

/-- An instruction that a session was fed, and what the session answered. -/
abbrev Feed := Statement × Except LineFault Unit

def feed (s : Session) (st : Statement) : Feed := (st, (s.addStatement st).2)

/-- The instruction of a line, if it holds one. -/
def fedLine (s : Session) (number : Nat) (raw : String) : List Feed :=
  match Line.read number raw with
  | .ok (.statement st) => [s.feed st]
  | _                   => []

/-- The instructions of numbered lines, up to the first line that is at fault. -/
def fedLines (s : Session) : List (Nat × String) → List Feed
  | []               => []
  | (n, raw) :: rest =>
    s.fedLine n raw ++
      match s.addLine n raw with
      | (s', .ok ()) => s'.fedLines rest
      | (_, .error _) => []

/-- The instructions that a call feeds to a session. -/
def fed (s : Session) : Call → List Feed
  | .line number raw => s.fedLine number raw
  | .label _ _       => []
  | .statement st    => [s.feed st]
  | .source text     => s.fedLines (Text.numberedLines text)

/-- The instructions that calls feed to a session, in order. -/
def fedAll (s : Session) : List Call → List Feed
  | []      => []
  | c :: cs => s.fed c ++ (s.call c).1.fedAll cs

/-! ### How a session holds what it was fed -/

/-- What the slot of a statement holds, and what was answered for it. -/
inductive Holds (registry : Registry) (symbols : SymbolTable) (st : Statement) (address : UInt32) :
    Except LineFault Unit → Slot → Prop
  | ready {op : UInt32}
      (h : registry.dispatch symbols st.mnemonic st.operands = .ok (.resolved op)) :
      Holds registry symbols st address (.ok ()) (.ready (st.item address op))
  | waiting : Holds registry symbols st address (.ok ()) .waiting
  | failed {f : Fault} (h : registry.dispatch symbols st.mnemonic st.operands = .error f) :
      Holds registry symbols st address (.error ⟨st.line, f⟩) (.failed ⟨st.line, f⟩)

/-- A slot that is filled stays right when labels are declared. -/
theorem Holds.of_le {registry : Registry} {t t' : SymbolTable} (hle : t.Le t') {st : Statement}
    {address : UInt32} {r : Except LineFault Unit} {a : Slot}
    (h : Holds registry t st address r a) : Holds registry t' st address r a := by
  cases h with
  | ready h =>
      have hs := Registry.dispatch_of_le hle (by rw [h]; exact settled_resolved _)
      exact .ready (hs.trans h)
  | waiting => exact .waiting
  | failed h =>
      have hs := Registry.dispatch_of_le hle (by rw [h]; exact settled_error _)
      exact .failed (hs.trans h)

/-- The session holds the instructions of `fed`. -/
structure Tracks (registry : Registry) (setting : Setting) (s : Session) (fed : List Feed) :
    Prop where
  registry_eq : s.registry = registry
  address_eq : s.address = setting.addressOf fed.length
  size_eq : s.slots.size = fed.length
  slot : ∀ i st r, fed[i]? = some (st, r) →
    ∃ a, s.slots[i]? = some a ∧ Holds registry s.symbols st (setting.addressOf i) r a
  record : ∀ w ∈ s.waiting,
    w.address = setting.addressOf w.slot ∧ ∃ r, fed[w.slot]? = some (w.statement, r)

variable {registry : Registry} {setting : Setting} {s : Session} {fed : List Feed}

theorem tracks_start (registry : Registry) (setting : Setting) :
    Tracks registry setting (start registry setting) [] where
  registry_eq := rfl
  address_eq := by
    show setting.origin = setting.origin + UInt32.ofNat 0
    simp
  size_eq := rfl
  slot := by
    intro i st r h
    cases h
  record := by
    intro w hw
    exact absurd hw (Array.not_mem_empty w)

theorem addressOf_succ (setting : Setting) (i : Nat) :
    setting.addressOf (i + 1) = setting.addressOf i + UInt32.ofNat wordBytes := by
  simp only [Setting.addressOf, wordBytes, Nat.mul_succ, UInt32.ofNat_add, UInt32.add_assoc]

/-- A session that has taken one more instruction. -/
theorem Tracks.push (h : Tracks registry setting s fed) {s' : Session} {st : Statement}
    {r : Except LineFault Unit} {a : Slot} (ha : Holds registry s.symbols st s.address r a)
    (hregistry : s'.registry = s.registry) (hsymbols : s'.symbols = s.symbols)
    (haddress : s'.address = s.address + UInt32.ofNat wordBytes)
    (hslots : s'.slots = s.slots.push a)
    (hwaiting : ∀ w ∈ s'.waiting, w ∈ s.waiting ∨ w = ⟨st, s.address, s.slots.size⟩) :
    Tracks registry setting s' (fed ++ [(st, r)]) where
  registry_eq := hregistry.trans h.registry_eq
  address_eq := by
    rw [haddress, h.address_eq, List.length_append, List.length_singleton, addressOf_succ]
  size_eq := by rw [hslots, Array.size_push, h.size_eq, List.length_append, List.length_singleton]
  slot := by
    intro i st' r' hi
    rw [hslots, hsymbols, Array.getElem?_push, h.size_eq]
    by_cases e : i = fed.length
    · rw [e, List.getElem?_concat_length] at hi
      obtain ⟨rfl, rfl⟩ := Prod.mk.inj (Option.some.inj hi)
      rw [if_pos e, e, ← h.address_eq]
      exact ⟨a, rfl, ha⟩
    · have hlt := (List.getElem?_eq_some_iff.mp hi).1
      rw [List.length_append, List.length_singleton] at hlt
      rw [List.getElem?_append_left (by omega)] at hi
      rw [if_neg e]
      exact h.slot i st' r' hi
  record := by
    intro w hw
    rcases hwaiting w hw with hw | rfl
    · obtain ⟨hadd, r', hr⟩ := h.record w hw
      refine ⟨hadd, r', ?_⟩
      rw [List.getElem?_append_left (List.getElem?_eq_some_iff.mp hr).1]
      exact hr
    · refine ⟨?_, r, ?_⟩
      · show s.address = setting.addressOf s.slots.size
        rw [h.address_eq, h.size_eq]
      · show (fed ++ [(st, r)])[s.slots.size]? = some (st, r)
        rw [h.size_eq]
        exact List.getElem?_concat_length

/-! ### What the calls keep -/

theorem Tracks.addStatement (h : Tracks registry setting s fed) (st : Statement) :
    Tracks registry setting (s.addStatement st).1 (fed ++ [s.feed st]) := by
  obtain ⟨hregistry, hsymbols, haddress, hleaves, hanswer⟩ := s.adds_addStatement st
  rw [h.registry_eq] at hleaves hanswer
  rw [feed, hanswer]
  generalize hd : registry.dispatch s.symbols st.mnemonic st.operands = r at hleaves ⊢
  cases hleaves with
  | word hslots hwaiting _ =>
      exact h.push (.ready hd) hregistry hsymbols haddress hslots fun w hw => Or.inl (hwaiting ▸ hw)
  | record hslots hwaiting _ =>
      exact h.push .waiting hregistry hsymbols haddress hslots fun w hw =>
        Array.mem_push.mp (hwaiting ▸ hw)
  | fault hslots hwaiting _ =>
      exact h.push (.failed hd) hregistry hsymbols haddress hslots fun w hw =>
        Or.inl (hwaiting ▸ hw)

theorem Tracks.declareLabel (h : Tracks registry setting s fed) (line : Nat) (name : String) :
    Tracks registry setting (s.declareLabel line name).1 fed := by
  rcases s.declareLabel_cases line name with ⟨y, -, hs⟩ | ⟨-, t, hd, -, hs⟩
  · rw [hs]
    exact h
  · -- the symbols alone change; a settled slot holds with more of them, an open one with any
    rw [hs]
    refine ⟨h.registry_eq, h.address_eq, h.size_eq, fun i st r hi => ?_, h.record⟩
    obtain ⟨a, ha, hholds⟩ := h.slot i st r hi
    exact ⟨a, ha, hholds.of_le (SymbolTable.le_declare hd)⟩

theorem Tracks.addLine (h : Tracks registry setting s fed) (number : Nat) (raw : String) :
    Tracks registry setting (s.addLine number raw).1 (fed ++ s.fedLine number raw) := by
  rw [fedLine, Session.addLine]
  cases Line.read number raw with
  | error f =>
      rw [List.append_nil]
      exact h
  | ok l =>
      cases l with
      | blank =>
          rw [List.append_nil]
          exact h
      | label name =>
          rw [List.append_nil]
          exact h.declareLabel number name
      | statement st => exact h.addStatement st

theorem Tracks.addLines {ls : List (Nat × String)} (h : Tracks registry setting s fed) :
    Tracks registry setting (s.addLines ls).1 (fed ++ s.fedLines ls) := by
  induction ls generalizing s fed with
  | nil =>
      rw [fedLines, List.append_nil]
      exact h
  | cons l ls ih =>
      obtain ⟨n, raw⟩ := l
      have hl := h.addLine n raw
      rw [fedLines, Session.addLines, ← List.append_assoc]
      rcases hadd : s.addLine n raw with ⟨s', _ | _⟩
      · -- a line at fault ends the source, but may have fed its instruction
        rw [hadd] at hl
        rw [List.append_nil]
        exact hl
      · rw [hadd] at hl
        exact ih hl

theorem Tracks.call (h : Tracks registry setting s fed) (c : Call) :
    Tracks registry setting (s.call c).1 (fed ++ s.fed c) := by
  cases c with
  | line number raw => exact h.addLine number raw
  | label line name =>
      rw [Session.fed, List.append_nil]
      exact h.declareLabel line name
  | statement st => exact h.addStatement st
  | source text => exact h.addLines

/-- **The run.**  Calls in any order keep track of what they feed. -/
theorem Tracks.callAll (h : Tracks registry setting s fed) (cs : List Call) :
    Tracks registry setting (s.callAll cs).1 (fed ++ s.fedAll cs) := by
  induction cs generalizing s fed with
  | nil =>
      rw [fedAll, List.append_nil]
      exact h
  | cons c cs ih =>
      rw [fedAll, ← List.append_assoc]
      exact ih (h.call c)

/-! ### The second pass -/

/-- A record becomes what one pass makes of its statement. -/
theorem result?_resolve (registry : Registry) (symbols : SymbolTable) (w : Waiting) :
    (w.resolve registry symbols).1.result? =
      some (onePass registry symbols w.statement w.address) := by
  rw [Waiting.resolve, onePass]
  cases registry.dispatch symbols w.statement.mnemonic w.statement.operands with
  | error f => rfl
  | ok r => cases r <;> rfl

/-- A slot that was filled early holds what one pass makes of its statement. -/
theorem Holds.result? {symbols : SymbolTable} {st : Statement} {address : UInt32}
    {r : Except LineFault Unit} {a : Slot} (h : Holds registry symbols st address r a)
    (ha : a ≠ .waiting) : a.result? = some (onePass registry symbols st address) := by
  rw [onePass]
  cases h with
  | ready h => rw [h]; rfl
  | waiting => exact absurd rfl ha
  | failed h => rw [h]; rfl

theorem Holds.onePass_eq_error {symbols : SymbolTable} {st : Statement} {address : UInt32}
    {e : LineFault} {a : Slot} (h : Holds registry symbols st address (.error e) a) :
    onePass registry symbols st address = .error e := by
  rw [onePass]
  cases h with
  | failed h => rw [h]

theorem mapM_eq_some_of_map {α β : Type} {f : α → Option β} {as : List α} {bs : List β}
    (h : as.map f = bs.map some) : as.mapM f = some bs := by
  induction as generalizing bs with
  | nil =>
      obtain rfl := List.map_eq_nil_iff.mp h.symm
      rfl
  | cons a as ih =>
      cases bs with
      | nil => cases h
      | cons b bs =>
          obtain ⟨ha, has⟩ := List.cons.inj h
          simp [List.mapM_cons, ha, ih has]

/-- The results of one pass over what a session was fed. -/
def onePassAll (registry : Registry) (setting : Setting) (symbols : SymbolTable)
    (fed : List Feed) : List (Except LineFault Item) :=
  fed.mapIdx fun i f => onePass registry symbols f.1 (setting.addressOf i)

/-- After the second pass a slot holds what one pass makes of its statement. -/
theorem Tracks.result?_filled (h : Tracks registry setting s fed) {filled : Array Slot} {i : Nat}
    {st : Statement} {r : Except LineFault Unit} (hfed : fed[i]? = some (st, r))
    (hi : (filled[i]? = s.slots[i]? ∧ ∀ w ∈ s.waiting.toList, w.slot ≠ i) ∨
      ∃ w ∈ s.waiting.toList, w.slot = i ∧ filled[i]? = some (w.resolve registry s.symbols).1) :
    filled[i]?.map Slot.result? = some (some (onePass registry s.symbols st (setting.addressOf i)))
    := by
  rcases hi with ⟨hs, hn⟩ | ⟨w, hw, rfl, hs⟩
  · -- a slot without a record is not open, so the first pass has filled it
    obtain ⟨a, ha, hholds⟩ := h.slot i st r hfed
    have hne : a ≠ .waiting := by
      rintro rfl
      obtain ⟨w, hw, hwi⟩ := (s.matched i).mp ha
      exact hn w (Array.mem_toList_iff.mpr hw) hwi
    rw [hs, ha, Option.map_some, hholds.result? hne]
  · -- all records of a slot hold the statement with its number, so it does not matter which it was
    obtain ⟨hadd, r', hr⟩ := h.record w (Array.mem_toList_iff.mp hw)
    rw [hfed] at hr
    obtain ⟨rfl, -⟩ := Prod.mk.inj (Option.some.inj hr)
    rw [hs, Option.map_some, result?_resolve, hadd]

/-- The second pass of a session that holds `fed` gives the results of one pass over `fed`. -/
theorem Tracks.finish?_eq_onePassAll (h : Tracks registry setting s fed) :
    s.finish? = some (onePassAll registry setting s.symbols fed) := by
  obtain ⟨filled, log, hf, hsize, hi⟩ :=
    Slot.fillAll_slots s.registry s.symbols s.waiting.toList s.slots _ s.matched.slot_lt
  have hresults : filled.toList.mapM Slot.result? =
      some (onePassAll registry setting s.symbols fed) := by
    apply mapM_eq_some_of_map
    apply List.ext_getElem?
    intro i
    rw [List.getElem?_map, List.getElem?_map, Array.getElem?_toList, onePassAll,
      List.getElem?_mapIdx]
    cases hfed : fed[i]? with
    | none =>
        have hle : filled.size ≤ i := by
          rw [hsize, h.size_eq]
          exact List.getElem?_eq_none_iff.mp hfed
        rw [Array.getElem?_eq_none hle]
        rfl
    | some f =>
        have hi := hi i
        rw [h.registry_eq] at hi
        exact h.result?_filled hfed hi
  rw [finish?, secondPass?, Slot.finishAll?, hf, Option.bind_some, hresults]
  rfl

theorem Tracks.finish_eq (h : Tracks registry setting s fed) :
    s.finish = onePassAll registry setting s.symbols fed :=
  Option.some.inj (s.finish?_eq.symm.trans h.finish?_eq_onePassAll)

/-- An instruction that was refused when it was read is refused in the same way by one pass. -/
theorem Tracks.onePassAll_error (h : Tracks registry setting s fed) {i : Nat} {st : Statement}
    {e : LineFault} (hi : fed[i]? = some (st, .error e)) :
    (onePassAll registry setting s.symbols fed)[i]? = some (.error e) := by
  obtain ⟨a, -, hholds⟩ := h.slot i st _ hi
  rw [onePassAll, List.getElem?_mapIdx, hi, Option.map_some, hholds.onePass_eq_error]

/-- **Two passes.**  Whatever calls a session has had, the second pass comes to its end, and it
gives one result for each instruction that the calls have fed, in order: what one pass makes of the
instruction at its address with the labels of the whole program.  An instruction that was refused
when it was fed has that refusal as its result. -/
theorem finish?_callAll (registry : Registry) (setting : Setting) (calls : List Call) :
    let s := ((start registry setting).callAll calls).1
    let fed := (start registry setting).fedAll calls
    ∃ results : List (Except LineFault Item), s.finish? = some results ∧
      results = fed.mapIdx (fun i f =>
        onePass registry s.symbols f.1 (setting.origin + UInt32.ofNat (4 * i))) ∧
      ∀ (i : Nat) (st : Statement) (e : LineFault),
        fed[i]? = some (st, .error e) → results[i]? = some (.error e) := by
  intro s fed
  have h : Tracks registry setting s fed := (tracks_start registry setting).callAll calls
  exact ⟨_, h.finish?_eq_onePassAll, rfl, fun i st e hi => h.onePassAll_error hi⟩

end Session

end Asm32
