import Asm32.Proofs.Domains
import Asm32.Proofs.Entries
import Asm32.Proofs.Registration

/-!
# Calls that leave no trace

A call can fail in two ways.  A label that cannot be read, or that is bound already, is refused and
the session stays as it was.  An instruction that is refused takes its slot and its address, and
nothing else changes.  `Session.call_error_cases` says so for every call and every session.

A run is followed step by step (`Session.steps`); a step is a session and the call that it is given.
Steps that leave the session as it was can be struck out of a run, and the others stay what they
were (`Session.steps_filter`).

**No trace** (`Session.steps_without_refused_labels`).  A run without the labels that it refuses has
the same other steps, and the same results at its end.
-/

namespace Asm32

/-- The fault of a label: its declaration cannot be read, or its name is bound already. -/
def Fault.isOfLabel : Fault → Bool
  | .malformedLabel _   => true
  | .duplicateLabel _ _ => true
  | _                   => false

/-! ### Which faults are those of labels -/

/-- A line that cannot be read is at fault for a label. -/
theorem Line.isOfLabel_of_read {number : Nat} {raw : String} {f : Fault}
    (h : read number raw = .error f) : f.isOfLabel = true := by
  rw [read] at h
  split at h
  · cases h
  · split at h
    · split at h
      · cases h
      · cases h
        rfl
    · cases h

theorem Operand.isOfLabel_of_read {t : SymbolTable} {token : String} {f : Fault}
    (h : read t token = .error f) : f.isOfLabel = false := by
  unfold read at h
  split at h
  · split at h
    · cases h
    · cases h
      rfl
  · split at h
    · cases h
    · split at h
      · unfold readConstant at h
        split at h
        · cases h
        · cases h
          rfl
      · split at h
        · split at h <;> cases h
        · cases h
          rfl

theorem Operand.isOfLabel_of_readAll {t : SymbolTable} {tokens : List String} {f : Fault}
    (h : readAll t tokens = .error f) : f.isOfLabel = false := by
  induction tokens with
  | nil => cases h
  | cons token tokens ih =>
      rw [readAll] at h
      split at h
      · cases h
        exact isOfLabel_of_read ‹_›
      · cases h
      · split at h
        · cases h
          exact ih ‹_›
        · cases h
        · cases h

theorem Group.isOfLabel_of_encode {g : Group} {m : String} {ops : List Operand} {f : Fault}
    (h : g.encode m ops = .error f) : f.isOfLabel = false := by
  have hanswer := answer_encode g m ops
  rw [h] at hanswer
  cases hanswer with
  | unknown => rfl
  | mismatch => rfl
  | unloadable => rfl

/-- An instruction of the set is never at fault for a label. -/
theorem Registry.isOfLabel_of_dispatch {t : SymbolTable} {m : String} {tokens : List String}
    {f : Fault} (h : standard.dispatch t m tokens = .error f) : f.isOfLabel = false := by
  obtain ⟨-, rfl⟩ | ⟨e, he, hread | ⟨ops, -, hw⟩⟩ := dispatch_eq_error_iff.mp h
  · rfl
  · exact Operand.isOfLabel_of_readAll hread
  · obtain ⟨g, -, rfl⟩ := lookup_standard_eq_some_iff.mp he
    exact Group.isOfLabel_of_encode hw

namespace Session

/-! ### What a call that fails leaves behind -/

theorem declareLabel_error {s : Session} {line : Nat} {name : String} {e : LineFault}
    (h : (s.declareLabel line name).2 = .error e) :
    e.fault.isOfLabel = true ∧ (s.declareLabel line name).1 = s := by
  rcases s.declareLabel_cases line name with ⟨y, -, hs⟩ | ⟨-, t, -, -, hs⟩
  · rw [hs] at h ⊢
    cases h
    exact ⟨rfl, rfl⟩
  · rw [hs] at h
    cases h

theorem addStatement_error {s : Session} {st : Statement} {e : LineFault}
    (h : (s.addStatement st).2 = .error e) :
    s.registry.dispatch s.symbols st.mnemonic st.operands = .error e.fault ∧
    (s.addStatement st).1.symbols = s.symbols ∧ (s.addStatement st).1.waiting = s.waiting ∧
    (s.addStatement st).1.slots = s.slots.push (.failed e) ∧
    (s.addStatement st).1.address = s.address + 4 := by
  obtain ⟨f, hd, rfl⟩ := addStatement_eq_error_iff.mp h
  obtain ⟨-, hsymbols, haddress, hleaves, -⟩ := s.adds_addStatement st
  rw [hd] at hleaves
  cases hleaves with
  | fault hslots hwaiting _ => exact ⟨hd, hsymbols, hwaiting, hslots, haddress⟩

/-- The instruction that a call tells the session. -/
def Call.statement? (c : Call) : Option Statement := c.entry?.bind Entry.statement?

/-- **The step.**  A call that fails is one of two things.  It tells no instruction; then it is at
fault for a label and leaves the session as it was.  Or it tells an instruction that cannot be
encoded, which takes a slot for its fault and one word. -/
theorem call_error_cases {s : Session} {c : Call} {e : LineFault} (hc : ∀ text, c ≠ .source text)
    (h : (s.call c).2 = .error e) :
    c.statement? = none ∧ e.fault.isOfLabel = true ∧ (s.call c).1 = s ∨
    ∃ st, c.statement? = some st ∧
      s.registry.dispatch s.symbols st.mnemonic st.operands = .error e.fault ∧
      (s.call c).1.symbols = s.symbols ∧ (s.call c).1.waiting = s.waiting ∧
      (s.call c).1.slots = s.slots.push (.failed e) ∧ (s.call c).1.address = s.address + 4 := by
  cases c with
  | source text => exact absurd rfl (hc text)
  | label line name => exact .inl ⟨rfl, declareLabel_error h⟩
  | statement st => exact .inr ⟨st, rfl, addStatement_error h⟩
  | line number raw =>
      show (Entry.ofLine (number, raw)).statement? = none ∧ _ ∧ _ ∨
        ∃ st, (Entry.ofLine (number, raw)).statement? = some st ∧ _
      rw [Entry.statement?, Entry.ofLine]
      rw [call, addLine] at h ⊢
      cases hread : Line.read number raw with
      | error f =>
          rw [hread] at h
          cases h
          exact .inl ⟨rfl, Line.isOfLabel_of_read hread, rfl⟩
      | ok l =>
          rw [hread] at h
          cases l with
          | blank => cases h
          | label name => exact .inl ⟨rfl, declareLabel_error h⟩
          | statement st => exact .inr ⟨st, rfl, addStatement_error h⟩

/-! ### Runs, step by step -/

/-- A step of a run: a session and the call that it is given. -/
structure Step where
  before : Session
  call : Call

namespace Step

/-- What the session answers. -/
def answer (x : Step) : Except LineFault Unit := (x.before.call x.call).2

/-- The session that has had the call. -/
def after (x : Step) : Session := (x.before.call x.call).1

/-- The fault that the session answers with. -/
def fault? (x : Step) : Option Fault :=
  match x.answer with
  | .error e => some e.fault
  | .ok ()   => none

/-- The call tells no instruction, and the session refuses it for a label. -/
def refusesLabel (x : Step) : Bool := x.call.statement?.isNone && x.fault?.any Fault.isOfLabel

theorem fault?_eq_some_iff {x : Step} {f : Fault} :
    x.fault? = some f ↔ ∃ e, x.answer = .error e ∧ e.fault = f := by
  rw [fault?]
  cases x.answer <;> simp

/-- A step that refuses a label leaves the session as it was. -/
theorem after_of_refusesLabel {x : Step} (hc : ∀ text, x.call ≠ .source text)
    (h : x.refusesLabel = true) : x.after = x.before := by
  rw [refusesLabel, Bool.and_eq_true, Option.isNone_iff_eq_none, Option.any_eq_true] at h
  obtain ⟨hnone, f, hf, -⟩ := h
  obtain ⟨e, he, -⟩ := fault?_eq_some_iff.mp hf
  obtain ⟨-, -, hsame⟩ | ⟨st, hst, -⟩ := call_error_cases hc he
  · exact hsame
  · rw [hnone] at hst
    cases hst

end Step

/-- The steps of calls that are performed in order. -/
def steps (s : Session) : List Call → List Step
  | []      => []
  | c :: cs => ⟨s, c⟩ :: (s.call c).1.steps cs

theorem map_call_steps (s : Session) (calls : List Call) :
    (s.steps calls).map Step.call = calls := by
  induction calls generalizing s with
  | nil => rfl
  | cons c calls ih => rw [steps, List.map_cons, ih]

/-- A step is given one of the calls, by the session that has had the calls before it. -/
theorem of_mem_steps {s : Session} {calls : List Call} {x : Step} (h : x ∈ s.steps calls) :
    ∃ p, calls[p]? = some x.call ∧ (s.callAll (calls.take p)).1 = x.before := by
  induction calls generalizing s with
  | nil => cases h
  | cons c calls ih =>
      rcases List.mem_cons.mp h with rfl | h
      · exact ⟨0, rfl, rfl⟩
      · obtain ⟨p, hcall, hbefore⟩ := ih h
        exact ⟨p + 1, hcall, hbefore⟩

/-- **Striking out.**  Steps that leave the session as it was can be left out of a run: the others
are the same steps, and the run ends with the same session. -/
theorem steps_filter {keep : Step → Bool} {s : Session} {calls : List Call}
    (h : ∀ x ∈ s.steps calls, keep x = false → x.after = x.before) :
    s.steps (((s.steps calls).filter keep).map Step.call) = (s.steps calls).filter keep ∧
    (s.callAll (((s.steps calls).filter keep).map Step.call)).1 = (s.callAll calls).1 := by
  induction calls generalizing s with
  | nil => exact ⟨rfl, rfl⟩
  | cons c calls ih =>
      rw [steps, List.forall_mem_cons] at h
      obtain ⟨hc, hcalls⟩ := h
      obtain ⟨hsteps, hend⟩ := ih hcalls
      rw [steps, callAll]
      cases hk : keep ⟨s, c⟩ with
      | true =>
          rw [List.filter_cons_of_pos hk, List.map_cons, steps, callAll, hsteps, hend]
          exact ⟨rfl, rfl⟩
      | false =>
          -- the session has not moved, so the rest is a run of its own from here
          have hsame : (s.call c).1 = s := hc hk
          rw [hsame] at hsteps hend ⊢
          rw [List.filter_cons_of_neg (by rw [hk]; exact Bool.false_ne_true)]
          exact ⟨hsteps, hend⟩

/-- The steps of a session that has just started have its registry. -/
theorem registry_of_mem_steps {registry : Registry} {setting : Setting} {calls : List Call}
    {x : Step} (h : x ∈ (start registry setting).steps calls) : x.before.registry = registry := by
  obtain ⟨p, -, hbefore⟩ := of_mem_steps h
  rw [← hbefore]
  exact ((tracks_start registry setting).callAll (calls.take p)).registry_eq

/-- With the standard registry the calls that tell an instruction are never at fault for a label. -/
theorem refusesLabel_of_standard {setting : Setting} {calls : List Call}
    (hcalls : ∀ c ∈ calls, ∀ text, c ≠ .source text) {x : Step}
    (h : x ∈ (start .standard setting).steps calls) :
    x.refusesLabel = x.fault?.any Fault.isOfLabel := by
  rw [Step.refusesLabel, Bool.and_eq_right_iff_imp, Option.any_eq_true, Option.isNone_iff_eq_none]
  rintro ⟨f, hf, hlabel⟩
  obtain ⟨e, he, rfl⟩ := Step.fault?_eq_some_iff.mp hf
  obtain ⟨p, hcall, -⟩ := of_mem_steps h
  obtain ⟨hnone, -⟩ | ⟨st, -, hd, -⟩ :=
    call_error_cases (hcalls x.call (List.mem_of_getElem? hcall)) he
  · exact hnone
  · -- an instruction is at fault for its dispatch, and that fault is never one of a label
    rw [registry_of_mem_steps h] at hd
    rw [Registry.isOfLabel_of_dispatch hd] at hlabel
    cases hlabel

/-- **No trace.**  A session is given calls, none of them a whole source, and the steps that refuse
a label are struck out.  Then the calls of the other steps, made alone, are the same steps: each has
the same session before and after it and the same answer.  The results at the end are the same too.
With the standard registry the steps that are struck out are all those with the fault of a label.  A
step with any other fault leaves the labels, the records of waiting instructions and the slots as
they were; it adds a slot that holds the fault, and the next address is one word further. -/
theorem steps_without_refused_labels (registry : Registry) (setting : Setting) {calls : List Call}
    (hcalls : ∀ c ∈ calls, ∀ text, c ≠ .source text) :
    let s := start registry setting
    let run := s.steps calls
    let kept := run.filter fun x => !x.refusesLabel
    s.steps (kept.map Step.call) = kept ∧
    (s.callAll (kept.map Step.call)).1.finish = (s.callAll calls).1.finish ∧
    (registry = .standard → ∀ x ∈ run, x.refusesLabel = x.fault?.any Fault.isOfLabel) ∧
    ∀ x ∈ run, ∀ e, x.answer = .error e → e.fault.isOfLabel = false →
      x.after.symbols = x.before.symbols ∧ x.after.waiting = x.before.waiting ∧
      x.after.slots = x.before.slots.push (.failed e) ∧
      x.after.address = x.before.address + 4 := by
  intro s run kept
  have hcall : ∀ x ∈ run, ∀ text, x.call ≠ .source text := by
    intro x hx
    obtain ⟨p, hp, -⟩ := of_mem_steps hx
    exact hcalls x.call (List.mem_of_getElem? hp)
  have hstruck : ∀ x ∈ run, (!x.refusesLabel) = false → x.after = x.before := by
    intro x hx hr
    exact Step.after_of_refusesLabel (hcall x hx) (by simpa using hr)
  obtain ⟨hsteps, hend⟩ := steps_filter hstruck
  refine ⟨hsteps, by rw [hend], ?_, fun x hx e he hother => ?_⟩
  · rintro rfl x hx
    exact refusesLabel_of_standard hcalls hx
  · obtain ⟨-, hlabel, -⟩ | ⟨st, -, -, hafter⟩ := call_error_cases (hcall x hx) he
    · rw [hother] at hlabel
      cases hlabel
    · exact hafter

/-- Two declarations are refused, one that is a second one and one that cannot be read; the
instruction at fault between them keeps its word, so the labels after it stay where they are. -/
theorem steps_without_refused_labels_session :
    let calls : List Call := [.label 1 "@a", .line 2 "@a:", .line 3 "bogus r0", .line 4 "@b",
      .statement ⟨5, "ldi", ["r1", "@c"], ""⟩, .line 6 "@c:"]
    let others : List Call := [.label 1 "@a", .line 3 "bogus r0",
      .statement ⟨5, "ldi", ["r1", "@c"], ""⟩, .line 6 "@c:"]
    let s := start .standard ⟨0xFFFFFFFC⟩
    let bogus : Step := ⟨(s.callAll [.label 1 "@a", .line 2 "@a:"]).1, .line 3 "bogus r0"⟩
    ((s.steps calls).filter fun x => !x.refusesLabel).map Step.call = others ∧
    s.steps others = (s.steps calls).filter (fun x => !x.refusesLabel) ∧
    (s.callAll others).1.finish = (s.callAll calls).1.finish ∧
    (s.steps calls).map Step.refusesLabel = [false, true, false, true, false, false] ∧
    bogus ∈ s.steps calls ∧ bogus.answer = .error ⟨3, .unknownMnemonic "bogus"⟩ ∧
    bogus.after.symbols = bogus.before.symbols ∧ bogus.after.waiting = bogus.before.waiting ∧
    bogus.after.slots = #[.failed ⟨3, .unknownMnemonic "bogus"⟩] ∧
    bogus.before.address = 0xFFFFFFFC ∧ bogus.after.address = 0 := by
  intro calls others s bogus
  have hcalls : ∀ c ∈ calls, ∀ text, c ≠ .source text := by simp [calls]
  have hbogus : bogus ∈ s.steps calls :=
    List.mem_of_getElem? (show (s.steps calls)[2]? = some bogus from rfl)
  have hanswer : bogus.answer = .error ⟨3, .unknownMnemonic "bogus"⟩ := rfl
  have hothers : ((s.steps calls).filter fun x => !x.refusesLabel).map Step.call = others := rfl
  obtain ⟨hsteps, hfinish, hrefuses, hfault⟩ :=
    steps_without_refused_labels .standard ⟨0xFFFFFFFC⟩ hcalls
  rw [hothers] at hsteps hfinish
  have hlabels := List.map_congr_left (hrefuses rfl)
  obtain ⟨hsymbols, hwaiting, hslots, haddress⟩ := hfault bogus hbogus _ hanswer rfl
  exact ⟨hothers, hsteps, hfinish, hlabels.trans rfl, hbogus, hanswer, hsymbols, hwaiting, hslots,
    rfl, haddress.trans (by decide +kernel)⟩

end Session

end Asm32
