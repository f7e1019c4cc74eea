import Asm32.Proofs.Operands
import Asm32.Proofs.Registration

/-!
# What an instruction waits for

Operands are read from left to right, and reading stops at the first that is at fault or waits for
a label.  So the label that an instruction waits for has a place among the operands: it is not
bound, and every operand in front of it is resolved (`Operand.readAll_eq_unresolved_iff`).  What
stands behind it has not been looked at, and neither has the number of operands.

A larger table leaves the operands in front of that place as they were (`Operand.WaitsFor.of_le`).
Together with `Registry.dispatch_of_le`, which is about instructions that do not wait, this says
what further declarations can do to an instruction.

**Declarations** (`Registry.dispatch_after_declarations`).  An outcome that is no waiting is final,
and an instruction waits for one and the same label until that label is bound.
-/

namespace Asm32

namespace Operand

variable {t t' : SymbolTable} {tokens : List String} {l : String}

/-- Only a reference waits, and it waits for itself. -/
theorem read_eq_unresolved_iff {token : String} :
    read t token = .ok (.unresolved l) ↔
      l = token ∧ IsReference token.toList ∧ t.lookup token = none := by
  constructor
  · intro h
    cases reading_iff.mpr h with
    | unbound href hnone => exact ⟨rfl, href, hnone⟩
  · rintro ⟨rfl, href, hnone⟩
    exact reading_iff.mp (.unbound href hnone)

/-- The label is one of the tokens and is not bound, and all tokens in front of it are resolved. -/
def WaitsFor (t : SymbolTable) (tokens : List String) (l : String) : Prop :=
  ∃ before after, tokens = before ++ l :: after ∧
    (∀ token ∈ before, ∃ o, read t token = .ok (.resolved o)) ∧
    IsReference l.toList ∧ t.lookup l = none

/-- **Waiting operands.**  Operands wait for the first token that is not resolved. -/
theorem readAll_eq_unresolved_iff :
    readAll t tokens = .ok (.unresolved l) ↔ WaitsFor t tokens l := by
  induction tokens with
  | nil => simp [readAll, WaitsFor]
  | cons token tokens ih =>
      constructor
      · intro h
        rw [readAll] at h
        rcases hread : read t token with f | o | l'
        · rw [hread] at h
          cases h
        · have hrest : readAll t tokens = .ok (.unresolved l) := by
            rw [hread] at h
            rcases hall : readAll t tokens with f | os | l' <;> rw [hall] at h <;> cases h
            rfl
          obtain ⟨before, after, rfl, hbefore, hl⟩ := ih.mp hrest
          exact ⟨token :: before, after, rfl, List.forall_mem_cons.mpr ⟨⟨o, hread⟩, hbefore⟩, hl⟩
        · obtain ⟨rfl, hl⟩ := read_eq_unresolved_iff.mp hread
          rw [hread] at h
          cases h
          exact ⟨[], tokens, rfl, by simp, hl⟩
      · rintro ⟨_ | ⟨first, before⟩, after, htokens, hbefore, hl⟩
        · cases htokens
          rw [readAll, read_eq_unresolved_iff.mpr ⟨rfl, hl⟩]
        · cases htokens
          obtain ⟨⟨o, ho⟩, hbefore⟩ := List.forall_mem_cons.mp hbefore
          rw [readAll, ho, ih.mpr ⟨before, after, rfl, hbefore, hl⟩]

/-- Further declarations change nothing in front of the label. -/
theorem WaitsFor.of_le (h : WaitsFor t tokens l) (hle : t.Le t') (hnone : t'.lookup l = none) :
    WaitsFor t' tokens l := by
  obtain ⟨before, after, htokens, hbefore, href, -⟩ := h
  refine ⟨before, after, htokens, fun token htoken => ?_, href, hnone⟩
  obtain ⟨o, ho⟩ := hbefore token htoken
  exact ⟨o, by rw [read_of_le hle (by rw [ho]; exact settled_resolved o), ho]⟩

theorem WaitsFor.lookup_eq_none (h : WaitsFor t tokens l) : t.lookup l = none := by
  obtain ⟨-, -, -, -, -, hnone⟩ := h
  exact hnone

end Operand

namespace Registry

variable {r : Registry} {t t' : SymbolTable} {m : String} {tokens : List String} {l : String}

/-- An instruction waits while the label that it waits for is not bound, and not longer. -/
theorem dispatch_unresolved_of_le (hle : t.Le t')
    (h : r.dispatch t m tokens = .ok (.unresolved l)) :
    r.dispatch t' m tokens = .ok (.unresolved l) ↔ t'.lookup l = none := by
  obtain ⟨e, he, hread⟩ := dispatch_eq_unresolved_iff.mp h
  have hwaits := Operand.readAll_eq_unresolved_iff.mp hread
  rw [dispatch_eq_unresolved_iff]
  constructor
  · rintro ⟨-, -, hread'⟩
    exact (Operand.readAll_eq_unresolved_iff.mp hread').lookup_eq_none
  · intro hnone
    exact ⟨e, he, Operand.readAll_eq_unresolved_iff.mpr (hwaits.of_le hle hnone)⟩

/-- **Declarations.**  Let a table be extended to another.  An instruction that has a word keeps the
word, and one that is at fault keeps the fault.  If an instruction waits for a label, the label is
one of its operands and is not bound, every operand in front of it is resolved, and with the larger
table the instruction waits for that label again exactly when the label is still not bound. -/
theorem dispatch_after_declarations (r : Registry) (m : String) (tokens : List String)
    {t t' : SymbolTable} (hle : t.Le t') :
    (∀ op, r.dispatch t m tokens = .ok (.resolved op) →
      r.dispatch t' m tokens = .ok (.resolved op)) ∧
    (∀ f, r.dispatch t m tokens = .error f → r.dispatch t' m tokens = .error f) ∧
    (∀ l, r.dispatch t m tokens = .ok (.unresolved l) →
      (∃ before after, tokens = before ++ l :: after ∧ t.lookup l = none ∧
        ∀ token ∈ before, ∃ o, Operand.read t token = .ok (.resolved o)) ∧
      (r.dispatch t' m tokens = .ok (.unresolved l) ↔ t'.lookup l = none)) := by
  refine ⟨fun op h => ?_, fun f h => ?_, fun l h => ⟨?_, dispatch_unresolved_of_le hle h⟩⟩
  · rw [dispatch_of_le hle (by rw [h]; exact settled_resolved op), h]
  · rw [dispatch_of_le hle (by rw [h]; exact settled_error f), h]
  · obtain ⟨e, -, hread⟩ := dispatch_eq_unresolved_iff.mp h
    obtain ⟨before, after, htokens, hbefore, -, hnone⟩ :=
      Operand.readAll_eq_unresolved_iff.mp hread
    exact ⟨before, after, htokens, hnone, hbefore⟩

def oneLabel : SymbolTable := ⟨[⟨"@a", 8, 1⟩], by decide⟩

/-- The table after a second declaration. -/
def twoLabels : SymbolTable := ⟨[⟨"@b", 12, 3⟩, ⟨"@a", 8, 1⟩], by decide⟩

/-- A word, a fault of an operand, and two instructions that wait: the one for the label that is
declared, the other for a label that stands in front of an operand at fault. -/
theorem dispatch_after_declarations_second :
    oneLabel.Le twoLabels ∧
    standard.dispatch twoLabels "ldi" ["r1", "@a"] = .ok (.resolved 0x101) ∧
    standard.dispatch twoLabels "ldi" ["r16", "@b"] = .error (.invalidRegister "r16") ∧
    standard.dispatch twoLabels "ldi" ["r1", "@b"] ≠ .ok (.unresolved "@b") ∧
    standard.dispatch twoLabels "ldi" ["r1", "@c", "r16"] = .ok (.unresolved "@c") := by
  have hle : oneLabel.Le twoLabels :=
    SymbolTable.le_declare (show oneLabel.declare "@b" 12 3 = .ok twoLabels from rfl)
  obtain ⟨hword, -⟩ := dispatch_after_declarations standard "ldi" ["r1", "@a"] hle
  obtain ⟨-, hfault, -⟩ := dispatch_after_declarations standard "ldi" ["r16", "@b"] hle
  obtain ⟨-, -, hbound⟩ := dispatch_after_declarations standard "ldi" ["r1", "@b"] hle
  obtain ⟨-, -, hfree⟩ := dispatch_after_declarations standard "ldi" ["r1", "@c", "r16"] hle
  refine ⟨hle, hword _ rfl, hfault _ rfl, fun h => ?_, (hfree _ rfl).2.mpr rfl⟩
  have hnone : twoLabels.lookup "@b" = none := (hbound "@b" rfl).2.mp h
  cases hnone

end Registry

end Asm32
