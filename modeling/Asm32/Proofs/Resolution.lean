import Mathlib
import Asm32.Registry

/-!
# Later declarations change no settled instruction

A symbol table only grows while a program is read.  An operand that a table resolves, or finds at
fault, is read in the same way with every larger table; an operand that waits for a label may be
resolved later.

**Stability** (`Registry.dispatch_of_le`).  An instruction that has a word, or is at fault, keeps
the word or the fault whatever is declared after it.
-/

namespace Asm32

/-- Every label that `t` binds is bound to the same address by `t'`. -/
def SymbolTable.Le (t t' : SymbolTable) : Prop := ∀ n a, t.lookup n = some a → t'.lookup n = some a

/-- A declaration is refused when its name is bound already, so it keeps what the table binds. -/
theorem SymbolTable.le_declare {t t' : SymbolTable} {name : String} {address : UInt32} {line : Nat}
    (h : t.declare name address line = .ok t') : t.Le t' := by
  intro n a hn
  rw [SymbolTable.lookup_declare h]
  by_cases e : n = name
  · subst e
    obtain ⟨y, -, hd⟩ | ⟨hnone, -⟩ := t.declare_cases n address line
    · rw [hd] at h
      cases h
    · rw [SymbolTable.lookup, hnone] at hn
      cases hn
  · rw [if_neg e]
    exact hn

/-- The result does not wait for a label. -/
def Settled {α : Type} (r : Except Fault (Resolution α)) : Prop := ∀ l, r ≠ .ok (.unresolved l)

theorem settled_error {α : Type} (f : Fault) :
    Settled (.error f : Except Fault (Resolution α)) := by
  intro l h
  cases h

theorem settled_resolved {α : Type} (a : α) : Settled (.ok (.resolved a)) := by
  intro l h
  cases h

namespace Operand

/-- The token starts as the name of a label does. -/
def NamesLabel (token : String) : Prop := token.toList.head? = some labelSigil

/-- The name of a label stands for its address, and is unresolved without one. -/
theorem read_label {token : String} (h : NamesLabel token) (hlong : 1 < token.toList.length)
    (t : SymbolTable) :
    (∀ a, t.lookup token = some a → read t token = .ok (.resolved (.imm a.toNat))) ∧
    (t.lookup token = none → read t token = .ok (.unresolved token)) := by
  obtain ⟨cs, hcs⟩ : ∃ cs, token.toList = '@' :: cs := List.head?_eq_some_iff.mp h
  have hspecial : Reg.special? token = none := Reg.special?_eq_none h (by decide)
  have hnumeric : looksNumeric ('@' :: cs) = false := rfl
  have hname : cs ≠ [] := by
    rintro rfl
    simp [hcs] at hlong
  refine ⟨fun a hl => ?_, fun hl => ?_⟩
  · simp [read, hcs, hspecial, hnumeric, labelSigil, hl, List.length_pos_iff.mpr hname]
  · simp [read, hcs, hspecial, hnumeric, labelSigil, hl, List.length_pos_iff.mpr hname]

/-- Tables that agree on the labels among the tokens read a token in the same way. -/
theorem read_congr {t t' : SymbolTable} {token : String}
    (h : NamesLabel token → t'.lookup token = t.lookup token) : read t' token = read t token := by
  unfold read
  split
  · rfl
  · split
    · rfl
    · split
      · rfl
      · split
        · rename_i hlabel
          rw [h hlabel.1]
        · rfl

theorem readAll_congr {t t' : SymbolTable} {tokens : List String}
    (h : ∀ token ∈ tokens, NamesLabel token → t'.lookup token = t.lookup token) :
    readAll t' tokens = readAll t tokens := by
  induction tokens with
  | nil => rfl
  | cons token tokens ih =>
      obtain ⟨htoken, htokens⟩ := List.forall_mem_cons.mp h
      rw [readAll, readAll, read_congr htoken, ih htokens]

/-- Operands are resolved when each of them is. -/
theorem readAll_eq_resolved_iff {t : SymbolTable} {tokens : List String} {ops : List Operand} :
    readAll t tokens = .ok (.resolved ops) ↔
      List.Forall₂ (fun token o => read t token = .ok (.resolved o)) tokens ops := by
  induction tokens generalizing ops with
  | nil =>
      rw [readAll, List.forall₂_nil_left_iff, Except.ok.injEq, Resolution.resolved.injEq, eq_comm]
  | cons token tokens ih =>
      rw [readAll, List.forall₂_cons_left_iff]
      rcases read t token with f | o | l
      · simp
      · rcases hrest : readAll t tokens with f | os | l
        · simp [← ih, hrest]
        · simp [← ih, hrest, eq_comm]
        · simp [← ih, hrest]
      · simp

/-- Only a label that is not bound asks for a larger table. -/
theorem read_eq_or_unresolved {t t' : SymbolTable} (hle : t.Le t') (token : String) :
    read t' token = read t token ∨ read t token = .ok (.unresolved token) := by
  unfold read
  split
  · exact Or.inl rfl
  · split
    · exact Or.inl rfl
    · split
      · exact Or.inl rfl
      · split
        · cases hl : t.lookup token with
          | none => exact Or.inr rfl
          | some a =>
              rw [hle _ _ hl]
              exact Or.inl rfl
        · exact Or.inl rfl

theorem read_of_le {t t' : SymbolTable} (hle : t.Le t') {token : String}
    (h : Settled (read t token)) : read t' token = read t token := by
  rcases read_eq_or_unresolved hle token with e | e
  · exact e
  · exact absurd e (h token)

theorem readAll_of_le {t t' : SymbolTable} (hle : t.Le t') {tokens : List String}
    (h : Settled (readAll t tokens)) : readAll t' tokens = readAll t tokens := by
  induction tokens with
  | nil => rfl
  | cons token tokens ih =>
      -- reading stops at the first operand that waits, so none that is reached does
      have hread : Settled (read t token) := by
        intro l hl
        rw [readAll, hl] at h
        exact h l rfl
      rw [readAll, readAll, read_of_le hle hread]
      cases hr : read t token with
      | error e => rfl
      | ok r =>
          cases r with
          | unresolved l => exact absurd hr (hread l)
          | resolved a =>
              have hrest : Settled (readAll t tokens) := by
                intro l hl
                rw [readAll, hr, hl] at h
                exact h l rfl
              rw [ih hrest]

end Operand

/-- Tables that agree on the labels that an instruction names make the same of it. -/
theorem Registry.dispatch_congr {r : Registry} {t t' : SymbolTable} {m : String}
    {tokens : List String}
    (h : ∀ token ∈ tokens, Operand.NamesLabel token → t'.lookup token = t.lookup token) :
    r.dispatch t' m tokens = r.dispatch t m tokens := by
  rw [dispatch, dispatch, Operand.readAll_congr h]

/-- **Stability.**  An instruction that does not wait for a label has the same outcome with every
larger table. -/
theorem Registry.dispatch_of_le {r : Registry} {t t' : SymbolTable} (hle : t.Le t') {m : String}
    {tokens : List String} (h : Settled (r.dispatch t m tokens)) :
    r.dispatch t' m tokens = r.dispatch t m tokens := by
  unfold Registry.dispatch at h ⊢
  cases hm : r.lookup m with
  | none => rfl
  | some e =>
      have hread : Settled (Operand.readAll t tokens) := by
        intro l hl
        rw [hm, hl] at h
        exact h l rfl
      rw [Operand.readAll_of_le hle hread]

end Asm32
