import Mathlib
import Asm32.Registry

/-!
# What a registry finds

The latest registration of a mnemonic counts (`Registry.lookup_register`).  In the standard registry
the groups have no mnemonic in common, so the order of their registrations does not matter: a
mnemonic is found exactly when it is one of a group, and its encoder is that group's
(`Registry.lookup_standard_eq_some_iff`).

An instruction is dispatched in three steps: its mnemonic is looked up, its operands are read, and
the encoder is asked for a word.  `Registry.dispatch_eq_resolved_iff` and its two companions say
which steps lead to which outcome.
-/

namespace Asm32.Registry

theorem registry_registerEach_cons (e : Encoder) (r : Registry) (m : String) (ms : List String) :
    (registerEach e r (m :: ms)).registry = (registerEach e (r.insert m e) ms).registry := by
  rw [registerEach]
  cases r.lookup m <;> rfl

theorem lookup_registerEach (e : Encoder) (r : Registry) (ms : List String) (m : String) :
    (registerEach e r ms).registry.lookup m = if m ∈ ms then some e else r.lookup m := by
  induction ms generalizing r with
  | nil => simp [registerEach]
  | cons n ms ih =>
      simp only [registry_registerEach_cons, ih, List.mem_cons]
      by_cases hms : m ∈ ms
      · simp [hms]
      · by_cases hn : m = n
        · subst hn
          simp [hms]
        · simp [hms, hn, lookup_insert_of_ne r e hn]

theorem lookup_register (r : Registry) (x : Registration) (m : String) :
    (r.register x).registry.lookup m = if m ∈ x.mnemonics then some x.encoder else r.lookup m :=
  lookup_registerEach x.encoder r x.mnemonics m

/-- The groups have no mnemonic in common. -/
theorem group_eq_of_mem {g g' : Group} {m : String} (h : m ∈ g.mnemonics) (h' : m ∈ g'.mnemonics) :
    g = g' := by
  have hall : ∀ g g' : Group, ∀ m ∈ g.mnemonics, m ∈ g'.mnemonics → g = g' := by
    intro g g'
    cases g <;> cases g' <;> decide
  exact hall g g' m h h'

theorem registerAll_cons (r : Registry) (x : Registration) (xs : List Registration) :
    r.registerAll (x :: xs) = (r.register x).registry.registerAll xs := rfl

/-- What is found was there, or is one of the registrations. -/
theorem of_lookup_registerAll {xs : List Registration} {r : Registry} {m : String} {e : Encoder}
    (h : (r.registerAll xs).lookup m = some e) :
    r.lookup m = some e ∨ ∃ x ∈ xs, m ∈ x.mnemonics ∧ x.encoder = e := by
  induction xs generalizing r with
  | nil => exact Or.inl h
  | cons x xs ih =>
      rw [registerAll_cons] at h
      rcases ih h with h | ⟨y, hy, hm, he⟩
      · rw [lookup_register] at h
        split at h
        · exact Or.inr ⟨x, List.mem_cons_self, ‹_›, Option.some.inj h⟩
        · exact Or.inl h
      · exact Or.inr ⟨y, List.mem_cons_of_mem x hy, hm, he⟩

/-- The mnemonic of a group is found when the group is registered. -/
theorem lookup_registerAll_groups {gs : List Group} {r : Registry} {m : String} {g : Group}
    (h : m ∈ g.mnemonics) :
    (r.registerAll (gs.map Group.registration)).lookup m =
      if g ∈ gs then some g.encoder else r.lookup m := by
  induction gs generalizing r with
  | nil => rfl
  | cons g' gs ih =>
      rw [List.map_cons, registerAll_cons, ih, lookup_register]
      by_cases hgs : g ∈ gs
      · rw [if_pos hgs, if_pos (List.mem_cons_of_mem g' hgs)]
      · by_cases e : g = g'
        · subst e
          have hm : m ∈ g.registration.mnemonics := h
          rw [if_neg hgs, if_pos hm, if_pos List.mem_cons_self]
          rfl
        · have hm : m ∉ g'.registration.mnemonics := fun hm => e (group_eq_of_mem h hm)
          have hmem : g ∉ g' :: gs := List.not_mem_cons_of_ne_of_not_mem e hgs
          rw [if_neg hgs, if_neg hm, if_neg hmem]

/-- **The standard registry.**  A mnemonic is found exactly when it is one of a group's. -/
theorem lookup_standard_eq_some_iff {m : String} {e : Encoder} :
    standard.lookup m = some e ↔ ∃ g : Group, m ∈ g.mnemonics ∧ g.encoder = e := by
  refine ⟨fun h => ?_, ?_⟩
  · rcases of_lookup_registerAll h with h | ⟨x, hx, hm, he⟩
    · cases h
    · obtain ⟨g, -, rfl⟩ := List.mem_map.mp hx
      exact ⟨g, hm, he⟩
  · rintro ⟨g, hm, rfl⟩
    have hall : g ∈ Group.all := by cases g <;> decide
    rw [standard, lookup_registerAll_groups hm, if_pos hall]

/-! ### What becomes of an instruction -/

variable {r : Registry} {t : SymbolTable} {m : String} {tokens : List String}

theorem dispatch_eq_resolved_iff {op : UInt32} :
    r.dispatch t m tokens = .ok (.resolved op) ↔
      ∃ e ops, r.lookup m = some e ∧ Operand.readAll t tokens = .ok (.resolved ops) ∧
        e.encode m ops = .ok op := by
  rw [dispatch]
  cases r.lookup m with
  | none => simp
  | some e =>
      rcases Operand.readAll t tokens with f | ops | l
      · simp
      · cases hw : e.encode m ops <;> simp [Except.map, hw]
      · simp

theorem dispatch_eq_unresolved_iff {l : String} :
    r.dispatch t m tokens = .ok (.unresolved l) ↔
      ∃ e, r.lookup m = some e ∧ Operand.readAll t tokens = .ok (.unresolved l) := by
  rw [dispatch]
  cases r.lookup m with
  | none => simp
  | some e =>
      rcases Operand.readAll t tokens with f | ops | l
      · simp
      · cases hw : e.encode m ops <;> simp [Except.map, hw]
      · simp

/-- An instruction is at fault for its mnemonic, for an operand, or for its encoder. -/
theorem dispatch_eq_error_iff {f : Fault} :
    r.dispatch t m tokens = .error f ↔
      r.lookup m = none ∧ f = .unknownMnemonic m ∨
      ∃ e, r.lookup m = some e ∧
        (Operand.readAll t tokens = .error f ∨
          ∃ ops, Operand.readAll t tokens = .ok (.resolved ops) ∧ e.encode m ops = .error f) := by
  rw [dispatch]
  cases r.lookup m with
  | none => simp [eq_comm]
  | some e =>
      rcases Operand.readAll t tokens with f | ops | l
      · simp
      · cases hw : e.encode m ops <;> simp [Except.map, hw]
      · simp

end Asm32.Registry
