import Asm32.Proofs.Requests

/-!
# The words that the groups give

What the decoder makes of the words that the groups give for requests.

**Round trip** (`decode?_of_encode`).  A word that a group gives names that group and decodes to the
instruction that was asked for; two requests share a word exactly when they are aliases.

**Coverage** (`emitted_iff`).  The words that the groups give are those that decode
to a canonical instruction.  The decoder takes more: it does not compare the shift of a load with
the least one, so it also takes the loads that no request asks for (`not_emitted_shifted_zero`).
-/

namespace Asm32
open Instr (Requested)

namespace Group

/-- An instruction that is asked for is what its word decodes to. -/
theorem decode?_of_requested {g : Group} {m : String} {ops : List Operand} {i : Instr}
    {raw : UInt32} (hi : Requested g m ops i) (hw : i.encode = .ok raw) :
    Instr.decode? raw = some i :=
  Instr.decode?_eq_some_iff.mpr ⟨hi.wellFormed, hw⟩

/-- Instructions that can be asked for are equal when they have the same word. -/
theorem word_eq_iff {g g' : Group} {m m' : String} {ops ops' : List Operand} {i i' : Instr}
    {raw raw' : UInt32} (hi : Requested g m ops i) (hw : i.encode = .ok raw)
    (hi' : Requested g' m' ops' i') (hw' : i'.encode = .ok raw') : raw = raw' ↔ i = i' := by
  constructor
  · rintro rfl
    have hd := decode?_of_requested hi hw
    rw [decode?_of_requested hi' hw'] at hd
    exact (Option.some.inj hd).symm
  · rintro rfl
    rw [hw] at hw'
    exact Except.ok.inj hw'

/-- **Round trip.**  A word that a group gives for a request names the group and decodes to the one
instruction that the request asks for.  It is the word of another request exactly when the two have
the same first spelling. -/
theorem decode?_of_encode {g : Group} {m : String} {ops : List Operand} {raw : UInt32}
    (h : g.encode m ops = .ok raw) :
    Group.ofWord? raw = some g ∧
    (∃ i, Instr.decode? raw = some i ∧ ∀ j, Requested g m ops j ↔ j = i) ∧
    ∀ g' m' ops' raw', Group.encode g' m' ops' = .ok raw' →
      (raw = raw' ↔ g = g' ∧ g.plain m ops = g'.plain m' ops') := by
  obtain ⟨i, hi, hw⟩ := encode_eq_ok_iff.mp h
  refine ⟨?_, ⟨i, decode?_of_requested hi hw, fun j => ⟨fun hj => hj.unique hi, ?_⟩⟩, ?_⟩
  · rw [← hi.group_eq]
    exact (Instr.encode_eq_ok_iff.mp hw).1
  · rintro rfl
    exact hi
  · intro g' m' ops' raw' h'
    obtain ⟨i', hi', hw'⟩ := encode_eq_ok_iff.mp h'
    rw [word_eq_iff hi hw hi' hw']
    exact eq_iff_plain_eq hi hi'

/-- The word of `ldi r1, -2`, which is also the word of `ldi r1, 0xfffffffe`. -/
theorem decode?_of_encode_negative :
    Group.loadImmediate.encode "ldi" [.reg (.gpr 1), .imm (-2)] = .ok 0x3FFFC1 ∧
    Group.loadImmediate.encode "ldi" [.reg (.gpr 1), .imm 0xFFFFFFFE] = .ok 0x3FFFC1 ∧
    Group.ofWord? 0x3FFFC1 = some .loadImmediate ∧
    (∃ i, Instr.decode? 0x3FFFC1 = some i ∧
      ∀ j, Requested .loadImmediate "ldi" [.reg (.gpr 1), .imm (-2)] j ↔ j = i) ∧
    Group.loadImmediate.plain "ldi" [.reg (.gpr 1), .imm (-2)] =
      Group.loadImmediate.plain "ldi" [.reg (.gpr 1), .imm 0xFFFFFFFE] := by
  have h : Group.loadImmediate.encode "ldi" [.reg (.gpr 1), .imm (-2)] = .ok 0x3FFFC1 := rfl
  have h' : Group.loadImmediate.encode "ldi" [.reg (.gpr 1), .imm 0xFFFFFFFE] = .ok 0x3FFFC1 := rfl
  obtain ⟨hg, hd, hs⟩ := decode?_of_encode h
  exact ⟨h, h', hg, hd, ((hs _ _ _ _ h').mp rfl).2⟩

end Group

/-! ### Coverage -/

/-- The word is one that a group gives for some mnemonic and operands. -/
def Emitted (raw : UInt32) : Prop :=
  ∃ (g : Group) (m : String) (ops : List Operand), g.encode m ops = .ok raw

/-- The constant that a decoded instruction loads fits its fields. -/
theorem Instr.fits_of_decode? {raw : UInt32} {dest : Reg} {p : Packed}
    (h : Instr.decode? raw = some (.ldi dest p)) : p.Fits := by
  obtain ⟨-, hw⟩ := Instr.decode?_eq_some_iff.mp h
  obtain ⟨-, hs, hv, -⟩ := Instr.reads_ldi_iff.mp (Instr.encode_eq_ok_iff.mp hw).2
  have hs' := bitsAt_lt raw 6 4
  have hv' := bitsAt_lt raw 10 17
  rw [hs] at hs'
  rw [hv] at hv'
  exact ⟨hv', Nat.le_of_lt_succ hs'⟩

/-- **Coverage.**  The words that the groups give are those that decode to an instruction whose
constant, if it loads one, has the least shift. -/
theorem emitted_iff {raw : UInt32} :
    Emitted raw ↔ ∃ i, Instr.decode? raw = some i ∧ i.Canonical := by
  constructor
  · rintro ⟨g, m, ops, h⟩
    obtain ⟨i, hi, hw⟩ := Group.encode_eq_ok_iff.mp h
    exact ⟨i, Group.decode?_of_requested hi hw, hi.canonical⟩
  · rintro ⟨i, hd, hc⟩
    obtain ⟨hwf, hw⟩ := Instr.decode?_eq_some_iff.mp hd
    exact ⟨i.group, i.mnemonic, i.operands,
      Group.encode_eq_ok_iff.mpr ⟨i, Instr.requested_first hwf hc, hw⟩⟩

/-- The decoder takes every word that a group gives.  It takes a word that no group gives exactly
when the word loads a constant with a shift that is not the least. -/
theorem decode?_isSome_iff_emitted (raw : UInt32) :
    (Emitted raw → (Instr.decode? raw).isSome) ∧
    (((Instr.decode? raw).isSome ↔ Emitted raw) ↔
      ∀ dest p, Instr.decode? raw = some (.ldi dest p) → p.Least) := by
  have hsome : Emitted raw → (Instr.decode? raw).isSome := by
    intro h
    obtain ⟨i, hd, -⟩ := emitted_iff.mp h
    rw [hd]
    rfl
  refine ⟨hsome, ?_, ?_⟩
  · intro hiff dest p hd
    have he : Emitted raw := hiff.mp (by rw [hd]; rfl)
    obtain ⟨i, hi, hc⟩ := emitted_iff.mp he
    rw [hd] at hi
    exact (hc dest p (Option.some.inj hi).symm).2
  · intro hleast
    refine ⟨fun h => ?_, hsome⟩
    obtain ⟨i, hd⟩ := Option.isSome_iff_exists.mp h
    -- whatever else decodes is canonical, since it loads no constant
    refine emitted_iff.mpr ⟨i, hd, ?_⟩
    rintro dest p rfl
    exact ⟨Instr.fits_of_decode? hd, hleast dest p hd⟩

/-- The word that loads zero shifted by one decodes, and no group gives it: zero is packed with no
shift. -/
theorem not_emitted_shifted_zero :
    Instr.decode? 0x400000 = some (.ldi (.gpr 0) ⟨0, 1⟩) ∧ ¬ Emitted 0x400000 := by
  have hd : Instr.decode? 0x400000 = some (.ldi (.gpr 0) ⟨0, 1⟩) := rfl
  refine ⟨hd, fun he => ?_⟩
  obtain ⟨i, hi, hc⟩ := emitted_iff.mp he
  rw [hd] at hi
  obtain rfl := Option.some.inj hi
  have hle := (hc _ _ rfl).2 ⟨0, 0⟩ ⟨by decide, by decide⟩ rfl
  exact absurd hle (by decide)

end Asm32
