import Asm32.Instr.Text
import Asm32.Proofs.Numerals
import Asm32.Proofs.Resolution

/-!
# The operands of source text

What a token of source text stands for, said without reading it.

A constant is written as an optional minus sign, a mark of its base and one or more digits, and its
magnitude is below `2 ^ 63` (`Operand.SpellsConstant`).  These are the tokens that are read as
constants, and each is read as what it spells (`Operand.readConstant_eq_ok_iff`).

**Constants** (`Operand.readConstant_exact`).  Which tokens are constants; the decimal text of every
constant and the text that loads print are among them.

The first character of a token decides which rule it falls under, so the rules exclude each other
(`Operand.reading_iff`), and only one of them asks for the symbol table.

**Operands** (`Operand.read_rules`).  What every token stands for, with every table.
-/

namespace Asm32.Operand
open Numeral (Spells)

/-! ### Constants -/

/-- The digits of a magnitude, after the mark of their base. -/
inductive SpellsMagnitude : List Char → Nat → Prop
  | hex {ds : List Char} {m : Nat} (h : Spells 16 ds m) : SpellsMagnitude ('0' :: 'x' :: ds) m
  | binary {ds : List Char} {m : Nat} (h : Spells 2 ds m) : SpellsMagnitude ('0' :: 'b' :: ds) m
  | decimal {ds : List Char} {m : Nat} (h : Spells 10 ds m) : SpellsMagnitude ds m

/-- A magnitude below `2 ^ 63`, after a minus sign or after none. -/
inductive SpellsConstant : List Char → Int → Prop
  | plain {cs : List Char} {m : Nat} (h : SpellsMagnitude cs m) (hm : m ≤ 2 ^ 63 - 1) :
      SpellsConstant cs m
  | negative {cs : List Char} {m : Nat} (h : SpellsMagnitude cs m) (hm : m ≤ 2 ^ 63 - 1) :
      SpellsConstant ('-' :: cs) (-m)

/-- The marks of the bases are no decimal digits, so a text has one base. -/
theorem magnitude?_eq_some_iff {cs : List Char} {m : Nat} :
    magnitude? cs = some m ↔ SpellsMagnitude cs m := by
  constructor
  · intro h
    rw [magnitude?.eq_def] at h
    split at h
    · exact .hex (Numeral.valueOf?_eq_some_iff.mp h)
    · exact .binary (Numeral.valueOf?_eq_some_iff.mp h)
    · exact .decimal (Numeral.valueOf?_eq_some_iff.mp h)
  · intro h
    cases h with
    | hex h => exact Numeral.valueOf?_eq_some_iff.mpr h
    | binary h => exact Numeral.valueOf?_eq_some_iff.mpr h
    | decimal h =>
        rw [magnitude?]
        · exact Numeral.valueOf?_eq_some_iff.mpr h
        · rintro ds rfl
          exact Numeral.not_spells_of_valueOf? rfl h
        · rintro ds rfl
          exact Numeral.not_spells_of_valueOf? rfl h

theorem boundedMagnitude?_eq_some_iff {cs : List Char} {m : Nat} :
    boundedMagnitude? cs = some m ↔ SpellsMagnitude cs m ∧ m ≤ 2 ^ 63 - 1 := by
  rw [boundedMagnitude?, Option.filter_eq_some_iff, magnitude?_eq_some_iff, decide_eq_true_iff]
  rfl

theorem constant?_eq_some_iff {cs : List Char} {v : Int} :
    constant? cs = some v ↔ SpellsConstant cs v := by
  constructor
  · intro h
    rw [constant?.eq_def] at h
    split at h
    · obtain ⟨v, hv, rfl⟩ := Option.map_eq_some_iff.mp h
      obtain ⟨m, hm, hv⟩ := Option.bind_eq_some_iff.mp hv
      obtain rfl := Option.some.inj hv
      obtain ⟨hm, hle⟩ := boundedMagnitude?_eq_some_iff.mp hm
      exact .negative hm hle
    · obtain ⟨v, hv, rfl⟩ := Option.map_eq_some_iff.mp h
      obtain ⟨m, hm, hv⟩ := Option.bind_eq_some_iff.mp hv
      obtain rfl := Option.some.inj hv
      obtain ⟨hm, hle⟩ := boundedMagnitude?_eq_some_iff.mp hm
      exact .plain hm hle
  · intro h
    cases h with
    | plain h hm =>
        have hmagnitude := boundedMagnitude?_eq_some_iff.mpr ⟨h, hm⟩
        rw [constant?, hmagnitude]
        · rfl
        · rintro ds rfl
          cases hmagnitude
    | negative h hm =>
        rw [constant?, boundedMagnitude?_eq_some_iff.mpr ⟨h, hm⟩]
        rfl

theorem readConstant_eq_ok_iff {token : String} {v : Int} :
    readConstant token = .ok v ↔ SpellsConstant token.toList v := by
  rw [← constant?_eq_some_iff, readConstant]
  cases constant? token.toList <;> simp

theorem readConstant_eq_error_iff {token : String} {f : Fault} :
    readConstant token = .error f ↔
      f = .invalidNumber token ∧ ∀ v, ¬ SpellsConstant token.toList v := by
  simp only [← constant?_eq_some_iff, readConstant]
  cases constant? token.toList <;> simp [eq_comm]

theorem SpellsConstant.natAbs_le {cs : List Char} {v : Int} (h : SpellsConstant cs v) :
    v.natAbs ≤ 2 ^ 63 - 1 := by
  cases h with
  | plain _ hm => exact hm
  | negative _ hm => rwa [Int.natAbs_neg]

/-- A constant is spelled by its decimal digits, with a sign when it is negative. -/
theorem spellsConstant_signed {v : Int} (h : v.natAbs ≤ 2 ^ 63 - 1) :
    SpellsConstant (Numeral.signed v).toList v := by
  have hdigits : SpellsMagnitude (Numeral.digits 10 v.natAbs) v.natAbs :=
    .decimal (Numeral.spells_digits (by decide) (by decide) v.natAbs)
  rw [Numeral.signed]
  split
  · have hv : v = -v.natAbs := by omega
    rw [String.toList_append, Numeral.toList_decimal]
    nth_rewrite 2 [hv]
    exact .negative hdigits h
  · have hv : v = v.natAbs := by omega
    rw [Numeral.toList_decimal]
    nth_rewrite 2 [hv]
    exact .plain hdigits h

theorem spellsConstant_hex (w : UInt32) :
    SpellsConstant ("0x" ++ Numeral.hex w.toNat).toList w.toNat := by
  have hle : w.toNat ≤ 2 ^ 63 - 1 := by
    have hlt := w.toNat_lt
    omega
  rw [String.toList_append, Numeral.toList_hex]
  exact .plain (.hex (Numeral.spells_digits (by decide) (by decide) w.toNat)) hle

/-- **Constants.**  A token is read as the constant that it spells, and every token that spells none
is refused.  What is read lies between `-2 ^ 63` and `2 ^ 63`, and the magnitude may be read with
that bound checked at each digit, since no number on the way is above the last.  The decimal text of
a number is read back exactly when the number lies between the bounds.  A word is read back from its
hexadecimal digits after `0x`, which is how a load prints the word that it loads. -/
theorem readConstant_exact (token : String) :
    (∀ v, readConstant token = .ok v ↔ SpellsConstant token.toList v) ∧
    (∀ f, readConstant token = .error f ↔
      f = .invalidNumber token ∧ ∀ v, ¬ SpellsConstant token.toList v) ∧
    (∀ v, readConstant token = .ok v → -2 ^ 63 < v ∧ v < 2 ^ 63) ∧
    (∀ base ds m, 0 < base → ds ≠ [] →
      (Numeral.readFrom base (2 ^ 63) 0 ds = .ok m ↔ Spells base ds m ∧ m ≤ 2 ^ 63 - 1)) ∧
    (∀ v : Int, readConstant (Numeral.signed v) = .ok v ↔ -2 ^ 63 < v ∧ v < 2 ^ 63) ∧
    (∀ w : UInt32, readConstant ("0x" ++ Numeral.hex w.toNat) = .ok w.toNat) ∧
    ∀ (dest : Reg) (p : Packed),
      (Instr.ldi dest p).text =
        "ldi " ++ dest.name ++ ", " ++ ("0x" ++ Numeral.hex p.unpack.toNat) := by
  have hbounds : ∀ {token v}, readConstant token = .ok v → -2 ^ 63 < v ∧ v < 2 ^ 63 := by
    intro token v h
    have hle := (readConstant_eq_ok_iff.mp h).natAbs_le
    omega
  refine ⟨fun v => readConstant_eq_ok_iff, fun f => readConstant_eq_error_iff, fun v => hbounds,
    ?_, ?_, ?_, ?_⟩
  · intro base ds m hbase hds
    rw [Numeral.readFrom_zero_eq_ok_iff hbase (by decide) hds]
    exact and_congr_right fun _ => by omega
  · intro v
    refine ⟨hbounds, fun h => readConstant_eq_ok_iff.mpr (spellsConstant_signed ?_)⟩
    omega
  · exact fun w => readConstant_eq_ok_iff.mpr (spellsConstant_hex w)
  · intro dest p
    exact String.toList_inj.mp (by simp [Instr.text])

/-- The least constant, in digits of both cases.  One more is refused, at the last digit. -/
theorem readConstant_exact_least :
    readConstant "-0x7FFFffffFFFFffff" = .ok (-0x7FFFFFFFFFFFFFFF) ∧
    SpellsConstant "-0x7FFFffffFFFFffff".toList (-0x7FFFFFFFFFFFFFFF) ∧
    -2 ^ 63 < (-0x7FFFFFFFFFFFFFFF : Int) ∧
    readConstant "-0x8000000000000000" = .error (.invalidNumber "-0x8000000000000000") ∧
    Numeral.readFrom 16 (2 ^ 63) 0 "8000000000000000".toList = .error .tooLarge ∧
    ¬ ∃ m, Spells 16 "8000000000000000".toList m ∧ m ≤ 2 ^ 63 - 1 := by
  have h : readConstant "-0x7FFFffffFFFFffff" = .ok (-0x7FFFFFFFFFFFFFFF) := rfl
  have hlarge : Numeral.readFrom 16 (2 ^ 63) 0 "8000000000000000".toList = .error .tooLarge := rfl
  obtain ⟨hok, -, hbounds, hchecked, -⟩ := readConstant_exact "-0x7FFFffffFFFFffff"
  refine ⟨h, (hok _).mp h, (hbounds _ h).1, rfl, hlarge, ?_⟩
  rintro ⟨m, hm⟩
  have hread := (hchecked 16 "8000000000000000".toList m (by decide) (by simp)).mpr hm
  rw [hlarge] at hread
  cases hread

/-! ### The rules for operands -/

/-- The names of the registers that have no number. -/
def specialNames : List (String × Reg) :=
  [("pc", .pc), ("sp", .sp), ("flags", .flags), ("drop", .drop)]

/-- A decimal digit, or a minus sign and a decimal digit, stands in front. -/
def IsNumeric (cs : List Char) : Prop :=
  ∃ c ds, ('0' ≤ c ∧ c ≤ '9') ∧ (cs = c :: ds ∨ cs = '-' :: c :: ds)

/-- An at sign stands in front, and something follows it. -/
def IsReference (cs : List Char) : Prop := ∃ c ds, cs = '@' :: c :: ds

theorem looksNumeric_iff {cs : List Char} : looksNumeric cs = true ↔ IsNumeric cs := by
  rw [looksNumeric.eq_def]
  split
  · rename_i c ds
    rw [Numeral.isDigit_iff]
    constructor
    · intro h
      exact ⟨c, ds, h, .inr rfl⟩
    · rintro ⟨d, ds', hd, h | h⟩
      · cases h
        exact absurd hd (by decide)
      · cases h
        exact hd
  · rename_i c ds hminus
    rw [Numeral.isDigit_iff]
    constructor
    · intro h
      exact ⟨c, ds, h, .inl rfl⟩
    · rintro ⟨d, ds', hd, h | h⟩
      · cases h
        exact hd
      · cases h
        exact absurd rfl (hminus d ds' rfl)
  · simp [IsNumeric]

theorem special?_eq_some_iff {token : String} {r : Reg} :
    Reg.special? token = some r ↔ (token, r) ∈ specialNames := by
  rw [Reg.special?]
  split_ifs <;> simp_all [specialNames, eq_comm]

theorem gpr?_eq_some_iff {ds : List Char} {r : Reg} :
    gpr? ds = some r ↔ ∃ n : Gpr, Spells 10 ds n ∧ .gpr n = r := by
  simp only [gpr?, Option.bind_eq_some_iff, Numeral.valueOf?_eq_some_iff]
  constructor
  · rintro ⟨n, hn, h⟩
    split at h
    · exact ⟨⟨n, _⟩, hn, Option.some.inj h⟩
    · cases h
  · rintro ⟨n, hn, rfl⟩
    exact ⟨n, hn, dif_pos n.isLt⟩

theorem gpr?_eq_none_iff {ds : List Char} : gpr? ds = none ↔ ∀ n < 16, ¬ Spells 10 ds n := by
  rw [Option.eq_none_iff_forall_ne_some]
  constructor
  · intro h n hn hs
    exact h (.gpr ⟨n, hn⟩) (gpr?_eq_some_iff.mpr ⟨⟨n, hn⟩, hs, rfl⟩)
  · intro h r hr
    obtain ⟨n, hs, -⟩ := gpr?_eq_some_iff.mp hr
    exact h n n.isLt hs

theorem isReference_iff {cs : List Char} :
    IsReference cs ↔ cs.head? = some labelSigil ∧ 1 < cs.length := by
  rcases cs with _ | ⟨c, _ | ⟨d, ds⟩⟩ <;> simp [IsReference, labelSigil]

/-- What a token stands for, and when. -/
inductive Reading (t : SymbolTable) (token : String) : Except Fault (Resolution Operand) → Prop
  | general {ds : List Char} {n : Gpr} (h : token.toList = 'r' :: ds) (hn : Spells 10 ds n) :
      Reading t token (.ok (.resolved (.reg (.gpr n))))
  | noRegister {ds : List Char} (h : token.toList = 'r' :: ds) (hn : ∀ n < 16, ¬ Spells 10 ds n) :
      Reading t token (.error (.invalidRegister token))
  | special {r : Reg} (h : (token, r) ∈ specialNames) : Reading t token (.ok (.resolved (.reg r)))
  | constant {v : Int} (h : IsNumeric token.toList) (hv : SpellsConstant token.toList v) :
      Reading t token (.ok (.resolved (.imm v)))
  | noConstant (h : IsNumeric token.toList) (hv : ∀ v, ¬ SpellsConstant token.toList v) :
      Reading t token (.error (.invalidNumber token))
  | bound {a : UInt32} (h : IsReference token.toList) (ha : t.lookup token = some a) :
      Reading t token (.ok (.resolved (.imm a.toNat)))
  | unbound (h : IsReference token.toList) (ha : t.lookup token = none) :
      Reading t token (.ok (.unresolved token))
  | unknown (hregister : token.toList.head? ≠ some 'r') (hspecial : ∀ r, (token, r) ∉ specialNames)
      (hnumeric : ¬ IsNumeric token.toList) (hreference : ¬ IsReference token.toList) :
      Reading t token (.error (.unknownOperand token))

/-- Every token falls under one of the rules. -/
theorem reading_read (t : SymbolTable) (token : String) : Reading t token (read t token) := by
  rw [read.eq_def]
  split
  · rename_i ds hds
    cases hgpr : gpr? ds with
    | none => exact .noRegister hds (gpr?_eq_none_iff.mp hgpr)
    | some r =>
        obtain ⟨n, hn, rfl⟩ := gpr?_eq_some_iff.mp hgpr
        exact .general hds hn
  · rename_i hregister
    cases hspecial : Reg.special? token with
    | some r => exact .special (special?_eq_some_iff.mp hspecial)
    | none =>
        simp only []
        split
        · rename_i hnumeric
          have hnumeric := looksNumeric_iff.mp hnumeric
          cases hconstant : readConstant token with
          | ok v => exact .constant hnumeric (readConstant_eq_ok_iff.mp hconstant)
          | error f =>
              obtain ⟨rfl, hv⟩ := readConstant_eq_error_iff.mp hconstant
              exact .noConstant hnumeric hv
        · rename_i hnumeric
          split
          · rename_i hreference
            cases hlookup : t.lookup token with
            | some a => exact .bound (isReference_iff.mpr hreference) hlookup
            | none => exact .unbound (isReference_iff.mpr hreference) hlookup
          · rename_i hreference
            refine .unknown ?_ ?_ (mt looksNumeric_iff.mpr hnumeric)
              (mt isReference_iff.mp hreference)
            · intro h
              obtain ⟨ds, hds⟩ := List.head?_eq_some_iff.mp h
              exact hregister ds hds
            · intro r hr
              rw [special?_eq_some_iff.mpr hr] at hspecial
              cases hspecial

/-- A numeric token is none of the registers. -/
theorem IsNumeric.not_register {token : String} (h : IsNumeric token.toList) :
    token.toList.head? ≠ some 'r' ∧ Reg.special? token = none := by
  obtain ⟨c, ds, hc, hcs⟩ := h
  have hhead : ∃ d, token.toList.head? = some d ∧ (d = '-' ∨ '0' ≤ d ∧ d ≤ '9') := by
    rcases hcs with hcs | hcs
    · exact ⟨c, by rw [hcs]; rfl, .inr hc⟩
    · exact ⟨'-', by rw [hcs]; rfl, .inl rfl⟩
  obtain ⟨d, hd, hrange⟩ := hhead
  have hletter : d ∉ ['r', 'p', 's', 'f', 'd'] := by
    intro hm
    simp only [List.mem_cons, List.not_mem_nil, or_false] at hm
    rcases hm with rfl | rfl | rfl | rfl | rfl <;> exact absurd hrange (by decide)
  refine ⟨fun h => hletter ?_, Reg.special?_eq_none hd fun hm => hletter (.tail _ hm)⟩
  rw [hd] at h
  exact Option.some.inj h ▸ List.mem_cons_self

/-- A numeric token is read as a constant. -/
theorem read_of_isNumeric {token : String} (h : IsNumeric token.toList) (t : SymbolTable) :
    read t token = (readConstant token).map fun v => .resolved (.imm v) := by
  obtain ⟨hregister, hspecial⟩ := h.not_register
  rw [read.eq_def]
  split
  · rename_i ds hds
    exact absurd (by rw [hds]; rfl) hregister
  · simp only [hspecial, looksNumeric_iff.mpr h, if_true]

/-- **Rules.**  The rules exclude each other, so a token stands for what its rule says. -/
theorem reading_iff {t : SymbolTable} {token : String} {r : Except Fault (Resolution Operand)} :
    Reading t token r ↔ read t token = r := by
  constructor
  · intro h
    cases h with
    | general h hn => simp [read, h, gpr?_eq_some_iff.mpr ⟨_, hn, rfl⟩]
    | noRegister h hn => simp [read, h, gpr?_eq_none_iff.mpr hn]
    | special h =>
        simp only [specialNames, List.mem_cons, Prod.mk.injEq, List.not_mem_nil, or_false] at h
        rcases h with ⟨rfl, rfl⟩ | ⟨rfl, rfl⟩ | ⟨rfl, rfl⟩ | ⟨rfl, rfl⟩ <;> rfl
    | constant h hv =>
        rw [read_of_isNumeric h, readConstant_eq_ok_iff.mpr hv]
        rfl
    | noConstant h hv =>
        rw [read_of_isNumeric h, readConstant_eq_error_iff.mpr ⟨rfl, hv⟩]
        rfl
    | bound h ha =>
        obtain ⟨hhead, hlong⟩ := isReference_iff.mp h
        exact (read_label hhead hlong t).1 _ ha
    | unbound h ha =>
        obtain ⟨hhead, hlong⟩ := isReference_iff.mp h
        exact (read_label hhead hlong t).2 ha
    | unknown hregister hspecial hnumeric hreference =>
        have hnone : Reg.special? token = none :=
          Option.eq_none_iff_forall_ne_some.mpr fun r hr =>
            hspecial r (special?_eq_some_iff.mp hr)
        rw [read.eq_def]
        split
        · rename_i ds hds
          exact absurd (by rw [hds]; rfl) hregister
        · simp only [hnone, mt looksNumeric_iff.mp hnumeric, mt isReference_iff.mpr hreference,
            if_false]
          rfl
  · rintro rfl
    exact reading_read t token

/-- Only a reference asks for the table. -/
theorem read_of_not_isReference {token : String} (h : ¬ IsReference token.toList)
    (t t' : SymbolTable) : read t' token = read t token := by
  have hreading := reading_read t token
  generalize read t token = r at hreading
  apply reading_iff.mp
  cases hreading with
  | general hds hn => exact .general hds hn
  | noRegister hds hn => exact .noRegister hds hn
  | special hr => exact .special hr
  | constant hnumeric hv => exact .constant hnumeric hv
  | noConstant hnumeric hv => exact .noConstant hnumeric hv
  | bound href | unbound href => exact absurd href h
  | unknown hregister hspecial hnumeric _ => exact .unknown hregister hspecial hnumeric h

/-- **Operands.**  A token is a numbered register exactly when it is an `r` and one or more decimal
digits of a number up to fifteen, and any other token that starts with an `r` is at fault.  It is
another register exactly when it is the name of that register.  A token with a digit in front, or
behind a minus sign, is read as a constant and as nothing else.  An at sign with something behind it
stands for the address that the table binds the token to, and is unresolved without one.  All that
is left is unknown.  So the table is asked for references only, whatever other names it binds. -/
theorem read_rules (t : SymbolTable) (token : String) :
    (∀ n : Gpr, read t token = .ok (.resolved (.reg (.gpr n))) ↔
      ∃ ds, token.toList = 'r' :: ds ∧ Spells 10 ds n) ∧
    (∀ ds, token.toList = 'r' :: ds → (∀ n < 16, ¬ Spells 10 ds n) →
      read t token = .error (.invalidRegister token)) ∧
    (∀ r, (∀ n, r ≠ .gpr n) →
      (read t token = .ok (.resolved (.reg r)) ↔ (token, r) ∈ specialNames)) ∧
    (IsNumeric token.toList →
      read t token = (readConstant token).map (fun v => .resolved (.imm v)) ∧
      (∀ l, read t token ≠ .ok (.unresolved l)) ∧
      ∀ x, read t token ≠ .error (.unknownOperand x)) ∧
    (IsReference token.toList →
      (∀ a, t.lookup token = some a → read t token = .ok (.resolved (.imm a.toNat))) ∧
      (t.lookup token = none → read t token = .ok (.unresolved token))) ∧
    (read t token = .error (.unknownOperand token) ↔
      token.toList.head? ≠ some 'r' ∧ (∀ r, (token, r) ∉ specialNames) ∧
      ¬ IsNumeric token.toList ∧ ¬ IsReference token.toList) ∧
    (¬ IsReference token.toList → ∀ t', read t' token = read t token) := by
  refine ⟨fun n => ⟨fun h => ?_, ?_⟩, fun ds hds hn => reading_iff.mp (.noRegister hds hn),
    fun r hr => ⟨fun h => ?_, fun h => reading_iff.mp (.special h)⟩, fun h => ?_,
    fun h => ⟨fun a ha => reading_iff.mp (.bound h ha), fun ha => reading_iff.mp (.unbound h ha)⟩,
    ⟨fun h => ?_, ?_⟩, fun h t' => read_of_not_isReference h t t'⟩
  · cases reading_iff.mpr h with
    | general hds hn => exact ⟨_, hds, hn⟩
    | special h => simp [specialNames] at h
  · rintro ⟨ds, hds, hn⟩
    exact reading_iff.mp (.general hds hn)
  · cases reading_iff.mpr h with
    | general hds hn => exact absurd rfl (hr _)
    | special h => exact h
  · have hread := read_of_isNumeric h t
    refine ⟨hread, ?_, ?_⟩
    · rw [hread, readConstant]
      cases constant? token.toList <;> simp [Except.map]
    · rw [hread, readConstant]
      cases constant? token.toList <;> simp [Except.map]
  · cases reading_iff.mpr h with
    | unknown hregister hspecial hnumeric hreference =>
        exact ⟨hregister, hspecial, hnumeric, hreference⟩
  · rintro ⟨hregister, hspecial, hnumeric, hreference⟩
    exact reading_iff.mp (.unknown hregister hspecial hnumeric hreference)

/-- A table that binds a label, and also the names of registers and of a number. -/
def shadowing : SymbolTable :=
  ⟨[⟨"@x", 0xFFFFFFFC, 1⟩, ⟨"r05", 1, 2⟩, ⟨"pc", 2, 3⟩, ⟨"-12", 3, 4⟩], by decide⟩

/-- Each rule in turn: names of the table that are no references make no difference. -/
theorem read_rules_shadowing :
    read shadowing "r05" = .ok (.resolved (.reg (.gpr 5))) ∧
    read shadowing "r16" = .error (.invalidRegister "r16") ∧
    read shadowing "pc" = .ok (.resolved (.reg .pc)) ∧
    read shadowing "-12" = .ok (.resolved (.imm (-12))) ∧
    read shadowing "@x" = .ok (.resolved (.imm 0xFFFFFFFC)) ∧
    read .empty "@x" = .ok (.unresolved "@x") ∧
    read shadowing "x" = .error (.unknownOperand "x") ∧
    read .empty "r05" = read shadowing "r05" := by
  have hfive : Spells 10 ['0', '5'] 5 := Numeral.valueOf?_eq_some_iff.mp rfl
  have hsixteen : ∀ n < 16, ¬ Spells 10 ['1', '6'] n := gpr?_eq_none_iff.mp rfl
  have hnumeric : IsNumeric "-12".toList := ⟨'1', ['2'], by decide, .inr rfl⟩
  have href : IsReference "@x".toList := ⟨'x', [], rfl⟩
  have hother : ¬ IsReference "r05".toList := by simp [IsReference]
  obtain ⟨hgeneral, -, -, -, -, -, htables⟩ := read_rules shadowing "r05"
  obtain ⟨-, hinvalid, -⟩ := read_rules shadowing "r16"
  obtain ⟨-, -, hspecial, -⟩ := read_rules shadowing "pc"
  obtain ⟨-, -, -, hconstant, -⟩ := read_rules shadowing "-12"
  obtain ⟨-, -, -, -, hbound, -⟩ := read_rules shadowing "@x"
  obtain ⟨-, -, -, -, hunbound, -⟩ := read_rules .empty "@x"
  obtain ⟨-, -, -, -, -, hunknown, -⟩ := read_rules shadowing "x"
  refine ⟨(hgeneral 5).mpr ⟨_, rfl, hfive⟩, hinvalid _ rfl hsixteen,
    (hspecial .pc (by simp)).mpr (by simp [specialNames]), (hconstant hnumeric).1,
    (hbound href).1 _ rfl, (hunbound href).2 rfl, hunknown.mpr ?_, htables hother _⟩
  exact ⟨by simp, by simp [specialNames], mt looksNumeric_iff.mpr (by decide),
    by simp [IsReference]⟩

end Asm32.Operand
