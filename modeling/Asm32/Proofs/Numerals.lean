import Mathlib
import Asm32.Numeral

/-!
# Numerals are read back

The digits of a number spell that number, in every base from two to sixteen.

Writing takes the last digit off and goes on with the rest, while reading goes from the first digit
to the last; the two meet in `valueFrom?_append`.  The number of steps that writing may take is the
number of bits, which is enough in every base.

Reading under a bound accepts what reading accepts, as long as the number is under the bound
(`readFrom_eq_ok_iff`).

What digits spell is said without reading (`Spells`): each character is one of the sixteen digits,
in either case, and the number is the positional value of the digits.  Reading gives a number
exactly when the text spells it (`valueOf?_eq_some_iff`, `readBelow_eq_ok_iff`), so a number is also
read back from a column (`readBelow_padded`).
-/

namespace Asm32.Numeral

theorem digitValue?_digitChar {base d : Nat} (hbase : base ≤ 16) (hd : d < base) :
    digitValue? base (digitChar d) = some d := by
  have hall : ∀ b ≤ 16, ∀ d < b, digitValue? b (digitChar d) = some d := by decide
  exact hall base hbase d hd

theorem valueFrom?_digitChar {base d : Nat} (hbase : base ≤ 16) (hd : d < base) (acc : Nat) :
    valueFrom? base acc [digitChar d] = some (acc * base + d) := by
  rw [valueFrom?, digitValue?_digitChar hbase hd]
  rfl

theorem valueFrom?_append (base acc : Nat) (cs ds : List Char) :
    valueFrom? base acc (cs ++ ds) =
      (valueFrom? base acc cs).bind fun n => valueFrom? base n ds := by
  induction cs generalizing acc with
  | nil => rfl
  | cons c cs ih =>
      rw [List.cons_append, valueFrom?, valueFrom?]
      cases digitValue? base c with
      | none => rfl
      | some d => exact ih (acc * base + d)

theorem mem_digitsWithin {base fuel n : Nat} (hbase : 0 < base) {c : Char}
    (h : c ∈ digitsWithin base fuel n) : ∃ d < base, c = digitChar d := by
  induction fuel generalizing n with
  | zero => cases h
  | succ fuel ih =>
      rw [digitsWithin] at h
      split at h
      · exact ⟨n, ‹_›, List.mem_singleton.mp h⟩
      · rcases List.mem_append.mp h with h | h
        · exact ih h
        · exact ⟨n % base, Nat.mod_lt n hbase, List.mem_singleton.mp h⟩

theorem digitsWithin_ne_nil (base fuel n : Nat) : digitsWithin base (fuel + 1) n ≠ [] := by
  rw [digitsWithin]
  split
  · exact List.cons_ne_nil _ _
  · exact List.append_ne_nil_of_right_ne_nil _ (List.cons_ne_nil _ _)

/-- The digits spell the number when there are steps enough to write all of them. -/
theorem valueFrom?_digitsWithin {base fuel n : Nat} (hbase : 0 < base) (hbase' : base ≤ 16)
    (hn : n < base ^ (fuel + 1)) :
    valueFrom? base 0 (digitsWithin base (fuel + 1) n) = some n := by
  induction fuel generalizing n with
  | zero =>
      rw [Nat.zero_add, Nat.pow_one] at hn
      rw [digitsWithin, if_pos hn, valueFrom?_digitChar hbase' hn, Nat.zero_mul, Nat.zero_add]
  | succ fuel ih =>
      rw [digitsWithin]
      split
      · rw [valueFrom?_digitChar hbase' ‹_›, Nat.zero_mul, Nat.zero_add]
      · have hq : n / base < base ^ (fuel + 1) := by
          rw [Nat.div_lt_iff_lt_mul hbase, ← Nat.pow_succ]
          exact hn
        rw [valueFrom?_append, ih hq, Option.bind_some,
          valueFrom?_digitChar hbase' (Nat.mod_lt n hbase), Nat.div_add_mod']

theorem toList_decimal (n : Nat) : (decimal n).toList = digits 10 n := String.toList_ofList

theorem toList_hex (n : Nat) : (hex n).toList = digits 16 n := String.toList_ofList

theorem valueFrom?_digits {base : Nat} (hbase : 2 ≤ base) (hbase' : base ≤ 16) (n : Nat) :
    valueFrom? base 0 (digits base n) = some n := by
  -- a number has no more digits than bits
  have hn : n < base ^ (n.log2 + 1) := calc
    n < 2 ^ (n.log2 + 1) := Nat.lt_log2_self
    _ ≤ base ^ (n.log2 + 1) := Nat.pow_le_pow_left hbase _
  exact valueFrom?_digitsWithin (Nat.lt_of_lt_of_le Nat.zero_lt_two hbase) hbase' hn

/-- **Read back.**  The digits of a number spell it. -/
theorem valueOf?_digits {base : Nat} (hbase : 2 ≤ base) (hbase' : base ≤ 16) (n : Nat) :
    valueOf? base (digits base n) = some n := by
  rw [valueOf?]
  · exact valueFrom?_digits hbase hbase' n
  · exact digitsWithin_ne_nil base n.log2 n

/-! ### Reading under a bound -/

theorem le_of_valueFrom? {base acc n : Nat} {cs : List Char} (hbase : 0 < base)
    (h : valueFrom? base acc cs = some n) : acc ≤ n := by
  induction cs generalizing acc with
  | nil => exact Nat.le_of_eq (Option.some.inj h)
  | cons c cs ih =>
      obtain ⟨d, -, h⟩ := Option.bind_eq_some_iff.mp h
      calc acc ≤ acc * base := Nat.le_mul_of_pos_right acc hbase
        _ ≤ acc * base + d := Nat.le_add_right _ _
        _ ≤ n := ih h

/-- Reading under a bound is reading, and the number is under the bound: what was read so far is
never above the number. -/
theorem readFrom_eq_ok_iff {base bound acc n : Nat} {cs : List Char} (hbase : 0 < base)
    (hacc : acc < bound) :
    readFrom base bound acc cs = .ok n ↔ valueFrom? base acc cs = some n ∧ n < bound := by
  induction cs generalizing acc with
  | nil =>
      rw [readFrom, valueFrom?, Except.ok.injEq, Option.some.injEq]
      exact ⟨fun h => ⟨h, h ▸ hacc⟩, fun h => h.1⟩
  | cons c cs ih =>
      rw [readFrom, valueFrom?]
      cases digitValue? base c with
      | none => simp
      | some d =>
          rw [Option.bind_some]
          by_cases hd : acc * base + d < bound
          · simp only [if_pos hd]
            exact ih hd
          · simp only [if_neg hd]
            refine ⟨fun h => ?_, fun h => ?_⟩
            · cases h
            · have hle := le_of_valueFrom? hbase h.1
              omega

/-! ### What digits spell -/

/-- The character `c` is the digit `d` of `base`; a letter may be of either case. -/
def DigitOf (base : Nat) (c : Char) (d : Nat) : Prop :=
  d < base ∧ ("0123456789abcdef".toList[d]? = some c ∨ "0123456789ABCDEF".toList[d]? = some c)

/-- One or more digits spell `n` in `base`, the most significant first. -/
def Spells (base : Nat) (cs : List Char) (n : Nat) : Prop :=
  cs ≠ [] ∧ ∃ ds, List.Forall₂ (DigitOf base) cs ds ∧ Nat.ofDigits base ds.reverse = n

/-- The ranges of the digits, by the numbers of their characters. -/
theorem digitValue?_eq (base : Nat) (c : Char) :
    digitValue? base c =
      (if 48 ≤ c.toNat ∧ c.toNat ≤ 57 then some (c.toNat - 48)
      else if 97 ≤ c.toNat ∧ c.toNat ≤ 102 then some (c.toNat - 87)
      else if 65 ≤ c.toNat ∧ c.toNat ≤ 70 then some (c.toNat - 55)
      else none).filter (· < base) := by
  have hle : ∀ a b : Char, a ≤ b ↔ a.toNat ≤ b.toNat := fun _ _ => Iff.rfl
  simp only [digitValue?, hle, Char.reduceToNat]

theorem digitValue?_eq_some_iff {base d : Nat} {c : Char} :
    digitValue? base c = some d ↔ DigitOf base c d := by
  constructor
  · intro h
    rw [digitValue?_eq] at h
    obtain ⟨hv, hd⟩ := Option.filter_eq_some_iff.mp h
    refine ⟨by simpa using hd, ?_⟩
    rw [← Char.ofNat_toNat c]
    generalize c.toNat = k at hv ⊢
    split_ifs at hv with hdecimal hlower hupper
    · obtain rfl := Option.some.inj hv
      obtain ⟨h₁, h₂⟩ := hdecimal
      interval_cases k <;> simp
    · obtain rfl := Option.some.inj hv
      obtain ⟨h₁, h₂⟩ := hlower
      interval_cases k <;> simp
    · obtain rfl := Option.some.inj hv
      obtain ⟨h₁, h₂⟩ := hupper
      interval_cases k <;> simp
  · rintro ⟨hd, h⟩
    have hlt : d < 16 := by
      rcases h with h | h
      · exact (List.getElem?_eq_some_iff.mp h).1
      · exact (List.getElem?_eq_some_iff.mp h).1
    have hvalue : digitValue? 16 c = some d := by
      interval_cases d <;> rcases h with h | h <;> cases h <;> rfl
    have hv := (Option.filter_eq_some_iff.mp hvalue).1
    exact Option.filter_eq_some_iff.mpr ⟨hv, by simpa using hd⟩

theorem isDigit_iff {c : Char} : isDigit 10 c = true ↔ '0' ≤ c ∧ c ≤ '9' := by
  have hrange : '0' ≤ c ∧ c ≤ '9' ↔ 48 ≤ c.toNat ∧ c.toNat ≤ 57 := Iff.rfl
  rw [isDigit, digitValue?_eq, hrange]
  split_ifs with hdecimal hlower hupper
  · have hlt : c.toNat - 48 < 10 := by omega
    exact iff_of_true (by simp [hlt]) hdecimal
  -- a letter is a digit of larger bases only
  · have hle : ¬ c.toNat - 87 < 10 := by omega
    exact iff_of_false (by simp [hle]) hdecimal
  · have hle : ¬ c.toNat - 55 < 10 := by omega
    exact iff_of_false (by simp [hle]) hdecimal
  · exact iff_of_false (by simp) hdecimal

/-- Reading adds the value of the digits to what was read before, which they move up. -/
theorem valueFrom?_eq_some_iff {base acc n : Nat} {cs : List Char} :
    valueFrom? base acc cs = some n ↔ ∃ ds, List.Forall₂ (DigitOf base) cs ds ∧
      acc * base ^ ds.length + Nat.ofDigits base ds.reverse = n := by
  induction cs generalizing acc with
  | nil => simp [valueFrom?]
  | cons c cs ih =>
      have hvalue : ∀ (d : Nat) (ds : List Nat),
          (acc * base + d) * base ^ ds.length + Nat.ofDigits base ds.reverse =
            acc * base ^ (d :: ds).length + Nat.ofDigits base (d :: ds).reverse := by
        intro d ds
        rw [List.reverse_cons, Nat.ofDigits_append, Nat.ofDigits_singleton, List.length_reverse,
          List.length_cons]
        ring
      rw [valueFrom?, Option.bind_eq_some_iff]
      constructor
      · rintro ⟨d, hd, h⟩
        obtain ⟨ds, hds, hn⟩ := ih.mp h
        exact ⟨d :: ds, .cons (digitValue?_eq_some_iff.mp hd) hds, by rw [← hvalue, hn]⟩
      · rintro ⟨ds, h, hn⟩
        obtain ⟨d, ds, hd, hds, rfl⟩ := List.forall₂_cons_left_iff.mp h
        exact ⟨d, digitValue?_eq_some_iff.mpr hd, ih.mpr ⟨ds, hds, by rw [hvalue, hn]⟩⟩

/-- **What is read.**  Digits are read as the number that they spell. -/
theorem valueOf?_eq_some_iff {base n : Nat} {cs : List Char} :
    valueOf? base cs = some n ↔ Spells base cs n := by
  cases cs with
  | nil => simp [valueOf?, Spells]
  | cons c cs => simp [valueOf?, Spells, valueFrom?_eq_some_iff]

theorem spells_digits {base : Nat} (hbase : 2 ≤ base) (hbase' : base ≤ 16) (n : Nat) :
    Spells base (digits base n) n :=
  valueOf?_eq_some_iff.mp (valueOf?_digits hbase hbase' n)

theorem not_spells_of_valueOf? {base n : Nat} {cs : List Char} (h : valueOf? base cs = none) :
    ¬ Spells base cs n := by
  rw [← valueOf?_eq_some_iff, h]
  simp

/-- Checking the bound at each digit accepts the numbers that are under it at the last. -/
theorem readFrom_zero_eq_ok_iff {base bound n : Nat} {cs : List Char} (hbase : 0 < base)
    (hbound : 0 < bound) (hcs : cs ≠ []) :
    readFrom base bound 0 cs = .ok n ↔ Spells base cs n ∧ n < bound := by
  rw [readFrom_eq_ok_iff hbase hbound, ← valueOf?_eq_some_iff, valueOf?]
  exact hcs

/-- **What is read under a bound.**  A number under the bound is read from its digits, with or
without a plus sign before them. -/
theorem readBelow_eq_ok_iff {base bound n : Nat} {cs : List Char} (hbase : 0 < base)
    (hbound : 0 < bound) :
    readBelow base bound cs = .ok n ↔
      (∃ ds, (cs = ds ∨ cs = '+' :: ds) ∧ Spells base ds n) ∧ n < bound := by
  rw [readBelow.eq_def]
  split
  · simp [Spells]
  · rename_i c cs
    -- a plus sign is no digit, so only the text after it can spell the number
    have hplus : ¬ Spells base ('+' :: c :: cs) n := not_spells_of_valueOf? rfl
    rw [readFrom_zero_eq_ok_iff hbase hbound (List.cons_ne_nil c cs)]
    simp [hplus]
  · rename_i hnil hplus
    rw [readFrom_zero_eq_ok_iff hbase hbound hnil]
    refine and_congr_left fun _ => ⟨fun h => ⟨_, .inl rfl, h⟩, ?_⟩
    rintro ⟨ds, rfl | rfl, h⟩
    · exact h
    · obtain ⟨c, ds, rfl⟩ := List.exists_cons_of_ne_nil h.1
      exact absurd rfl (hplus c ds)

/-! ### Columns -/

theorem mem_padded {width base n : Nat} (hbase : 0 < base) {c : Char}
    (h : c ∈ padded width base n) : ∃ d < base, c = digitChar d := by
  rcases List.mem_append.mp h with h | h
  · exact ⟨0, hbase, (List.mem_replicate.mp h).2⟩
  · exact mem_digitsWithin hbase h

theorem padded_ne_nil (width base n : Nat) : padded width base n ≠ [] :=
  List.append_ne_nil_of_right_ne_nil _ (digitsWithin_ne_nil base n.log2 n)

theorem valueFrom?_zeros {base : Nat} (hbase : 0 < base) (hbase' : base ≤ 16) (k : Nat) :
    valueFrom? base 0 (List.replicate k '0') = some 0 := by
  induction k with
  | zero => rfl
  | succ k ih =>
      have hzero : digitValue? base '0' = some 0 := digitValue?_digitChar hbase' hbase
      rw [List.replicate_succ, valueFrom?, hzero, Option.bind_some, Nat.zero_mul]
      exact ih

/-- **Read back from a column.**  The digits of a number spell it under every bound that it is
under, with any number of zeros before them. -/
theorem readBelow_padded {base bound n : Nat} (hbase : 2 ≤ base) (hbase' : base ≤ 16)
    (hn : n < bound) (width : Nat) : readBelow base bound (padded width base n) = .ok n := by
  have hpos : 0 < base := Nat.lt_of_lt_of_le Nat.zero_lt_two hbase
  have hvalue : valueFrom? base 0 (padded width base n) = some n := by
    rw [padded, valueFrom?_append, valueFrom?_zeros hpos hbase', Option.bind_some,
      valueFrom?_digits hbase hbase']
  have hspells : Spells base (padded width base n) n := by
    rw [← valueOf?_eq_some_iff, valueOf?]
    · exact hvalue
    · exact padded_ne_nil width base n
  exact (readBelow_eq_ok_iff hpos (Nat.zero_lt_of_lt hn)).mpr ⟨⟨_, .inl rfl, hspells⟩, hn⟩

end Asm32.Numeral
