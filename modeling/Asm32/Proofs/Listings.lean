import Asm32.Image
import Asm32.Proofs.SourceText

/-!
# Which texts are listings

A listing is read line by line, and of each line the first two fields.  A line is blank, or shows a
word at an address (`Image.Shows`), or is at fault (`Image.Blames`); what is read from it is the one
that holds (`Image.readLine_eq_none_iff` and its two companions).  Reading goes on past the lines of
the first two kinds and stops at the first of the third (`Image.readLines_eq_error_iff`).

**Listings** (`Image.ofListing_exact`).  Which texts are listings, which words they have, and which
line is blamed in a text that is none.
-/

namespace Asm32.Image

/-! ### Fields -/

/-- A field spells a word: hexadecimal digits, after a plus sign or after none. -/
def SpellsWord (field : String) (w : UInt32) : Prop :=
  ∃ ds, (field.toList = ds ∨ field.toList = '+' :: ds) ∧ Numeral.Spells 16 ds w.toNat

theorem readHexWord_eq_ok_iff {field : String} {w : UInt32} :
    readHexWord field = .ok w ↔ SpellsWord field w := by
  have hread : ∀ n, Numeral.readBelow 16 UInt32.size field.toList = .ok n ↔
      (∃ ds, (field.toList = ds ∨ field.toList = '+' :: ds) ∧ Numeral.Spells 16 ds n) ∧
        n < UInt32.size := fun n => Numeral.readBelow_eq_ok_iff (by decide) (by decide)
  rw [readHexWord]
  constructor
  · intro h
    cases hn : Numeral.readBelow 16 UInt32.size field.toList with
    | error e =>
        rw [hn] at h
        cases h
    | ok n =>
        rw [hn] at h
        obtain rfl : UInt32.ofNat n = w := Except.ok.inj h
        obtain ⟨hspells, hlt⟩ := (hread n).mp hn
        rwa [SpellsWord, UInt32.toNat_ofNat_of_lt' hlt]
  · intro h
    rw [(hread w.toNat).mpr ⟨h, w.toNat_lt⟩]
    exact congrArg Except.ok UInt32.ofNat_toNat

theorem readHexWord_eq_error {field : String} {cause : Numeral.RangeError}
    (h : readHexWord field = .error cause) (w : UInt32) : ¬ SpellsWord field w := by
  rw [← readHexWord_eq_ok_iff, h]
  simp

/-! ### Lines -/

def isBlankLine (line : String) : Bool := line.toList.all Text.isBlank

/-- The first two fields of a line spell a word and its address, and anything may follow. -/
def Shows (line : String) (w : Word) : Prop :=
  ∃ op addr rest, Text.fields line = op :: addr :: rest ∧ SpellsWord op w.raw ∧
    SpellsWord addr w.address

/-- A listing may have the line. -/
def Proper (line : String) : Prop := isBlankLine line = true ∨ ∃ w, Shows line w

/-- What is wrong with a line: it has one field, or its first field spells no word, or that one does
and the second does not. -/
inductive Blames (number : Nat) (line : String) : ImageError → Prop
  | missingAddress {op : String} (h : Text.fields line = [op]) :
      Blames number line (.missingAddress number)
  | badOpcode {op addr : String} {rest : List String} {cause : Numeral.RangeError}
      (h : Text.fields line = op :: addr :: rest) (hop : ∀ w, ¬ SpellsWord op w)
      (hcause : readHexWord op = .error cause) : Blames number line (.badOpcode number op cause)
  | badAddress {op addr : String} {rest : List String} {raw : UInt32} {cause : Numeral.RangeError}
      (h : Text.fields line = op :: addr :: rest) (hop : SpellsWord op raw)
      (haddr : ∀ w, ¬ SpellsWord addr w) (hcause : readHexWord addr = .error cause) :
      Blames number line (.badAddress number addr cause)

theorem fields_eq_nil_iff {line : String} :
    Text.fields line = [] ↔ isBlankLine line = true := by
  rw [Text.fields, List.map_eq_nil_iff, Text.words_eq_nil_iff, isBlankLine, List.all_eq_true]

theorem readLine_eq_none_iff (number : Nat) {line : String} :
    readLine number line = .ok none ↔ isBlankLine line = true := by
  rw [← fields_eq_nil_iff, readLine.eq_def]
  split
  · simp [*]
  · simp [*]
  · rename_i op addr rest hfields
    cases readHexWord op with
    | error e => simp [*]
    | ok raw => cases readHexWord addr <;> simp [*]

theorem readLine_eq_some_iff (number : Nat) {line : String} {w : Word} :
    readLine number line = .ok (some w) ↔ Shows line w := by
  constructor
  · intro h
    rw [readLine.eq_def] at h
    split at h
    · cases h
    · cases h
    · rename_i op addr rest hfields
      cases hop : readHexWord op with
      | error e => simp [hop] at h
      | ok raw =>
          cases haddr : readHexWord addr with
          | error e => simp [hop, haddr] at h
          | ok address =>
              simp only [hop, haddr, Except.ok.injEq, Option.some.injEq] at h
              subst h
              exact ⟨op, addr, rest, hfields, readHexWord_eq_ok_iff.mp hop,
                readHexWord_eq_ok_iff.mp haddr⟩
  · rintro ⟨op, addr, rest, hfields, hop, haddr⟩
    simp [readLine, hfields, readHexWord_eq_ok_iff.mpr hop, readHexWord_eq_ok_iff.mpr haddr]

theorem readLine_eq_error_iff (number : Nat) {line : String} {e : ImageError} :
    readLine number line = .error e ↔ Blames number line e := by
  constructor
  · intro h
    rw [readLine.eq_def] at h
    split at h
    · cases h
    · rename_i op hfields
      cases h
      exact .missingAddress hfields
    · rename_i op addr rest hfields
      cases hop : readHexWord op with
      | error cause =>
          simp only [hop, Except.error.injEq] at h
          subst h
          exact .badOpcode hfields (readHexWord_eq_error hop) hop
      | ok raw =>
          cases haddr : readHexWord addr with
          | error cause =>
              simp only [hop, haddr, Except.error.injEq] at h
              subst h
              exact .badAddress hfields (readHexWord_eq_ok_iff.mp hop) (readHexWord_eq_error haddr)
                haddr
          | ok address => simp [hop, haddr] at h
  · intro h
    cases h with
    | missingAddress h => simp [readLine, h]
    | badOpcode h _ hcause => simp [readLine, h, hcause]
    | badAddress h hop _ hcause => simp [readLine, h, readHexWord_eq_ok_iff.mpr hop, hcause]

/-- A line is blamed exactly when a listing may not have it. -/
theorem exists_blames_iff (number : Nat) {line : String} :
    (∃ e, Blames number line e) ↔ ¬ Proper line := by
  simp only [Proper, ← readLine_eq_error_iff, ← readLine_eq_none_iff number,
    ← readLine_eq_some_iff number]
  rcases readLine number line with e | _ | w <;> simp

/-! ### Listings -/

theorem readLines_cons_of_proper {number : Nat} {line : String} {ls : List (Nat × String)}
    {e : ImageError} (h : Proper line) :
    readLines ((number, line) :: ls) = .error e ↔ readLines ls = .error e := by
  rcases h with h | ⟨w, h⟩
  · simp only [readLines, (readLine_eq_none_iff number).mpr h]
  · simp only [readLines, (readLine_eq_some_iff number).mpr h]
    cases readLines ls <;> simp [Except.map]

/-- Lines are read up to the first that no listing may have. -/
theorem readLines_eq_error_iff {ls : List (Nat × String)} {e : ImageError} :
    readLines ls = .error e ↔
      ∃ i l, ls[i]? = some l ∧ Blames l.1 l.2 e ∧ ∀ k ∈ ls.take i, Proper k.2 := by
  induction ls with
  | nil => simp [readLines]
  | cons l ls ih =>
      obtain ⟨number, line⟩ := l
      by_cases h : Proper line
      · rw [readLines_cons_of_proper h, ih]
        constructor
        · rintro ⟨i, l, hl, hblames, hbefore⟩
          refine ⟨i + 1, l, hl, hblames, ?_⟩
          rw [List.take_succ_cons]
          exact List.forall_mem_cons.mpr ⟨h, hbefore⟩
        · rintro ⟨_ | i, l, hl, hblames, hbefore⟩
          · cases hl
            exact absurd h ((exists_blames_iff _).mp ⟨e, hblames⟩)
          · rw [List.take_succ_cons] at hbefore
            exact ⟨i, l, hl, hblames, (List.forall_mem_cons.mp hbefore).2⟩
      · obtain ⟨e', he'⟩ := (exists_blames_iff number).mpr h
        have hline := (readLine_eq_error_iff number).mpr he'
        simp only [readLines, hline, Except.error.injEq]
        constructor
        · rintro rfl
          exact ⟨0, (number, line), rfl, he', by simp⟩
        · rintro ⟨_ | i, l, hl, hblames, hbefore⟩
          · cases hl
            have hblamed := (readLine_eq_error_iff number).mpr hblames
            rw [hline] at hblamed
            exact Except.error.inj hblamed
          · rw [List.take_succ_cons] at hbefore
            exact absurd (List.forall_mem_cons.mp hbefore).1 h

/-- Every line that is not blank gives its word. -/
theorem readLines_eq_ok_iff {ls : List (Nat × String)} {words : List Word} :
    readLines ls = .ok words ↔
      List.Forall₂ Shows ((ls.map Prod.snd).filter fun l => !isBlankLine l) words := by
  induction ls generalizing words with
  | nil => simp [readLines, eq_comm]
  | cons l ls ih =>
      obtain ⟨number, line⟩ := l
      have hblank : isBlankLine line = true ↔ readLine number line = .ok none :=
        (readLine_eq_none_iff number).symm
      have hshows : ∀ w, Shows line w ↔ readLine number line = .ok (some w) :=
        fun w => (readLine_eq_some_iff number).symm
      rw [List.map_cons, List.filter_cons]
      rcases hline : readLine number line with e | _ | w
      · have hnot : isBlankLine line = false := by simp [← Bool.not_eq_true, hblank, hline]
        simp [readLines, hline, hnot, List.forall₂_cons_left_iff, hshows]
      · have hyes : isBlankLine line = true := hblank.mpr hline
        simp only [readLines, hline, hyes]
        exact ih
      · have hnot : isBlankLine line = false := by simp [← Bool.not_eq_true, hblank, hline]
        simp only [readLines, hline, hnot, Bool.not_false, if_true, List.forall₂_cons_left_iff,
          hshows, Except.ok.injEq, Option.some.injEq, ← ih]
        cases readLines ls <;> simp [Except.map, eq_comm]

theorem ofListing_eq_ok_iff {text : String} {img : Image} :
    ofListing text = .ok img ↔
      List.Forall₂ Shows ((Text.lines text).filter fun l => !isBlankLine l) img.words := by
  rw [← Text.map_snd_numberedLines, ← readLines_eq_ok_iff, ofListing]
  obtain ⟨words⟩ := img
  cases readLines (Text.numberedLines text) <;> simp [Except.map]

theorem ofListing_eq_error_iff {text : String} {e : ImageError} :
    ofListing text = .error e ↔ ∃ i line, (Text.lines text)[i]? = some line ∧
      Blames (i + 1) line e ∧ ∀ l ∈ (Text.lines text).take i, Proper l := by
  have hread : ofListing text = .error e ↔ readLines (Text.numberedLines text) = .error e := by
    rw [ofListing]
    cases readLines (Text.numberedLines text) <;> simp [Except.map]
  rw [hread, readLines_eq_error_iff]
  have hbefore : ∀ i, (∀ k ∈ (Text.numberedLines text).take i, Proper k.2) ↔
      ∀ l ∈ (Text.lines text).take i, Proper l := by
    intro i
    rw [← Text.map_snd_numberedLines, ← List.map_take, List.forall_mem_map]
  simp only [hbefore, Text.getElem?_numberedLines]
  constructor
  · rintro ⟨i, l, hl, hblames, hproper⟩
    obtain ⟨line, hline, rfl⟩ := Option.map_eq_some_iff.mp hl
    exact ⟨i, line, hline, hblames, hproper⟩
  · rintro ⟨i, line, hline, hblames, hproper⟩
    exact ⟨i, (i + 1, line), by rw [hline]; rfl, hblames, hproper⟩

/-- What is said about a line names its number. -/
theorem Blames.message {number : Nat} {line : String} {e : ImageError} (h : Blames number line e) :
    ∃ why, e.message = "line " ++ Numeral.decimal number ++ ": " ++ why := by
  cases h with
  | missingAddress h =>
      exact ⟨"missing address field", String.toList_inj.mp (by simp [ImageError.message])⟩
  | @badOpcode op _ _ _ h _ _ =>
      exact ⟨"bad opcode `" ++ op ++ "`", String.toList_inj.mp (by simp [ImageError.message])⟩
  | @badAddress _ addr _ _ _ h _ _ _ =>
      exact ⟨"bad address `" ++ addr ++ "`", String.toList_inj.mp (by simp [ImageError.message])⟩

/-- A text is a listing exactly when every line of it is proper. -/
theorem exists_ofListing_iff {text : String} :
    (∃ img, ofListing text = .ok img) ↔ ∀ line ∈ Text.lines text, Proper line := by
  constructor
  · rintro ⟨img, h⟩ line hline
    by_cases hblank : isBlankLine line = true
    · exact .inl hblank
    · have hwords := ofListing_eq_ok_iff.mp h
      have hmem : line ∈ (Text.lines text).filter fun l => !isBlankLine l :=
        List.mem_filter.mpr ⟨hline, by simpa using hblank⟩
      obtain ⟨i, hi, rfl⟩ := List.mem_iff_getElem.mp hmem
      exact .inr ⟨_, hwords.get hi (hwords.length_eq ▸ hi)⟩
  · intro h
    cases htext : ofListing text with
    | ok img => exact ⟨img, rfl⟩
    | error e =>
        obtain ⟨i, line, hline, hblames, -⟩ := ofListing_eq_error_iff.mp htext
        exact absurd (h line (List.mem_of_getElem? hline)) ((exists_blames_iff _).mp ⟨e, hblames⟩)

/-- **Listings.**  A text is a listing exactly when each of its lines is blank or shows a word at an
address, and then the image has the words that its lines show, in order.  Otherwise the error is
about the first line that is neither: its number, counted from one with the blank lines, stands in
front of the message, and a missing field is reported before a word that cannot be read, and that
before an address. -/
theorem ofListing_exact (text : String) :
    (∀ img, ofListing text = .ok img ↔
      List.Forall₂ Shows ((Text.lines text).filter fun l => !isBlankLine l) img.words) ∧
    ((∃ img, ofListing text = .ok img) ↔ ∀ line ∈ Text.lines text, Proper line) ∧
    (∀ e, ofListing text = .error e ↔ ∃ i line, (Text.lines text)[i]? = some line ∧
      Blames (i + 1) line e ∧ ∀ l ∈ (Text.lines text).take i, Proper l) ∧
    ∀ number line e, Blames number line e →
      ∃ why, e.message = "line " ++ Numeral.decimal number ++ ": " ++ why := by
  refine ⟨fun img => ofListing_eq_ok_iff, exists_ofListing_iff, fun e => ofListing_eq_error_iff,
    fun number line e h => h.message⟩

/-- The word of the third line is too large, which is reported before its address and before the
line after it. -/
theorem ofListing_exact_third :
    ofListing "2a +4 ldi r10, 1\r\n\u3000\n1FFFFFFFF zz\n7" =
      .error (.badOpcode 3 "1FFFFFFFF" .tooLarge) ∧
    (∃ i line, (Text.lines "2a +4 ldi r10, 1\r\n\u3000\n1FFFFFFFF zz\n7")[i]? = some line ∧
      Blames (i + 1) line (.badOpcode 3 "1FFFFFFFF" .tooLarge)) ∧
    ∃ why, (ImageError.badOpcode 3 "1FFFFFFFF" .tooLarge).message =
      "line " ++ Numeral.decimal 3 ++ ": " ++ why := by
  have h : ofListing "2a +4 ldi r10, 1\r\n\u3000\n1FFFFFFFF zz\n7" =
      .error (.badOpcode 3 "1FFFFFFFF" .tooLarge) := rfl
  have hthird : Blames 3 "1FFFFFFFF zz" (.badOpcode 3 "1FFFFFFFF" .tooLarge) :=
    (readLine_eq_error_iff 3).mp rfl
  obtain ⟨-, -, herror, hmessage⟩ :=
    ofListing_exact "2a +4 ldi r10, 1\r\n\u3000\n1FFFFFFFF zz\n7"
  obtain ⟨i, line, hline, hblames, -⟩ := (herror _).mp h
  exact ⟨h, ⟨i, line, hline, hblames⟩, hmessage _ _ _ hthird⟩

end Asm32.Image
