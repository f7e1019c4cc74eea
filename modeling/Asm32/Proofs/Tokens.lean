import Mathlib
import Asm32.Line

/-!
# The parts of a line

How a line falls into a code part and a comment, and the code part into words.

The words of a text are the pieces between its separators that are not empty
(`Text.words_eq_filter`), so the two sides of a separator can be cut by themselves
(`Text.words_append_cons`).  Every blank is a separator, and trimming changes no word: the words of
a line are those of the text before its comment (`Line.words_code`).

**Statements** (`Line.read_written`).  Tokens with separators around them and between them, and
with a comment after them, are read as the mnemonic and the operands of a statement.
-/

namespace Asm32.Text

/-! ### Words -/

variable {sep : Char → Bool}

/-- The words are the pieces between separators that are not empty. -/
theorem words_eq_filter (sep : Char → Bool) (cs : List Char) :
    words sep cs = (cs.splitOnP sep).filter fun w => !w.isEmpty := by
  fun_induction words sep cs with
  | case1 => rfl
  | case2 c cs hc ih =>
      rw [List.splitOnP_cons_eq_if_modifyHead, if_pos hc, ih]
      rfl
  | case3 c hc => simp [List.splitOnP_cons_eq_if_modifyHead, hc]
  | case4 c hc d cs hd ih =>
      -- the separator after the word leaves an empty piece, and the character goes there
      rw [ih, List.splitOnP_cons_eq_if_modifyHead c, if_neg hc,
        List.splitOnP_cons_eq_if_modifyHead d, if_pos hd]
      rfl
  | case5 c hc d cs hd hnil ih =>
      obtain ⟨v, vs, hv⟩ := List.exists_cons_of_ne_nil (List.splitOnP_ne_nil sep cs)
      rw [ih, List.splitOnP_cons_eq_if_modifyHead, if_neg hd, hv] at hnil
      cases hnil
  | case6 c hc d cs hd w ws hws ih =>
      obtain ⟨v, vs, hv⟩ := List.exists_cons_of_ne_nil (List.splitOnP_ne_nil sep cs)
      rw [ih, List.splitOnP_cons_eq_if_modifyHead c, if_neg hc,
        List.splitOnP_cons_eq_if_modifyHead d, if_neg hd, hv]
      rfl

theorem words_append_cons {s : Char} (hs : sep s = true) (cs cs' : List Char) :
    words sep (cs ++ s :: cs') = words sep cs ++ words sep cs' := by
  rw [words_eq_filter, List.splitOnP_append_cons cs cs' hs, List.filter_append, ← words_eq_filter,
    ← words_eq_filter]

theorem words_of_forall {w : List Char} (hw : w ≠ []) (h : ∀ c ∈ w, sep c = false) :
    words sep w = [w] := by
  rw [words_eq_filter, List.splitOnP_eq_singleton h]
  simp [hw]

theorem words_append_sep {w : List Char} (hw : w ≠ []) (h : ∀ c ∈ w, sep c = false) {s : Char}
    (hs : sep s = true) (cs : List Char) : words sep (w ++ s :: cs) = w :: words sep cs := by
  rw [words_append_cons hs, words_of_forall hw h]
  rfl

/-- The words hold the characters that are no separator. -/
theorem flatten_words (sep : Char → Bool) (cs : List Char) :
    (words sep cs).flatten = cs.filter fun c => !sep c := by
  rw [words_eq_filter, List.flatten_filter_not_isEmpty]
  induction cs with
  | nil => rfl
  | cons c cs ih =>
      obtain ⟨v, vs, hv⟩ := List.exists_cons_of_ne_nil (List.splitOnP_ne_nil sep cs)
      rw [hv] at ih
      rw [List.splitOnP_cons_eq_if_modifyHead, hv]
      by_cases hc : sep c = true
      · rw [if_pos hc, List.filter_cons_of_neg (by simp [hc]), ← ih]
        rfl
      · rw [if_neg hc, List.filter_cons_of_pos (by simp [hc]), ← ih]
        rfl

theorem ne_nil_of_mem_words {cs w : List Char} (h : w ∈ words sep cs) : w ≠ [] := by
  rw [words_eq_filter] at h
  simpa using (List.mem_filter.mp h).2

theorem not_sep_of_mem_words {cs w : List Char} (h : w ∈ words sep cs) :
    ∀ c ∈ w, sep c = false := by
  intro c hc
  have hm : c ∈ (words sep cs).flatten := List.mem_flatten_of_mem h hc
  rw [flatten_words] at hm
  simpa using (List.mem_filter.mp hm).2

theorem words_eq_nil_iff {cs : List Char} : words sep cs = [] ↔ ∀ c ∈ cs, sep c = true := by
  have hflatten := flatten_words sep cs
  constructor
  · intro h
    rw [h] at hflatten
    simpa using hflatten.symm
  · intro h
    rw [List.filter_eq_nil_iff.mpr (by simpa using h)] at hflatten
    refine List.eq_nil_iff_forall_not_mem.mpr fun w hw => ?_
    exact ne_nil_of_mem_words hw (List.flatten_eq_nil_iff.mp hflatten w hw)

/-- Separators before a text change no word. -/
theorem words_append_of_forall {s : List Char} (hs : ∀ c ∈ s, sep c = true) (cs : List Char) :
    words sep (s ++ cs) = words sep cs := by
  induction s with
  | nil => rfl
  | cons c s ih =>
      obtain ⟨hc, hs⟩ := List.forall_mem_cons.mp hs
      rw [← ih hs]
      exact words_append_cons hc [] (s ++ cs)

/-- Separators after a text change no word. -/
theorem words_append_of_forall_right {s : List Char} (hs : ∀ c ∈ s, sep c = true)
    (cs : List Char) : words sep (cs ++ s) = words sep cs := by
  cases s with
  | nil => rw [List.append_nil]
  | cons c s =>
      obtain ⟨hc, hs⟩ := List.forall_mem_cons.mp hs
      rw [words_append_cons hc, words_eq_nil_iff.mpr hs, List.append_nil]

/-- The words stay when separators are exchanged for other separators. -/
theorem words_map {f : Char → Char} (hsep : ∀ c, sep c = true → sep (f c) = true)
    (hother : ∀ c, sep c = false → f c = c) (cs : List Char) :
    words sep (cs.map f) = words sep cs := by
  have hpieces : (cs.map f).splitOnP sep = cs.splitOnP sep := by
    induction cs with
    | nil => rfl
    | cons c cs ih =>
        rw [List.map_cons, List.splitOnP_cons_eq_if_modifyHead, List.splitOnP_cons_eq_if_modifyHead,
          ih]
        by_cases hc : sep c = true
        · rw [if_pos hc, if_pos (hsep c hc)]
        · rw [hother c (by simpa using hc)]
  rw [words_eq_filter, words_eq_filter, hpieces]

/-- The words depend on the separators that occur. -/
theorem words_congr {sep' : Char → Bool} {cs : List Char} (h : ∀ c ∈ cs, sep c = sep' c) :
    words sep cs = words sep' cs := by
  have hpieces : cs.splitOnP sep = cs.splitOnP sep' := by
    induction cs with
    | nil => rfl
    | cons c cs ih =>
        obtain ⟨hc, hcs⟩ := List.forall_mem_cons.mp h
        rw [List.splitOnP_cons_eq_if_modifyHead, List.splitOnP_cons_eq_if_modifyHead, hc, ih hcs]
  rw [words_eq_filter, words_eq_filter, hpieces]

/-- A word, and further words with a gap before each. -/
def joined (w : List Char) : List (List Char × List Char) → List Char
  | []             => w
  | (s, v) :: rest => w ++ (s ++ joined v rest)

/-! ### Trimming -/

theorem trimStart_of_head? {cs : List Char} {c : Char} (h : cs.head? = some c)
    (hc : isBlank c = false) : trimStart cs = cs := by
  obtain ⟨ds, rfl⟩ := List.head?_eq_some_iff.mp h
  rw [trimStart, List.dropWhile_cons_of_neg (by simp [hc])]

theorem trimEnd_of_getLast? {cs : List Char} {c : Char} (h : cs.getLast? = some c)
    (hc : isBlank c = false) : trimEnd cs = cs := by
  rw [← List.head?_reverse] at h
  have ht := trimStart_of_head? h hc
  rw [trimStart] at ht
  rw [trimEnd, ht, List.reverse_reverse]

theorem mem_of_mem_trimEnd {cs : List Char} {c : Char} (h : c ∈ trimEnd cs) : c ∈ cs :=
  List.mem_reverse.mp (List.dropWhile_subset isBlank (List.mem_reverse.mp h))

theorem mem_of_mem_trim {cs : List Char} {c : Char} (h : c ∈ trim cs) : c ∈ cs :=
  List.dropWhile_subset isBlank (mem_of_mem_trimEnd h)

/-- A text that is trimmed does not end in a blank. -/
theorem isBlank_of_getLast?_trim {cs : List Char} {c : Char} (h : (trim cs).getLast? = some c) :
    isBlank c = false := by
  rw [trim, trimEnd, List.getLast?_reverse] at h
  have hhead := List.head?_dropWhile_not isBlank (trimStart cs).reverse
  rwa [h] at hhead

/-- A text is what trimming leaves of it, with blanks around. -/
theorem exists_trim (cs : List Char) : ∃ lead trail, cs = lead ++ trim cs ++ trail ∧
    (∀ c ∈ lead, isBlank c = true) ∧ ∀ c ∈ trail, isBlank c = true := by
  have hend : trim cs ++ (trimStart cs).rtakeWhile isBlank = trimStart cs :=
    List.rdropWhile_append_rtakeWhile
  refine ⟨cs.takeWhile isBlank, (trimStart cs).rtakeWhile isBlank, ?_,
    fun c hc => List.mem_takeWhile_imp hc, fun c hc => List.mem_rtakeWhile_imp hc⟩
  rw [List.append_assoc, hend]
  exact List.takeWhile_append_dropWhile.symm

/-- A text that is trimmed does not start with a blank. -/
theorem isBlank_of_head?_trim {cs : List Char} {c : Char} (h : (trim cs).head? = some c) :
    isBlank c = false := by
  have hinit : trim cs <+: trimStart cs := List.rdropWhile_prefix isBlank (trimStart cs)
  have hstart := List.head?_dropWhile_not isBlank cs
  rw [← trimStart] at hstart
  obtain ⟨rest, hrest⟩ := hinit
  rw [← hrest, List.head?_append, h] at hstart
  exact hstart

/-- Trimming leaves the first character that is not blank in front. -/
theorem head?_trim (cs : List Char) : (trim cs).head? = cs.find? fun c => !isBlank c := by
  obtain ⟨lead, trail, hcs, hlead, htrail⟩ := exists_trim cs
  have hskip : ∀ l : List Char, (∀ c ∈ l, isBlank c = true) →
      l.find? (fun c => !isBlank c) = none := by
    intro l hl
    simpa using hl
  have hfirst : (trim cs).head? = (trim cs).find? fun c => !isBlank c := by
    cases ht : trim cs with
    | nil => rfl
    | cons c rest =>
        have hc : isBlank c = false := isBlank_of_head?_trim (by rw [ht]; rfl)
        simp [hc]
  conv_rhs => rw [hcs]
  rw [List.find?_append, List.find?_append, hskip lead hlead, hskip trail htrail, Option.none_or,
    Option.or_none, hfirst]

theorem trim_eq_nil_iff {cs : List Char} : trim cs = [] ↔ ∀ c ∈ cs, isBlank c = true := by
  rw [← List.head?_eq_none_iff, head?_trim, List.find?_eq_none]
  simp

theorem words_trim (h : ∀ c, isBlank c = true → sep c = true) (cs : List Char) :
    words sep (trim cs) = words sep cs := by
  obtain ⟨lead, trail, hcs, hlead, htrail⟩ := exists_trim cs
  conv_rhs => rw [hcs]
  rw [words_append_of_forall_right (fun c hc => h c (htrail c hc)),
    words_append_of_forall (fun c hc => h c (hlead c hc))]

/-! ### Lower case -/

theorem lowerChar_ne_nil (c : Char) : lowerChar c ≠ [] := by
  rw [lowerChar]
  split
  · simp
  · split
    · simp
    · split <;> simp

theorem lowerAfter_eq_nil_iff {before cs : List Char} : lowerAfter before cs = [] ↔ cs = [] := by
  cases cs with
  | nil => simp [lowerAfter]
  | cons c cs =>
      by_cases hc : c = 'Σ'
      · simp [lowerAfter, hc]
      · simp [lowerAfter, hc, lowerChar_ne_nil c]

theorem lowercase_eq_empty_iff {s : String} : lowercase s = "" ↔ s = "" := by
  rw [lowercase, ← String.toList_inj, ← String.toList_inj, String.toList_ofList]
  exact lowerAfter_eq_nil_iff

end Asm32.Text

namespace Asm32.Line
open Text

/-! ### The code part -/

theorem isSeparator_of_isBlank {c : Char} (h : isBlank c = true) : isSeparator c = true := by
  rw [isSeparator, h, Bool.or_true]

theorem words_code (raw : List Char) :
    words isSeparator (code raw) = words isSeparator (raw.takeWhile (· != commentSign)) :=
  words_trim (fun _ => isSeparator_of_isBlank) _

theorem takeWhile_comment {cs comment : List Char} (h : commentSign ∉ cs)
    (hc : comment = [] ∨ comment.head? = some commentSign) :
    (cs ++ comment).takeWhile (· != commentSign) = cs := by
  have hcs : ∀ c ∈ cs, (c != commentSign) = true := by
    intro c hm
    exact bne_iff_ne.mpr fun e => h (e ▸ hm)
  have hend : comment.takeWhile (· != commentSign) = [] := by
    rcases hc with rfl | hc
    · rfl
    · obtain ⟨rest, rfl⟩ := List.head?_eq_some_iff.mp hc
      simp
  rw [List.takeWhile_append_of_pos hcs, hend, List.append_nil]

theorem read_of_nil {raw : String} (h : code raw.toList = []) (number : Nat) :
    read number raw = .ok .blank := by
  rw [read, h]

/-- A line is a statement when its code part does not start as a label does. -/
theorem read_of_head? {raw : String} {c : Char} (h : (code raw.toList).head? = some c)
    (hc : c ≠ labelSigil) (number : Nat) :
    read number raw = .ok (.statement (statementOf number raw.toList (code raw.toList))) := by
  obtain ⟨cs, hcs⟩ := List.head?_eq_some_iff.mp h
  rw [read, hcs]
  exact if_neg hc

/-- Without an at sign in front, the code part is empty or a statement. -/
theorem read_of_not_sigil {raw : String} (h : (code raw.toList).head? ≠ some labelSigil)
    (number : Nat) :
    code raw.toList = [] ∧ read number raw = .ok .blank ∨
    code raw.toList ≠ [] ∧
      read number raw = .ok (.statement (statementOf number raw.toList (code raw.toList))) := by
  cases hhead : (code raw.toList).head? with
  | none =>
      have hcode := List.head?_eq_none_iff.mp hhead
      exact .inl ⟨hcode, read_of_nil hcode number⟩
  | some c =>
      refine .inr ⟨fun hcode => ?_, read_of_head? hhead (fun e => h (e ▸ hhead)) number⟩
      rw [hcode] at hhead
      cases hhead

theorem mnemonic_statementOf_eq_empty_iff {number : Nat} {raw cs : List Char} :
    (statementOf number raw cs).mnemonic = "" ↔ ∀ c ∈ cs, isSeparator c = true := by
  rw [← words_eq_nil_iff, statementOf]
  cases hwords : words isSeparator cs with
  | nil => exact iff_of_true rfl rfl
  | cons w ws =>
      have hmem : w ∈ words isSeparator cs := by simp [hwords]
      have hw : w ≠ [] := ne_nil_of_mem_words hmem
      simp [lowercase_eq_empty_iff, hw]

/-! ### Tokens -/

/-- A part of a statement: no separator is in it and no comment starts in it. -/
structure IsToken (w : List Char) : Prop where
  ne_nil : w ≠ []
  not_separator : ∀ c ∈ w, isSeparator c = false
  not_comment : commentSign ∉ w

/-- What divides two parts of a statement. -/
structure IsBreak (s : List Char) : Prop where
  ne_nil : s ≠ []
  separator : ∀ c ∈ s, isSeparator c = true

/-- A list of tokens with a break before each. -/
def Divided (rest : List (List Char × List Char)) : Prop := ∀ p ∈ rest, IsBreak p.1 ∧ IsToken p.2

/-- A statement as it can be written: separators, the tokens with a break between any two, more
separators, and a comment. -/
structure Written where
  lead : List Char
  first : List Char
  /-- The tokens after the first, each with the break before it. -/
  rest : List (List Char × List Char)
  trail : List Char
  comment : List Char
  lead_separator : ∀ c ∈ lead, isSeparator c = true
  first_token : IsToken first
  first_sigil : first.head? ≠ some labelSigil
  rest_divided : Divided rest
  trail_separator : ∀ c ∈ trail, isSeparator c = true
  comment_sign : comment = [] ∨ comment.head? = some commentSign

/-- The characters of a statement before its comment. -/
def Written.said (w : Written) : List Char := w.lead ++ joined w.first w.rest ++ w.trail

/-- The characters of a statement. -/
def Written.chars (w : Written) : List Char := w.said ++ w.comment

variable {w : List Char} {rest : List (List Char × List Char)}

theorem words_joined (hw : IsToken w) (hrest : Divided rest) :
    words isSeparator (joined w rest) = w :: rest.map (·.2) := by
  induction rest generalizing w with
  | nil => exact words_of_forall hw.ne_nil hw.not_separator
  | cons p rest ih =>
      obtain ⟨s, v⟩ := p
      obtain ⟨⟨hs, hv⟩, hdivided⟩ := List.forall_mem_cons.mp hrest
      -- the first character of the break ends the token, and the others are passed over
      obtain ⟨c, s, rfl⟩ := List.exists_cons_of_ne_nil hs.ne_nil
      obtain ⟨hc, hs⟩ := List.forall_mem_cons.mp hs.separator
      rw [joined, List.cons_append, words_append_sep hw.ne_nil hw.not_separator hc,
        words_append_of_forall hs, ih hv hdivided]
      rfl

theorem not_comment_joined (hw : IsToken w) (hrest : Divided rest) :
    commentSign ∉ joined w rest := by
  induction rest generalizing w with
  | nil => exact hw.not_comment
  | cons p rest ih =>
      obtain ⟨s, v⟩ := p
      obtain ⟨⟨hs, hv⟩, hdivided⟩ := List.forall_mem_cons.mp hrest
      have hbreak : commentSign ∉ s := fun hm => absurd (hs.separator _ hm) (by decide)
      simp [joined, hw.not_comment, hbreak, ih hv hdivided]

namespace Written

variable (l : Written)

theorem not_comment_said : commentSign ∉ l.said := by
  have hseparator : isSeparator commentSign ≠ true := by decide
  have hlead : commentSign ∉ l.lead := fun hm => hseparator (l.lead_separator _ hm)
  have htrail : commentSign ∉ l.trail := fun hm => hseparator (l.trail_separator _ hm)
  simp [said, hlead, htrail, not_comment_joined l.first_token l.rest_divided]

theorem takeWhile_chars : l.chars.takeWhile (· != commentSign) = l.said :=
  takeWhile_comment l.not_comment_said l.comment_sign

theorem words_code : words isSeparator (code l.chars) = l.first :: l.rest.map (·.2) := by
  rw [Line.words_code, takeWhile_chars, said, words_append_of_forall_right l.trail_separator,
    words_append_of_forall l.lead_separator, words_joined l.first_token l.rest_divided]

/-- The code part starts with a comma, or with the first token. -/
theorem head?_code : ∃ c, (code l.chars).head? = some c ∧ c ≠ labelSigil := by
  obtain ⟨c, first, hfirst⟩ := List.exists_cons_of_ne_nil l.first_token.ne_nil
  have hc : isSeparator c = false := l.first_token.not_separator c (by simp [hfirst])
  have hblank : isBlank c = false := (Bool.or_eq_false_iff.mp hc).2
  have hjoined : (joined l.first l.rest).find? (fun c => !isBlank c) = some c := by
    have hhead : (joined l.first l.rest).head? = some c := by
      rw [hfirst]
      cases l.rest <;> rfl
    obtain ⟨cs, hcs⟩ := List.head?_eq_some_iff.mp hhead
    simp [hcs, hblank]
  rw [code, takeWhile_chars, head?_trim, said, List.find?_append, List.find?_append, hjoined]
  cases hlead : l.lead.find? (fun c => !isBlank c) with
  | none =>
      refine ⟨c, rfl, fun e => l.first_sigil ?_⟩
      rw [hfirst, e]
      rfl
  | some d =>
      refine ⟨d, rfl, ?_⟩
      rintro rfl
      exact absurd (l.lead_separator _ (List.mem_of_find?_eq_some hlead)) (by decide)

end Written

/-- **Statements.**  The first token is the mnemonic, in lower case, and the others are the
operands, whatever separators are around them and whatever the comment is. -/
theorem read_written (l : Written) (number : Nat) :
    read number (String.ofList l.chars) =
      .ok (.statement
        { line := number
          mnemonic := Text.lowercase (String.ofList l.first)
          operands := l.rest.map fun p => String.ofList p.2
          text := String.ofList (Text.trimEnd l.chars) }) := by
  obtain ⟨c, hc, hsigil⟩ := l.head?_code
  have hhead : (code (String.ofList l.chars).toList).head? = some c := by
    rw [String.toList_ofList, hc]
  rw [read_of_head? hhead hsigil, String.toList_ofList, statementOf, l.words_code]
  simp

end Asm32.Line
