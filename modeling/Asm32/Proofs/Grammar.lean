import Asm32.Proofs.Tokens
import Asm32.Session

/-!
# The grammar of a line

What a line holds is decided by its code part, the trimmed text before the comment
(`Line.HasCode`).  An empty code part holds nothing, one that starts with an at sign declares a
label or is at fault, and any other is a statement.  `Line.Reading` lists the four outcomes with
their conditions, and what is read from a line is the one whose condition holds
(`Line.reading_iff`).

**Lines** (`Line.read_grammar`).  When a line is blank, declares a label or is at fault, and what
the statement is that tokens make.

**Commas** (`Line.sameParts_withoutCommas_iff`).  A comma divides the parts of a statement as a
blank does, but trimming leaves it.  The one difference that this makes is a line of nothing but
commas: it is a statement without a mnemonic, which takes a word (`Line.not_sameParts_comma`).
-/

namespace Asm32

namespace Line
open Text

/-! ### Declarations -/

/-- The name of a label: an at sign and at least one more character, none of them a blank or a
colon. -/
structure IsName (name : List Char) : Prop where
  sigil : name.head? = some labelSigil
  long : 1 < name.length
  not_blank : ∀ c ∈ name, isBlank c = false
  not_colon : ':' ∉ name

theorem IsName.head?_append {name : List Char} (h : IsName name) (cs : List Char) :
    (name ++ cs).head? = some labelSigil := by
  rw [List.head?_append, h.sigil]
  rfl

/-- A name is read up to the first colon, and blanks may follow that. -/
theorem labelName?_eq_some_iff {cs name : List Char} :
    labelName? cs = some name ↔ ∃ rest, cs = name ++ ':' :: rest ∧ ':' ∉ name ∧ 1 < name.length ∧
      (∀ c ∈ name, isBlank c = false) ∧ ∀ c ∈ rest, isBlank c = true := by
  constructor
  · intro h
    rw [labelName?] at h
    split at h
    · cases h
    · rename_i d rest hdrop
      split at h
      · rename_i hvalid
        obtain ⟨hlong, hblank, hrest⟩ := hvalid
        obtain rfl := Option.some.inj h
        have hcolon := List.head?_dropWhile_not (· != ':') cs
        rw [hdrop] at hcolon
        obtain rfl : d = ':' := by simpa using hcolon
        refine ⟨rest, ?_, fun hm => ?_, hlong, by simpa using hblank, by simpa using hrest⟩
        · rw [← hdrop]
          exact List.takeWhile_append_dropWhile.symm
        · simpa using List.mem_takeWhile_imp hm
      · cases h
  · rintro ⟨rest, rfl, hcolon, hlong, hblank, hrest⟩
    have hname : ∀ c ∈ name, (c != ':') = true := fun c hc =>
      bne_iff_ne.mpr fun e => hcolon (e ▸ hc)
    have htake : (name ++ ':' :: rest).takeWhile (· != ':') = name := by
      simp [List.takeWhile_append_of_pos hname]
    have hdrop : (name ++ ':' :: rest).dropWhile (· != ':') = ':' :: rest := by
      simp [List.dropWhile_append_of_pos hname]
    simp only [labelName?, htake, hdrop]
    exact if_pos ⟨hlong, by simpa using hblank, by simpa using hrest⟩

/-- In a trimmed text that starts with an at sign, nothing follows the colon. -/
theorem labelName?_code_eq_some_iff {raw name : List Char}
    (hsigil : (code raw).head? = some labelSigil) :
    labelName? (code raw) = some name ↔ code raw = name ++ [':'] ∧ IsName name := by
  rw [labelName?_eq_some_iff]
  constructor
  · rintro ⟨rest, hcode, hcolon, hlong, hblank, hrest⟩
    have hnil : rest = [] := by
      rcases List.eq_nil_or_concat' rest with hnil | ⟨init, c, rfl⟩
      · exact hnil
      · have hlast : (code raw).getLast? = some c := by
          rw [hcode, List.getLast?_append, List.getLast?_cons, List.getLast?_concat]
          rfl
        have hc : isBlank c = false := isBlank_of_getLast?_trim hlast
        rw [hrest c (by simp)] at hc
        cases hc
    subst hnil
    refine ⟨hcode, ?_, hlong, hblank, hcolon⟩
    rw [hcode, List.head?_append_of_ne_nil _ (List.ne_nil_of_length_pos (by omega))] at hsigil
    exact hsigil
  · rintro ⟨hcode, hname⟩
    exact ⟨[], hcode, hname.not_colon, hname.long, hname.not_blank, by simp⟩

/-! ### The outcomes of reading -/

theorem read_of_labelName? {raw : String} {name : List Char}
    (hsigil : (code raw.toList).head? = some labelSigil)
    (h : labelName? (code raw.toList) = some name) (number : Nat) :
    read number raw = .ok (.label (String.ofList name)) := by
  obtain ⟨cs, hcs⟩ := List.head?_eq_some_iff.mp hsigil
  rw [hcs] at h
  rw [read, hcs]
  simp only [if_true, h]

theorem read_of_labelName?_eq_none {raw : String}
    (hsigil : (code raw.toList).head? = some labelSigil)
    (h : labelName? (code raw.toList) = none) (number : Nat) :
    read number raw = .error (.malformedLabel (String.ofList (code raw.toList))) := by
  obtain ⟨cs, hcs⟩ := List.head?_eq_some_iff.mp hsigil
  rw [hcs] at h
  rw [read, hcs]
  simp only [if_true, h]

/-- What is read from a line, and when. -/
inductive Reading (number : Nat) (raw : String) : Except Fault Line → Prop
  | blank (hcode : code raw.toList = []) : Reading number raw (.ok .blank)
  | label {name : String} (hcode : code raw.toList = name.toList ++ [':'])
      (hname : IsName name.toList) : Reading number raw (.ok (.label name))
  | malformed (hsigil : (code raw.toList).head? = some labelSigil)
      (hname : ¬ ∃ name, code raw.toList = name ++ [':'] ∧ IsName name) :
      Reading number raw (.error (.malformedLabel (String.ofList (code raw.toList))))
  | statement {c : Char} (hhead : (code raw.toList).head? = some c) (hsigil : c ≠ labelSigil) :
      Reading number raw (.ok (.statement (statementOf number raw.toList (code raw.toList))))

/-- Every line has one of the four outcomes. -/
theorem reading_read (number : Nat) (raw : String) : Reading number raw (read number raw) := by
  cases hhead : (code raw.toList).head? with
  | none =>
      have hcode := List.head?_eq_none_iff.mp hhead
      rw [read_of_nil hcode]
      exact .blank hcode
  | some c =>
      by_cases hc : c = labelSigil
      · subst hc
        cases hlabel : labelName? (code raw.toList) with
        | none =>
            rw [read_of_labelName?_eq_none hhead hlabel]
            refine .malformed hhead ?_
            rintro ⟨name, h⟩
            rw [(labelName?_code_eq_some_iff hhead).mpr h] at hlabel
            cases hlabel
        | some name =>
            rw [read_of_labelName? hhead hlabel]
            obtain ⟨hcode, hname⟩ := (labelName?_code_eq_some_iff hhead).mp hlabel
            exact .label (by rw [String.toList_ofList, hcode]) (by rwa [String.toList_ofList])
      · rw [read_of_head? hhead hc]
        exact .statement hhead hc

/-- **Reading.**  The four outcomes exclude each other, so what is read from a line is the one whose
condition holds. -/
theorem reading_iff {number : Nat} {raw : String} {r : Except Fault Line} :
    Reading number raw r ↔ read number raw = r := by
  constructor
  · intro h
    cases h with
    | blank hcode => exact read_of_nil hcode number
    | label hcode hname =>
        have hhead : (code raw.toList).head? = some labelSigil := by
          rw [hcode, hname.head?_append]
        have hlabel := (labelName?_code_eq_some_iff hhead).mpr ⟨hcode, hname⟩
        rw [read_of_labelName? hhead hlabel, String.ofList_toList]
    | malformed hsigil hname =>
        refine read_of_labelName?_eq_none hsigil ?_ number
        refine Option.eq_none_iff_forall_ne_some.mpr fun name hlabel => hname ⟨name, ?_⟩
        exact (labelName?_code_eq_some_iff hsigil).mp hlabel
    | statement hhead hsigil => exact read_of_head? hhead hsigil number
  · rintro rfl
    exact reading_read number raw

theorem read_eq_blank_iff {number : Nat} {raw : String} :
    read number raw = .ok .blank ↔ code raw.toList = [] := by
  rw [← reading_iff]
  constructor
  · intro h
    cases h with
    | blank hcode => exact hcode
  · exact .blank

theorem read_eq_label_iff {number : Nat} {raw name : String} :
    read number raw = .ok (.label name) ↔
      code raw.toList = name.toList ++ [':'] ∧ IsName name.toList := by
  rw [← reading_iff]
  constructor
  · intro h
    cases h with
    | label hcode hname => exact ⟨hcode, hname⟩
  · rintro ⟨hcode, hname⟩
    exact .label hcode hname

theorem read_eq_error_iff {number : Nat} {raw : String} {f : Fault} :
    read number raw = .error f ↔
      f = .malformedLabel (String.ofList (code raw.toList)) ∧
      (code raw.toList).head? = some labelSigil ∧
      ¬ ∃ name, code raw.toList = name ++ [':'] ∧ IsName name := by
  rw [← reading_iff]
  constructor
  · intro h
    cases h with
    | malformed hsigil hname => exact ⟨rfl, hsigil, hname⟩
  · rintro ⟨rfl, hsigil, hname⟩
    exact .malformed hsigil hname

/-- The text `cs` is the code part of a line: it neither starts nor ends with a blank, and around it
are blanks only, up to a comment or the end of the line. -/
def HasCode (raw cs : List Char) : Prop :=
  ∃ lead trail comment, raw = lead ++ cs ++ trail ++ comment ∧
    (∀ c ∈ lead ++ trail, isBlank c = true) ∧
    (∀ c, cs.head? = some c ∨ cs.getLast? = some c → isBlank c = false) ∧
    commentSign ∉ cs ∧ (comment = [] ∨ comment.head? = some commentSign)

theorem dropWhile_comment (raw : List Char) :
    raw.dropWhile (· != commentSign) = [] ∨
      (raw.dropWhile (· != commentSign)).head? = some commentSign := by
  have hhead := List.head?_dropWhile_not (· != commentSign) raw
  cases hdrop : raw.dropWhile (· != commentSign) with
  | nil => exact .inl rfl
  | cons c cs =>
      rw [hdrop] at hhead
      exact .inr (congrArg some (by simpa using hhead))

theorem hasCode_code (raw : List Char) : HasCode raw (code raw) := by
  obtain ⟨lead, trail, hsplit, hlead, htrail⟩ := exists_trim (raw.takeWhile (· != commentSign))
  refine ⟨lead, trail, raw.dropWhile (· != commentSign), ?_, ?_, ?_, fun hm => ?_,
    dropWhile_comment raw⟩
  · rw [code, ← hsplit]
    exact List.takeWhile_append_dropWhile.symm
  · intro c hc
    rcases List.mem_append.mp hc with hc | hc
    · exact hlead c hc
    · exact htrail c hc
  · rintro c (hc | hc)
    · exact isBlank_of_head?_trim hc
    · exact isBlank_of_getLast?_trim hc
  · simpa using List.mem_takeWhile_imp (mem_of_mem_trim hm)

/-- **Lines.**  A line is blank exactly when its code part is empty.  It declares a label exactly
when its code part is the name of the label and a colon; it is at fault exactly when its code part
starts as a label does and is no such declaration, and the fault quotes the code part.  Tokens with
any separators around them, any breaks between them and any comment after them make the statement
whose mnemonic is the first, in lower case, and whose operands are the others. -/
theorem read_grammar (number : Nat) :
    (∀ raw : String,
      HasCode raw.toList (code raw.toList) ∧
      (read number raw = .ok .blank ↔ code raw.toList = []) ∧
      (∀ name, read number raw = .ok (.label name) ↔
        code raw.toList = name.toList ++ [':'] ∧ IsName name.toList) ∧
      ∀ f, read number raw = .error f ↔
        f = .malformedLabel (String.ofList (code raw.toList)) ∧
        (code raw.toList).head? = some labelSigil ∧
        ¬ ∃ name, code raw.toList = name ++ [':'] ∧ IsName name) ∧
    ∀ l : Written, read number (String.ofList l.chars) =
      .ok (.statement
        { line := number
          mnemonic := Text.lowercase (String.ofList l.first)
          operands := l.rest.map fun p => String.ofList p.2
          text := String.ofList (Text.trimEnd l.chars) }) := by
  refine ⟨fun raw => ⟨hasCode_code raw.toList, read_eq_blank_iff, ?_, ?_⟩, ?_⟩
  · intro name
    exact read_eq_label_iff
  · intro f
    exact read_eq_error_iff
  · intro l
    exact read_written l number

/-- A statement with a capital in its mnemonic.  A no-break space divides tokens, and a colon or an
at sign inside an operand is part of it. -/
def capitalAdd : Written where
  lead := [',', ' ']
  first := ['A', 'd', 'd']
  rest := [(['\u00a0'], ['r', '0']), ([',', ','], ['r', '@', '1']), ([' '], ['a', ':', 'b'])]
  trail := [' ']
  comment := [';', ' ', '@', 'c', ':', ' ']
  lead_separator := List.all_eq_true.mp rfl
  first_token := ⟨by decide, fun c hc => by fin_cases hc <;> rfl, by decide⟩
  first_sigil := by decide
  rest_divided := by
    intro p hp
    fin_cases hp <;>
      exact ⟨⟨by decide, List.all_eq_true.mp rfl⟩, by decide, fun c hc => by fin_cases hc <;> rfl,
        by decide⟩
  trail_separator := List.all_eq_true.mp rfl
  comment_sign := .inr rfl

/-- A line of each kind. -/
theorem read_grammar_lines :
    read 7 ", Add\u00a0r0,,r@1 a:b ; @c: " =
      .ok (.statement ⟨7, "add", ["r0", "r@1", "a:b"], ", Add\u00a0r0,,r@1 a:b ; @c:"⟩) ∧
    read 7 " \t; Add r0" = .ok .blank ∧
    read 7 " @a,B: ; @c" = .ok (.label "@a,B") ∧
    read 7 "@a :" = .error (.malformedLabel "@a :") := by
  obtain ⟨hlines, hwritten⟩ := read_grammar 7
  obtain ⟨-, hblank, -⟩ := hlines " \t; Add r0"
  obtain ⟨-, -, hlabel, -⟩ := hlines " @a,B: ; @c"
  obtain ⟨-, -, -, herror⟩ := hlines "@a :"
  refine ⟨hwritten capitalAdd, hblank.mpr rfl, ?_, ?_⟩
  · refine (hlabel "@a,B").mpr ⟨rfl, rfl, by decide, fun c hc => ?_, by decide⟩
    fin_cases hc <;> rfl
  · refine (herror _).mpr ⟨rfl, rfl, ?_⟩
    -- the name would end in a blank
    rintro ⟨name, hcode, hname⟩
    have hcode : ['@', 'a', ' '] ++ [':'] = name ++ [':'] := hcode
    obtain rfl := List.append_cancel_right hcode
    exact absurd (hname.not_blank ' ' (by decide)) (by decide)

/-! ### Commas -/

/-- Two lines as they are read: both hold nothing, or both hold a statement with the same mnemonic
and the same operands. -/
inductive SameParts : Except Fault Line → Except Fault Line → Prop
  | blank : SameParts (.ok .blank) (.ok .blank)
  | statement {st st' : Statement} (mnemonic_eq : st.mnemonic = st'.mnemonic)
      (operands_eq : st.operands = st'.operands) :
      SameParts (.ok (.statement st)) (.ok (.statement st'))

/-- A blank for a comma, and any other character as it is. -/
def blankForComma (c : Char) : Char := if c = ',' then ' ' else c

/-- The line with blanks for the commas before its comment. -/
def withoutCommas (raw : String) : String :=
  String.ofList ((raw.toList.takeWhile (· != commentSign)).map blankForComma ++
    raw.toList.dropWhile (· != commentSign))

/-- The line says nothing, and it says so with a comma. -/
def CommasOnly (raw : String) : Prop :=
  code raw.toList ≠ [] ∧ ∀ c ∈ code raw.toList, isSeparator c = true

theorem takeWhile_withoutCommas (raw : String) :
    (withoutCommas raw).toList.takeWhile (· != commentSign) =
      (raw.toList.takeWhile (· != commentSign)).map blankForComma := by
  rw [withoutCommas, String.toList_ofList]
  refine takeWhile_comment (fun hm => ?_) (dropWhile_comment raw.toList)
  obtain ⟨c, hc, hsign⟩ := List.mem_map.mp hm
  rw [blankForComma] at hsign
  split at hsign
  · exact absurd hsign (by decide)
  · simpa [hsign] using List.mem_takeWhile_imp hc

theorem words_withoutCommas (raw : String) :
    words isSeparator (code (withoutCommas raw).toList) = words isSeparator (code raw.toList) := by
  have hsep : ∀ c, isSeparator c = true → isSeparator (blankForComma c) = true := by
    intro c hc
    rw [blankForComma]
    split
    · rfl
    · exact hc
  have hother : ∀ c, isSeparator c = false → blankForComma c = c := by
    intro c hc
    refine if_neg ?_
    rintro rfl
    cases hc
  rw [words_code, takeWhile_withoutCommas, words_map hsep hother, ← words_code]

/-- Without its commas, a line of separators is blank. -/
theorem code_withoutCommas_eq_nil_iff {raw : String} :
    code (withoutCommas raw).toList = [] ↔ ∀ c ∈ code raw.toList, isSeparator c = true := by
  rw [← words_eq_nil_iff]
  constructor
  · intro h
    rw [← words_withoutCommas, h]
    rfl
  · intro h
    rw [words_code, words_eq_nil_iff] at h
    rw [code, takeWhile_withoutCommas, trim_eq_nil_iff]
    intro d hd
    obtain ⟨c, hc, rfl⟩ := List.mem_map.mp hd
    rw [blankForComma]
    split
    · rfl
    · rename_i hcomma
      simpa [isSeparator, hcomma] using h c hc

theorem head?_ne_sigil {cs : List Char} (h : ∀ c ∈ cs, isSeparator c = true) :
    cs.head? ≠ some labelSigil := fun hhead =>
  absurd (h _ (List.mem_of_head? hhead)) (by decide)

/-- A line of commas only is the one that loses its statement with its commas. -/
theorem sameParts_iff (number : Nat) {raw : String}
    (h : (code raw.toList).head? ≠ some labelSigil)
    (h' : (code (withoutCommas raw).toList).head? ≠ some labelSigil) :
    SameParts (read number raw) (read number (withoutCommas raw)) ↔ ¬ CommasOnly raw := by
  obtain ⟨hcode, hread⟩ | ⟨hcode, hread⟩ := read_of_not_sigil h number
  · have hcode' : code (withoutCommas raw).toList = [] :=
      code_withoutCommas_eq_nil_iff.mpr (by simp [hcode])
    rw [hread, read_of_nil hcode']
    exact iff_of_true .blank fun hc => hc.1 hcode
  · obtain ⟨hcode', hread'⟩ | ⟨hcode', hread'⟩ := read_of_not_sigil h' number
    · rw [hread, hread']
      refine iff_of_false (fun hs => ?_) (not_not_intro ⟨hcode, ?_⟩)
      · cases hs
      · exact code_withoutCommas_eq_nil_iff.mp hcode'
    · rw [hread, hread']
      refine iff_of_true (.statement ?_ ?_) fun hc =>
        hcode' (code_withoutCommas_eq_nil_iff.mpr hc.2)
      · simp only [statementOf, words_withoutCommas]
      · simp only [statementOf, words_withoutCommas]

theorem mnemonic_ne_empty_iff {number : Nat} {raw : String} {st : Statement}
    (h : read number raw = .ok (.statement st)) : st.mnemonic ≠ "" ↔ ¬ CommasOnly raw := by
  have hreading := reading_read number raw
  rw [h] at hreading
  cases hreading with
  | statement hhead hsigil =>
      have hcode : code raw.toList ≠ [] := by
        intro hcode
        rw [hcode] at hhead
        cases hhead
      rw [ne_eq, mnemonic_statementOf_eq_empty_iff, CommasOnly, and_iff_right hcode]

/-- **Commas.**  Take a line that starts as no label, neither as it is nor with blanks for its
commas.  Both forms hold nothing, or both hold a statement with the same mnemonic and operands,
exactly when the line is not one of commas only.  Such a line is also the only one that holds a
statement with an empty mnemonic, and the only one of separators that is not blank and that takes an
address. -/
theorem sameParts_withoutCommas_iff (number : Nat) (raw : String) :
    ((code raw.toList).head? ≠ some labelSigil →
      (code (withoutCommas raw).toList).head? ≠ some labelSigil →
      (SameParts (read number raw) (read number (withoutCommas raw)) ↔ ¬ CommasOnly raw)) ∧
    (∀ st, read number raw = .ok (.statement st) → (st.mnemonic ≠ "" ↔ ¬ CommasOnly raw)) ∧
    ((∀ c ∈ code raw.toList, isSeparator c = true) →
      (read number raw = .ok .blank ↔ ¬ CommasOnly raw) ∧
      ∀ s : Session, (s.addLine number raw).1.address = s.address ↔ ¬ CommasOnly raw) := by
  refine ⟨sameParts_iff number, fun st hst => mnemonic_ne_empty_iff hst, fun hsep => ?_⟩
  have hcommas : CommasOnly raw ↔ code raw.toList ≠ [] := and_iff_left hsep
  rw [hcommas]
  obtain ⟨hcode, hread⟩ | ⟨hcode, hread⟩ := read_of_not_sigil (head?_ne_sigil hsep) number
  · refine ⟨iff_of_true hread (not_not_intro hcode), fun s => iff_of_true ?_ (not_not_intro hcode)⟩
    rw [Session.addLine, hread]
  · refine ⟨iff_of_false (by simp [hread]) (not_not_intro hcode), fun s =>
      iff_of_false ?_ (not_not_intro hcode)⟩
    rw [Session.addLine, hread, (s.adds_addStatement _).address_eq, add_eq_left]
    decide

/-- Commas and a comment with commas, between parts that they divide as blanks do. -/
theorem sameParts_withoutCommas_commented :
    (code "Add r0,,r1 ,r2 ; a, b".toList).head? ≠ some labelSigil ∧
    (code (withoutCommas "Add r0,,r1 ,r2 ; a, b").toList).head? ≠ some labelSigil ∧
    SameParts (read 1 "Add r0,,r1 ,r2 ; a, b") (read 1 "Add r0  r1  r2 ; a, b") := by
  have hstart : (code "Add r0,,r1 ,r2 ; a, b".toList).head? ≠ some labelSigil := by decide
  have hstart' : (code (withoutCommas "Add r0,,r1 ,r2 ; a, b").toList).head? ≠
      some labelSigil := by decide
  have hcommas : ¬ CommasOnly "Add r0,,r1 ,r2 ; a, b" := fun h =>
    absurd (h.2 'A' (by decide)) (by decide)
  have hsame := ((sameParts_withoutCommas_iff 1 _).1 hstart hstart').mpr hcommas
  exact ⟨hstart, hstart', hsame⟩

/-- A comma alone is a statement without a mnemonic, which takes a word; a blank in its place is
nothing. -/
theorem not_sameParts_comma :
    (code ",".toList).head? ≠ some labelSigil ∧
    (code (withoutCommas ",").toList).head? ≠ some labelSigil ∧
    read 1 "," = .ok (.statement ⟨1, "", [], ","⟩) ∧
    read 1 (withoutCommas ",") = .ok .blank ∧
    ¬ SameParts (read 1 ",") (read 1 (withoutCommas ",")) ∧
    ((Session.start .standard ⟨0⟩).addLine 1 ",").1.address = 4 := by
  have hread : read 1 "," = .ok (.statement ⟨1, "", [], ","⟩) := rfl
  have hblank : read 1 (withoutCommas ",") = .ok .blank := rfl
  refine ⟨by decide, by decide, hread, hblank, fun hs => ?_, rfl⟩
  rw [hread, hblank] at hs
  cases hs

end Line

end Asm32
