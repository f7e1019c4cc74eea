import Asm32.Proofs.Numerals
import Asm32.Proofs.Tokens

/-!
# Reading plain source text

How a text made of plain words is read.  A plain word has small letters and digits only, and at
least one character.  A statement that is written as a plain mnemonic and plain operands, with
blanks and commas between them, is read as that mnemonic and those operands (`Line.read_joined`),
and lines that are joined by line feeds are split again (`Text.splitLines_intercalate`).  The lines
of any text that ends a line stay as they are when more text follows (`Text.lines_append`).
-/

namespace Asm32.Text

/-! ### Plain characters -/

/-- A small letter or a digit. -/
def isPlain (c : Char) : Bool :=
  (97 ≤ c.toNat && c.toNat ≤ 122) || (48 ≤ c.toNat && c.toNat ≤ 57)

/-- A word of plain characters. -/
structure IsWord (w : List Char) : Prop where
  ne_nil : w ≠ []
  plain : ∀ c ∈ w, isPlain c = true

theorem isPlain_iff {c : Char} :
    isPlain c = true ↔ (97 ≤ c.toNat ∧ c.toNat ≤ 122) ∨ (48 ≤ c.toNat ∧ c.toNat ≤ 57) := by
  simp [isPlain]

/-- A plain character differs from every character that is not plain. -/
theorem ne_of_isPlain {c d : Char} (hc : isPlain c = true) (hd : isPlain d = false) : c ≠ d := by
  rintro rfl
  rw [hc] at hd
  cases hd

theorem isBlank_of_isPlain {c : Char} (h : isPlain c = true) : isBlank c = false := by
  rw [isPlain_iff] at h
  rw [isBlank, Bool.eq_false_iff, ne_eq, Ranges.contains_iff]
  simp only [blanks, List.mem_cons, List.not_mem_nil, or_false]
  rintro ⟨r, hr, hlo, hhi⟩
  rcases hr with rfl | rfl | rfl | rfl | rfl | rfl | rfl | rfl | rfl | rfl <;>
    simp only at hlo hhi <;> omega

theorem isSeparator_of_isPlain {c : Char} (h : isPlain c = true) : Line.isSeparator c = false := by
  have hcomma : (c == ',') = false := beq_false_of_ne (ne_of_isPlain h rfl)
  rw [Line.isSeparator, hcomma, isBlank_of_isPlain h]
  rfl

theorem isPlain_digitChar {d : Nat} (h : d < 16) : isPlain (Numeral.digitChar d) = true := by
  have hall : ∀ d < 16, isPlain (Numeral.digitChar d) = true := by decide
  exact hall d h

theorem isWord_digits {base : Nat} (hbase : 0 < base) (hbase' : base ≤ 16) (n : Nat) :
    IsWord (Numeral.digits base n) := by
  refine ⟨Numeral.digitsWithin_ne_nil base n.log2 n, fun c hc => ?_⟩
  obtain ⟨d, hd, rfl⟩ := Numeral.mem_digitsWithin hbase hc
  exact isPlain_digitChar (Nat.lt_of_lt_of_le hd hbase')

theorem isWord_padded {base : Nat} (hbase : 0 < base) (hbase' : base ≤ 16) (width n : Nat) :
    IsWord (Numeral.padded width base n) := by
  refine ⟨Numeral.padded_ne_nil width base n, fun c hc => ?_⟩
  obtain ⟨d, hd, rfl⟩ := Numeral.mem_padded hbase hc
  exact isPlain_digitChar (Nat.lt_of_lt_of_le hd hbase')

theorem IsWord.cons {c : Char} {w : List Char} (hc : isPlain c = true) (hw : IsWord w) :
    IsWord (c :: w) :=
  ⟨List.cons_ne_nil c w, List.forall_mem_cons.mpr ⟨hc, hw.plain⟩⟩

theorem IsWord.not_mem {w : List Char} {d : Char} (hw : IsWord w) (hd : isPlain d = false) :
    d ∉ w := fun hm => ne_of_isPlain (hw.plain d hm) hd rfl

/-! ### Lower case -/

theorem lowerAfter_of_plain {cs : List Char} (h : ∀ c ∈ cs, isPlain c = true)
    (before : List Char) : lowerAfter before cs = cs := by
  induction cs generalizing before with
  | nil => rfl
  | cons c cs ih =>
      have hc := h c List.mem_cons_self
      have hlower : lowerChar c = [c] := by
        have hc := isPlain_iff.mp hc
        rw [lowerChar, if_pos (by omega), Char.toLower, dif_neg]
        rintro ⟨hlo, hhi⟩
        have hlo : 65 ≤ c.toNat := hlo
        have hhi : c.toNat ≤ 90 := hhi
        omega
      rw [lowerAfter, if_neg (ne_of_isPlain hc rfl), hlower,
        ih (fun d hd => h d (List.mem_cons_of_mem c hd))]
      rfl

/-! ### Plain words with gaps between them -/

/-- What stands between two words: blanks and commas, at least one of them. -/
structure IsGap (s : List Char) : Prop where
  ne_nil : s ≠ []
  gap : ∀ c ∈ s, c = ' ' ∨ c = ','

theorem IsGap.isSeparator {s : List Char} (h : IsGap s) : ∀ c ∈ s, Line.isSeparator c = true := by
  intro c hc
  rcases h.gap c hc with rfl | rfl
  · rfl
  · rfl

/-- A list of plain words with gaps. -/
def Spaced (rest : List (List Char × List Char)) : Prop := ∀ p ∈ rest, IsGap p.1 ∧ IsWord p.2

variable {w : List Char} {rest : List (List Char × List Char)}

theorem IsWord.isToken (hw : IsWord w) : Line.IsToken w where
  ne_nil := hw.ne_nil
  not_separator c hc := isSeparator_of_isPlain (hw.plain c hc)
  not_comment hm := absurd (hw.plain _ hm) (by decide)

theorem Spaced.divided (hrest : Spaced rest) : Line.Divided rest := by
  intro p hp
  obtain ⟨hs, hv⟩ := hrest p hp
  exact ⟨⟨hs.ne_nil, hs.isSeparator⟩, hv.isToken⟩

theorem head?_joined (hw : IsWord w) (rest : List (List Char × List Char)) :
    ∃ c, (joined w rest).head? = some c ∧ isPlain c = true := by
  obtain ⟨c, w, rfl⟩ := List.exists_cons_of_ne_nil hw.ne_nil
  refine ⟨c, ?_, hw.plain c List.mem_cons_self⟩
  cases rest <;> rfl

theorem getLast?_joined (hw : IsWord w) (hrest : Spaced rest) :
    ∃ c, (joined w rest).getLast? = some c ∧ isPlain c = true := by
  induction rest generalizing w with
  | nil => exact ⟨w.getLast hw.ne_nil, List.getLast?_eq_some_getLast hw.ne_nil,
      hw.plain _ (List.getLast_mem hw.ne_nil)⟩
  | cons p rest ih =>
      obtain ⟨s, v⟩ := p
      obtain ⟨hs, hv⟩ := hrest (s, v) List.mem_cons_self
      obtain ⟨c, hc, hplain⟩ := ih hv (fun q hq => hrest q (List.mem_cons_of_mem _ hq))
      refine ⟨c, ?_, hplain⟩
      rw [joined, List.getLast?_append, List.getLast?_append, hc]
      rfl

theorem mem_joined (hw : IsWord w) (hrest : Spaced rest) {c : Char} (hc : c ∈ joined w rest) :
    isPlain c = true ∨ c = ' ' ∨ c = ',' := by
  induction rest generalizing w with
  | nil => exact Or.inl (hw.plain c hc)
  | cons p rest ih =>
      obtain ⟨s, v⟩ := p
      obtain ⟨hs, hv⟩ := hrest (s, v) List.mem_cons_self
      rw [joined, List.mem_append, List.mem_append] at hc
      rcases hc with hc | hc | hc
      · exact Or.inl (hw.plain c hc)
      · exact Or.inr (hs.gap c hc)
      · exact ih hv (fun q hq => hrest q (List.mem_cons_of_mem _ hq)) hc

/-- A character that is not plain, and is no blank or comma, is not in the text. -/
theorem not_mem_joined (hw : IsWord w) (hrest : Spaced rest) {d : Char}
    (hd : isPlain d = false ∧ d ≠ ' ' ∧ d ≠ ',') : d ∉ joined w rest := by
  intro hm
  rcases mem_joined hw hrest hm with h | h | h
  · exact ne_of_isPlain h hd.1 rfl
  · exact hd.2.1 h
  · exact hd.2.2 h

theorem trimEnd_joined (hw : IsWord w) (hrest : Spaced rest) :
    trimEnd (joined w rest) = joined w rest := by
  obtain ⟨c, hc, hplain⟩ := getLast?_joined hw hrest
  exact trimEnd_of_getLast? hc (isBlank_of_isPlain hplain)

/-! ### Lines -/

theorem splitLines_cons {c : Char} (hn : c ≠ '\n') (hr : c ≠ '\r') (cs : List Char) :
    splitLines (c :: cs) =
      match splitLines cs with
      | []      => [[c]]
      | l :: ls => (c :: l) :: ls :=
  splitLines.eq_4 c cs hn fun _ e _ => hr e

/-- The text is a line of its own: it is not empty and ends no line. -/
structure IsLine (l : List Char) : Prop where
  ne_nil : l ≠ []
  not_feed : '\n' ∉ l
  not_return : '\r' ∉ l

/-- More text in front of a line, in which no line ends. -/
theorem IsLine.append {s l : List Char} (hl : IsLine l) (hn : '\n' ∉ s) (hr : '\r' ∉ s) :
    IsLine (s ++ l) where
  ne_nil := List.append_ne_nil_of_right_ne_nil s hl.ne_nil
  not_feed hm := (List.mem_append.mp hm).elim hn hl.not_feed
  not_return hm := (List.mem_append.mp hm).elim hr hl.not_return

/-- A line feed ends a line, unless a carriage return before it would belong to the end. -/
theorem splitLines_append {l : List Char} (hn : '\n' ∉ l) (hr : l.getLast? ≠ some '\r')
    (cs : List Char) : splitLines (l ++ '\n' :: cs) = l :: splitLines cs := by
  induction l with
  | nil => rfl
  | cons c l ih =>
      obtain ⟨hcn, hln⟩ := List.ne_and_not_mem_of_not_mem_cons hn
      have hcr : ∀ rest, c = '\r' → l ++ '\n' :: cs = '\n' :: rest → False := by
        intro rest hc hl
        cases l with
        | nil => exact hr (by rw [hc]; rfl)
        | cons d l => exact hln (by rw [(List.cons.inj hl).1]; exact List.mem_cons_self)
      have hlr : l.getLast? ≠ some '\r' := by
        intro hl
        exact hr (by rw [List.getLast?_cons, hl]; rfl)
      rw [List.cons_append, splitLines.eq_4 c _ hcn.symm hcr, ih hln hlr]

theorem splitLines_of_isLine {l : List Char} (hl : l ≠ []) (hn : '\n' ∉ l) (hr : '\r' ∉ l) :
    splitLines l = [l] := by
  induction l with
  | nil => exact absurd rfl hl
  | cons c l ih =>
      obtain ⟨hcn, hln⟩ := List.ne_and_not_mem_of_not_mem_cons hn
      obtain ⟨hcr, hlr⟩ := List.ne_and_not_mem_of_not_mem_cons hr
      rw [splitLines_cons hcn.symm hcr.symm]
      by_cases e : l = []
      · subst e
        rfl
      · rw [ih e hln hlr]

/-- Lines that are joined by line feeds are split again. -/
theorem splitLines_intercalate {ls : List (List Char)} (h : ∀ l ∈ ls, IsLine l) :
    splitLines (['\n'].intercalate ls) = ls := by
  induction ls with
  | nil => rfl
  | cons l ls ih =>
      have hl := h l List.mem_cons_self
      cases ls with
      | nil =>
          rw [List.intercalate_singleton]
          exact splitLines_of_isLine hl.ne_nil hl.not_feed hl.not_return
      | cons l' ls =>
          rw [List.intercalate_cons_cons, List.append_assoc, List.singleton_append,
            splitLines_append hl.not_feed fun e => hl.not_return (List.mem_of_getLast? e),
            ih (fun k hk => h k (List.mem_cons_of_mem l hk))]

theorem lines_intercalate {ls : List String} (h : ∀ l ∈ ls, IsLine l.toList) :
    lines ("\n".intercalate ls) = ls := by
  have hls : ∀ l ∈ ls.map String.toList, IsLine l := by
    intro l hl
    obtain ⟨s, hs, rfl⟩ := List.mem_map.mp hl
    exact h s hs
  have hsplit := splitLines_intercalate hls
  rw [lines, String.toList_intercalate]
  show (splitLines (['\n'].intercalate (ls.map String.toList))).map String.ofList = ls
  rw [hsplit, List.map_map]
  simp

theorem splitLines_ne_nil {cs : List Char} (h : cs ≠ []) : splitLines cs ≠ [] := by
  fun_cases splitLines cs with
  | case1 => exact absurd rfl h
  | case2 | case3 | case4 | case5 => exact List.cons_ne_nil _ _

/-- The lines of a text do not change when more lines follow it. -/
theorem splitLines_append_of_feed (init cs : List Char) :
    splitLines (init ++ '\n' :: cs) = splitLines (init ++ ['\n']) ++ splitLines cs := by
  have hcons : ∀ (c : Char) (init : List Char), (c = '\n' → False) →
      (∀ rest, c = '\r' → init = '\n' :: rest → False) →
      splitLines (init ++ '\n' :: cs) = splitLines (init ++ ['\n']) ++ splitLines cs →
      splitLines (c :: init ++ '\n' :: cs) =
        splitLines (c :: init ++ ['\n']) ++ splitLines cs := by
    intro c init hn hr ih
    by_cases hreturn : c = '\r' ∧ init = []
    · obtain ⟨rfl, rfl⟩ := hreturn
      rfl
    · -- the character starts the first line, with and without the lines that follow
      have hr' : ∀ tail rest, c = '\r' → init ++ '\n' :: tail = '\n' :: rest → False := by
        intro tail rest hc hinit
        cases init with
        | nil => exact hreturn ⟨hc, rfl⟩
        | cons d init => exact hr init hc (by rw [(List.cons.inj hinit).1])
      obtain ⟨l, ls, hl⟩ := List.exists_cons_of_ne_nil
        (splitLines_ne_nil (List.append_ne_nil_of_right_ne_nil init (List.cons_ne_nil '\n' [])))
      rw [List.cons_append, List.cons_append, splitLines.eq_4 c _ hn (hr' cs),
        splitLines.eq_4 c _ hn (hr' []), ih, hl]
      rfl
  fun_induction splitLines init with
  | case1 => rfl
  | case2 init ih => exact congrArg ([] :: ·) ih
  | case3 init ih => exact congrArg ([] :: ·) ih
  | case4 c init hn hr _ ih => exact hcons c init hn hr ih
  | case5 c init hn hr _ _ _ ih => exact hcons c init hn hr ih

/-- A line has no line feed. -/
theorem not_feed_of_mem_splitLines {cs l : List Char} (h : l ∈ splitLines cs) : '\n' ∉ l := by
  fun_induction splitLines cs generalizing l with
  | case1 => cases h
  | case2 cs ih | case3 cs ih =>
      rcases List.mem_cons.mp h with rfl | h
      · exact List.not_mem_nil
      · exact ih h
  | case4 c cs hn hr hnil ih =>
      rw [List.mem_singleton] at h
      subst h
      simpa using fun e => hn e.symm
  | case5 c cs hn hr k ks hk ih =>
      rcases List.mem_cons.mp h with rfl | h
      · rintro (_ | ⟨_, hm⟩)
        · exact hn rfl
        · exact ih (hk ▸ List.mem_cons_self) hm
      · exact ih (hk ▸ List.mem_cons_of_mem k h)

theorem lines_append {s : String} (hs : s = "" ∨ ∃ init, s = init ++ "\n") (t : String) :
    lines (s ++ t) = lines s ++ lines t := by
  rcases hs with rfl | ⟨init, rfl⟩
  · rw [String.empty_append]
    rfl
  · have hfeed : "\n".toList = ['\n'] := rfl
    rw [lines, lines, lines, ← List.map_append, String.toList_append, String.toList_append, hfeed,
      List.append_assoc, List.singleton_append, splitLines_append_of_feed]

/-- Lines that each have a line feed behind them are split again. -/
theorem lines_join {ls : List String}
    (h : ∀ l ∈ ls, '\n' ∉ l.toList ∧ l.toList.getLast? ≠ some '\r') :
    lines (String.join (ls.map (· ++ "\n"))) = ls := by
  induction ls with
  | nil => rfl
  | cons l ls ih =>
      obtain ⟨⟨hn, hr⟩, hls⟩ := List.forall_mem_cons.mp h
      have hfirst : lines (l ++ "\n") = [l] := by
        rw [lines, String.toList_append]
        show (splitLines (l.toList ++ '\n' :: [])).map String.ofList = [l]
        rw [splitLines_append hn hr, splitLines, List.map_cons, String.ofList_toList, List.map_nil]
      rw [List.map_cons, String.join_cons, lines_append (.inr ⟨l, rfl⟩), hfirst, ih hls,
        List.singleton_append]

theorem map_snd_numberedLines (s : String) : (numberedLines s).map Prod.snd = lines s := by
  rw [numberedLines, List.map_map]
  exact List.zipIdx_map_fst 0 (lines s)

theorem getElem?_numberedLines (s : String) (i : Nat) :
    (numberedLines s)[i]? = (lines s)[i]?.map fun l => (i + 1, l) := by
  rw [numberedLines, List.getElem?_map, List.getElem?_zipIdx, Option.map_map, Nat.zero_add]
  rfl

/-- The lines of a second text are numbered on from those of the first. -/
theorem numberedLines_append {s : String} (hs : s = "" ∨ ∃ init, s = init ++ "\n") (t : String) :
    numberedLines (s ++ t) =
      numberedLines s ++ (numberedLines t).map fun l => (l.1 + (lines s).length, l.2) := by
  have hnext : (lines t).zipIdx (0 + (lines s).length) =
      (lines t).zipIdx.map (Prod.map id (· + (lines s).length)) := by
    rw [List.map_snd_add_zipIdx_eq_zipIdx, Nat.add_comm]
  rw [numberedLines, numberedLines, numberedLines, lines_append hs, List.zipIdx_append, hnext,
    List.map_append, List.map_map, List.map_map]
  refine congrArg _ (List.map_congr_left fun p _ => Prod.ext ?_ rfl)
  exact Nat.add_right_comm p.2 (lines s).length 1

theorem isLine_joined (hw : IsWord w) (hrest : Spaced rest) : IsLine (joined w rest) where
  ne_nil := by
    obtain ⟨c, hc, -⟩ := head?_joined hw rest
    intro e
    rw [e] at hc
    cases hc
  not_feed := not_mem_joined hw hrest (by decide)
  not_return := not_mem_joined hw hrest (by decide)

end Asm32.Text

namespace Asm32.Line
open Text

/-- **Reading a statement.**  Plain words with gaps between them are the mnemonic and the operands
of a statement. -/
theorem read_joined {w : List Char} {rest : List (List Char × List Char)} (hw : IsWord w)
    (hrest : Spaced rest) (number : Nat) :
    Line.read number (String.ofList (joined w rest)) =
      .ok (.statement
        { line := number
          mnemonic := String.ofList w
          operands := rest.map fun p => String.ofList p.2
          text := String.ofList (joined w rest) }) := by
  have hsigil : w.head? ≠ some labelSigil := fun h =>
    ne_of_isPlain (hw.plain _ (List.mem_of_head? h)) rfl rfl
  have hlower : Text.lowercase (String.ofList w) = String.ofList w := by
    rw [Text.lowercase, String.toList_ofList, lowerAfter_of_plain hw.plain]
  -- the words alone, with nothing before or after them
  have hread := read_written
    { lead := [], first := w, rest := rest, trail := [], comment := []
      lead_separator := by simp
      first_token := hw.isToken
      first_sigil := hsigil
      rest_divided := hrest.divided
      trail_separator := by simp
      comment_sign := .inl rfl } number
  simp only [Written.chars, Written.said, List.nil_append, List.append_nil, hlower,
    trimEnd_joined hw hrest] at hread
  exact hread

end Asm32.Line
