import Asm32.Proofs.Sources
import Asm32.Proofs.SourceText

/-!
# Line ends

A line ends at a line feed, and a carriage return right before the feed belongs to the end.  A text
in which every line feed gets a carriage return more has the lines that it had before, except that
a line that ended in a carriage return and a feed keeps one of its two returns
(`Text.splitLines_putReturns`).  That return is a blank at the end of the line, and what is read
from a line does not depend on such blanks (`Line.read_append_blank`).

**Line ends** (`assemble_withReturns`).  A source is assembled to the same items, or is refused
with the same fault, whether its lines end in a line feed or in a carriage return and a line feed.
-/

namespace Asm32

namespace Text

/-! ### A carriage return before every line feed -/

/-- The text with a carriage return put before every line feed. -/
def putReturns (cs : List Char) : List Char :=
  cs.flatMap fun c => if c = '\n' then ['\r', '\n'] else [c]

/-- The string with a carriage return put before every line feed. -/
def withReturns (s : String) : String := String.ofList (putReturns s.toList)

theorem putReturns_feed (cs : List Char) :
    putReturns ('\n' :: cs) = '\r' :: '\n' :: putReturns cs := rfl

theorem putReturns_cons {c : Char} (hn : c ≠ '\n') (cs : List Char) :
    putReturns (c :: cs) = c :: putReturns cs := by
  rw [putReturns, List.flatMap_cons, if_neg hn]
  rfl

/-- A line feed is never the first character, since a carriage return is put before it. -/
theorem putReturns_ne_feed (cs rest : List Char) : putReturns cs ≠ '\n' :: rest := by
  intro h
  cases cs with
  | nil => cases h
  | cons c cs =>
      by_cases hn : c = '\n'
      · rw [hn, putReturns_feed] at h
        exact absurd (List.cons.inj h).1 (by decide)
      · rw [putReturns_cons hn] at h
        exact hn (List.cons.inj h).1

/-- The second line is the first, or the first with a carriage return at its end. -/
def UpToReturn (l l' : List Char) : Prop := l' = l ∨ l' = l ++ ['\r']

theorem UpToReturn.cons {l l' : List Char} (h : UpToReturn l l') (c : Char) :
    UpToReturn (c :: l) (c :: l') := by
  rcases h with rfl | rfl
  · exact .inl rfl
  · exact .inr rfl

/-- **Lines.**  The lines stay what they are, up to a carriage return at the end of a line. -/
theorem splitLines_putReturns (cs : List Char) :
    List.Forall₂ UpToReturn (splitLines cs) (splitLines (putReturns cs)) := by
  fun_induction splitLines cs with
  | case1 => exact .nil
  | case2 cs ih =>
      rw [putReturns_feed]
      exact .cons (.inl rfl) ih
  | case3 cs ih =>
      -- the return that was there no longer stands right before the feed
      rw [putReturns_cons (by decide), putReturns_feed]
      exact .cons (.inr rfl) ih
  | case4 c cs hn hr hnil ih =>
      rw [hnil, List.forall₂_nil_left_iff] at ih
      rw [putReturns_cons hn,
        splitLines.eq_4 c _ hn fun rest _ => putReturns_ne_feed cs rest, ih]
      exact .cons (.inl rfl) .nil
  | case5 c cs hn hr l ls hls ih =>
      rw [hls, List.forall₂_cons_left_iff] at ih
      obtain ⟨l', ls', hl, hrest, hls'⟩ := ih
      rw [putReturns_cons hn,
        splitLines.eq_4 c _ hn fun rest _ => putReturns_ne_feed cs rest, hls']
      exact .cons (hl.cons c) hrest

example : splitLines (putReturns ['a', '\r', '\n', 'b', '\n', '\r']) =
    [['a', '\r'], ['b'], ['\r']] := rfl

/-- What does not depend on a carriage return at the end of a line is the same for all lines. -/
theorem map_splitLines_putReturns {α : Type} {f : List Char → α}
    (hf : ∀ l, f (l ++ ['\r']) = f l) (cs : List Char) :
    (splitLines (putReturns cs)).map f = (splitLines cs).map f := by
  have hlines : List.Forall₂ (fun l l' => f l' = f l) (splitLines cs)
      (splitLines (putReturns cs)) := by
    refine (splitLines_putReturns cs).imp fun l l' h => ?_
    rcases h with rfl | rfl
    · rfl
    · exact hf l
  rw [← List.forall₂_eq_eq_eq, List.forall₂_map_left_iff, List.forall₂_map_right_iff]
  exact hlines.flip

/-! ### A blank at the end of a line -/

theorem trimEnd_append_blank {c : Char} (hc : isBlank c = true) (cs : List Char) :
    trimEnd (cs ++ [c]) = trimEnd cs := by
  rw [trimEnd, List.reverse_append, List.reverse_singleton, List.singleton_append,
    List.dropWhile_cons_of_pos hc]
  rfl

theorem trim_append_blank {c : Char} (hc : isBlank c = true) (cs : List Char) :
    trim (cs ++ [c]) = trim cs := by
  rw [trim, trim, trimStart, trimStart, List.dropWhile_append]
  split
  · rename_i hempty
    rw [List.isEmpty_iff.mp hempty, List.dropWhile_cons_of_pos hc, List.dropWhile_nil]
  · exact trimEnd_append_blank hc _

end Text

namespace Line
open Text

/-- A blank at the end is in the comment, or is trimmed off the code part. -/
theorem code_append_blank {c : Char} (hc : isBlank c = true) (raw : List Char) :
    code (raw ++ [c]) = code raw := by
  have hlast : [c].takeWhile (· != commentSign) = [c] := by
    apply List.takeWhile_cons_of_pos
    rw [bne_iff_ne]
    rintro rfl
    exact absurd hc (by decide)
  rw [code, code, List.takeWhile_append]
  split
  · rename_i hlength
    have hraw : raw.takeWhile (· != commentSign) = raw :=
      (List.takeWhile_prefix _).eq_of_length hlength
    rw [hlast, hraw, trim_append_blank hc]
  · rfl

/-- **Reading.**  A blank at the end of a line changes nothing of what is read. -/
theorem read_append_blank {c : Char} (hc : isBlank c = true) (number : Nat) (raw : List Char) :
    read number (String.ofList (raw ++ [c])) = read number (String.ofList raw) := by
  simp only [read, statementOf, String.toList_ofList, code_append_blank hc,
    trimEnd_append_blank hc]

end Line

/-! ### Sources with the same entries -/

/-- The entries of a source do not depend on how its lines end. -/
theorem Entry.ofSource_withReturns (source : String) :
    ofSource (Text.withReturns source) = ofSource source := by
  apply List.ext_getElem?
  intro i
  have hlines := Text.map_splitLines_putReturns
    (f := fun l => Entry.ofLine (i + 1, String.ofList l))
    (fun l => congrArg (Entry.mk (i + 1)) (Line.read_append_blank (by decide) (i + 1) l))
    source.toList
  have hentry := congrArg (·[i]?) hlines
  simp only [List.getElem?_map] at hentry
  simpa only [ofSource, List.getElem?_map, Text.getElem?_numberedLines, Text.lines,
    Text.withReturns, String.toList_ofList, Option.map_map, Function.comp_def] using hentry

/-- Lines with the same entries are the same to a session. -/
theorem Session.addLines_congr {ls ls' : List (Nat × String)}
    (h : ls.map Entry.ofLine = ls'.map Entry.ofLine) (s : Session) :
    s.addLines ls = s.addLines ls' := by
  induction ls generalizing ls' s with
  | nil =>
      obtain rfl := List.map_eq_nil_iff.mp h.symm
      rfl
  | cons l ls ih =>
      obtain ⟨l', ls', rfl, hl, hls⟩ := List.map_eq_cons_iff.mp h.symm
      rw [addLines, addLines, addLine_eq_take, addLine_eq_take, hl]
      rcases s.take (.ofLine l) with ⟨s', _ | _⟩
      · rfl
      · exact ih hls.symm s'

theorem Assembly.ofSource_congr {source source' : String}
    (h : Entry.ofSource source = Entry.ofSource source') (setting : Setting) :
    Assembly.ofSource source setting = Assembly.ofSource source' setting := by
  have hadd : (Session.start .standard setting).addSource source =
      (Session.start .standard setting).addSource source' := Session.addLines_congr h _
  rw [ofSource, ofSource, hadd]

/-- **Line ends.**  A carriage return before every line feed of a source changes nothing of what it
is assembled to, whether or not some of its lines ended in one before. -/
theorem assemble_withReturns (source : String) (setting : Setting) :
    assemble (Text.withReturns source) setting = assemble source setting := by
  rw [assemble, assemble, Assembly.ofSource_congr (Entry.ofSource_withReturns source)]

end Asm32
