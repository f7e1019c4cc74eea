import Asm32.Tool.Assembler
import Asm32.Proofs.Sources
import Asm32.Proofs.SourceText

/-!
# What the assembler reports

The tool finds faults in two passes and strikes out what a line has had reported already.  What is
wrong with a line can be said without the passes (`Entry.fault?`): it cannot be read, or it declares
a label that an earlier line declares, or its instruction has no word when the labels are those of
the whole source.  `Entry.faults` lists these faults line by line.

A fault of the first pass is a fault of its line in this sense, since a refused instruction stays
refused, and every other fault is one of the second pass (`Entry.mem_faults_iff`).  A line has one
fault at most, so the faults struck out are those that the first pass has reported.

A fault is reported with the text of its line (`Tool.Assembler.report_of_mem_faults`), and a run
that writes no file says why (`Tool.Assembler.execute_exit`).

**Two modes, one answer** (`Tool.Assembler.execute_agrees_with_assemble`).  The tool writes what
`assemble` makes of a source.  When `assemble` gives a fault the tool writes nothing and reports
that fault first; told to keep going, it reports every fault of the source once.
-/

namespace Asm32

/-! ### The faults among answers -/

/-- The faults among answers, in order. -/
def errors {α : Type} : List (Except LineFault α) → List LineFault
  | []               => []
  | .ok _ :: rest    => errors rest
  | .error r :: rest => r :: errors rest

theorem mem_errors_iff {α : Type} {rs : List (Except LineFault α)} {r : LineFault} :
    r ∈ errors rs ↔ .error r ∈ rs := by
  induction rs with
  | nil => simp [errors]
  | cons a rs ih => cases a <;> simp [errors, ih]

theorem collect_eq_error_iff {rs : List (Except LineFault Item)} {r : LineFault} :
    collect rs = .error r ↔ (errors rs).head? = some r := by
  induction rs with
  | nil => simp [collect, errors]
  | cons a rs ih =>
      cases a with
      | error e => simp [collect, errors]
      | ok a =>
          rw [errors, ← ih, collect]
          cases collect rs <;> simp [Except.map]

theorem errors_map_ok (items : List Item) : errors (items.map .ok) = [] := by
  induction items with
  | nil => rfl
  | cons a items ih => exact ih

/-- Results in which a fault names the line of its instruction. -/
theorem lines_errors_mapIdx {g : Nat → Statement → Except LineFault Item} {sts : List Statement}
    (hg : ∀ i st r, g i st = .error r → r.line = st.line) :
    ((errors (sts.mapIdx g)).map LineFault.line).Sublist (sts.map Statement.line) := by
  induction sts generalizing g with
  | nil => simp [errors]
  | cons st sts ih =>
      -- the other results are those of the instructions after the first, counted from one
      have hrest := ih (g := fun i => g (i + 1)) fun i => hg (i + 1)
      rw [List.mapIdx_cons]
      cases h : g 0 st with
      | ok a => exact hrest.cons st.line
      | error r =>
          rw [errors, List.map_cons, List.map_cons, hg 0 st r h]
          exact hrest.cons_cons st.line

namespace Entry
open Session

/-! ### The fault of a line -/

/-- What is wrong with an entry that comes after others, when the labels are those of `symbols`. -/
def fault? (symbols : SymbolTable) (before : List Entry) (e : Entry) : Option Fault :=
  match e.said with
  | .error f            => some f
  | .ok .blank          => none
  | .ok (.label name)   =>
    (before.find? fun d => d.label? = some name).map fun d => .duplicateLabel name d.number
  | .ok (.statement st) =>
    match Registry.standard.dispatch symbols st.mnemonic st.operands with
    | .ok (.resolved _)   => none
    | .ok (.unresolved l) => some (.undefinedLabel l)
    | .error f            => some f

/-- The faults of entries, line by line. -/
def faults (setting : Setting) (es : List Entry) : List LineFault :=
  es.zipIdx.filterMap fun (e, p) =>
    (e.fault? (table setting es) (es.take p)).map fun f => ⟨e.number, f⟩

/-- The instruction of an entry has the number of the entry. -/
def Numbered (e : Entry) : Prop := ∀ st, e.statement? = some st → st.line = e.number

theorem mem_faults {setting : Setting} {es : List Entry} {r : LineFault} :
    r ∈ faults setting es ↔ ∃ (p : Nat) (e : Entry), es[p]? = some e ∧ e.number = r.line ∧
      e.fault? (table setting es) (es.take p) = some r.fault := by
  obtain ⟨line, fault⟩ := r
  simp only [faults, List.mem_filterMap, Prod.exists, List.mem_zipIdx_iff_getElem?,
    Option.map_eq_some_iff, LineFault.mk.injEq]
  constructor
  · rintro ⟨e, p, hp, f, hf, hn, rfl⟩
    exact ⟨p, e, hp, hn, hf⟩
  · rintro ⟨p, e, hp, hn, hf⟩
    exact ⟨e, p, hp, fault, hf, hn, rfl⟩

theorem line_declaration? (setting : Setting) (name : String) (k : Nat) (es : List Entry) :
    (declaration? setting name k es).map Symbol.line =
      (es.find? fun d => d.label? = some name).map number := by
  induction es generalizing k with
  | nil => rfl
  | cons e es ih =>
      rw [declaration?, List.find?_cons]
      by_cases h : e.label? = some name
      · simp [h]
      · simp [h, ih]

theorem fault?_statement {symbols : SymbolTable} {before : List Entry} {st : Statement} {f : Fault}
    (address : UInt32) :
    fault? symbols before ⟨st.line, .ok (.statement st)⟩ = some f ↔
      onePass .standard symbols st address = .error ⟨st.line, f⟩ := by
  rw [fault?, onePass]
  rcases hd : Registry.standard.dispatch symbols st.mnemonic st.operands with g | op | l <;>
    simp [hd]

/-- An entry is at fault when the first pass refuses it or the second refuses its instruction. -/
theorem fault?_eq_some_iff {setting : Setting} {es : List Entry} {p : Nat} {e : Entry} {f : Fault}
    (he : e.Numbered) :
    e.fault? (table setting es) (es.take p) = some f ↔
      (((start .standard setting).takeAll (es.take p)).1.take e).2 = .error ⟨e.number, f⟩ ∨
      ∃ st, e.statement? = some st ∧ ∀ address,
        onePass .standard (table setting es) st address = .error ⟨e.number, f⟩ := by
  obtain ⟨number, said⟩ := e
  cases said with
  | error g => simp [fault?, take, statement?]
  | ok l =>
      cases l with
      | blank => simp [fault?, take, statement?]
      | label name =>
          have hline := line_declaration? setting name 0 (es.take p)
          have hlabel : label? ⟨number, .ok (.label name)⟩ = some name := rfl
          rw [take_of_label? hlabel, find?_takeAll]
          cases hd : declaration? setting name 0 (es.take p) with
          | none =>
              rw [hd] at hline
              simp [fault?, statement?, Option.map_eq_none_iff.mp hline.symm]
          | some y =>
              rw [hd] at hline
              obtain ⟨d, hfind, hnumber⟩ := Option.map_eq_some_iff.mp hline.symm
              simp [fault?, statement?, hfind, hnumber]
      | statement st =>
          obtain rfl : st.line = number := he st rfl
          rw [fault?_statement 0]
          refine ⟨fun h => .inr ⟨st, rfl, fun address => ?_⟩, ?_⟩
          · rw [onePass_eq_error_iff] at h ⊢
            exact h
          · rintro (h | ⟨st', hst, h⟩)
            · -- refused with the labels so far, so refused with the labels of all entries
              obtain ⟨f, hd, hline⟩ := addStatement_eq_error_iff.mp h
              rw [registry_takeAll] at hd
              exact onePass_eq_error_iff.mpr (.inr ⟨f, dispatch_table_of_error hd, hline⟩)
            · cases hst
              exact h 0

theorem line_of_onePass {registry : Registry} {symbols : SymbolTable} {st : Statement}
    {address : UInt32} {r : LineFault} (h : onePass registry symbols st address = .error r) :
    r.line = st.line := by
  obtain ⟨l, -, rfl⟩ | ⟨f, -, rfl⟩ := onePass_eq_error_iff.mp h <;> rfl

/-- A fault of the first pass names the line of its entry. -/
theorem line_of_take {s : Session} {e : Entry} {r : LineFault} (he : e.Numbered)
    (h : (s.take e).2 = .error r) : r.line = e.number := by
  obtain ⟨number, said⟩ := e
  cases said with
  | error f =>
      cases h
      rfl
  | ok l =>
      cases l with
      | blank => cases h
      | label name =>
          have hlabel : label? ⟨number, .ok (.label name)⟩ = some name := rfl
          rw [take_of_label? hlabel] at h
          cases hfind : s.symbols.find? name <;> rw [hfind] at h <;> cases h
          rfl
      | statement st =>
          obtain ⟨f, -, rfl⟩ := addStatement_eq_error_iff.mp h
          exact he st rfl

variable {setting : Setting} {es : List Entry}

/-- The faults of entries are those of the two passes. -/
theorem mem_faults_iff (hes : ∀ e ∈ es, e.Numbered) {r : LineFault} :
    r ∈ faults setting es ↔
      r ∈ errors ((start .standard setting).takeAll es).2 ∨
      r ∈ errors ((start .standard setting).takeAll es).1.finish := by
  rw [mem_faults, mem_errors_iff, mem_errors_iff, finish_takeAll]
  refine ⟨?_, ?_⟩
  · rintro ⟨p, e, hp, hnumber, hf⟩
    obtain hfirst | ⟨st, hst, hsecond⟩ :=
      (fault?_eq_some_iff (hes e (List.mem_of_getElem? hp))).mp hf
    · refine .inl (List.mem_of_getElem? (i := p) ?_)
      rw [getElem?_takeAll, hp, Option.map_some, hfirst, hnumber]
    · refine .inr (List.mem_of_getElem? (i := (statements (es.take p)).length) ?_)
      rw [List.getElem?_mapIdx, getElem?_statements hp hst, Option.map_some, ← table, hsecond,
        hnumber]
  · rintro (h | h)
    · obtain ⟨p, hp⟩ := List.mem_iff_getElem?.mp h
      rw [getElem?_takeAll, Option.map_eq_some_iff] at hp
      obtain ⟨e, hp, hfirst⟩ := hp
      have he := hes e (List.mem_of_getElem? hp)
      have hnumber := line_of_take he hfirst
      exact ⟨p, e, hp, hnumber.symm, (fault?_eq_some_iff he).mpr (.inl (by rw [hfirst, ← hnumber]))⟩
    · obtain ⟨i, hi, hsecond⟩ := List.mem_mapIdx.mp h
      obtain ⟨e, hmem, hst⟩ := List.mem_filterMap.mp (List.getElem_mem hi)
      obtain ⟨p, hp⟩ := List.mem_iff_getElem?.mp hmem
      have hnumber := (line_of_onePass hsecond).trans (hes e hmem _ hst)
      refine ⟨p, e, hp, hnumber.symm, (fault?_eq_some_iff (hes e hmem)).mpr (.inr ⟨_, hst, ?_⟩)⟩
      intro address
      rw [onePass_eq_error_iff] at hsecond ⊢
      rwa [← hnumber]

/-! ### One fault a line -/

theorem sublist_numbers {α β : Type} {f : α → Option β} {line : β → Nat} {number : α → Nat}
    {as : List α} (h : ∀ a ∈ as, ∀ b, f a = some b → line b = number a) :
    ((as.filterMap f).map line).Sublist (as.map number) := by
  induction as with
  | nil => exact .slnil
  | cons a as ih =>
      obtain ⟨ha, has⟩ := List.forall_mem_cons.mp h
      cases hf : f a with
      | none =>
          rw [List.filterMap_cons_none hf]
          exact (ih has).cons _
      | some b =>
          rw [List.filterMap_cons_some hf, List.map_cons, List.map_cons, ha b hf]
          exact (ih has).cons_cons _

theorem lines_faults (setting : Setting) (es : List Entry) :
    ((faults setting es).map LineFault.line).Sublist (es.map number) := by
  have hsub : ((faults setting es).map LineFault.line).Sublist
      (es.zipIdx.map (number ∘ Prod.fst)) := by
    refine sublist_numbers fun x _ r hr => ?_
    obtain ⟨f, -, rfl⟩ := Option.map_eq_some_iff.mp hr
    rfl
  rwa [← List.map_map, List.zipIdx_map_fst] at hsub

theorem lines_errors_takeAll (hes : ∀ e ∈ es, e.Numbered) (s : Session) :
    ((errors (s.takeAll es).2).map LineFault.line).Sublist (es.map number) := by
  induction es generalizing s with
  | nil => exact .slnil
  | cons e es ih =>
      obtain ⟨he, hes⟩ := List.forall_mem_cons.mp hes
      have hrest := ih hes (s.take e).1
      rw [takeAll]
      cases h : (s.take e).2 with
      | ok _ => exact hrest.cons _
      | error r =>
          rw [errors, List.map_cons, List.map_cons, line_of_take he h]
          exact hrest.cons_cons _

theorem lines_errors_finish (hes : ∀ e ∈ es, e.Numbered) (setting : Setting) :
    ((errors ((start .standard setting).takeAll es).1.finish).map LineFault.line).Sublist
      (es.map number) := by
  rw [finish_takeAll]
  exact (lines_errors_mapIdx fun i st r => line_of_onePass).trans (sublist_numbers hes)

theorem numbered_of_mem_ofSource (source : String) : ∀ e ∈ ofSource source, e.Numbered := by
  intro e he st hst
  obtain ⟨l, -, rfl⟩ := List.mem_map.mp he
  simp only [statement?_eq_some_iff, ofLine] at hst
  rw [Line.eq_statementOf_of_read hst]
  rfl

theorem nodup_numbers (source : String) : ((ofSource source).map number).Nodup := by
  have hnumbers : (ofSource source).map number =
      ((Text.lines source).zipIdx.map Prod.snd).map Nat.succ := by
    rw [ofSource, Text.numberedLines, List.map_map, List.map_map, List.map_map]
    rfl
  rw [hnumbers, List.zipIdx_map_snd]
  exact (List.nodup_range' 1).map Nat.succ_injective

end Entry

namespace Tool.Assembler
open Session Entry

/-! ### The two passes of the tool -/

variable {s : Session} {ls : List (Nat × String)}

theorem scan_of_ok (h : (s.addLines ls).2 = .ok ()) (keepGoing : Bool) :
    scan keepGoing s ls = ((s.addLines ls).1, []) := by
  induction ls generalizing s with
  | nil => rfl
  | cons l ls ih =>
      rw [addLines] at h ⊢
      rw [scan]
      rcases hadd : s.addLine l.1 l.2 with ⟨s', _ | _⟩
      · rw [hadd] at h
        cases h
      · rw [hadd] at h
        exact ih h

/-- The first report is the fault that ends the reading of the lines. -/
theorem head?_scan {e : LineFault} (h : (s.addLines ls).2 = .error e) (keepGoing : Bool) :
    (scan keepGoing s ls).2.head? = some e := by
  induction ls generalizing s with
  | nil => cases h
  | cons l ls ih =>
      rw [addLines] at h
      rw [scan]
      rcases hadd : s.addLine l.1 l.2 with ⟨s', r | _⟩
      · rw [hadd] at h
        cases h
        cases keepGoing <;> rfl
      · rw [hadd] at h
        exact ih h

theorem scan_keepGoing (s : Session) (ls : List (Nat × String)) :
    scan true s ls =
      ((s.takeAll (ls.map .ofLine)).1, errors (s.takeAll (ls.map .ofLine)).2) := by
  induction ls generalizing s with
  | nil => rfl
  | cons l ls ih =>
      rw [scan, List.map_cons, takeAll, ← addLine_eq_take]
      rcases s.addLine l.1 l.2 with ⟨s', r | _⟩
      · simp only [if_true, ih, errors]
      · simp only [ih, errors]

theorem head?_newFaults (rs : List (Except LineFault Item)) :
    (newFaults [] rs).head? = (errors rs).head? := by
  induction rs with
  | nil => rfl
  | cons r rs ih =>
      cases r with
      | error e => rfl
      | ok a => exact ih

theorem newFaults_eq_filter {rs : List (Except LineFault Item)}
    (h : ((errors rs).map LineFault.line).Nodup) (reported : List Nat) :
    newFaults reported rs = (errors rs).filter fun r => r.line ∉ reported := by
  induction rs generalizing reported with
  | nil => rfl
  | cons r rs ih =>
      cases r with
      | ok a => exact ih h reported
      | error e =>
          rw [errors, List.map_cons, List.nodup_cons] at h
          rw [newFaults, errors]
          by_cases hmem : e.line ∈ reported
          · rw [if_pos hmem, ih h.2, List.filter_cons_of_neg (by simpa using hmem)]
          · rw [if_neg hmem, ih h.2, List.filter_cons_of_pos (by simpa using hmem)]
            -- the line that is reported now has no other fault
            refine congrArg _ (List.filter_congr fun r hr => ?_)
            have hne : r.line ≠ e.line := fun heq => h.1 (heq ▸ List.mem_map_of_mem hr)
            simp [hne]

/-- The faults that the two passes find in a source. -/
def found (source : String) (setting : Setting) (keepGoing : Bool) : List LineFault :=
  let scanned := scan keepGoing (.start .standard setting) (Text.numberedLines source)
  scanned.2 ++ newFaults (scanned.2.map LineFault.line) scanned.1.finish

variable {source : String} {setting : Setting}

theorem run_eq (source : String) (setting : Setting) (keepGoing : Bool) :
    run source setting keepGoing =
      .ofReports keepGoing (scan keepGoing (.start .standard setting)
        (Text.numberedLines source)).1.finish (found source setting keepGoing) := rfl

/-- The first fault that is found is the one that `assemble` gives. -/
theorem head?_found {e : LineFault} (h : assemble source setting = .error e) (keepGoing : Bool) :
    (found source setting keepGoing).head? = some e := by
  rw [assemble, Assembly.ofSource] at h
  rcases hadd : (start .standard setting).addSource source with ⟨s, r | _⟩
  · rw [hadd] at h
    cases h
    have hscan := head?_scan (congrArg Prod.snd hadd) keepGoing
    rw [found, List.head?_append, hscan]
    rfl
  · rw [hadd] at h
    -- the first pass has no fault, so the first one is the first of the results
    have hscan := scan_of_ok (congrArg Prod.snd hadd) keepGoing
    rw [← addSource, hadd] at hscan
    rw [found, hscan]
    exact (head?_newFaults s.finish).trans (collect_eq_error_iff.mp h)

theorem run_of_ok {items : List Item} (h : assemble source setting = .ok items)
    (keepGoing : Bool) : run source setting keepGoing = ⟨[], .done items⟩ := by
  rw [assemble, Assembly.ofSource] at h
  rcases hadd : (start .standard setting).addSource source with ⟨s, r | _⟩
  · rw [hadd] at h
    cases h
  · rw [hadd] at h
    have hscan := scan_of_ok (congrArg Prod.snd hadd) keepGoing
    rw [← addSource, hadd] at hscan
    have hfinish : s.finish = items.map .ok := collect_eq_ok_iff.mp h
    have hnew : newFaults [] s.finish = [] := by
      rw [← List.head?_eq_none_iff, head?_newFaults, hfinish, errors_map_ok]
      rfl
    have hitems : s.finish.filterMap Except.toOption = items := by
      rw [hfinish, List.filterMap_map]
      exact List.filterMap_some
    rw [run, hscan]
    simp only [List.map_nil, List.nil_append, hnew, Run.ofReports, hitems]

theorem run_of_error {e : LineFault} (h : assemble source setting = .error e) :
    run source setting false = ⟨[e], .aborted⟩ ∧
    run source setting true =
      ⟨found source setting true, .failed (found source setting true).length⟩ := by
  obtain ⟨rest, hstrict⟩ := List.head?_eq_some_iff.mp (head?_found h false)
  obtain ⟨rest', hfound⟩ := List.head?_eq_some_iff.mp (head?_found h true)
  rw [run_eq, run_eq, hstrict, hfound]
  exact ⟨rfl, rfl⟩

/-- The faults of two passes, without those of the second pass in lines of the first, are all
faults when no line has two of them. -/
theorem perm_of_passes {all first second : List LineFault}
    (hall : (all.map LineFault.line).Nodup) (hfirst : (first.map LineFault.line).Nodup)
    (hsecond : (second.map LineFault.line).Nodup)
    (hmem : ∀ r, r ∈ all ↔ r ∈ first ∨ r ∈ second) :
    let reports := first ++ second.filter fun r => r.line ∉ first.map LineFault.line
    (reports.map LineFault.line).Nodup ∧ reports.Perm all := by
  intro reports
  have hlines : (reports.map LineFault.line).Nodup := by
    rw [List.map_append, List.nodup_append']
    refine ⟨hfirst, hsecond.sublist (List.filter_sublist.map _), fun n hn hn' => ?_⟩
    obtain ⟨r, hr, rfl⟩ := List.mem_map.mp hn'
    exact of_decide_eq_true (List.mem_filter.mp hr).2 hn
  refine ⟨hlines, (List.perm_ext_iff_of_nodup hlines.of_map hall.of_map).mpr fun r => ?_⟩
  rw [hmem, List.mem_append, List.mem_filter, decide_eq_true_iff]
  refine ⟨Or.imp_right And.left, ?_⟩
  rintro (hr | hr)
  · exact .inl hr
  · by_cases hline : r.line ∈ first.map LineFault.line
    · -- the line has one fault, so the first pass has found this one
      obtain ⟨r', hr', heq⟩ := List.mem_map.mp hline
      have hsame := List.inj_on_of_nodup_map hall ((hmem r').mpr (.inl hr'))
        ((hmem r).mpr (.inr hr)) heq
      exact .inl (hsame ▸ hr')
    · exact .inr ⟨hr, hline⟩

/-- Told to keep going, the tool finds the faults of the source, one for each line at fault. -/
theorem found_keepGoing (source : String) (setting : Setting) :
    ((found source setting true).map LineFault.line).Nodup ∧
    (found source setting true).Perm (Entry.faults setting (ofSource source)) := by
  have hnumbered := numbered_of_mem_ofSource source
  have hnumbers := nodup_numbers source
  have hall := hnumbers.sublist (lines_faults setting (ofSource source))
  have hfirst := hnumbers.sublist (lines_errors_takeAll hnumbered (start .standard setting))
  have hsecond := hnumbers.sublist (lines_errors_finish hnumbered setting)
  simp only [found, scan_keepGoing]
  rw [← ofSource, newFaults_eq_filter hsecond]
  exact perm_of_passes hall hfirst hsecond fun r => mem_faults_iff hnumbered

/-! ### What is printed -/

/-- Every fault of a source is reported with its message and, under it, the number and the text of
its line. -/
theorem report_of_mem_faults {r : LineFault}
    (h : r ∈ Entry.faults setting (Entry.ofSource source)) :
    ∃ l, (r.line, l) ∈ Text.numberedLines source ∧
      report (Text.lines source) r = r.message ++ "\n" ++
        ("  " ++ rightAligned 4 (Numeral.decimal r.line) ++ " | " ++ Text.trimmedEnd l ++ "\n")
    := by
  have hline : r.line ∈ (Entry.ofSource source).map Entry.number :=
    (Entry.lines_faults setting _).subset (List.mem_map_of_mem h)
  obtain ⟨e, he, hnumber⟩ := List.mem_map.mp hline
  obtain ⟨p, hp, rfl⟩ := List.mem_map.mp he
  obtain ⟨i, hi⟩ := List.mem_iff_getElem?.mp hp
  rw [Text.getElem?_numberedLines] at hi
  obtain ⟨l, hl, rfl⟩ := Option.map_eq_some_iff.mp hi
  have hr : r.line = i + 1 := hnumber.symm
  refine ⟨l, hr ▸ hp, ?_⟩
  simp only [report, hr, hl]

/-- A run that comes to its end has nothing to report. -/
theorem reports_of_done {keepGoing : Bool} {reports : List LineFault} {items : List Item}
    (h : run source setting keepGoing = ⟨reports, .done items⟩) : reports = [] := by
  rw [run_eq] at h
  cases hfound : found source setting keepGoing with
  | nil =>
      rw [hfound] at h
      exact (congrArg Run.reports h).symm
  | cons e es =>
      rw [hfound, Run.ofReports] at h
      cases keepGoing <;> cases h

/-- A run has failed: it writes no file, and says why. -/
structure Fails (code : Nat) (out : Outcome) : Prop where
  exitCode_eq : out.exitCode = code
  stdout_eq : out.stdout = ""
  stderr_ne : out.stderr ≠ ""
  file_eq : out.file = none

theorem fails_failed (stderr : String) (f : Failure) : Fails 1 (.failed stderr f) where
  exitCode_eq := rfl
  stdout_eq := rfl
  stderr_ne := by
    intro h
    -- what is printed last ends a line, with a cause and without one
    have hreport : f.report = "" := (String.append_eq_empty_iff.mp h).2
    rw [Failure.report] at hreport
    split at hreport <;> exact absurd (String.append_eq_empty_iff.mp hreport).2 (by decide)
  file_eq := rfl

/-- **The end of a run.**  A run fails with 2 when the origin is no address.  Otherwise it fails
with 1, or it writes a program in its format, prints nothing and ends with 0. -/
theorem execute_exit (files : Files) (opts : Options) :
    (∀ reason, readOrigin opts.origin = .error reason → Fails 2 (execute files opts)) ∧
    ∀ origin, readOrigin opts.origin = .ok origin →
      Fails 1 (execute files opts) ∨
      ∃ name items, execute files opts = ⟨0, "", "", some (name, opts.format.write items)⟩ := by
  constructor
  · intro reason h
    rw [execute, h]
    exact ⟨rfl, rfl, fun he => absurd (String.append_eq_empty_iff.mp he).2 (by decide), rfl⟩
  · intro origin h
    cases hsource : files.readText opts.input with
    | error e =>
        simp only [execute, h, hsource]
        exact .inl (fails_failed _ _)
    | ok source =>
        rcases hrun : run source ⟨origin⟩ opts.keepGoing with ⟨reports, ending⟩
        simp only [execute, h, hsource, hrun]
        cases ending with
        | aborted => exact .inl (fails_failed _ _)
        | failed n => exact .inl (fails_failed _ _)
        | done items =>
            cases files.refuses (opts.output.getD (opts.input ++ ".hex")) with
            | some e => exact .inl (fails_failed _ _)
            | none =>
                rw [reports_of_done hrun]
                exact .inr ⟨_, items, rfl⟩

/-! ### The tool -/

/-- **Two modes, one answer.**  When `assemble` makes items of a source, the tool writes them in its
format and prints nothing, in both modes.  When `assemble` gives a fault, the tool writes nothing.
Without `keepGoing` it reports this fault alone; with it, this fault first and then the others, so
that each fault of the source is reported once, in a line of its own, and it counts them. -/
theorem execute_agrees_with_assemble {files : Files} {opts : Options} {origin : UInt32}
    {source : String} (horigin : readOrigin opts.origin = .ok origin)
    (hsource : files.readText opts.input = .ok source) :
    (∀ items, assemble source ⟨origin⟩ = .ok items →
      let output := opts.output.getD (opts.input ++ ".hex")
      (files.refuses output = none →
        execute files opts = ⟨0, "", "", some (output, opts.format.write items)⟩) ∧
      ∀ err, files.refuses output = some err →
        execute files opts = .failed "" ⟨"writing " ++ output, some err.message⟩) ∧
    ∀ e, assemble source ⟨origin⟩ = .error e →
      let shown := report (Text.lines source)
      let faults := Entry.faults ⟨origin⟩ (Entry.ofSource source)
      (opts.keepGoing = false →
        execute files opts = .failed (shown e) ⟨"assembly aborted", none⟩) ∧
      (opts.keepGoing = true →
        ∃ rest, ((e :: rest).map LineFault.line).Nodup ∧ (e :: rest).Perm faults ∧
          execute files opts = .failed (String.join ((e :: rest).map shown))
            ⟨Numeral.decimal faults.length ++ " line(s) failed to assemble", none⟩) := by
  constructor
  · intro items h output
    have hrun := run_of_ok h opts.keepGoing
    constructor
    · intro hopen
      simp only [execute, horigin, hsource, hrun]
      rw [hopen]
      rfl
    · intro err hclosed
      simp only [execute, horigin, hsource, hrun]
      rw [hclosed]
      rfl
  · intro e h shown faults
    constructor
    · intro hstop
      simp only [execute, horigin, hsource, hstop, (run_of_error h).1]
      rw [List.map_singleton, String.join_cons, String.join_nil, String.append_empty]
    · intro hgo
      obtain ⟨hlines, hperm⟩ := found_keepGoing source ⟨origin⟩
      obtain ⟨rest, hfound⟩ := List.head?_eq_some_iff.mp (head?_found h true)
      have hrun := (run_of_error h).2
      rw [hperm.length_eq, hfound] at hrun
      rw [hfound] at hlines hperm
      refine ⟨rest, hlines, hperm, ?_⟩
      simp only [execute, horigin, hsource, hgo]
      rw [hrun]

/-- A source with a fault of every kind, in both modes, and one without a fault, in every format.
The label in the second line of the first source is missed only by the second pass, so this line is
reported last. -/
theorem execute_agrees_with_assemble_runs :
    let faulty := "@a:\nldi r1, @late\n@a:\nfoo\n@ b:\nldi r2, @a\n"
    let good := "ldi r0, @x\n@x:\n  scs ; \"x\"\n"
    let files : Files :=
      ⟨fun name => .ok (if name = "good.s" then good.toUTF8 else faulty.toUTF8), fun _ => none⟩
    let first : LineFault := ⟨3, .duplicateLabel "@a" 1⟩
    let items : List Item := [⟨1, 16, 0x280, "ldi r0, @x"⟩, ⟨3, 20, 0x1800003F, "  scs ; \"x\""⟩]
    (readOrigin "0x10" = .ok 16 ∧ files.readText "faulty.s" = .ok faulty ∧
      files.readText "good.s" = .ok good) ∧
    assemble faulty ⟨16⟩ = .error first ∧
    execute files ⟨"faulty.s", none, "0x10", .binary, false⟩ =
      ⟨1, "", "error in line 3: label `@a` already defined in line 1\n     3 | @a:\n" ++
        "Error: assembly aborted\n", none⟩ ∧
    (∃ rest, ((first :: rest).map LineFault.line).Nodup ∧ (first :: rest).Perm
      [⟨2, .undefinedLabel "@late"⟩, first, ⟨4, .unknownMnemonic "foo"⟩,
        ⟨5, .malformedLabel "@ b:"⟩]) ∧
    execute files ⟨"faulty.s", none, "0x10", .binary, true⟩ =
      ⟨1, "", "error in line 3: label `@a` already defined in line 1\n     3 | @a:\n" ++
        "error in line 4: unknown mnemonic `foo`\n     4 | foo\n" ++
        "error in line 5: malformed label declaration `@ b:` (expected `@name:`)\n" ++
        "     5 | @ b:\n" ++
        "error in line 2: label `@late` is never defined\n     2 | ldi r1, @late\n" ++
        "Error: 4 line(s) failed to assemble\n", none⟩ ∧
    assemble good ⟨16⟩ = .ok items ∧
    (∀ format, execute files ⟨"good.s", none, "0x10", format, false⟩ =
      ⟨0, "", "", some ("good.s.hex", format.write items)⟩) ∧
    Format.listing.write items =
      "00000280 0010 ldi r0, @x\n1800003f 0014 scs ; \"x\"\n".toUTF8 ∧
    Format.binary.write items = ⟨#[0x80, 0x02, 0, 0, 0x3F, 0, 0, 0x18]⟩ ∧
    Format.json.write items =
      ("[\n  \x7b\n    \"line\": 1,\n    \"address\": 16,\n    \"opcode\": 640,\n" ++
        "    \"text\": \"ldi r0, @x\"\n  \x7d,\n  \x7b\n    \"line\": 3,\n    \"address\": 20,\n" ++
        "    \"opcode\": 402653247,\n    \"text\": \"  scs ; \\\"x\\\"\"\n  \x7d\n]").toUTF8 := by
  intro faulty good files first items
  have horigin : readOrigin "0x10" = .ok 16 := by decide +kernel
  have hfaulty : files.readText "faulty.s" = .ok faulty := by decide +kernel
  have hgood : files.readText "good.s" = .ok good := by decide +kernel
  have herror : assemble faulty ⟨16⟩ = .error first := by decide +kernel
  have hitems : assemble good ⟨16⟩ = .ok items := by decide +kernel
  have hfaults : Entry.faults ⟨16⟩ (Entry.ofSource faulty) =
      [⟨2, .undefinedLabel "@late"⟩, first, ⟨4, .unknownMnemonic "foo"⟩,
        ⟨5, .malformedLabel "@ b:"⟩] := by decide +kernel
  have hstrict := ((@execute_agrees_with_assemble files
    ⟨"faulty.s", none, "0x10", .binary, false⟩ 16 faulty horigin hfaulty).2 _ herror).1 rfl
  obtain ⟨rest, hlines, hperm, hgoing⟩ := ((@execute_agrees_with_assemble files
    ⟨"faulty.s", none, "0x10", .binary, true⟩ 16 faulty horigin hfaulty).2 _ herror).2 rfl
  rw [hfaults] at hperm
  refine ⟨⟨horigin, hfaulty, hgood⟩, herror, ?_, ⟨rest, hlines, hperm⟩, ?_, hitems,
    fun format => ?_, ?_, rfl, ?_⟩
  · rw [hstrict]
    refine congrArg (fun text => Outcome.mk 1 "" text none) ?_
    decide +kernel
  · -- the theorem leaves the order of the other faults open, so the text is that of the run
    have htext := congrArg Outcome.stderr hgoing
    rw [hgoing]
    refine congrArg (fun text => Outcome.mk 1 "" text none) (htext.symm.trans ?_)
    decide +kernel
  · exact ((@execute_agrees_with_assemble files ⟨"good.s", none, "0x10", format, false⟩ 16 good
      horigin hgood).1 _ hitems).1 rfl
  · refine congrArg String.toUTF8 ?_
    decide +kernel
  · refine congrArg String.toUTF8 ?_
    decide +kernel

end Tool.Assembler

end Asm32
