import Asm32.Proofs.Traces

/-!
# Layout does not matter

The number of a line and the way it is laid out travel with its instruction into items, records and
faults.  Nothing there finds its way back into the code: two programs that say the same, line by
line and apart from blank lines, get the same labels and the same words.

A blank line leaves no trace, so it can be struck out.  The lines that are left are read in lockstep
by two sessions which are parallel (`Session.Parallel`): they have the same registry, the same next
address, and every label has the same address in both.  Their tables differ in the lines that
declare the labels, their slots and records in whatever the lines brought with them.

**Layout** (`Session.sameCode_of_sameLines`).  Lines that correspond have the same answers, up to
what these quote of the source; every label has the same address; and the results correspond.
-/

namespace Asm32

/-- Two lines, as they are read, say the same: they declare the same label, they hold instructions
with the same mnemonic and the same operands, or both declare a label that cannot be read. -/
inductive Line.SaysSame : Except Fault Line → Except Fault Line → Prop
  | label (name : String) : SaysSame (.ok (.label name)) (.ok (.label name))
  | statement {st st' : Statement} (mnemonic_eq : st.mnemonic = st'.mnemonic)
      (operands_eq : st.operands = st'.operands) :
      SaysSame (.ok (.statement st)) (.ok (.statement st'))
  | malformedLabel (c c' : String) :
      SaysSame (.error (.malformedLabel c)) (.error (.malformedLabel c'))

/-- A numbered line holds nothing. -/
def Line.isBlank (l : Nat × String) : Bool :=
  match Line.read l.1 l.2 with
  | .ok .blank => true
  | _          => false

/-- The faults are the same, up to what they quote of the source: the text of a label that cannot be
read, and the line that declares a label first. -/
inductive Fault.SameKind : Fault → Fault → Prop
  | refl (f : Fault) : SameKind f f
  | malformedLabel (c c' : String) : SameKind (.malformedLabel c) (.malformedLabel c')
  | duplicateLabel (name : String) (l l' : Nat) :
      SameKind (.duplicateLabel name l) (.duplicateLabel name l')

/-- Both lines are accepted, or both are refused with faults of the same kind. -/
inductive SameAnswer : Except LineFault Unit → Except LineFault Unit → Prop
  | ok : SameAnswer (.ok ()) (.ok ())
  | error {e e' : LineFault} (fault : e.fault.SameKind e'.fault) : SameAnswer (.error e) (.error e')

/-- Both instructions have the same word at the same address, or both have the same fault. -/
inductive SameResult : Except LineFault Item → Except LineFault Item → Prop
  | ok {a a' : Item} (address_eq : a.address = a'.address) (opcode_eq : a.opcode = a'.opcode) :
      SameResult (.ok a) (.ok a')
  | error {e e' : LineFault} (fault_eq : e.fault = e'.fault) : SameResult (.error e) (.error e')

theorem onePass_sameResult {registry : Registry} {t t' : SymbolTable} {st st' : Statement}
    (ht : ∀ n, t.lookup n = t'.lookup n) (hm : st.mnemonic = st'.mnemonic)
    (ho : st.operands = st'.operands) (address : UInt32) :
    SameResult (onePass registry t st address) (onePass registry t' st' address) := by
  have hd : registry.dispatch t st.mnemonic st.operands =
      registry.dispatch t' st'.mnemonic st'.operands := by
    rw [hm, ho]
    exact Registry.dispatch_congr fun token _ _ => ht token
  rw [onePass, onePass, hd]
  cases registry.dispatch t' st'.mnemonic st'.operands with
  | error f => exact .error rfl
  | ok r =>
      cases r with
      | resolved op => exact .ok rfl rfl
      | unresolved l => exact .error rfl

theorem forall₂_mapIdx {α β γ δ : Type} {R : α → β → Prop} {S : γ → δ → Prop} {as : List α}
    {bs : List β} (h : List.Forall₂ R as bs) {f : Nat → α → γ} {g : Nat → β → δ}
    (hfg : ∀ i a b, R a b → S (f i a) (g i b)) : List.Forall₂ S (as.mapIdx f) (bs.mapIdx g) := by
  induction h generalizing f g with
  | nil => exact .nil
  | cons hab _ ih =>
      rw [List.mapIdx_cons, List.mapIdx_cons]
      exact .cons (hfg 0 _ _ hab) (ih fun i a b => hfg (i + 1) a b)

/-- Numbered lines say the same. -/
def SameLines (ls ls' : List (Nat × String)) : Prop :=
  List.Forall₂ (fun l l' => Line.SaysSame (Line.read l.1 l.2) (Line.read l'.1 l'.2)) ls ls'

/-- Lines that say the same hold the same instructions, one for one. -/
theorem Entry.statements_of_sameLines {ls ls' : List (Nat × String)} (h : SameLines ls ls') :
    List.Forall₂ (fun st st' => st.mnemonic = st'.mnemonic ∧ st.operands = st'.operands)
      (statements (ls.map .ofLine)) (statements (ls'.map .ofLine)) := by
  induction h with
  | nil => exact .nil
  | @cons l l' ls ls' hl _ ih =>
      rw [List.map_cons, List.map_cons, statements_cons, statements_cons, statement?, statement?,
        ofLine, ofLine]
      generalize Line.read l.1 l.2 = said at hl ⊢
      generalize Line.read l'.1 l'.2 = said' at hl ⊢
      cases hl with
      | label name => exact ih
      | malformedLabel c c' => exact ih
      | statement hm ho => exact .cons ⟨hm, ho⟩ ih

namespace Session

/-- The sessions have the same registry and the same next address, and they bind the same labels to
the same addresses. -/
structure Parallel (s s' : Session) : Prop where
  registry_eq : s.registry = s'.registry
  address_eq : s.address = s'.address
  lookup_eq : ∀ n, s.symbols.lookup n = s'.symbols.lookup n

variable {s s' : Session}

/-! ### One line -/

theorem Parallel.declareLabel (h : Parallel s s') (line line' : Nat) (name : String) :
    Parallel (s.declareLabel line name).1 (s'.declareLabel line' name).1 ∧
      SameAnswer (s.declareLabel line name).2 (s'.declareLabel line' name).2 := by
  -- the tables may name different lines for a label, but they bind the same labels
  have hbound : s.symbols.find? name = none ↔ s'.symbols.find? name = none := by
    have hname := h.lookup_eq name
    rw [SymbolTable.lookup, SymbolTable.lookup] at hname
    rw [← Option.map_eq_none_iff (f := Symbol.address), hname, Option.map_eq_none_iff]
  rcases s.declareLabel_cases line name with ⟨y, hy, hs⟩ | ⟨hnone, t, hd, -, hs⟩
  · rcases s'.declareLabel_cases line' name with ⟨y', -, hs'⟩ | ⟨hnone', -⟩
    · rw [hs, hs']
      exact ⟨h, .error (.duplicateLabel name y.line y'.line)⟩
    · rw [hbound.mpr hnone'] at hy
      cases hy
  · rcases s'.declareLabel_cases line' name with ⟨y', hy', -⟩ | ⟨-, t', hd', -, hs'⟩
    · rw [hbound.mp hnone] at hy'
      cases hy'
    · rw [hs, hs']
      refine ⟨⟨h.registry_eq, h.address_eq, fun n => ?_⟩, .ok⟩
      show t.lookup n = t'.lookup n
      rw [SymbolTable.lookup_declare hd, SymbolTable.lookup_declare hd', h.lookup_eq, h.address_eq]

theorem Parallel.addStatement (h : Parallel s s') {st st' : Statement}
    (hm : st.mnemonic = st'.mnemonic) (ho : st.operands = st'.operands) :
    Parallel (s.addStatement st).1 (s'.addStatement st').1 ∧
      SameAnswer (s.addStatement st).2 (s'.addStatement st').2 := by
  have hd : s.registry.dispatch s.symbols st.mnemonic st.operands =
      s'.registry.dispatch s'.symbols st'.mnemonic st'.operands := by
    rw [hm, ho, h.registry_eq]
    exact Registry.dispatch_congr fun token _ _ => h.lookup_eq token
  have ha := s.adds_addStatement st
  have ha' := s'.adds_addStatement st'
  refine ⟨⟨?_, ?_, fun n => ?_⟩, ?_⟩
  · rw [ha.registry_eq, ha'.registry_eq, h.registry_eq]
  · rw [ha.address_eq, ha'.address_eq, h.address_eq]
  · rw [ha.symbols_eq, ha'.symbols_eq, h.lookup_eq]
  · rw [ha.answer_eq, ha'.answer_eq, hd]
    cases s'.registry.dispatch s'.symbols st'.mnemonic st'.operands with
    | error f => exact .error (.refl f)
    | ok r => exact .ok

/-- **The step.**  Lines that say the same keep two sessions parallel, and have the same answer. -/
theorem Parallel.addLine (h : Parallel s s') {l l' : Nat × String}
    (hl : Line.SaysSame (Line.read l.1 l.2) (Line.read l'.1 l'.2)) :
    Parallel (s.addLine l.1 l.2).1 (s'.addLine l'.1 l'.2).1 ∧
      SameAnswer (s.addLine l.1 l.2).2 (s'.addLine l'.1 l'.2).2 := by
  rw [Session.addLine, Session.addLine]
  generalize Line.read l.1 l.2 = said at hl ⊢
  generalize Line.read l'.1 l'.2 = said' at hl ⊢
  cases hl with
  | label name => exact h.declareLabel l.1 l'.1 name
  | statement hm ho => exact h.addStatement hm ho
  | malformedLabel c c' => exact ⟨h, .error (.malformedLabel c c')⟩

/-! ### All lines -/

/-- **The run.**  Lines that say the same, one for one, keep two sessions parallel and have the same
answers. -/
theorem Parallel.lines (h : Parallel s s') {ls ls' : List (Nat × String)} (hls : SameLines ls ls') :
    List.Forall₂ (fun x x' => SameAnswer x.answer x'.answer)
        (s.steps (ls.map fun l => .line l.1 l.2)) (s'.steps (ls'.map fun l => .line l.1 l.2)) ∧
      Parallel (s.callAll (ls.map fun l => .line l.1 l.2)).1
        (s'.callAll (ls'.map fun l => .line l.1 l.2)).1 := by
  induction hls generalizing s s' with
  | nil => exact ⟨.nil, h⟩
  | cons hl _ ih =>
      obtain ⟨hparallel, hanswer⟩ := h.addLine hl
      obtain ⟨hsteps, hend⟩ := ih hparallel
      exact ⟨.cons hanswer hsteps, hend⟩

/-- A call tells a line that holds nothing. -/
def Call.isBlank : Call → Bool
  | .line number raw => Line.isBlank (number, raw)
  | _                => false

theorem Step.after_of_isBlank {x : Step} (h : x.call.isBlank = true) : x.after = x.before := by
  obtain ⟨s, c⟩ := x
  cases c with
  | line number raw =>
      rw [Call.isBlank, Line.isBlank] at h
      show (s.addLine number raw).1 = s
      rw [Session.addLine]
      split at h
      · rename_i hread
        rw [hread]
      · cases h
  | label line name => cases h
  | statement st => cases h
  | source text => cases h

/-- The lines that are not blank make the same steps without those that are. -/
theorem steps_lines_filter (s : Session) (ls : List (Nat × String)) :
    let told := (ls.filter fun l => !Line.isBlank l).map fun l => Call.line l.1 l.2
    ((s.steps (ls.map fun l => .line l.1 l.2)).filter fun x => !x.call.isBlank) = s.steps told ∧
    (s.callAll (ls.map fun l => .line l.1 l.2)).1 = (s.callAll told).1 := by
  intro told
  have hblank : ∀ x ∈ s.steps (ls.map fun l => .line l.1 l.2), (!x.call.isBlank) = false →
      x.after = x.before := fun x _ hx => Step.after_of_isBlank (by simpa using hx)
  obtain ⟨hsteps, hend⟩ := steps_filter hblank
  -- whether a step is blank is a matter of its call alone, so the calls can be filtered before
  have htold : ((s.steps (ls.map fun l => .line l.1 l.2)).filter fun x => !x.call.isBlank).map
      Step.call = told := by
    have hmap := List.filter_map (p := fun c => !Call.isBlank c) (f := Step.call)
      (l := s.steps (ls.map fun l => .line l.1 l.2))
    rw [map_call_steps, List.filter_map] at hmap
    exact hmap.symm
  rw [htold] at hsteps hend
  exact ⟨hsteps.symm, hend.symm⟩

/-- Lines that say the same have the same results, one for one. -/
theorem finish_of_sameLines (registry : Registry) (setting : Setting) {ls ls' : List (Nat × String)}
    (h : SameLines ls ls') :
    List.Forall₂ SameResult
      ((start registry setting).callAll (ls.map fun l => .line l.1 l.2)).1.finish
      ((start registry setting).callAll (ls'.map fun l => .line l.1 l.2)).1.finish := by
  have hstart : Parallel (start registry setting) (start registry setting) :=
    ⟨rfl, rfl, fun _ => rfl⟩
  have hend := (hstart.lines h).2
  rw [callAll_lines, callAll_lines] at hend ⊢
  rw [finish_takeAll, finish_takeAll]
  exact forall₂_mapIdx (Entry.statements_of_sameLines h) fun i st st' hst =>
    onePass_sameResult hend.lookup_eq hst.1 hst.2 (setting.addressOf i)

/-- **Layout.**  Two sessions are given lines with any numbers, and apart from the blank ones the
lines say the same, one for one: the same label, the same mnemonic with the same operands, or a
label that cannot be read.  Then the lines that correspond are both accepted or both refused, with
faults of the same kind; the same labels are bound to the same addresses at the end; and the
instructions that correspond have the same word at the same address, or the same fault. -/
theorem sameCode_of_sameLines (registry : Registry) (setting : Setting)
    {ls ls' : List (Nat × String)}
    (h : SameLines (ls.filter fun l => !Line.isBlank l) (ls'.filter fun l => !Line.isBlank l)) :
    let s := start registry setting
    let calls := ls.map fun l => Call.line l.1 l.2
    let calls' := ls'.map fun l => Call.line l.1 l.2
    List.Forall₂ (fun x x' => SameAnswer x.answer x'.answer)
      ((s.steps calls).filter fun x => !x.call.isBlank)
      ((s.steps calls').filter fun x => !x.call.isBlank) ∧
    (∀ name, (s.callAll calls).1.symbols.lookup name = (s.callAll calls').1.symbols.lookup name) ∧
    List.Forall₂ SameResult (s.callAll calls).1.finish (s.callAll calls').1.finish := by
  intro s calls calls'
  obtain ⟨hsteps, hend⟩ := steps_lines_filter s ls
  obtain ⟨hsteps', hend'⟩ := steps_lines_filter s ls'
  have hstart : Parallel s s := ⟨rfl, rfl, fun _ => rfl⟩
  obtain ⟨hanswers, hparallel⟩ := hstart.lines h
  rw [hsteps, hsteps', hend, hend']
  exact ⟨hanswers, hparallel.lookup_eq, finish_of_sameLines registry setting h⟩

/-- The lines differ in numbers, blanks, comments and separators; a label is declared a second time
and another cannot be read. -/
theorem sameCode_of_sameLines_commented :
    let ls := [(1, "ldi r0, @a"), (2, "@a:"), (3, "@a:"), (4, "@b")]
    let ls' := [(70, "; start"), (8, "  ldi r0 @a ; first"), (8, ""), (9, "@a: ; here"),
      (3, " @a:"), (3, "@ b:")]
    let s := start .standard ⟨0x100⟩
    let calls := ls.map fun l => Call.line l.1 l.2
    let calls' := ls'.map fun l => Call.line l.1 l.2
    SameLines (ls.filter fun l => !Line.isBlank l) (ls'.filter fun l => !Line.isBlank l) ∧
    (∀ name, (s.callAll calls).1.symbols.lookup name = (s.callAll calls').1.symbols.lookup name) ∧
    List.Forall₂ SameResult (s.callAll calls).1.finish (s.callAll calls').1.finish := by
  intro ls ls' s calls calls'
  have h : SameLines (ls.filter fun l => !Line.isBlank l) (ls'.filter fun l => !Line.isBlank l) :=
    .cons (.statement rfl rfl) (.cons (.label "@a") (.cons (.label "@a")
      (.cons (.malformedLabel "@b" "@ b:") .nil)))
  obtain ⟨-, hlookup, hfinish⟩ := sameCode_of_sameLines .standard ⟨0x100⟩ h
  exact ⟨h, hlookup, hfinish⟩

end Session

end Asm32
