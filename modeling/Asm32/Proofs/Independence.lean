import Asm32.Proofs.Entries

/-!
# Instructions do not interfere with one another

Two programs are compared that have the same lines, except that where one has an instruction the
other may have another instruction: one that is encoded instead of one that waits or is at fault, or
the other way round.

The sessions that read them go in step.  They hold different slots and different records, but they
agree on everything that a line can ask for (`Session.Agrees`): the registry, the labels and the
next address.  An entry keeps this, and so does an instruction in place of another (`Agrees.take`),
because an instruction takes one word and declares no label.

**Independence** (`Session.agrees_of_interchangeable`).  The lines that the programs share have the
same answers and the same results, and the labels and the next address are the same at the end.
-/

namespace Asm32

/-- The lines have the same number, and they are the same or both hold an instruction. -/
def Interchangeable (l l' : Nat × String) : Prop :=
  l.1 = l'.1 ∧
    (l.2 = l'.2 ∨
      (∃ st, Line.read l.1 l.2 = .ok (.statement st)) ∧
        ∃ st, Line.read l'.1 l'.2 = .ok (.statement st))

/-- The entries are the same or both hold an instruction. -/
def Entry.Alike (e e' : Entry) : Prop :=
  e = e' ∨ (∃ st, e.statement? = some st) ∧ ∃ st, e'.statement? = some st

namespace Entry

theorem alike_of_interchangeable {l l' : Nat × String} (h : Interchangeable l l') :
    Alike (ofLine l) (ofLine l') := by
  obtain ⟨hnumber, htext | ⟨⟨st, hst⟩, st', hst'⟩⟩ := h
  · exact .inl (by rw [Prod.ext hnumber htext])
  · exact .inr ⟨⟨st, statement?_eq_some_iff.mpr hst⟩, st', statement?_eq_some_iff.mpr hst'⟩

/-- Alike entries hold as many instructions. -/
theorem length_statements_of_alike {es es' : List Entry} (h : List.Forall₂ Alike es es') :
    (statements es).length = (statements es').length := by
  induction h with
  | nil => rfl
  | cons he _ ih =>
      rw [statements_cons, statements_cons, List.length_append, List.length_append, ih]
      rcases he with rfl | ⟨⟨st, hst⟩, st', hst'⟩
      · rfl
      · rw [hst, hst']
        rfl

end Entry

namespace Session

/-- The sessions have the same registry, the same labels and the same next address. -/
structure Agrees (s s' : Session) : Prop where
  registry_eq : s.registry = s'.registry
  symbols_eq : s.symbols = s'.symbols
  address_eq : s.address = s'.address

variable {s s' : Session}

/-! ### One step -/

theorem Agrees.addStatement (h : Agrees s s') (st st' : Statement) :
    Agrees (s.addStatement st).1 (s'.addStatement st').1 := by
  have ha := s.adds_addStatement st
  have ha' := s'.adds_addStatement st'
  constructor
  · rw [ha.registry_eq, ha'.registry_eq, h.registry_eq]
  · rw [ha.symbols_eq, ha'.symbols_eq, h.symbols_eq]
  · rw [ha.address_eq, ha'.address_eq, h.address_eq]

theorem Agrees.declareLabel (h : Agrees s s') (line : Nat) (name : String) :
    Agrees (s.declareLabel line name).1 (s'.declareLabel line name).1 ∧
      (s.declareLabel line name).2 = (s'.declareLabel line name).2 := by
  rw [Session.declareLabel, Session.declareLabel, h.symbols_eq, h.address_eq]
  cases s'.symbols.declare name s'.address line with
  | error f => exact ⟨h, rfl⟩
  | ok t => exact ⟨⟨h.registry_eq, rfl, rfl⟩, rfl⟩

/-- Sessions that agree give the same answer to an instruction. -/
theorem Agrees.answer_addStatement (h : Agrees s s') (st : Statement) :
    (s.addStatement st).2 = (s'.addStatement st).2 := by
  rw [(s.adds_addStatement st).answer_eq, (s'.adds_addStatement st).answer_eq, h.registry_eq,
    h.symbols_eq]

/-- Sessions that agree take an entry in the same way. -/
theorem Agrees.take_same (h : Agrees s s') (e : Entry) :
    Agrees (s.take e).1 (s'.take e).1 ∧ (s.take e).2 = (s'.take e).2 := by
  obtain ⟨number, said⟩ := e
  cases said with
  | error f => exact ⟨h, rfl⟩
  | ok l =>
      cases l with
      | blank => exact ⟨h, rfl⟩
      | label name => exact h.declareLabel number name
      | statement st => exact ⟨h.addStatement st st, h.answer_addStatement st⟩

/-- **The step.**  Alike entries keep two sessions in agreement. -/
theorem Agrees.take (h : Agrees s s') {e e' : Entry} (he : e.Alike e') :
    Agrees (s.take e).1 (s'.take e').1 := by
  rcases he with rfl | ⟨⟨st, hst⟩, st', hst'⟩
  · exact (h.take_same e).1
  · rw [Session.take, Session.take, Entry.statement?_eq_some_iff.mp hst,
      Entry.statement?_eq_some_iff.mp hst']
    exact h.addStatement st st'

/-! ### The run -/

/-- **The run.**  Alike entries, one after the other, keep two sessions in agreement. -/
theorem Agrees.takeAll (h : Agrees s s') {es es' : List Entry}
    (hes : List.Forall₂ Entry.Alike es es') : Agrees (s.takeAll es).1 (s'.takeAll es').1 := by
  induction hes generalizing s s' with
  | nil => exact h
  | cons he _ ih => exact ih (h.take he)

/-- The entries that two runs share have the same answers. -/
theorem Agrees.getElem?_takeAll (h : Agrees s s') {es es' : List Entry}
    (hes : List.Forall₂ Entry.Alike es es') {p : Nat} {e : Entry} (hp : es[p]? = some e)
    (hp' : es'[p]? = some e) :
    ∃ a, (s.takeAll es).2[p]? = some a ∧ (s'.takeAll es').2[p]? = some a := by
  have hbefore := h.takeAll (List.forall₂_take p hes)
  rw [Session.getElem?_takeAll, Session.getElem?_takeAll, hp, hp', Option.map_some,
    Option.map_some, (hbefore.take_same e).2]
  exact ⟨_, rfl, rfl⟩

/-- The instructions that two runs share have the same results. -/
theorem getElem?_finish_of_alike (registry : Registry) (setting : Setting) {es es' : List Entry}
    (hes : List.Forall₂ Entry.Alike es es') {p : Nat} {e : Entry} {st : Statement}
    (hp : es[p]? = some e) (hp' : es'[p]? = some e) (he : e.statement? = some st) :
    ∃ r, ((start registry setting).takeAll es).1.finish[(Entry.statements (es.take p)).length]? =
        some r ∧
      ((start registry setting).takeAll es').1.finish[(Entry.statements (es'.take p)).length]? =
        some r := by
  have hstart : Agrees (start registry setting) (start registry setting) := ⟨rfl, rfl, rfl⟩
  have hend := hstart.takeAll hes
  have hlength := Entry.length_statements_of_alike (List.forall₂_take p hes)
  -- the second pass looks at the statement, the final labels and the place of the instruction
  rw [finish_takeAll, finish_takeAll, List.getElem?_mapIdx, List.getElem?_mapIdx,
    Entry.getElem?_statements hp he, Entry.getElem?_statements hp' he, hend.symbols_eq, hlength]
  exact ⟨_, rfl, rfl⟩

/-- **Independence.**  Two sessions are given lines of the same numbers, and at each place the lines
are the same or both hold an instruction.  Then the labels and the next addresses are the same at
the end; a line that the two share has the same answer in both; and if it holds an instruction, the
instruction has the same result in both. -/
theorem agrees_of_interchangeable (registry : Registry) (setting : Setting)
    {ls ls' : List (Nat × String)} (h : List.Forall₂ Interchangeable ls ls') :
    let run := (start registry setting).callAll (ls.map fun l => .line l.1 l.2)
    let run' := (start registry setting).callAll (ls'.map fun l => .line l.1 l.2)
    run.1.symbols = run'.1.symbols ∧ run.1.address = run'.1.address ∧
    ∀ p l, ls[p]? = some l → ls'[p]? = some l →
      (∃ a, run.2[p]? = some a ∧ run'.2[p]? = some a) ∧
      ∀ st, Line.read l.1 l.2 = .ok (.statement st) →
        ∃ r, run.1.finish[(Entry.statements ((ls.take p).map .ofLine)).length]? = some r ∧
          run'.1.finish[(Entry.statements ((ls'.take p).map .ofLine)).length]? = some r := by
  intro run run'
  have hrun : run = (start registry setting).takeAll (ls.map .ofLine) := callAll_lines _ ls
  have hrun' : run' = (start registry setting).takeAll (ls'.map .ofLine) := callAll_lines _ ls'
  have hes : List.Forall₂ Entry.Alike (ls.map .ofLine) (ls'.map .ofLine) := by
    rw [List.forall₂_map_left_iff, List.forall₂_map_right_iff]
    exact h.imp fun _ _ => Entry.alike_of_interchangeable
  have hstart : Agrees (start registry setting) (start registry setting) := ⟨rfl, rfl, rfl⟩
  have hend := hstart.takeAll hes
  rw [hrun, hrun']
  refine ⟨hend.symbols_eq, hend.address_eq, fun p l hp hp' => ?_⟩
  have hmap : ∀ {ks : List (Nat × String)}, ks[p]? = some l →
      (ks.map Entry.ofLine)[p]? = some (.ofLine l) := by
    intro ks hks
    rw [List.getElem?_map, hks, Option.map_some]
  refine ⟨hstart.getElem?_takeAll hes (hmap hp) (hmap hp'), fun st hst => ?_⟩
  rw [List.map_take, List.map_take]
  exact getElem?_finish_of_alike registry setting hes (hmap hp) (hmap hp')
    (Entry.statement?_eq_some_iff.mpr hst)

/-- An instruction at fault is replaced by one that waits.  The next instruction waits in both
programs, with another number among the records, and has the same result. -/
theorem agrees_of_interchangeable_corrected :
    let ls := [(1, "bogus r0"), (2, "ldi r0, @end"), (3, "@end:")]
    let ls' := [(1, "ldi r9, @end"), (2, "ldi r0, @end"), (3, "@end:")]
    let run := (start .standard ⟨0x100⟩).callAll (ls.map fun l => .line l.1 l.2)
    let run' := (start .standard ⟨0x100⟩).callAll (ls'.map fun l => .line l.1 l.2)
    List.Forall₂ Interchangeable ls ls' ∧ run.1.symbols = run'.1.symbols ∧
    run.1.address = run'.1.address ∧
    ∃ r, run.1.finish[1]? = some r ∧ run'.1.finish[1]? = some r := by
  intro ls ls' run run'
  have h : List.Forall₂ Interchangeable ls ls' :=
    .cons ⟨rfl, .inr ⟨⟨_, rfl⟩, _, rfl⟩⟩ (.cons ⟨rfl, .inl rfl⟩ (.cons ⟨rfl, .inl rfl⟩ .nil))
  obtain ⟨hsymbols, haddress, hlines⟩ := agrees_of_interchangeable .standard ⟨0x100⟩ h
  obtain ⟨-, hresult⟩ := hlines 1 (2, "ldi r0, @end") rfl rfl
  exact ⟨h, hsymbols, haddress, hresult _ rfl⟩

end Session

end Asm32
