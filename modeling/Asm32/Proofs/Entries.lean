import Asm32.Proofs.TwoPass

/-!
# The first pass, line by line

A call tells a session one line: its number and what the line says (`Entry`).  Only a whole source
tells it more than one.  `Session.take` is what a session does with an entry, and calls that tell
one line each are a run over their entries (`Session.callAll_eq_takeAll`).  A source ends at its
first fault, so which of its lines it tells depends on the session (`Session.callAll_fst`).

What a session holds after a run is a matter of the entries alone.  The instructions that it was fed
are those of the entries, whatever became of them, so the next address counts them
(`Session.address_takeAll`) and the second pass gives one result for each
(`Session.finish_takeAll`).
-/

namespace Asm32

/-- A line as the first pass takes it: its number, and what was read from it. -/
structure Entry where
  number : Nat
  said : Except Fault Line

namespace Entry

/-- The label that an entry declares. -/
def label? (e : Entry) : Option String :=
  match e.said with
  | .ok (.label name) => some name
  | _                 => none

/-- The instruction of an entry. -/
def statement? (e : Entry) : Option Statement :=
  match e.said with
  | .ok (.statement st) => some st
  | _                   => none

/-- The labels that entries declare, in order. -/
def labels (es : List Entry) : List String := es.filterMap label?

/-- The instructions of entries, in order. -/
def statements (es : List Entry) : List Statement := es.filterMap statement?

/-- The entry of a numbered line of source. -/
def ofLine (l : Nat × String) : Entry := ⟨l.1, Line.read l.1 l.2⟩

theorem label?_eq_some_iff {e : Entry} {name : String} :
    e.label? = some name ↔ e.said = .ok (.label name) := by
  rw [label?]
  split
  · rename_i n h
    rw [h, Option.some.injEq, Except.ok.injEq, Line.label.injEq]
  · rename_i h
    refine ⟨fun h' => ?_, fun h' => absurd h' (h name)⟩
    cases h'

theorem statement?_eq_some_iff {e : Entry} {st : Statement} :
    e.statement? = some st ↔ e.said = .ok (.statement st) := by
  rw [statement?]
  split
  · rename_i n h
    rw [h, Option.some.injEq, Except.ok.injEq, Line.statement.injEq]
  · rename_i h
    refine ⟨fun h' => ?_, fun h' => absurd h' (h st)⟩
    cases h'

@[simp] theorem labels_append (es es' : List Entry) :
    labels (es ++ es') = labels es ++ labels es' := List.filterMap_append

@[simp] theorem statements_append (es es' : List Entry) :
    statements (es ++ es') = statements es ++ statements es' := List.filterMap_append

theorem labels_cons (e : Entry) (es : List Entry) :
    labels (e :: es) = e.label?.toList ++ labels es := by
  cases h : e.label? <;> simp [labels, h]

theorem statements_cons (e : Entry) (es : List Entry) :
    statements (e :: es) = e.statement?.toList ++ statements es := by
  cases h : e.statement? <;> simp [statements, h]

/-- A list falls into what is before an entry, the entry, and what is after it. -/
theorem eq_take_append_drop {es : List Entry} {p : Nat} {e : Entry} (hp : es[p]? = some e) :
    es = es.take p ++ e :: es.drop (p + 1) := by
  obtain ⟨hlt, rfl⟩ := List.getElem?_eq_some_iff.mp hp
  conv_lhs => rw [← List.take_append_drop p es, List.drop_eq_getElem_cons hlt]

/-- An instruction has the place that the instructions before it leave to it. -/
theorem getElem?_statements {es : List Entry} {p : Nat} {e : Entry} {st : Statement}
    (hp : es[p]? = some e) (he : e.statement? = some st) :
    (statements es)[(statements (es.take p)).length]? = some st := by
  have hsplit : statements es = statements (es.take p) ++ st :: statements (es.drop (p + 1)) := by
    conv_lhs => rw [eq_take_append_drop hp, statements_append, statements_cons, he]
    rfl
  rw [hsplit, List.getElem?_append_right (Nat.le_refl _), Nat.sub_self]
  rfl

end Entry

namespace Session

/-- The entry that a call tells the session.  A source tells it one for each of its lines. -/
def Call.entry? : Call → Option Entry
  | .line number raw   => some (.ofLine (number, raw))
  | .label number name => some ⟨number, .ok (.label name)⟩
  | .statement st      => some ⟨st.line, .ok (.statement st)⟩
  | .source _          => none

/-- Takes an entry into the first pass. -/
def take (s : Session) (e : Entry) : Session × Except LineFault Unit :=
  match e.said with
  | .error f            => (s, .error ⟨e.number, f⟩)
  | .ok .blank          => (s, .ok ())
  | .ok (.label name)   => s.declareLabel e.number name
  | .ok (.statement st) => s.addStatement st

/-- Takes entries in order, each whatever became of the ones before. -/
def takeAll (s : Session) : List Entry → Session × List (Except LineFault Unit)
  | []      => (s, [])
  | e :: es =>
    let first := s.take e
    let rest := first.1.takeAll es
    (rest.1, first.2 :: rest.2)

/-! ### Calls are entries -/

theorem addLine_eq_take (s : Session) (l : Nat × String) :
    s.addLine l.1 l.2 = s.take (.ofLine l) := rfl

theorem call_eq_take {c : Call} {e : Entry} (h : c.entry? = some e) (s : Session) :
    s.call c = s.take e := by
  cases c with
  | line number raw => cases h; rfl
  | label line name => cases h; rfl
  | statement st => cases h; rfl
  | source text => cases h

/-- Calls that tell one entry each are a run over their entries. -/
theorem callAll_eq_takeAll {calls : List Call} (h : ∀ c ∈ calls, ∀ text, c ≠ .source text)
    (s : Session) : s.callAll calls = s.takeAll (calls.filterMap Call.entry?) := by
  induction calls generalizing s with
  | nil => rfl
  | cons c calls ih =>
      obtain ⟨hc, hcalls⟩ := List.forall_mem_cons.mp h
      obtain ⟨e, he⟩ : ∃ e, c.entry? = some e := by
        cases c with
        | line number raw => exact ⟨_, rfl⟩
        | label line name => exact ⟨_, rfl⟩
        | statement st => exact ⟨_, rfl⟩
        | source text => exact absurd rfl (hc text)
      simp only [callAll, List.filterMap_cons, he, takeAll, call_eq_take he, ih hcalls]

/-- Lines that are added one by one, each whatever became of the ones before. -/
theorem callAll_lines (s : Session) (ls : List (Nat × String)) :
    s.callAll (ls.map fun l => .line l.1 l.2) = s.takeAll (ls.map .ofLine) := by
  have hsingle : ∀ c ∈ ls.map fun l => Call.line l.1 l.2, ∀ text, c ≠ .source text := by
    intro c hc text
    obtain ⟨l, -, rfl⟩ := List.mem_map.mp hc
    exact Call.noConfusion
  rw [callAll_eq_takeAll hsingle, List.filterMap_map]
  exact congrArg s.takeAll (congrFun List.filterMap_eq_map ls)

/-! ### Runs -/

theorem takeAll_append (s : Session) (es es' : List Entry) :
    s.takeAll (es ++ es') =
      (((s.takeAll es).1.takeAll es').1, (s.takeAll es).2 ++ ((s.takeAll es).1.takeAll es').2) := by
  induction es generalizing s with
  | nil => rfl
  | cons e es ih => simp only [List.cons_append, takeAll, ih]

/-- The answer to an entry is that of the session that has taken the entries before it. -/
theorem getElem?_takeAll (s : Session) (es : List Entry) (p : Nat) :
    (s.takeAll es).2[p]? = es[p]?.map fun e => ((s.takeAll (es.take p)).1.take e).2 := by
  induction es generalizing s p with
  | nil => rfl
  | cons e es ih =>
      cases p with
      | zero => rfl
      | succ p => exact ih (s.take e).1 p

/-! ### Whole sources -/

/-- The entries of numbered lines, up to the first that is at fault. -/
def heard (s : Session) : List (Nat × String) → List Entry
  | []      => []
  | l :: ls =>
    .ofLine l ::
      match s.addLine l.1 l.2 with
      | (s', .ok ())  => s'.heard ls
      | (_, .error _) => []

/-- The entries that a call tells the session. -/
def told (s : Session) : Call → List Entry
  | .source text => s.heard (Text.numberedLines text)
  | c            => c.entry?.toList

/-- The entries that calls tell the session, in order. -/
def toldAll (s : Session) : List Call → List Entry
  | []      => []
  | c :: cs => s.told c ++ (s.call c).1.toldAll cs

theorem addLines_fst (s : Session) (ls : List (Nat × String)) :
    (s.addLines ls).1 = (s.takeAll (s.heard ls)).1 := by
  induction ls generalizing s with
  | nil => rfl
  | cons l ls ih =>
      rw [addLines, heard, takeAll, ← addLine_eq_take]
      rcases s.addLine l.1 l.2 with ⟨s', _ | _⟩
      · rfl
      · exact ih s'

theorem call_fst (s : Session) (c : Call) : (s.call c).1 = (s.takeAll (s.told c)).1 := by
  cases c with
  | line number raw => rfl
  | label line name => rfl
  | statement st => rfl
  | source text => exact s.addLines_fst (Text.numberedLines text)

/-- Calls leave the session that has taken the entries that they tell. -/
theorem callAll_fst (s : Session) (calls : List Call) :
    (s.callAll calls).1 = (s.takeAll (s.toldAll calls)).1 := by
  induction calls generalizing s with
  | nil => rfl
  | cons c calls ih => rw [callAll, toldAll, takeAll_append, ih, call_fst]

/-! ### What a run feeds to the session -/

variable {registry : Registry} {setting : Setting} {s : Session} {fed : List Feed}

theorem Tracks.take (h : Tracks registry setting s fed) (e : Entry) :
    Tracks registry setting (s.take e).1 (fed ++ e.statement?.toList.map s.feed) := by
  obtain ⟨number, said⟩ := e
  cases said with
  | error f => simpa [Entry.statement?, Session.take] using h
  | ok l =>
      cases l with
      | blank => simpa [Entry.statement?, Session.take] using h
      | label name => simpa [Entry.statement?, Session.take] using h.declareLabel number name
      | statement st => exact h.addStatement st

/-- A run feeds the instructions of its entries. -/
theorem Tracks.takeAll (h : Tracks registry setting s fed) (es : List Entry) :
    ∃ fed', Tracks registry setting (s.takeAll es).1 (fed ++ fed') ∧
      fed'.map Prod.fst = Entry.statements es := by
  induction es generalizing s fed with
  | nil => exact ⟨[], by rw [List.append_nil]; exact h, rfl⟩
  | cons e es ih =>
      obtain ⟨fed', hfed, hmap⟩ := ih (h.take e)
      refine ⟨e.statement?.toList.map s.feed ++ fed', by rw [← List.append_assoc]; exact hfed, ?_⟩
      rw [List.map_append, hmap, Entry.statements_cons, List.map_map]
      exact congrArg (· ++ _) (List.map_id _)

theorem tracks_takeAll (registry : Registry) (setting : Setting) (es : List Entry) :
    ∃ fed, Tracks registry setting ((start registry setting).takeAll es).1 fed ∧
      fed.map Prod.fst = Entry.statements es :=
  (tracks_start registry setting).takeAll es

/-- The next address counts the instructions of the entries. -/
theorem address_takeAll (registry : Registry) (setting : Setting) (es : List Entry) :
    ((start registry setting).takeAll es).1.address =
      setting.addressOf (Entry.statements es).length := by
  obtain ⟨fed, h, hmap⟩ := tracks_takeAll registry setting es
  rw [h.address_eq, ← hmap, List.length_map]

theorem registry_takeAll (registry : Registry) (setting : Setting) (es : List Entry) :
    ((start registry setting).takeAll es).1.registry = registry := by
  obtain ⟨fed, h, -⟩ := tracks_takeAll registry setting es
  exact h.registry_eq

/-- **The second pass.**  What becomes of the instructions of entries is what one pass makes of them
with the labels of all entries. -/
theorem finish_takeAll (registry : Registry) (setting : Setting) (es : List Entry) :
    let s := ((start registry setting).takeAll es).1
    s.finish = (Entry.statements es).mapIdx fun i st =>
      onePass registry s.symbols st (setting.addressOf i) := by
  intro s
  obtain ⟨fed, h, hmap⟩ := tracks_takeAll registry setting es
  rw [h.finish_eq, onePassAll, ← hmap]
  apply List.ext_getElem?
  intro i
  simp only [List.getElem?_mapIdx, List.getElem?_map, Option.map_map]
  rfl

end Session

end Asm32
