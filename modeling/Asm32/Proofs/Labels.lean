import Asm32.Proofs.Entries

/-!
# Which address a label is bound to

A label is bound where it is declared first, to the address of the next instruction, and nothing
that follows changes that.  `Entry.declaration?` looks the first declaration up in the entries that
a session is told, and the table of the session agrees with it (`Session.find?_takeAll`): a step
adds the label of its entry unless the table has it, and an instruction takes one word whether it is
encoded, waits or is at fault.

**Addresses and labels** (`Session.addresses_callAll`).  After any calls, the next address, the
address of every label, the answer to every declaration and the number of labels are read off the
calls.
-/

namespace Asm32

theorem SymbolTable.find?_isSome_iff {t : SymbolTable} {name : String} :
    (t.find? name).isSome ↔ name ∈ t.symbols.map Symbol.name := by
  simp [find?]

/-- The first declaration of a name in entries that have `k` instructions before them. -/
def Entry.declaration? (setting : Setting) (name : String) : Nat → List Entry → Option Symbol
  | _, []      => none
  | k, e :: es =>
    if e.label? = some name then some ⟨name, setting.addressOf k, e.number⟩
    else declaration? setting name (k + e.statement?.toList.length) es

namespace Entry

variable {setting : Setting} {name : String}

theorem declaration?_append (k : Nat) (es es' : List Entry) :
    declaration? setting name k (es ++ es') =
      (declaration? setting name k es).or
        (declaration? setting name (k + (statements es).length) es') := by
  induction es generalizing k with
  | nil => rfl
  | cons e es ih =>
      rw [List.cons_append, declaration?, declaration?]
      by_cases h : e.label? = some name
      · rw [if_pos h, if_pos h, Option.some_or]
      · rw [if_neg h, if_neg h, ih, statements_cons, List.length_append, Nat.add_assoc]

theorem declaration?_eq_none_iff {k : Nat} {es : List Entry} :
    declaration? setting name k es = none ↔ name ∉ labels es := by
  induction es generalizing k with
  | nil => simp [declaration?, labels]
  | cons e es ih =>
      rw [declaration?, labels_cons, List.mem_append, Option.mem_toList]
      by_cases h : e.label? = some name
      · simp [h]
      · simp [h, ih]

/-- A declaration without an earlier one of its name is the first. -/
theorem declaration?_of_first {es : List Entry} {p : Nat} {e : Entry} (hp : es[p]? = some e)
    (he : e.label? = some name) (hfirst : name ∉ labels (es.take p)) (k : Nat) :
    declaration? setting name k es =
      some ⟨name, setting.addressOf (k + (statements (es.take p)).length), e.number⟩ := by
  conv_lhs => rw [eq_take_append_drop hp]
  rw [declaration?_append, declaration?_eq_none_iff.mpr hfirst, Option.none_or, declaration?,
    if_pos he]

end Entry

namespace Session

variable {registry : Registry} {setting : Setting} {s : Session} {fed : List Feed}

/-! ### What a step binds -/

theorem find?_declareLabel (s : Session) (line : Nat) (name n : String) :
    (s.declareLabel line name).1.symbols.find? n =
      (s.symbols.find? n).or (if name = n then some ⟨name, s.address, line⟩ else none) := by
  rcases s.declareLabel_cases line name with ⟨y, hy, hs⟩ | ⟨hnone, t, -, ht, hs⟩
  · rw [hs]
    by_cases hn : name = n
    · rw [← hn, hy, Option.some_or]
    · rw [if_neg hn, Option.or_none]
  · rw [hs]
    show t.find? n = _
    rw [SymbolTable.find?, ht]
    by_cases hn : name = n
    · subst hn
      rw [hnone, if_pos rfl, Option.none_or]
      exact List.find?_cons_of_pos (beq_self_eq_true name)
    · rw [if_neg hn, Option.or_none]
      exact List.find?_cons_of_neg (by simpa using hn)

/-- **The step.**  An entry adds the label that it declares, unless it is bound already. -/
theorem find?_take (s : Session) (e : Entry) (name : String) :
    (s.take e).1.symbols.find? name =
      (s.symbols.find? name).or
        (if e.label? = some name then some ⟨name, s.address, e.number⟩ else none) := by
  obtain ⟨number, said⟩ := e
  cases said with
  | error f => simp [take, Entry.label?]
  | ok l =>
      cases l with
      | blank => simp [take, Entry.label?]
      | statement st => simp [take, Entry.label?, (s.adds_addStatement st).symbols_eq]
      | label n =>
          simp only [take, Entry.label?, find?_declareLabel, Option.some.injEq]
          by_cases hn : n = name <;> simp [hn]

/-- The answer to a declaration. -/
theorem take_of_label? {e : Entry} {name : String} (h : e.label? = some name) (s : Session) :
    (s.take e).2 =
      match s.symbols.find? name with
      | some y => .error ⟨e.number, .duplicateLabel name y.line⟩
      | none   => .ok () := by
  rw [take, Entry.label?_eq_some_iff.mp h]
  rcases s.declareLabel_cases e.number name with ⟨y, hy, hs⟩ | ⟨hnone, t, -, -, hs⟩
  · simp only [hs, hy]
  · simp only [hs, hnone]

/-! ### What a run binds -/

/-- **The run.**  The table holds what it held, and for every other name the first declaration among
the entries. -/
theorem Tracks.find?_takeAll (h : Tracks registry setting s fed) (es : List Entry) (name : String) :
    (s.takeAll es).1.symbols.find? name =
      (s.symbols.find? name).or (Entry.declaration? setting name fed.length es) := by
  induction es generalizing s fed with
  | nil => rw [Session.takeAll, Entry.declaration?, Option.or_none]
  | cons e es ih =>
      rw [Session.takeAll, ih (h.take e), find?_take, List.length_append, List.length_map,
        Entry.declaration?, ← h.address_eq, Option.or_assoc]
      by_cases he : e.label? = some name
      · rw [if_pos he, if_pos he, Option.some_or]
      · rw [if_neg he, if_neg he, Option.none_or]

/-- The table of a session holds the first declarations of the entries that it was told. -/
theorem find?_takeAll (registry : Registry) (setting : Setting) (es : List Entry) (name : String) :
    ((start registry setting).takeAll es).1.symbols.find? name =
      Entry.declaration? setting name 0 es :=
  (tracks_start registry setting).find?_takeAll es name

/-- The labels of the table are the labels that were declared, each once. -/
theorem size_takeAll (registry : Registry) (setting : Setting) (es : List Entry) :
    ((start registry setting).takeAll es).1.symbols.size = (Entry.labels es).toFinset.card := by
  have hmem : ∀ name, name ∈ ((start registry setting).takeAll es).1.symbols.symbols.map
      Symbol.name ↔ name ∈ Entry.labels es := by
    intro name
    rw [← SymbolTable.find?_isSome_iff, find?_takeAll, Option.isSome_iff_ne_none, ne_eq,
      Entry.declaration?_eq_none_iff, not_not]
  have hset := List.toFinset.ext hmem
  rw [← hset, List.toFinset_card_of_nodup (SymbolTable.nodup _), List.length_map]
  rfl

/-- The answer to a declaration depends on whether its name was declared before. -/
theorem getElem?_takeAll_of_label? {es : List Entry} {q : Nat} {d : Entry} {name : String}
    (hq : es[q]? = some d) (hd : d.label? = some name) :
    ((start registry setting).takeAll es).2[q]? =
      some (match Entry.declaration? setting name 0 (es.take q) with
        | some y => .error ⟨d.number, .duplicateLabel name y.line⟩
        | none   => .ok ()) := by
  rw [getElem?_takeAll, hq, Option.map_some, take_of_label? hd, find?_takeAll]

/-- **Addresses and labels.**  A session is given calls, none of them a whole source, which tell it
the entries `es`.  Then the next address counts the instructions of the entries, whatever became of
them; a name that was not declared is not bound, and any other is bound to the address that was the
next one when it was declared first; that declaration is accepted, and every later one is refused
with the line of the first; and the table has as many labels as there are different names. -/
theorem addresses_callAll (registry : Registry) (setting : Setting) {calls : List Call}
    (h : ∀ c ∈ calls, ∀ text, c ≠ .source text) :
    let es := calls.filterMap Call.entry?
    let run := (start registry setting).callAll calls
    run.1.address = setting.origin + UInt32.ofNat (4 * (Entry.statements es).length) ∧
    (∀ name, name ∉ Entry.labels es → run.1.symbols.lookup name = none) ∧
    (∀ p e name, es[p]? = some e → e.label? = some name → name ∉ Entry.labels (es.take p) →
      run.1.symbols.lookup name =
        some (setting.origin + UInt32.ofNat (4 * (Entry.statements (es.take p)).length)) ∧
      run.2[p]? = some (.ok ()) ∧
      ∀ q d, p < q → es[q]? = some d → d.label? = some name →
        run.2[q]? = some (.error ⟨d.number, .duplicateLabel name e.number⟩)) ∧
    run.1.symbols.size = (Entry.labels es).toFinset.card := by
  intro es run
  have hrun : run = (start registry setting).takeAll es := callAll_eq_takeAll h _
  rw [hrun]
  refine ⟨address_takeAll registry setting es, fun name hname => ?_,
    fun p e name hp he hfirst => ⟨?_, ?_, fun q d hq hd hdl => ?_⟩,
    size_takeAll registry setting es⟩
  · rw [SymbolTable.lookup, find?_takeAll, Entry.declaration?_eq_none_iff.mpr hname]
    rfl
  · rw [SymbolTable.lookup, find?_takeAll, Entry.declaration?_of_first hp he hfirst, Nat.zero_add]
    rfl
  · rw [getElem?_takeAll_of_label? hp he, Entry.declaration?_eq_none_iff.mpr hfirst]
  · -- the first declaration is also the first among the entries before the later one
    have hp' : (es.take q)[p]? = some e := by rw [List.getElem?_take_of_lt hq, hp]
    have hfirst' : name ∉ Entry.labels ((es.take q).take p) := by
      rw [List.take_take, Nat.min_eq_left (Nat.le_of_lt hq)]
      exact hfirst
    rw [getElem?_takeAll_of_label? hd hdl, Entry.declaration?_of_first hp' he hfirst']

/-- An instruction at fault and one that waits take a word each, so the addresses wrap around; a
label is declared by a line and by a call, and a line that declares none leaves no trace. -/
theorem addresses_callAll_wrapping :
    let calls : List Call := [.line 1 "bogus r0", .label 2 "x",
      .statement ⟨3, "ldi", ["r0", "@y"], ""⟩, .label 4 "x", .line 5 "@y:", .line 6 "@y"]
    let run := (start .standard ⟨0xFFFFFFFC⟩).callAll calls
    run.1.address = 4 ∧ run.1.symbols.lookup "x" = some 0 ∧ run.1.symbols.lookup "@y" = some 4 ∧
    run.2[3]? = some (.error ⟨4, .duplicateLabel "x" 2⟩) ∧ run.1.symbols.size = 2 := by
  intro calls run
  have h : ∀ c ∈ calls, ∀ text, c ≠ .source text := by simp [calls]
  obtain ⟨haddress, -, hfirst, hsize⟩ := addresses_callAll .standard ⟨0xFFFFFFFC⟩ h
  obtain ⟨hx, -, hlater⟩ := hfirst 1 ⟨2, .ok (.label "x")⟩ "x" rfl rfl (by decide)
  obtain ⟨hy, -, -⟩ := hfirst 4 ⟨5, .ok (.label "@y")⟩ "@y" rfl rfl (by decide)
  exact ⟨haddress.trans (by decide), hx.trans (by decide), hy.trans (by decide),
    hlater 3 ⟨4, .ok (.label "x")⟩ (by decide) rfl rfl, hsize⟩

end Session

end Asm32
