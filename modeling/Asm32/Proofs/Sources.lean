import Asm32.Assembly
import Asm32.Proofs.Labels

/-!
# When a source is assembled

A source stops at its first fault, and the two passes meet their faults in different orders.
Whether there is a fault at all is a matter of the entries of the source (`Entry.Gives`): every line
can be read, no label is declared twice, and one pass with the labels of the whole source makes an
item of every instruction.  An instruction that the first pass refuses is refused by that pass as
well, since later declarations do not help it.

**Whole sources** (`assemble_eq_ok_iff`).  A source is assembled to items exactly when its entries
give them.
-/

namespace Asm32

/-! ### Results without a fault -/

theorem collect_eq_ok_iff {rs : List (Except LineFault Item)} {items : List Item} :
    collect rs = .ok items ↔ rs = items.map .ok := by
  induction rs generalizing items with
  | nil => cases items <;> simp [collect]
  | cons r rs ih =>
      cases r with
      | error e => cases items <;> simp [collect]
      | ok a =>
          refine ⟨fun h => ?_, fun h => ?_⟩
          · rw [collect] at h
            cases hc : collect rs with
            | error e =>
                rw [hc] at h
                cases h
            | ok rest =>
                rw [hc] at h
                obtain rfl := Except.ok.inj h
                rw [ih.mp hc]
                rfl
          · cases items with
            | nil => cases h
            | cons b items =>
                obtain ⟨hb, hrs⟩ := List.cons.inj h
                obtain rfl := Except.ok.inj hb
                rw [collect, ih.mpr hrs]
                rfl

theorem onePass_eq_ok_iff {registry : Registry} {symbols : SymbolTable} {st : Statement}
    {address : UInt32} {a : Item} :
    onePass registry symbols st address = .ok a ↔
      ∃ op, registry.dispatch symbols st.mnemonic st.operands = .ok (.resolved op) ∧
        a = st.item address op := by
  rw [onePass]
  refine ⟨fun h => ?_, ?_⟩
  · split at h
    · rename_i op hd
      exact ⟨op, hd, (Except.ok.inj h).symm⟩
    · cases h
    · cases h
  · rintro ⟨op, hd, rfl⟩
    rw [hd]

theorem onePass_eq_error_iff {registry : Registry} {symbols : SymbolTable} {st : Statement}
    {address : UInt32} {e : LineFault} :
    onePass registry symbols st address = .error e ↔
      (∃ l, registry.dispatch symbols st.mnemonic st.operands = .ok (.unresolved l) ∧
        e = ⟨st.line, .undefinedLabel l⟩) ∨
      ∃ f, registry.dispatch symbols st.mnemonic st.operands = .error f ∧ e = ⟨st.line, f⟩ := by
  rw [onePass]
  rcases registry.dispatch symbols st.mnemonic st.operands with f | op | l
  · simp [eq_comm]
  · simp
  · simp [eq_comm]

namespace Session

/-! ### Answers without a fault -/

/-- An entry is accepted when it can be read, its label is new, and its instruction is not at fault
with the labels so far. -/
theorem take_eq_ok_iff {s : Session} {e : Entry} :
    (s.take e).2 = .ok () ↔
      (∃ l, e.said = .ok l) ∧
      (∀ name, e.label? = some name → s.symbols.find? name = none) ∧
      ∀ st, e.statement? = some st → ∀ f,
        s.registry.dispatch s.symbols st.mnemonic st.operands ≠ .error f := by
  obtain ⟨number, said⟩ := e
  cases said with
  | error f => simp [take]
  | ok l =>
      cases l with
      | blank => simp [take, Entry.label?, Entry.statement?]
      | label name =>
          rw [take_of_label? rfl]
          cases h : s.symbols.find? name <;> simp [Entry.label?, Entry.statement?, h]
      | statement st =>
          show (s.addStatement st).2 = .ok () ↔ _
          simp [addStatement_eq_ok_iff, Entry.label?, Entry.statement?]

/-- Lines are read to the end when every one of them is accepted. -/
theorem addLines_eq_ok_iff {s : Session} {ls : List (Nat × String)} :
    (s.addLines ls).2 = .ok () ↔ ∀ a ∈ (s.takeAll (ls.map .ofLine)).2, a = .ok () := by
  induction ls generalizing s with
  | nil => simp [addLines, takeAll]
  | cons l ls ih =>
      rw [addLines, List.map_cons, takeAll, List.forall_mem_cons, ← addLine_eq_take]
      rcases s.addLine l.1 l.2 with ⟨s', _ | _⟩
      · simp
      · simpa using ih

theorem addLines_of_ok {s : Session} {ls : List (Nat × String)} (h : (s.addLines ls).2 = .ok ()) :
    (s.addLines ls).1 = (s.takeAll (ls.map .ofLine)).1 := by
  induction ls generalizing s with
  | nil => rfl
  | cons l ls ih =>
      rw [addLines] at h ⊢
      rw [List.map_cons, takeAll, ← addLine_eq_take]
      rcases hadd : s.addLine l.1 l.2 with ⟨s', _ | _⟩
      · rw [hadd] at h
        cases h
      · rw [hadd] at h
        exact ih h

/-- A run keeps what the table binds. -/
theorem le_takeAll (s : Session) (es : List Entry) : s.symbols.Le (s.takeAll es).1.symbols := by
  induction es generalizing s with
  | nil => exact fun n a h => h
  | cons e es ih =>
      intro n a h
      refine ih (s.take e).1 n a ?_
      obtain ⟨y, hy, rfl⟩ := Option.map_eq_some_iff.mp h
      rw [SymbolTable.lookup, find?_take, hy]
      rfl

end Session

namespace Entry
open Session

/-- The labels of entries. -/
def table (setting : Setting) (es : List Entry) : SymbolTable :=
  ((start .standard setting).takeAll es).1.symbols

theorem lookup_table (setting : Setting) (es : List Entry) (name : String) :
    (table setting es).lookup name = (declaration? setting name 0 es).map Symbol.address := by
  rw [SymbolTable.lookup, table, find?_takeAll]

/-- An instruction that the first pass refuses is refused with the labels of all entries. -/
theorem dispatch_table_of_error {setting : Setting} {es : List Entry} {p : Nat} {m : String}
    {tokens : List String} {f : Fault}
    (h : Registry.standard.dispatch (table setting (es.take p)) m tokens = .error f) :
    Registry.standard.dispatch (table setting es) m tokens = .error f := by
  have hle := le_takeAll ((start .standard setting).takeAll (es.take p)).1 (es.drop p)
  rw [← congrArg Prod.fst (takeAll_append _ _ _), List.take_append_drop] at hle
  rw [← h]
  exact Registry.dispatch_of_le hle (by rw [← table, h]; exact settled_error f)

/-- Without a label that is declared twice, every declaration is the first of its name. -/
theorem nodup_labels_iff {es : List Entry} :
    (labels es).Nodup ↔
      ∀ p e name, es[p]? = some e → e.label? = some name → name ∉ labels (es.take p) := by
  refine ⟨fun h p e name hp he => ?_, fun h => ?_⟩
  · rw [eq_take_append_drop hp, labels_append, labels_cons, he] at h
    exact fun hmem => List.disjoint_of_nodup_append h hmem List.mem_cons_self
  · induction es using List.reverseRecOn with
    | nil => exact List.nodup_nil
    | append_singleton es e ih =>
        have hes : (labels es).Nodup := ih fun p d name hp hd => by
          have hlt := (List.getElem?_eq_some_iff.mp hp).1
          have hnew := h p d name (by rw [List.getElem?_append_left hlt, hp]) hd
          rwa [List.take_append_of_le_length (Nat.le_of_lt hlt)] at hnew
        rw [labels_append, labels_cons]
        cases he : e.label? with
        | none => simpa [labels] using hes
        | some name =>
            have hnew := h es.length e name List.getElem?_concat_length he
            rw [List.take_left] at hnew
            exact List.nodup_append'.mpr
              ⟨hes, List.nodup_singleton name, List.disjoint_singleton.mpr hnew⟩

/-- The entries of a source. -/
def ofSource (source : String) : List Entry := (Text.numberedLines source).map .ofLine

/-- The entries have no fault, and their instructions give the items. -/
structure Gives (setting : Setting) (es : List Entry) (items : List Item) : Prop where
  readable : ∀ e ∈ es, ∃ l, e.said = .ok l
  nodup : (labels es).Nodup
  results : (statements es).mapIdx (fun i st =>
    onePass .standard (table setting es) st (setting.addressOf i)) = items.map .ok

variable {setting : Setting} {es : List Entry} {items : List Item}

/-- Entries that give items are accepted, each with the labels before it: what is at fault then is
at fault with all labels. -/
theorem Gives.answers (h : Gives setting es items) :
    ∀ a ∈ ((start .standard setting).takeAll es).2, a = .ok () := by
  intro a ha
  obtain ⟨p, hp⟩ := List.mem_iff_getElem?.mp ha
  rw [getElem?_takeAll, Option.map_eq_some_iff] at hp
  obtain ⟨e, hp, rfl⟩ := hp
  refine take_eq_ok_iff.mpr ⟨h.readable e (List.mem_of_getElem? hp), fun name he => ?_,
    fun st hst f hd => ?_⟩
  · rw [find?_takeAll, declaration?_eq_none_iff]
    exact nodup_labels_iff.mp h.nodup p e name hp he
  · rw [registry_takeAll] at hd
    have hd' := dispatch_table_of_error hd
    have hresult := congrArg (·[(statements (es.take p)).length]?) h.results
    simp only [List.getElem?_mapIdx, getElem?_statements hp hst, Option.map_some,
      List.getElem?_map, onePass, hd'] at hresult
    obtain ⟨x, -, hx⟩ := Option.map_eq_some_iff.mp hresult.symm
    cases hx

theorem gives_of_answers (h : ∀ a ∈ ((start .standard setting).takeAll es).2, a = .ok ())
    (hresults : ((start .standard setting).takeAll es).1.finish = items.map .ok) :
    Gives setting es items := by
  have htake : ∀ p e, es[p]? = some e →
      (((start .standard setting).takeAll (es.take p)).1.take e).2 = .ok () := by
    intro p e hp
    refine h _ (List.mem_of_getElem? (i := p) ?_)
    rw [getElem?_takeAll, hp, Option.map_some]
  refine ⟨fun e he => ?_, nodup_labels_iff.mpr fun p e name hp he => ?_, ?_⟩
  · obtain ⟨p, hp⟩ := List.mem_iff_getElem?.mp he
    exact (take_eq_ok_iff.mp (htake p e hp)).1
  · have hnone := (take_eq_ok_iff.mp (htake p e hp)).2.1 name he
    rwa [find?_takeAll, declaration?_eq_none_iff] at hnone
  · rw [← hresults, finish_takeAll]
    rfl

/-- The item with the number `k` is made of the instruction with that number, at its address. -/
theorem Gives.getElem? (h : Gives setting es items) {k : Nat} {a : Item}
    (hk : items[k]? = some a) :
    ∃ st op, (statements es)[k]? = some st ∧
      Registry.standard.dispatch (table setting es) st.mnemonic st.operands = .ok (.resolved op) ∧
      a = st.item (setting.addressOf k) op := by
  have hresult := congrArg (·[k]?) h.results
  simp only [List.getElem?_mapIdx, List.getElem?_map, hk, Option.map_some] at hresult
  obtain ⟨st, hst, hpass⟩ := Option.map_eq_some_iff.mp hresult
  obtain ⟨op, hd, ha⟩ := onePass_eq_ok_iff.mp hpass
  exact ⟨st, op, hst, hd, ha⟩

theorem Gives.length_eq (h : Gives setting es items) : items.length = (statements es).length := by
  have hlength := congrArg List.length h.results
  rwa [List.length_mapIdx, List.length_map, eq_comm] at hlength

end Entry

open Session Entry

/-- **Whole sources.**  A source is assembled exactly when its entries give items, and then to these
items. -/
theorem assemble_eq_ok_iff {source : String} {setting : Setting} {items : List Item} :
    assemble source setting = .ok items ↔ Gives setting (ofSource source) items := by
  rw [assemble, Assembly.ofSource]
  rcases hadd : (start .standard setting).addSource source with ⟨s, e | _⟩
  · refine ⟨fun h => ?_, fun h => ?_⟩
    · cases h
    · have hok := addLines_eq_ok_iff.mpr h.answers
      rw [← addSource, hadd] at hok
      cases hok
  · have hok : ((start .standard setting).addSource source).2 = .ok () := by rw [hadd]
    have hs : s = ((start .standard setting).takeAll (ofSource source)).1 := by
      have hlines := addLines_of_ok hok
      rwa [← addSource, hadd] at hlines
    show collect s.finish = .ok items ↔ _
    rw [collect_eq_ok_iff, hs]
    refine ⟨fun h => gives_of_answers (addLines_eq_ok_iff.mp hok) h, fun h => ?_⟩
    rw [← h.results, finish_takeAll]
    rfl

end Asm32
