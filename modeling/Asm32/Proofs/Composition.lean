import Asm32.Proofs.Sources
import Asm32.Proofs.SourceText

/-!
# Assembling one source after another

Two sources that can be assembled, the second from where the first ends, can be assembled as one.
Neither sees the labels of the other when it is assembled alone, and the whole has the labels of
both; but an instruction that has a word keeps it when labels are added, and a label is bound to the
same address in the part and in the whole.

The lines of the second source have higher numbers in the whole, which changes nothing but the
numbers in its items (`Entry.Gives.moved`).

**Composition** (`assemble_append`).  The items of the whole are the items of the parts.
-/

namespace Asm32

/-! ### Lines with higher numbers -/

/-- The statement `n` lines further down. -/
def Statement.moved (n : Nat) (st : Statement) : Statement := { st with line := st.line + n }

def Line.moved (n : Nat) : Line → Line
  | .blank        => .blank
  | .label name   => .label name
  | .statement st => .statement (st.moved n)

/-- The entry `n` lines further down. -/
def Entry.moved (n : Nat) (e : Entry) : Entry := ⟨e.number + n, e.said.map (Line.moved n)⟩

/-- The item of a line `n` lines further down. -/
def Item.moved (n : Nat) (a : Item) : Item := { a with line := a.line + n }

theorem Line.read_add (number n : Nat) (raw : String) :
    Line.read (number + n) raw = (Line.read number raw).map (Line.moved n) := by
  rw [Line.read, Line.read]
  cases Line.code raw.toList with
  | nil => rfl
  | cons c cs =>
      by_cases hc : c = labelSigil
      · simp only [if_pos hc]
        cases Line.labelName? (c :: cs) <;> rfl
      · simp only [if_neg hc]
        rfl

theorem onePass_moved {registry : Registry} {symbols : SymbolTable} {st : Statement}
    {address : UInt32} {a : Item} (n : Nat) (h : onePass registry symbols st address = .ok a) :
    onePass registry symbols (st.moved n) address = .ok (a.moved n) := by
  obtain ⟨op, hd, rfl⟩ := onePass_eq_ok_iff.mp h
  exact onePass_eq_ok_iff.mpr ⟨op, hd, rfl⟩

/-! ### More labels -/

theorem onePass_of_le {registry : Registry} {t t' : SymbolTable} (hle : t.Le t') {st : Statement}
    {address : UInt32} {a : Item} (h : onePass registry t st address = .ok a) :
    onePass registry t' st address = .ok a := by
  obtain ⟨op, hd, rfl⟩ := onePass_eq_ok_iff.mp h
  have hd' := Registry.dispatch_of_le hle (by rw [hd]; exact settled_resolved op)
  exact onePass_eq_ok_iff.mpr ⟨op, hd'.trans hd, rfl⟩

/-- Results that have no fault follow those that one pass makes of the same places. -/
theorem mapIdx_onePass {registry : Registry} {t t' : SymbolTable} {sts : List Statement}
    {items : List Item} {address : Nat → UInt32} {f : Statement → Statement} {g : Item → Item}
    (hpass : ∀ st a x, onePass registry t st a = .ok x → onePass registry t' (f st) a = .ok (g x))
    (h : sts.mapIdx (fun i st => onePass registry t st (address i)) = items.map .ok) :
    (sts.map f).mapIdx (fun i st => onePass registry t' st (address i)) =
      (items.map g).map .ok := by
  apply List.ext_getElem?
  intro i
  have hi := congrArg (·[i]?) h
  simp only [List.getElem?_mapIdx, List.getElem?_map] at hi ⊢
  cases hst : sts[i]? with
  | none =>
      rw [hst, Option.map_none, eq_comm, Option.map_eq_none_iff] at hi
      rw [hi]
      rfl
  | some st =>
      rw [hst, Option.map_some, eq_comm, Option.map_eq_some_iff] at hi
      obtain ⟨x, hx, hst⟩ := hi
      simp only [hx, Option.map_some, hpass st (address i) x hst.symm]

namespace Entry

variable {setting : Setting} {es es₁ es₂ : List Entry} {items items₁ items₂ : List Item}

theorem ofLine_add (l : Nat × String) (n : Nat) : ofLine (l.1 + n, l.2) = (ofLine l).moved n := by
  simp only [ofLine, moved, Line.read_add]

@[simp] theorem label?_moved (n : Nat) (e : Entry) : (e.moved n).label? = e.label? := by
  obtain ⟨number, said⟩ := e
  cases said with
  | error f => rfl
  | ok l => cases l <;> rfl

@[simp] theorem statement?_moved (n : Nat) (e : Entry) :
    (e.moved n).statement? = e.statement?.map (Statement.moved n) := by
  obtain ⟨number, said⟩ := e
  cases said with
  | error f => rfl
  | ok l => cases l <;> rfl

theorem labels_moved (n : Nat) (es : List Entry) : labels (es.map (moved n)) = labels es := by
  simp [labels]

theorem statements_moved (n : Nat) (es : List Entry) :
    statements (es.map (moved n)) = (statements es).map (Statement.moved n) := by
  simp [statements, List.filterMap_map, List.map_filterMap]

/-- A label is bound to the same address when its line has another number. -/
theorem address_declaration?_moved (n : Nat) (name : String) (k : Nat) (es : List Entry) :
    (declaration? setting name k (es.map (moved n))).map Symbol.address =
      (declaration? setting name k es).map Symbol.address := by
  induction es generalizing k with
  | nil => rfl
  | cons e es ih =>
      rw [List.map_cons, declaration?, declaration?, label?_moved, statement?_moved]
      by_cases he : e.label? = some name
      · rw [if_pos he, if_pos he]
        rfl
      · rw [if_neg he, if_neg he, Option.toList_map, List.length_map]
        exact ih _

/-- **Moving.**  Lines with higher numbers give the same items with higher numbers. -/
theorem Gives.moved (h : Gives setting es items) (n : Nat) :
    Gives setting (es.map (Entry.moved n)) (items.map (Item.moved n)) := by
  have hle : (table setting es).Le (table setting (es.map (Entry.moved n))) := by
    intro name a ha
    rw [lookup_table, address_declaration?_moved, ← lookup_table]
    exact ha
  refine ⟨fun e he => ?_, by rw [labels_moved]; exact h.nodup, ?_⟩
  · obtain ⟨d, hd, rfl⟩ := List.mem_map.mp he
    obtain ⟨l, hl⟩ := h.readable d hd
    exact ⟨l.moved n, by rw [Entry.moved, hl]; rfl⟩
  · rw [statements_moved]
    exact mapIdx_onePass (fun st a x hx => onePass_of_le hle (onePass_moved n hx)) h.results

/-! ### One after the other -/

theorem addressOf_addressOf (setting : Setting) (n k : Nat) :
    Setting.addressOf ⟨setting.addressOf n⟩ k = setting.addressOf (n + k) := by
  simp only [Setting.addressOf, Nat.mul_add, UInt32.ofNat_add, UInt32.add_assoc]

/-- A declaration is found at the same address when the entries are counted from their own start. -/
theorem declaration?_addressOf (setting : Setting) (n : Nat) (name : String) (k : Nat)
    (es : List Entry) :
    declaration? ⟨setting.addressOf n⟩ name k es = declaration? setting name (n + k) es := by
  induction es generalizing k with
  | nil => rfl
  | cons e es ih => rw [declaration?, declaration?, addressOf_addressOf, ih, Nat.add_assoc]

theorem table_le_append_left (setting : Setting) (es₁ es₂ : List Entry) :
    (table setting es₁).Le (table setting (es₁ ++ es₂)) := by
  intro name a ha
  rw [lookup_table, Option.map_eq_some_iff] at ha
  obtain ⟨y, hy, rfl⟩ := ha
  rw [lookup_table, declaration?_append, hy]
  rfl

/-- The labels of the second part are bound in the whole as they are in the part, since the first
part declares none of them. -/
theorem table_le_append_right (hdisjoint : (labels es₁).Disjoint (labels es₂)) :
    (table ⟨setting.addressOf (statements es₁).length⟩ es₂).Le (table setting (es₁ ++ es₂)) := by
  intro name a ha
  rw [lookup_table, declaration?_addressOf, Nat.add_zero] at ha
  have hmem : name ∈ labels es₂ := by
    by_contra hnot
    rw [declaration?_eq_none_iff.mpr hnot] at ha
    cases ha
  have hnone : declaration? setting name 0 es₁ = none :=
    declaration?_eq_none_iff.mpr fun hmem₁ => hdisjoint hmem₁ hmem
  rw [lookup_table, declaration?_append, hnone, Option.none_or, Nat.zero_add]
  exact ha

/-- **Appending.**  Entries that give items, the second from where the first end, give the items of
both one after the other, unless they declare a label in common. -/
theorem Gives.append (h₁ : Gives setting es₁ items₁)
    (h₂ : Gives ⟨setting.addressOf (statements es₁).length⟩ es₂ items₂)
    (hdisjoint : (labels es₁).Disjoint (labels es₂)) :
    Gives setting (es₁ ++ es₂) (items₁ ++ items₂) := by
  refine ⟨fun e he => ?_, ?_, ?_⟩
  · rcases List.mem_append.mp he with he | he
    · exact h₁.readable e he
    · exact h₂.readable e he
  · rw [labels_append]
    exact List.nodup_append'.mpr ⟨h₁.nodup, h₂.nodup, hdisjoint⟩
  · have hfirst := mapIdx_onePass (f := id) (g := id)
      (fun st a x => onePass_of_le (table_le_append_left setting es₁ es₂)) h₁.results
    have hsecond := mapIdx_onePass (f := id) (g := id)
      (fun st a x => onePass_of_le (table_le_append_right hdisjoint)) h₂.results
    simp only [List.map_id, addressOf_addressOf, Nat.add_comm (statements es₁).length]
      at hfirst hsecond
    rw [statements_append, List.mapIdx_append, List.map_append, hfirst, hsecond]

theorem ofSource_append {source₁ : String} (h : source₁ = "" ∨ ∃ init, source₁ = init ++ "\n")
    (source₂ : String) :
    ofSource (source₁ ++ source₂) =
      ofSource source₁ ++ (ofSource source₂).map (moved (Text.lines source₁).length) := by
  rw [ofSource, Text.numberedLines_append h, List.map_append, List.map_map, ofSource, ofSource,
    List.map_map]
  exact congrArg _ (List.map_congr_left fun l _ => ofLine_add l _)

end Entry

open Entry

/-- **Composition.**  Let the first source be empty or end with a line feed, and let no label be
declared in both sources.  If the first is assembled from an origin, and the second from the address
after it, then the two together are assembled from that origin to the items of the first and then
those of the second.  The lines of the second are counted on from those of the first, and nothing
else changes. -/
theorem assemble_append {source₁ source₂ : String} {setting : Setting} {items₁ items₂ : List Item}
    (hend : source₁ = "" ∨ ∃ init, source₁ = init ++ "\n")
    (h₁ : assemble source₁ setting = .ok items₁)
    (h₂ : assemble source₂ ⟨setting.origin + UInt32.ofNat (4 * items₁.length)⟩ = .ok items₂)
    (hdisjoint : (labels (ofSource source₁)).Disjoint (labels (ofSource source₂))) :
    assemble (source₁ ++ source₂) setting =
      .ok (items₁ ++
        items₂.map fun a => { a with line := a.line + (Text.lines source₁).length }) := by
  rw [assemble_eq_ok_iff] at h₁ h₂ ⊢
  rw [ofSource_append hend]
  have hmoved := h₂.moved (Text.lines source₁).length
  rw [h₁.length_eq] at hmoved
  exact h₁.append hmoved (by rw [labels_moved]; exact hdisjoint)

/-- Both sources refer to a label before they declare it, and the address wraps around between
them. -/
theorem assemble_append_wrapping :
    assemble "ldi r1, @a ; first\n@a:\n" ⟨0xFFFFFFFC⟩ =
      .ok [⟨1, 0xFFFFFFFC, 0x1, "ldi r1, @a ; first"⟩] ∧
    assemble "\nldi r2, @b\n@b:\nscs" ⟨0⟩ =
      .ok [⟨2, 0, 0x82, "ldi r2, @b"⟩, ⟨4, 4, 0x1800003F, "scs"⟩] ∧
    assemble ("ldi r1, @a ; first\n@a:\n" ++ "\nldi r2, @b\n@b:\nscs") ⟨0xFFFFFFFC⟩ =
      .ok [⟨1, 0xFFFFFFFC, 0x1, "ldi r1, @a ; first"⟩, ⟨4, 0, 0x82, "ldi r2, @b"⟩,
        ⟨6, 4, 0x1800003F, "scs"⟩] := by
  have h₁ : assemble "ldi r1, @a ; first\n@a:\n" ⟨0xFFFFFFFC⟩ =
      .ok [⟨1, 0xFFFFFFFC, 0x1, "ldi r1, @a ; first"⟩] := rfl
  have h₂ : assemble "\nldi r2, @b\n@b:\nscs" ⟨0⟩ =
      .ok [⟨2, 0, 0x82, "ldi r2, @b"⟩, ⟨4, 4, 0x1800003F, "scs"⟩] := rfl
  have hdisjoint : (labels (ofSource "ldi r1, @a ; first\n@a:\n")).Disjoint
      (labels (ofSource "\nldi r2, @b\n@b:\nscs")) := by
    show ["@a"].Disjoint ["@b"]
    exact List.disjoint_singleton.mpr (by decide)
  exact ⟨h₁, h₂, assemble_append (.inr ⟨"ldi r1, @a ; first\n@a:", rfl⟩) h₁ h₂ hdisjoint⟩

end Asm32
