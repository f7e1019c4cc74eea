import Asm32.Proofs.Encoding
import Asm32.Proofs.Registration
import Asm32.Proofs.Sources

/-!
# The same source at another origin

When a source is assembled from another origin, every label moves by as much as the origin does, and
nothing else changes by itself.  An operand that is no label is read in the same way.  A label that
is bound stands for another constant, but for a constant still; so which label an instruction waits
for, and every fault but that of a constant that cannot be loaded, depend only on the names that the
table binds (`Registry.dispatch_unresolved_congr`, `Registry.dispatch_error_congr`).

An instruction that has a word although it names a label can only be a load of that label
(`load_of_namesLabel`): no other takes a constant.

**Relocation** (`Session.relocated_of_origins`).  The labels of a source at two origins, and the
results of its instructions, compared.
-/

namespace Asm32

/-! ### Operands -/

/-- The tables bind the same names. -/
def SymbolTable.SameNames (t t' : SymbolTable) : Prop :=
  ∀ n, t.lookup n = none ↔ t'.lookup n = none

namespace Operand

/-- The sign of a label alone is at fault; with a name after it, it is looked up. -/
theorem read_of_namesLabel {token : String} (h : NamesLabel token) :
    (∀ t, read t token = .error (.unknownOperand token)) ∨
    ∀ t : SymbolTable,
      (∃ a, t.lookup token = some a ∧ read t token = .ok (.resolved (.imm a.toNat))) ∨
      t.lookup token = none ∧ read t token = .ok (.unresolved token) := by
  obtain ⟨cs, hcs⟩ : ∃ cs, token.toList = '@' :: cs := List.head?_eq_some_iff.mp h
  cases cs with
  | nil =>
      have hspecial : Reg.special? token = none := Reg.special?_eq_none h (by decide)
      have hnumeric : looksNumeric ['@'] = false := rfl
      refine .inl fun t => ?_
      simp [read, hcs, hspecial, hnumeric, labelSigil]
  | cons c cs =>
      refine .inr fun t => ?_
      obtain ⟨hbound, hfree⟩ := read_label h (by simp [hcs]) t
      cases hl : t.lookup token with
      | some a => exact .inl ⟨a, rfl, hbound a hl⟩
      | none => exact .inr ⟨rfl, hfree hl⟩

/-- A label that is read has an address. -/
theorem lookup_of_read {t : SymbolTable} {token : String} {o : Operand} (h : NamesLabel token)
    (hread : read t token = .ok (.resolved o)) :
    ∃ a, t.lookup token = some a ∧ o = .imm a.toNat := by
  rcases read_of_namesLabel h with hbare | hnamed
  · rw [hbare] at hread
    cases hread
  · obtain ⟨a, ha, hr⟩ | ⟨-, hr⟩ := hnamed t
    · rw [hr] at hread
      cases hread
      exact ⟨a, ha, rfl⟩
    · rw [hr] at hread
      cases hread

/-- Tables that bind the same names resolve the same tokens, to operands of the same kind, and
differ on no other token. -/
theorem read_of_sameNames {t t' : SymbolTable} (h : t.SameNames t') (token : String) :
    (∃ o o', read t token = .ok (.resolved o) ∧ read t' token = .ok (.resolved o') ∧
      o.reg? = o'.reg?) ∨
    read t token = read t' token ∧ ∀ o, read t token ≠ .ok (.resolved o) := by
  by_cases hl : NamesLabel token
  · rcases read_of_namesLabel hl with hbare | hnamed
    · rw [hbare, hbare]
      exact .inr ⟨rfl, by simp⟩
    · obtain ⟨a, ha, hr⟩ | ⟨hnone, hr⟩ := hnamed t
      · obtain ⟨a', -, hr'⟩ | ⟨hnone', -⟩ := hnamed t'
        · exact .inl ⟨_, _, hr, hr', rfl⟩
        · rw [(h token).mpr hnone'] at ha
          cases ha
      · obtain ⟨a', ha', -⟩ | ⟨-, hr'⟩ := hnamed t'
        · rw [(h token).mp hnone] at ha'
          cases ha'
        · rw [hr, hr']
          exact .inr ⟨rfl, by simp⟩
  · -- no table is asked for a token that is not a label
    rw [read_congr fun hl' => absurd hl' hl]
    rcases read t' token with f | o | l
    · exact .inr ⟨rfl, by simp⟩
    · exact .inl ⟨o, o, rfl, rfl, rfl⟩
    · exact .inr ⟨rfl, by simp⟩

theorem readAll_of_sameNames {t t' : SymbolTable} (h : t.SameNames t') (tokens : List String) :
    (∃ ops ops', readAll t tokens = .ok (.resolved ops) ∧ readAll t' tokens = .ok (.resolved ops') ∧
      ops.map reg? = ops'.map reg?) ∨
    readAll t tokens = readAll t' tokens ∧ ∀ ops, readAll t tokens ≠ .ok (.resolved ops) := by
  induction tokens with
  | nil => exact .inl ⟨[], [], rfl, rfl, rfl⟩
  | cons token tokens ih =>
      rw [readAll, readAll]
      obtain ⟨o, o', hr, hr', hkind⟩ | ⟨hr, hnot⟩ := read_of_sameNames h token
      · rw [hr, hr']
        obtain ⟨ops, ops', ha, ha', hkinds⟩ | ⟨ha, hnots⟩ := ih
        · rw [ha, ha']
          refine .inl ⟨o :: ops, o' :: ops', rfl, rfl, ?_⟩
          rw [List.map_cons, List.map_cons, hkind, hkinds]
        · rw [← ha]
          rcases hrest : readAll t tokens with f | ops | l
          · exact .inr ⟨rfl, by simp⟩
          · exact absurd hrest (hnots ops)
          · exact .inr ⟨rfl, by simp⟩
      · rw [← hr]
        rcases hread : read t token with f | o | l
        · exact .inr ⟨rfl, by simp⟩
        · exact absurd hread (hnot o)
        · exact .inr ⟨rfl, by simp⟩

end Operand

/-! ### Requests -/

namespace Instr
open Operand (reg?)

theorem registers?_congr {ops ops' : List Operand} (h : ops.map reg? = ops'.map reg?) :
    registers? ops = registers? ops' := by
  have hid : ∀ os : List Operand, registers? os = (os.map reg?).mapM id := by
    intro os
    rw [List.mapM_map]
    rfl
  rw [hid, hid, h]

/-- A load takes a register and a constant, whatever the constant is. -/
theorem load_operands_iff {ops : List Operand} :
    (∃ dest c, ops = [.reg dest, .imm c]) ↔ ∃ dest, ops.map reg? = [some dest, none] := by
  constructor
  · rintro ⟨dest, c, rfl⟩
    exact ⟨dest, rfl⟩
  · rintro ⟨dest, h⟩
    match ops, h with
    | [.reg r, .imm c], _ => exact ⟨r, c, rfl⟩

/-- Only the constant of a load counts for more than its kind: every other fault of a request is
that of all requests with operands of the same kinds. -/
theorem ofOperands_error_congr {g : Group} {m : String} {ops ops' : List Operand} {f : Fault}
    (hops : ops.map reg? = ops'.map reg?) (hf : ∀ c, f ≠ .unloadableConstant c)
    (h : ofOperands g m ops = .error f) : ofOperands g m ops' = .error f := by
  cases g with
  | loadImmediate =>
      rw [ofOperands] at h ⊢
      by_cases hload : ∃ dest c, ops = [.reg dest, .imm c]
      · -- with operands of these kinds only the constant can be at fault
        obtain ⟨dest, c, rfl⟩ := hload
        rw [loadOf] at h
        split at h
        · cases h
        · cases h
          exact absurd rfl (hf c)
      · have hload' : ¬ ∃ dest c, ops' = [.reg dest, .imm c] := by
          rwa [load_operands_iff, ← hops, ← load_operands_iff]
        rw [loadOf.eq_2 m ops fun dest c e => hload ⟨dest, c, e⟩] at h
        rw [loadOf.eq_2 m ops' fun dest c e => hload' ⟨dest, c, e⟩, h]
  | alu => simpa only [ofOperands, aluOf, registers?_congr hops] using h
  | moveCopy => simpa only [ofOperands, moveOf, registers?_congr hops] using h
  | condFlow =>
      have hempty : ops.isEmpty = ops'.isEmpty := by simpa using congrArg List.isEmpty hops
      simpa only [ofOperands, skipOf, hempty] using h

end Instr

namespace Registry

variable {t t' : SymbolTable} {m : String} {tokens : List String}

/-- An instruction waits for the same label with all tables that bind the same names. -/
theorem dispatch_unresolved_congr {r : Registry} (h : t.SameNames t') {l : String}
    (hd : r.dispatch t m tokens = .ok (.unresolved l)) :
    r.dispatch t' m tokens = .ok (.unresolved l) := by
  obtain ⟨e, he, hread⟩ := dispatch_eq_unresolved_iff.mp hd
  obtain ⟨ops, ops', hr, -⟩ | ⟨hr, -⟩ := Operand.readAll_of_sameNames h tokens
  · rw [hread] at hr
    cases hr
  · exact dispatch_eq_unresolved_iff.mpr ⟨e, he, by rw [← hr, hread]⟩

/-- An instruction has the same fault with all tables that bind the same names, unless the fault is
a constant that cannot be loaded. -/
theorem dispatch_error_congr (h : t.SameNames t') {f : Fault}
    (hf : ∀ c, f ≠ .unloadableConstant c) (hd : standard.dispatch t m tokens = .error f) :
    standard.dispatch t' m tokens = .error f := by
  rw [dispatch_eq_error_iff] at hd ⊢
  obtain hm | ⟨e, he, hfault⟩ := hd
  · exact .inl hm
  · refine .inr ⟨e, he, ?_⟩
    obtain ⟨ops, ops', hr, hr', hkinds⟩ | ⟨hr, hnot⟩ := Operand.readAll_of_sameNames h tokens
    · obtain hread | ⟨ops₁, hread, hw⟩ := hfault
      · rw [hread] at hr
        cases hr
      · rw [hr] at hread
        cases hread
        obtain ⟨g, -, rfl⟩ := lookup_standard_eq_some_iff.mp he
        have hrefused := Instr.ofOperands_error_congr hkinds hf (Group.encode_eq_error_iff.mp hw)
        exact .inr ⟨ops', hr', Group.encode_eq_error_iff.mpr hrefused⟩
    · obtain hread | ⟨ops, hread, -⟩ := hfault
      · exact .inl (by rw [← hr, hread])
      · exact absurd hread (hnot ops)

end Registry

/-- A label among tokens that are read is a constant among the operands. -/
theorem Operand.imm_mem_of_namesLabel {t : SymbolTable} {tokens : List String} {ops : List Operand}
    (h : List.Forall₂ (fun token o => read t token = .ok (.resolved o)) tokens ops) {token : String}
    (htoken : token ∈ tokens) (hlabel : NamesLabel token) : ∃ c, .imm c ∈ ops := by
  induction h with
  | nil => cases htoken
  | cons hr _ ih =>
      rcases List.mem_cons.mp htoken with rfl | htoken
      · obtain ⟨a, -, rfl⟩ := lookup_of_read hlabel hr
        exact ⟨_, List.mem_cons_self⟩
      · obtain ⟨c, hc⟩ := ih htoken
        exact ⟨c, List.mem_cons_of_mem _ hc⟩

/-- Only a load has a constant among its operands. -/
theorem Instr.Requested.load_of_imm {g : Group} {m : String} {ops : List Operand} {i : Instr}
    (h : Requested g m ops i) {c : Int} (hc : .imm c ∈ ops) :
    ∃ dest p, ops = [.reg dest, .imm c] ∧ i = ldi dest p ∧ p.unpack = UInt32.ofInt c := by
  cases h with
  | @load _ dest c' p hp hw =>
      obtain rfl : c = c' := by simpa using hc
      exact ⟨dest, p, rfl, rfl, hw⟩
  | _ => simp at hc

/-- An instruction that names a label and has a word loads the address of the label. -/
theorem load_of_namesLabel {t : SymbolTable} {m : String} {tokens : List String} {op : UInt32}
    (hlabel : ∃ token ∈ tokens, Operand.NamesLabel token)
    (hd : Registry.standard.dispatch t m tokens = .ok (.resolved op)) :
    ∃ first label dest p, tokens = [first, label] ∧
      Operand.read t first = .ok (.resolved (.reg dest)) ∧ ¬ Operand.NamesLabel first ∧
      Instr.decode? op = some (.ldi dest p) ∧ t.lookup label = some p.unpack := by
  obtain ⟨e, ops, he, hread, hw⟩ := Registry.dispatch_eq_resolved_iff.mp hd
  obtain ⟨g, -, rfl⟩ := Registry.lookup_standard_eq_some_iff.mp he
  obtain ⟨i, hi, hword⟩ := Group.encode_eq_ok_iff.mp hw
  rw [Operand.readAll_eq_resolved_iff] at hread
  obtain ⟨token, htoken, hnames⟩ := hlabel
  obtain ⟨c, hc⟩ := Operand.imm_mem_of_namesLabel hread htoken hnames
  obtain ⟨dest, p, rfl, rfl, hunpack⟩ := hi.load_of_imm hc
  -- the operands are a register and a constant, so the label is the second of two tokens
  cases hread with
  | @cons first _ _ _ hfirst hrest =>
      cases hrest with
      | @cons label _ _ _ hsecond hnil =>
          cases hnil
          have hplain : ¬ Operand.NamesLabel first := by
            intro hn
            obtain ⟨a, -, ha⟩ := Operand.lookup_of_read hn hfirst
            cases ha
          have hl : Operand.NamesLabel label := by
            rcases List.mem_cons.mp htoken with rfl | htoken
            · exact absurd hnames hplain
            · obtain rfl := List.mem_singleton.mp htoken
              exact hnames
          obtain ⟨a, ha, hac⟩ := Operand.lookup_of_read hl hsecond
          obtain rfl : c = a.toNat := Operand.imm.inj hac
          refine ⟨first, label, dest, p, rfl, hfirst, hplain,
            Group.decode?_of_requested hi hword, ?_⟩
          rw [ha, hunpack, Packed.ofInt_toNat]

/-! ### Results -/

/-- The tables bind the same names, and in the second the addresses are `d` further. -/
def SymbolTable.Shifted (d : UInt32) (t t' : SymbolTable) : Prop :=
  ∀ n, t'.lookup n = (t.lookup n).map (· + d)

theorem SymbolTable.Shifted.sameNames {d : UInt32} {t t' : SymbolTable} (h : Shifted d t t') :
    t.SameNames t' := by
  intro n
  rw [h n, Option.map_eq_none_iff]

theorem SymbolTable.SameNames.symm {t t' : SymbolTable} (h : SameNames t t') : SameNames t' t :=
  fun n => (h n).symm

/-- How the results of an instruction compare when all addresses are `d` further.  Without a label
among its operands the instruction has the same fault, or the same item at an address that is `d`
further.  With a label it has the same fault, unless that is a constant that cannot be loaded; and
if it has a word both times, the words load constants that are `d` apart into the same register. -/
structure Relocated (d : UInt32) (st : Statement) (r r' : Except LineFault Item) : Prop where
  plain : (∀ token ∈ st.operands, ¬ Operand.NamesLabel token) →
    (∃ e, r = .error e ∧ r' = .error e) ∨
      ∃ a, r = .ok a ∧ r' = .ok { a with address := a.address + d }
  fault : (∃ token ∈ st.operands, Operand.NamesLabel token) → ∀ e,
    (∀ c, e.fault ≠ .unloadableConstant c) → (r = .error e ↔ r' = .error e)
  load : (∃ token ∈ st.operands, Operand.NamesLabel token) → ∀ a a', r = .ok a → r' = .ok a' →
    ∃ dest p p', Instr.decode? a.opcode = some (.ldi dest p) ∧
      Instr.decode? a'.opcode = some (.ldi dest p') ∧ p'.unpack = p.unpack + d

theorem onePass_error_congr {t t' : SymbolTable} (h : t.SameNames t') {st : Statement}
    {address address' : UInt32} {e : LineFault} (hf : ∀ c, e.fault ≠ .unloadableConstant c)
    (he : onePass .standard t st address = .error e) :
    onePass .standard t' st address' = .error e := by
  rw [onePass_eq_error_iff] at he ⊢
  obtain ⟨l, hd, rfl⟩ | ⟨f, hd, rfl⟩ := he
  · exact .inl ⟨l, Registry.dispatch_unresolved_congr h hd, rfl⟩
  · exact .inr ⟨f, Registry.dispatch_error_congr h hf hd, rfl⟩

theorem onePass_relocated {d : UInt32} {t t' : SymbolTable} (h : t.Shifted d t') (st : Statement)
    (address : UInt32) :
    Relocated d st (onePass .standard t st address) (onePass .standard t' st (address + d)) where
  plain := by
    intro hplain
    have hd : Registry.standard.dispatch t' st.mnemonic st.operands =
        Registry.standard.dispatch t st.mnemonic st.operands :=
      Registry.dispatch_congr fun token htoken hl => absurd hl (hplain token htoken)
    rw [onePass, onePass, hd]
    rcases Registry.standard.dispatch t st.mnemonic st.operands with f | op | l
    · exact .inl ⟨_, rfl, rfl⟩
    · exact .inr ⟨_, rfl, rfl⟩
    · exact .inl ⟨_, rfl, rfl⟩
  fault := by
    intro _ e hf
    exact ⟨onePass_error_congr h.sameNames hf, onePass_error_congr h.sameNames.symm hf⟩
  load := by
    intro hlabel a a' ha ha'
    obtain ⟨op, hd, rfl⟩ := onePass_eq_ok_iff.mp ha
    obtain ⟨op', hd', rfl⟩ := onePass_eq_ok_iff.mp ha'
    obtain ⟨first, label, dest, p, htokens, hread, hplain, hdecode, hlookup⟩ :=
      load_of_namesLabel hlabel hd
    obtain ⟨first', label', dest', p', htokens', hread', -, hdecode', hlookup'⟩ :=
      load_of_namesLabel hlabel hd'
    rw [htokens] at htokens'
    cases htokens'
    -- the register is no label, so both tables read it alike
    rw [Operand.read_congr fun hl => absurd hl hplain, hread] at hread'
    cases hread'
    refine ⟨dest, p, p', hdecode, hdecode', ?_⟩
    rw [h label, hlookup] at hlookup'
    exact (Option.some.inj hlookup').symm

/-! ### Labels -/

theorem addressOf_add (origin d : UInt32) (k : Nat) :
    Setting.addressOf ⟨origin + d⟩ k = Setting.addressOf ⟨origin⟩ k + d :=
  add_right_comm origin d _

/-- A label that is declared first at an address is declared first `d` further from an origin that
is `d` further. -/
theorem Entry.address_declaration?_add (origin d : UInt32) (name : String) (k : Nat)
    (es : List Entry) :
    (declaration? ⟨origin + d⟩ name k es).map Symbol.address =
      ((declaration? ⟨origin⟩ name k es).map Symbol.address).map (· + d) := by
  induction es generalizing k with
  | nil => rfl
  | cons e es ih =>
      rw [declaration?, declaration?]
      by_cases he : e.label? = some name
      · rw [if_pos he, if_pos he, addressOf_add]
        rfl
      · rw [if_neg he, if_neg he]
        exact ih _

theorem Entry.table_shifted (origin d : UInt32) (es : List Entry) :
    (table ⟨origin⟩ es).Shifted d (table ⟨origin + d⟩ es) := by
  intro name
  rw [lookup_table, lookup_table, address_declaration?_add]

namespace Session

/-- **Relocation.**  All lines of a source are given to a session at one origin and to a session at
another, each line whatever became of the ones before.  Both bind the same labels, and the addresses
of a label differ by as much as the origins.  Every instruction of the source has a result at both
origins, and the two compare as `Relocated` says. -/
theorem relocated_of_origins (source : String) (setting setting' : Setting) :
    let calls := (Text.numberedLines source).map fun l => Call.line l.1 l.2
    let s := ((start .standard setting).callAll calls).1
    let s' := ((start .standard setting').callAll calls).1
    let d := setting'.origin - setting.origin
    (∀ name, s'.symbols.lookup name = (s.symbols.lookup name).map (· + d)) ∧
    ∀ (i : Nat) (st : Statement), (Entry.statements (Entry.ofSource source))[i]? = some st →
      ∃ r r', s.finish[i]? = some r ∧ s'.finish[i]? = some r' ∧ Relocated d st r r' := by
  obtain ⟨origin⟩ := setting
  obtain ⟨d, rfl⟩ : ∃ d, setting' = ⟨origin + d⟩ :=
    ⟨setting'.origin - origin, congrArg Setting.mk (add_sub_cancel _ _).symm⟩
  intro calls s s' distance
  have hd : distance = d := add_sub_cancel_left origin d
  have hs : s = ((start .standard ⟨origin⟩).takeAll (Entry.ofSource source)).1 :=
    congrArg Prod.fst (callAll_lines _ _)
  have hs' : s' = ((start .standard ⟨origin + d⟩).takeAll (Entry.ofSource source)).1 :=
    congrArg Prod.fst (callAll_lines _ _)
  have htable := Entry.table_shifted origin d (Entry.ofSource source)
  rw [hd, hs, hs']
  refine ⟨htable, fun i st hi => ?_⟩
  have hresults := onePass_relocated htable st (Setting.addressOf ⟨origin⟩ i)
  rw [← addressOf_add] at hresults
  rw [finish_takeAll, finish_takeAll, List.getElem?_mapIdx, List.getElem?_mapIdx, hi]
  exact ⟨_, _, rfl, rfl, hresults⟩

/-- Two loads of bound labels, an instruction without a label, and a load of a label that is never
bound. -/
def twoLoads : String := "ldi r1, @a\nldi r2, @b\n@a:\nmv r0, r1\n@b:\nldi r3, @c\n"

/-- At the second origin the constant of the first load can be loaded, and that of the second
cannot. -/
theorem relocated_of_origins_apart :
    let calls := (Text.numberedLines twoLoads).map fun l => Call.line l.1 l.2
    let s := ((start .standard ⟨0⟩).callAll calls).1
    let s' := ((start .standard ⟨0x7FFF8⟩).callAll calls).1
    s.symbols.lookup "@a" = some 8 ∧ s'.symbols.lookup "@a" = some 0x80000 ∧
    s.finish = [.ok ⟨1, 0, 0x101, "ldi r1, @a"⟩, .ok ⟨2, 4, 0x182, "ldi r2, @b"⟩,
      .ok ⟨4, 8, 0x10000020, "mv r0, r1"⟩, .error ⟨6, .undefinedLabel "@c"⟩] ∧
    s'.finish[0]? = some (.ok ⟨1, 0x7FFF8, 0x1100001, "ldi r1, @a"⟩) ∧
    (∃ dest p p', Instr.decode? 0x101 = some (.ldi dest p) ∧
      Instr.decode? 0x1100001 = some (.ldi dest p') ∧ p'.unpack = p.unpack + 0x7FFF8) ∧
    s'.finish[1]? = some (.error ⟨2, .unloadableConstant 0x80004⟩) ∧
    s'.finish[2]? = some (.ok ⟨4, 0x80000, 0x10000020, "mv r0, r1"⟩) ∧
    s'.finish[3]? = some (.error ⟨6, .undefinedLabel "@c"⟩) := by
  intro calls s s'
  obtain ⟨hlabels, hresults⟩ := relocated_of_origins twoLoads ⟨0⟩ ⟨0x7FFF8⟩
  have hcompare : ∀ i st, (Entry.statements (Entry.ofSource twoLoads))[i]? = some st →
      ∃ r r', s.finish[i]? = some r ∧ s'.finish[i]? = some r' ∧ Relocated 0x7FFF8 st r r' :=
    hresults
  have hlabel : s.symbols.lookup "@a" = some 8 := by decide +kernel
  have hfinish : s.finish = [.ok ⟨1, 0, 0x101, "ldi r1, @a"⟩, .ok ⟨2, 4, 0x182, "ldi r2, @b"⟩,
      .ok ⟨4, 8, 0x10000020, "mv r0, r1"⟩, .error ⟨6, .undefinedLabel "@c"⟩] := by decide +kernel
  have hfirst : s'.finish[0]? = some (.ok ⟨1, 0x7FFF8, 0x1100001, "ldi r1, @a"⟩) := by
    decide +kernel
  have hsecond : s'.finish[1]? = some (.error ⟨2, .unloadableConstant 0x80004⟩) := by
    decide +kernel
  have hlabel' : s'.symbols.lookup "@a" = some 0x80000 := by
    rw [hlabels "@a", hlabel]
    rfl
  rw [hfinish] at hcompare
  refine ⟨hlabel, hlabel', hfinish, hfirst, ?_, hsecond, ?_, ?_⟩
  · obtain ⟨r, r', hr, hr', h⟩ :=
      hcompare 0 ⟨1, "ldi", ["r1", "@a"], "ldi r1, @a"⟩ (by decide +kernel)
    rw [hfirst] at hr'
    exact h.load ⟨"@a", .tail _ (.head _), rfl⟩ ⟨1, 0, 0x101, "ldi r1, @a"⟩
      ⟨1, 0x7FFF8, 0x1100001, "ldi r1, @a"⟩ (Option.some.inj hr).symm (Option.some.inj hr').symm
  · obtain ⟨r, r', hr, hr', h⟩ :=
      hcompare 2 ⟨4, "mv", ["r0", "r1"], "mv r0, r1"⟩ (by decide +kernel)
    obtain rfl := Option.some.inj hr
    have hplain : ∀ token ∈ ["r0", "r1"], ¬ Operand.NamesLabel token := by
      intro token htoken
      rw [Operand.NamesLabel]
      fin_cases htoken <;> decide
    obtain ⟨e, he, -⟩ | ⟨a, ha, ha'⟩ := h.plain hplain
    · cases he
    · cases ha
      exact hr'.trans (congrArg some ha')
  · obtain ⟨r, r', hr, hr', h⟩ :=
      hcompare 3 ⟨6, "ldi", ["r3", "@c"], "ldi r3, @c"⟩ (by decide +kernel)
    have hfault := (h.fault ⟨"@c", .tail _ (.head _), rfl⟩ _ (by simp)).mp
      (Option.some.inj hr).symm
    exact hr'.trans (congrArg some hfault)

end Session

end Asm32
