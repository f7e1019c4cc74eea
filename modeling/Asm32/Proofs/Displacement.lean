import Asm32.Proofs.Encoding
import Asm32.Proofs.Registration

/-!
# Registrations and what they displace

What a registry finds is decided by its past, the registrations that made it: the latest that lists
a mnemonic counts (`Registry.latest?`).  A registry follows its past, and a further registration
keeps it so (`Registry.Follows.register`); the standard registry is one whose past are the
registrations of the groups.

The mnemonics of a registration are inserted one by one.  Each displaces what the registry finds
just before (`Registry.displaced_registerEach`), which may be an earlier entry of the same list, and
this is logged (`Registry.events_registerEach`).

**Registrations** (`Registry.registerAll_history`).  What is found after any registrations, what
each of them displaces and reports, and the group of the words that are made.
-/

namespace Asm32

/-- A word that a group gives names the group. -/
theorem Group.ofWord?_of_encode {g : Group} {m : String} {ops : List Operand} {raw : UInt32}
    (h : g.encode m ops = .ok raw) : Group.ofWord? raw = some g := by
  obtain ⟨i, hi, hw⟩ := encode_eq_ok_iff.mp h
  rw [← hi.group_eq]
  exact (Instr.encode_eq_ok_iff.mp hw).1

namespace Registry

/-- The encoder of the latest registration that lists a mnemonic. -/
def latest? (xs : List Registration) (m : String) : Option Encoder :=
  (xs.reverse.find? fun x => x.mnemonics.contains m).map Registration.encoder

/-- What a registration displaces after earlier ones: a mnemonic is listed with the encoder that it
had until then, which is that of an earlier registration or, behind a repeat, the new one. -/
def displacedBy (past : List Registration) (x : Registration) : List (String × Encoder) :=
  x.mnemonics.zipIdx.filterMap fun p =>
    (latest? (past ++ [⟨x.encoder, x.mnemonics.take p.2⟩]) p.1).map fun old => (p.1, old)

/-- The registry finds what was registered last. -/
def Follows (r : Registry) (past : List Registration) : Prop := ∀ m, r.lookup m = latest? past m

theorem latest?_concat (xs : List Registration) (x : Registration) (m : String) :
    latest? (xs ++ [x]) m = if m ∈ x.mnemonics then some x.encoder else latest? xs m := by
  by_cases hm : m ∈ x.mnemonics <;> simp [latest?, hm]

theorem latest?_eq_none_iff {xs : List Registration} {m : String} :
    latest? xs m = none ↔ ∀ x ∈ xs, m ∉ x.mnemonics := by
  simp [latest?]

theorem mem_of_latest? {xs : List Registration} {m : String} {e : Encoder}
    (h : latest? xs m = some e) : ∃ x ∈ xs, m ∈ x.mnemonics ∧ x.encoder = e := by
  obtain ⟨x, hx, he⟩ := Option.map_eq_some_iff.mp h
  have hm := List.find?_some hx
  exact ⟨x, List.mem_reverse.mp (List.mem_of_find?_eq_some hx), by simpa using hm, he⟩

theorem follows_empty : empty.Follows [] := fun _ => rfl

/-- A mnemonic displaces what is found after the ones before it. -/
theorem displaced_registerEach (e : Encoder) (r : Registry) (ms : List String) :
    (registerEach e r ms).displaced = ms.zipIdx.filterMap fun p =>
      ((registerEach e r (ms.take p.2)).registry.lookup p.1).map fun old => (p.1, old) := by
  induction ms generalizing r with
  | nil => rfl
  | cons m ms ih =>
      -- the first mnemonic is inserted before the others are looked up
      have hrest : (ms.zipIdx (0 + 1)).filterMap (fun p =>
          ((registerEach e r ((m :: ms).take p.2)).registry.lookup p.1).map fun old => (p.1, old)) =
          (registerEach e (r.insert m e) ms).displaced := by
        rw [List.zipIdx_succ, List.filterMap_map, ih]
        refine List.filterMap_congr fun p _ => ?_
        rw [Function.comp_apply, List.take_succ_cons, registry_registerEach_cons]
      have hfirst : (registerEach e r ((m :: ms).take 0)).registry.lookup m = r.lookup m := rfl
      rw [registerEach, List.zipIdx_cons, List.filterMap_cons, hrest, hfirst]
      cases r.lookup m <;> rfl

/-- An event is logged for each mnemonic that is displaced, with the group that it had and the one
that it goes to. -/
theorem events_registerEach (e : Encoder) (r : Registry) (ms : List String) :
    (registerEach e r ms).events = (registerEach e r ms).displaced.map fun d =>
      .mnemonicReregistered d.1 d.2.group e.group := by
  induction ms generalizing r with
  | nil => rfl
  | cons m ms ih =>
      rw [registerEach]
      cases r.lookup m with
      | none => exact ih (r.insert m e)
      | some old => exact congrArg _ (ih (r.insert m e))

theorem Follows.register {r : Registry} {past : List Registration} (h : r.Follows past)
    (x : Registration) : (r.register x).registry.Follows (past ++ [x]) := by
  intro m
  rw [lookup_register, latest?_concat, h m]

theorem Follows.registerAll {r : Registry} {past : List Registration} (h : r.Follows past)
    (calls : List Registration) : (r.registerAll calls).Follows (past ++ calls) := by
  induction calls generalizing r past with
  | nil => rwa [List.append_nil]
  | cons x calls ih =>
      rw [registerAll_cons, List.append_cons]
      exact ih (h.register x)

theorem Follows.displaced {r : Registry} {past : List Registration} (h : r.Follows past)
    (x : Registration) : (r.register x).displaced = displacedBy past x := by
  rw [Registry.register, displaced_registerEach, displacedBy]
  refine List.filterMap_congr fun p _ => ?_
  rw [lookup_registerEach, latest?_concat, h p.1]

theorem isEmpty_iff {r : Registry} : r.isEmpty = true ↔ ∀ m, r.lookup m = none := by
  obtain ⟨entries⟩ := r
  cases entries with
  | nil => exact iff_of_true rfl fun _ => rfl
  | cons p entries =>
      refine iff_of_false (by simp [isEmpty]) fun h => ?_
      have hp := h p.1
      simp [lookup] at hp

/-- **Registrations.**  A registry is made by some registrations, and further ones are carried out.
A mnemonic is found with the encoder of the latest registration that lists it, and not at all when
none does; the registry is empty exactly when nothing was ever listed.  Each registration returns,
in order, the mnemonics that were found just before they were inserted, with the encoders that they
lose, and logs one event for each of these.  When all encoders are those of groups, every word that
is made names the group of the encoder that its mnemonic is found with. -/
theorem registerAll_history {start : Registry} {past : List Registration}
    (hstart : start = empty.registerAll past) (calls : List Registration) :
    (∀ m, (start.registerAll calls).lookup m = latest? (past ++ calls) m) ∧
    ((start.registerAll calls).isEmpty = true ↔ ∀ x ∈ past ++ calls, x.mnemonics = []) ∧
    (∀ i x, calls[i]? = some x →
      ((start.registerAll (calls.take i)).register x).displaced =
        displacedBy (past ++ calls.take i) x ∧
      ((start.registerAll (calls.take i)).register x).events =
        (displacedBy (past ++ calls.take i) x).map fun d =>
          .mnemonicReregistered d.1 d.2.group x.encoder.group) ∧
    ((∀ x ∈ past ++ calls, ∃ g : Group, x.encoder = g.encoder) →
      ∀ t m tokens op, (start.registerAll calls).dispatch t m tokens = .ok (.resolved op) →
        ∃ e, (start.registerAll calls).lookup m = some e ∧ Group.ofWord? op = some e.group) := by
  subst hstart
  have hpast : (empty.registerAll past).Follows past := follows_empty.registerAll past
  have hcalls := hpast.registerAll calls
  refine ⟨hcalls, ?_, fun i x _ => ?_, fun hgroups t m tokens op h => ?_⟩
  · rw [isEmpty_iff]
    simp only [hcalls _, latest?_eq_none_iff]
    constructor
    · intro h x hx
      exact List.eq_nil_iff_forall_not_mem.mpr fun m => h m x hx
    · intro h m x hx
      rw [h x hx]
      exact List.not_mem_nil
  · have hdisplaced := (hpast.registerAll (calls.take i)).displaced x
    refine ⟨hdisplaced, ?_⟩
    rw [← hdisplaced]
    exact events_registerEach x.encoder _ x.mnemonics
  · obtain ⟨e, ops, he, -, hop⟩ := dispatch_eq_resolved_iff.mp h
    obtain ⟨x, hx, -, rfl⟩ := mem_of_latest? (hcalls m ▸ he)
    obtain ⟨g, hg⟩ := hgroups x hx
    refine ⟨_, he, ?_⟩
    rw [hg] at hop ⊢
    exact Group.ofWord?_of_encode hop

/-- Two mnemonics of other groups are given to the arithmetic group, one of them twice, and then
that one is taken back. -/
def takeover : List Registration :=
  [⟨Group.alu.encoder, ["mv", "scs", "mv"]⟩, Group.moveCopy.registration]

/-- The repeat displaces the entry before it. -/
theorem registerAll_history_takeover :
    standard = empty.registerAll (Group.all.map Group.registration) ∧
    (standard.registerAll takeover).lookup "mv" = some Group.moveCopy.encoder ∧
    (standard.registerAll takeover).lookup "scs" = some Group.alu.encoder ∧
    (standard.register ⟨Group.alu.encoder, ["mv", "scs", "mv"]⟩).displaced =
      [("mv", Group.moveCopy.encoder), ("scs", Group.condFlow.encoder), ("mv", Group.alu.encoder)] ∧
    (standard.register ⟨Group.alu.encoder, ["mv", "scs", "mv"]⟩).events =
      [.mnemonicReregistered "mv" .moveCopy .alu, .mnemonicReregistered "scs" .condFlow .alu,
        .mnemonicReregistered "mv" .alu .alu] ∧
    (standard.registerAll takeover).dispatch .empty "mv" ["r1", "sp"] =
      .ok (.resolved 0x10000221) ∧
    Group.ofWord? 0x10000221 = some .moveCopy := by
  have hstart : standard = empty.registerAll (Group.all.map Group.registration) := rfl
  have hgroups : ∀ x ∈ Group.all.map Group.registration ++ takeover,
      ∃ g : Group, x.encoder = g.encoder := by
    simp [Group.all, takeover, Group.registration]
  have hdispatch : (standard.registerAll takeover).dispatch .empty "mv" ["r1", "sp"] =
      .ok (.resolved 0x10000221) := rfl
  obtain ⟨hlookup, -, hcalls, hwords⟩ := registerAll_history hstart takeover
  obtain ⟨e, he, hword⟩ := hwords hgroups _ _ _ _ hdispatch
  have hmv : (standard.registerAll takeover).lookup "mv" = some Group.moveCopy.encoder :=
    hlookup "mv"
  rw [hmv] at he
  obtain rfl := Option.some.inj he
  obtain ⟨hdisplaced, hevents⟩ := hcalls 0 _ rfl
  exact ⟨hstart, hmv, hlookup "scs", hdisplaced, hevents, hdispatch, hword⟩

end Registry

end Asm32
