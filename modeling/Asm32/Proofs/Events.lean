import Asm32.Proofs.Sources

/-!
# What the log says

A session logs every label that it binds and every instruction that it lets wait.  The second pass
logs that all source is read, with how much of it there was, and then every waiting instruction that
it encodes.

Each instruction is followed from the session that it is fed to (`Session.Feeding`) to its result.
`Session.Grows` says what a session that is fed keeps in step: the log tells as many declarations as
the table has new labels, and the instructions that wait are in the log and among the records in the
same order.  A step does so (`Session.grows_take`), and so does a run (`Session.grows_takeAll`).

**The account** (`Session.finalEvents_account`).  The numbers that end the first pass are those of
the events before them and of the results, and the events after them are the deferred instructions
that have a word in the end.
-/

namespace Asm32

namespace Event

def isDeclaration : Event → Bool
  | labelDeclared .. => true
  | _                => false

def isScanComplete : Event → Bool
  | scanComplete .. => true
  | _               => false

/-- The line and the address of an instruction that waits. -/
def deferral? : Event → Option (Nat × UInt32)
  | deferred line _ address => some (line, address)
  | _                       => none

/-- The line and the address of a waiting instruction that is encoded. -/
def resolution? : Event → Option (Nat × UInt32)
  | resolved line address => some (line, address)
  | _                     => none

end Event

/-- What there is to do for a waiting instruction: its statement and its address. -/
def Waiting.job (w : Waiting) : Statement × UInt32 := (w.statement, w.address)

/-- The second pass logs the jobs that one pass with all labels can do. -/
theorem Waiting.flatMap_logged (registry : Registry) (symbols : SymbolTable) (ws : List Waiting) :
    (ws.flatMap fun w => (w.resolve registry symbols).2) =
      ((ws.map job).filter fun j => (onePass registry symbols j.1 j.2).isOk).map
        fun j => .resolved j.1.line j.2 := by
  induction ws with
  | nil => rfl
  | cons w ws ih =>
      rw [List.flatMap_cons, List.map_cons, ih, resolve, job, List.filter_cons, onePass]
      rcases registry.dispatch symbols w.statement.mnemonic w.statement.operands with f | op | l
      · rfl
      · rfl
      · rfl

namespace Session

/-! ### Instructions and the sessions that they are fed to -/

/-- An instruction, and the session that it is fed to. -/
structure Feeding where
  before : Session
  statement : Statement

namespace Feeding

/-- The instruction and what the session answers. -/
def feed (f : Feeding) : Feed := f.before.feed f.statement

/-- What the session answers. -/
def answer (f : Feeding) : Except LineFault Unit := f.feed.2

/-- The session lets the instruction wait: it names a label that is not bound yet. -/
def waits (f : Feeding) : Bool :=
  match f.before.registry.dispatch f.before.symbols f.statement.mnemonic f.statement.operands with
  | .ok (.unresolved _) => true
  | _                   => false

def job (f : Feeding) : Statement × UInt32 := (f.statement, f.before.address)

/-- The line and the address of the instruction. -/
def place (f : Feeding) : Nat × UInt32 := (f.statement.line, f.before.address)

end Feeding

/-- The instructions of entries, each with the session that has taken the entries before it. -/
def feedings (s : Session) : List Entry → List Feeding
  | []      => []
  | e :: es => e.statement?.toList.map (⟨s, ·⟩) ++ (s.take e).1.feedings es

theorem feedings_append (s : Session) (es es' : List Entry) :
    s.feedings (es ++ es') = s.feedings es ++ (s.takeAll es).1.feedings es' := by
  induction es generalizing s with
  | nil => rfl
  | cons e es ih => rw [List.cons_append, feedings, feedings, ih, List.append_assoc, takeAll]

theorem map_feed_line (s : Session) (l : Nat × String) :
    ((Entry.ofLine l).statement?.toList.map (⟨s, ·⟩)).map Feeding.feed = s.fedLine l.1 l.2 := by
  rw [Entry.statement?, Entry.ofLine, fedLine]
  rcases Line.read l.1 l.2 with f | _ | name | st
  · rfl
  · rfl
  · rfl
  · rfl

theorem map_feed_lines (s : Session) (ls : List (Nat × String)) :
    (s.feedings (s.heard ls)).map Feeding.feed = s.fedLines ls := by
  induction ls generalizing s with
  | nil => rfl
  | cons l ls ih =>
      obtain ⟨n, raw⟩ := l
      rw [heard, feedings, List.map_append, map_feed_line, ← addLine_eq_take, fedLines]
      rcases s.addLine n raw with ⟨s', _ | _⟩
      · rfl
      · exact congrArg _ (ih s')

/-- The entries that calls tell feed what the calls feed. -/
theorem map_feed_calls (s : Session) (calls : List Call) :
    (s.feedings (s.toldAll calls)).map Feeding.feed = s.fedAll calls := by
  induction calls generalizing s with
  | nil => rfl
  | cons c calls ih =>
      have hcall : (s.feedings (s.told c)).map Feeding.feed = s.fed c := by
        cases c with
        | line number raw =>
            rw [fed, ← s.map_feed_line (number, raw)]
            exact congrArg _ (List.append_nil _)
        | label line name => rfl
        | statement st => rfl
        | source text => exact s.map_feed_lines (Text.numberedLines text)
      rw [toldAll, feedings_append, List.map_append, hcall, ← call_fst, ih, fedAll]

variable {registry : Registry} {setting : Setting} {s s' s'' : Session} {fed : List Feed}

/-- The instructions are those of the entries, at consecutive addresses. -/
theorem Tracks.map_job_feedings (h : Tracks registry setting s fed) (es : List Entry) :
    (s.feedings es).map Feeding.job =
      (Entry.statements es).mapIdx fun i st => (st, setting.addressOf (fed.length + i)) := by
  induction es generalizing s fed with
  | nil => rfl
  | cons e es ih =>
      have hrest := ih (h.take e)
      rw [feedings, List.map_append, hrest, Entry.statements_cons]
      cases e.statement? with
      | none => simp
      | some st => simp [Feeding.job, h.address_eq, Nat.add_assoc, Nat.add_comm 1]

/-- An instruction is fed to a session whose labels are labels of the whole run. -/
theorem Tracks.le_of_mem_feedings (h : Tracks registry setting s fed) {es : List Entry}
    {f : Feeding} (hf : f ∈ s.feedings es) :
    f.before.registry = registry ∧ f.before.symbols.Le (s.takeAll es).1.symbols := by
  induction es generalizing s fed with
  | nil => cases hf
  | cons e es ih =>
      rcases List.mem_append.mp hf with hf | hf
      · obtain ⟨st, -, rfl⟩ := List.mem_map.mp hf
        exact ⟨h.registry_eq, le_takeAll s (e :: es)⟩
      · exact ih (h.take e) hf

/-! ### What one pass makes of an instruction that was fed -/

/-- What becomes of the instruction when the labels are those of `symbols`. -/
def Feeding.result (registry : Registry) (symbols : SymbolTable) (f : Feeding) :
    Except LineFault Item := onePass registry symbols f.statement f.before.address

/-- An instruction is accepted and then refused only if it waits in between. -/
theorem Feeding.waits_of_refused {f : Feeding} {symbols : SymbolTable}
    (hle : f.before.symbols.Le symbols)
    (hrefused : (f.result f.before.registry symbols).isOk = false) :
    f.answer.isOk = f.waits := by
  rw [result, onePass] at hrefused
  rw [answer, feed, Session.feed, (f.before.adds_addStatement f.statement).answer_eq, waits]
  cases hd : f.before.registry.dispatch f.before.symbols f.statement.mnemonic
      f.statement.operands with
  | error e => rfl
  | ok r =>
      cases r with
      | unresolved l => rfl
      | resolved op =>
          -- it had a word when it was fed, and keeps it
          have hs := Registry.dispatch_of_le hle (by rw [hd]; exact settled_resolved op)
          rw [hs, hd] at hrefused
          cases hrefused

theorem finish_eq_map_feedings (registry : Registry) (setting : Setting) (es : List Entry) :
    let s := ((start registry setting).takeAll es).1
    s.finish = ((start registry setting).feedings es).map (Feeding.result registry s.symbols) := by
  intro s
  have hjobs := (tracks_start registry setting).map_job_feedings es
  have hresult : Feeding.result registry s.symbols =
      (fun j => onePass registry s.symbols j.1 j.2) ∘ Feeding.job := rfl
  rw [finish_takeAll, hresult, ← List.map_map, hjobs]
  apply List.ext_getElem?
  intro i
  simp [s, Function.comp_def]

/-! ### What a session that is fed logs -/

/-- The session `s` becomes `s'` when it is fed `fed`, and logs `new`. -/
structure Grows (s s' : Session) (fed : List Feeding) (new : List Event) : Prop where
  events_eq : s'.events.toList = s.events.toList ++ new
  kinds : ∀ e ∈ new, e.isDeclaration ∨ e.deferral?.isSome
  size_eq : s'.symbols.size = s.symbols.size + new.countP Event.isDeclaration
  deferrals_eq : new.filterMap Event.deferral? = (fed.filter Feeding.waits).map Feeding.place
  waiting_eq : s'.waiting.toList.map Waiting.job =
    s.waiting.toList.map Waiting.job ++ (fed.filter Feeding.waits).map Feeding.job

theorem Grows.refl (s : Session) : Grows s s [] [] := by
  constructor <;> simp

theorem Grows.trans {fed fed' : List Feeding} {new new' : List Event} (h : Grows s s' fed new)
    (h' : Grows s' s'' fed' new') : Grows s s'' (fed ++ fed') (new ++ new') where
  events_eq := by rw [h'.events_eq, h.events_eq, List.append_assoc]
  kinds := List.forall_mem_append.mpr ⟨h.kinds, h'.kinds⟩
  size_eq := by rw [h'.size_eq, h.size_eq, List.countP_append, Nat.add_assoc]
  deferrals_eq := by
    rw [List.filterMap_append, h.deferrals_eq, h'.deferrals_eq, List.filter_append,
      List.map_append]
  waiting_eq := by
    rw [h'.waiting_eq, h.waiting_eq, List.filter_append, List.map_append, List.append_assoc]

theorem grows_addStatement (s : Session) (st : Statement) :
    ∃ new, Grows s (s.addStatement st).1 [⟨s, st⟩] new := by
  obtain ⟨-, hsymbols, -, hleaves, -⟩ := s.adds_addStatement st
  generalize hd : s.registry.dispatch s.symbols st.mnemonic st.operands = r at hleaves
  cases hleaves with
  | word _ hwaiting hevents =>
      have hwaits : Feeding.waits ⟨s, st⟩ = false := by rw [Feeding.waits, hd]
      refine ⟨[], ?_⟩
      constructor <;> simp [hsymbols, hwaiting, hevents, hwaits]
  | @record l _ hwaiting hevents =>
      have hwaits : Feeding.waits ⟨s, st⟩ = true := by rw [Feeding.waits, hd]
      refine ⟨[.deferred st.line l s.address], ?_⟩
      constructor <;>
        simp [hsymbols, hwaiting, hevents, hwaits, Event.isDeclaration, Event.deferral?,
          Feeding.place, Feeding.job, Waiting.job]
  | fault _ hwaiting hevents =>
      have hwaits : Feeding.waits ⟨s, st⟩ = false := by rw [Feeding.waits, hd]
      refine ⟨[], ?_⟩
      constructor <;> simp [hsymbols, hwaiting, hevents, hwaits]

theorem grows_declareLabel (s : Session) (line : Nat) (name : String) :
    ∃ new, Grows s (s.declareLabel line name).1 [] new := by
  rcases s.declareLabel_cases line name with ⟨y, -, hs⟩ | ⟨-, t, -, ht, hs⟩
  · rw [hs]
    exact ⟨[], .refl s⟩
  · rw [hs]
    refine ⟨[.labelDeclared line name s.address], ?_⟩
    constructor <;> simp [log, SymbolTable.size, ht, Event.isDeclaration, Event.deferral?]

/-- **The step.**  An entry keeps the log, the labels and the records in step. -/
theorem grows_take (s : Session) (e : Entry) :
    ∃ new, Grows s (s.take e).1 (e.statement?.toList.map (⟨s, ·⟩)) new := by
  obtain ⟨number, said⟩ := e
  cases said with
  | error f => exact ⟨[], .refl s⟩
  | ok l =>
      cases l with
      | blank => exact ⟨[], .refl s⟩
      | label name => exact s.grows_declareLabel number name
      | statement st => exact s.grows_addStatement st

/-- **The run.**  So do entries that are taken in order. -/
theorem grows_takeAll (s : Session) (es : List Entry) :
    ∃ new, Grows s (s.takeAll es).1 (s.feedings es) new := by
  induction es generalizing s with
  | nil => exact ⟨[], .refl s⟩
  | cons e es ih =>
      obtain ⟨new, h⟩ := s.grows_take e
      obtain ⟨new', h'⟩ := ih (s.take e).1
      exact ⟨new ++ new', h.trans h'⟩

/-! ### The account -/

/-- The events before the end of the first pass and those after it fit the instructions and their
results. -/
structure Accounts (outcomes : List (Feeding × Except LineFault Item)) (before after : List Event) :
    Prop where
  before_kinds : ∀ e ∈ before, e.isDeclaration ∨ e.deferral?.isSome
  after_kinds : ∀ e ∈ after, e.resolution?.isSome
  /-- The deferred instructions are those that wait. -/
  deferrals_eq : before.filterMap Event.deferral? =
    (outcomes.filter fun o => o.1.waits).map fun o => o.1.place
  /-- The resolved instructions are those among them that have a word in the end. -/
  resolutions_eq : after.filterMap Event.resolution? =
    (outcomes.filter fun o => o.1.waits && o.2.isOk).map fun o => o.1.place
  sublist : List.Sublist (after.filterMap Event.resolution?) (before.filterMap Event.deferral?)
  item_place : ∀ o ∈ outcomes, ∀ a, o.2 = .ok a → (a.line, a.address) = o.1.place
  /-- What is not resolved was accepted when it was fed, and is refused in the end. -/
  balance : (after.filterMap Event.resolution?).length +
    outcomes.countP (fun o => o.1.answer.isOk && !o.2.isOk) =
      (before.filterMap Event.deferral?).length

/-- Only one event ends the first pass. -/
theorem Accounts.countP_isScanComplete {outcomes : List (Feeding × Except LineFault Item)}
    {before after : List Event} (h : Accounts outcomes before after)
    (instructions labels deferred : Nat) :
    (before ++ .scanComplete instructions labels deferred :: after).countP Event.isScanComplete = 1
    := by
  have hbefore : before.countP Event.isScanComplete = 0 := by
    apply List.countP_eq_zero.mpr
    intro e he hscan
    have hkind := h.before_kinds e he
    cases e <;> simp [Event.isScanComplete, Event.isDeclaration, Event.deferral?] at hscan hkind
  have hafter : after.countP Event.isScanComplete = 0 := by
    apply List.countP_eq_zero.mpr
    intro e he hscan
    have hkind := h.after_kinds e he
    cases e <;> simp [Event.isScanComplete, Event.resolution?] at hscan hkind
  rw [List.countP_append, hbefore, List.countP_cons_of_pos rfl, hafter]

/-- The second pass logs the instructions that waited and have a word in the end. -/
theorem Grows.events_finish {fed : List Feeding} {new : List Event}
    (h : Grows (start registry setting) s fed new) :
    (s.waiting.toList.flatMap fun w => (w.resolve registry s.symbols).2) =
      (fed.filter fun f => f.waits && (f.result registry s.symbols).isOk).map
        fun f => .resolved f.statement.line f.before.address := by
  have hwaiting : s.waiting.toList.map Waiting.job =
      (fed.filter Feeding.waits).map Feeding.job := h.waiting_eq
  have hand : (fun f : Feeding => f.waits && (f.result registry s.symbols).isOk) =
      fun f => (f.result registry s.symbols).isOk && f.waits := by
    funext f
    exact Bool.and_comm _ _
  rw [Waiting.flatMap_logged, hwaiting, List.filter_map, List.map_map, List.filter_filter, hand]
  rfl

/-- Of the instructions that wait, those without a word in the end were accepted and are refused. -/
theorem length_filter_waits {fed : List Feeding} {symbols : SymbolTable}
    (hfed : ∀ f ∈ fed, f.before.registry = registry ∧ f.before.symbols.Le symbols) :
    (fed.filter fun f => f.waits && (f.result registry symbols).isOk).length +
        fed.countP (fun f => f.answer.isOk && !(f.result registry symbols).isOk) =
      (fed.filter Feeding.waits).length := by
  have hcount : fed.countP (fun f => f.answer.isOk && !(f.result registry symbols).isOk) =
      fed.countP (fun f => f.waits && !(f.result registry symbols).isOk) := by
    apply List.countP_congr
    intro f hf
    obtain ⟨hregistry, hle⟩ := hfed f hf
    cases hr : (f.result registry symbols).isOk with
    | true => simp
    | false =>
        rw [← hregistry] at hr
        rw [Feeding.waits_of_refused hle hr]
  rw [hcount, ← List.countP_eq_length_filter, ← List.countP_eq_length_filter,
    List.countP_eq_countP_filter_add fed Feeding.waits fun f => (f.result registry symbols).isOk,
    List.countP_filter, List.countP_filter]

theorem Grows.accounts {fed : List Feeding} {new : List Event}
    (h : Grows (start registry setting) s fed new)
    (hfed : ∀ f ∈ fed, f.before.registry = registry ∧ f.before.symbols.Le s.symbols) :
    Accounts (fed.zip (fed.map (Feeding.result registry s.symbols))) new
      (s.waiting.toList.flatMap fun w => (w.resolve registry s.symbols).2) := by
  have hresolutions :
      (s.waiting.toList.flatMap fun w => (w.resolve registry s.symbols).2).filterMap
        Event.resolution? =
        (fed.filter fun f => f.waits && (f.result registry s.symbols).isOk).map Feeding.place := by
    rw [h.events_finish, List.filterMap_map]
    exact congrFun List.filterMap_eq_map _
  rw [← List.map_prod_left_eq_zip]
  refine ⟨h.kinds, ?_, ?_, ?_, ?_, ?_, ?_⟩
  · intro e he
    rw [h.events_finish] at he
    obtain ⟨f, -, rfl⟩ := List.mem_map.mp he
    rfl
  · rw [h.deferrals_eq, List.filter_map, List.map_map]
    rfl
  · rw [hresolutions, List.filter_map, List.map_map]
    rfl
  · rw [hresolutions, h.deferrals_eq]
    apply List.Sublist.map
    apply List.monotone_filter_right
    intro f hf
    exact (Bool.and_eq_true_iff.mp hf).1
  · intro o ho a ha
    obtain ⟨f, -, rfl⟩ := List.mem_map.mp ho
    obtain ⟨op, -, rfl⟩ := onePass_eq_ok_iff.mp ha
    rfl
  · rw [hresolutions, h.deferrals_eq, List.length_map, List.length_map, List.countP_map]
    exact length_filter_waits hfed

/-- The numbers that end the first pass are those of the results and of the events before them. -/
theorem Grows.finalEvents_counts {fed : List Feeding} {new : List Event} {feeds : List Feed}
    (h : Grows (start registry setting) s fed new) (ht : Tracks registry setting s feeds) :
    s.finalEvents = new ++
      .scanComplete s.finish.length (new.countP Event.isDeclaration)
        (new.filterMap Event.deferral?).length ::
      s.waiting.toList.flatMap fun w => (w.resolve registry s.symbols).2 := by
  have hslots : s.slots.size = s.finish.length := by
    rw [ht.size_eq, ht.finish_eq, onePassAll, List.length_mapIdx]
  have hlabels : s.symbols.size = new.countP Event.isDeclaration :=
    h.size_eq.trans (Nat.zero_add _)
  have hdeferred : s.waiting.size = (new.filterMap Event.deferral?).length := by
    have hlength := congrArg List.length h.waiting_eq
    rw [h.deferrals_eq, List.length_map]
    simpa [start] using hlength
  rw [s.finalEvents_eq, h.events_eq, hslots, hlabels, hdeferred, ht.registry_eq]
  rfl

/-- **The account.**  A session is given any calls.  Among the events of both passes there is one
that ends the first pass; it counts the results, the declarations before it and the deferrals before
it.  Before it there are declarations and deferrals only, and after it resolutions only.  With every
instruction that the calls have fed beside its result, the deferrals are those of the instructions
that had to wait, in order, and the resolutions are those of the ones among them that have an item
in the end, which lies at the address of the event.  The others are the instructions that were
accepted when they were fed and are refused in the end. -/
theorem finalEvents_account (registry : Registry) (setting : Setting) (calls : List Call) :
    let first := start registry setting
    let s := (first.callAll calls).1
    let fed := first.feedings (first.toldAll calls)
    fed.map Feeding.feed = first.fedAll calls ∧
    s.finish.length = fed.length ∧
    s.finalEvents.countP Event.isScanComplete = 1 ∧
    ∃ before after,
      s.finalEvents = before ++ .scanComplete s.finish.length (before.countP Event.isDeclaration)
        (before.filterMap Event.deferral?).length :: after ∧
      Accounts (fed.zip s.finish) before after := by
  intro first s fed
  have hs : s = (first.takeAll (first.toldAll calls)).1 := first.callAll_fst calls
  have hfinish : s.finish = fed.map (Feeding.result registry s.symbols) := by
    rw [hs]
    exact finish_eq_map_feedings registry setting (first.toldAll calls)
  obtain ⟨new, hgrows⟩ := first.grows_takeAll (first.toldAll calls)
  rw [← hs] at hgrows
  have hevents := hgrows.finalEvents_counts ((tracks_start registry setting).callAll calls)
  have haccounts := hgrows.accounts fun f hf => by
    rw [hs]
    exact (tracks_start registry setting).le_of_mem_feedings hf
  refine ⟨first.map_feed_calls calls, by rw [hfinish, List.length_map], ?_, new, _, hevents, ?_⟩
  · rw [hevents]
    exact haccounts.countP_isScanComplete _ _ _
  · rw [hfinish]
    exact haccounts

end Session

end Asm32
