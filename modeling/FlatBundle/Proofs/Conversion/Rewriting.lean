/-
  FlatBundle.Proofs.Conversion.Rewriting
  ──────────────────────────────────────
  **CONVERTING A VALUE IS REWRITING IT.**

  Conversion of one value asks for the values of other symbols in the middle of
  the walk.  What it leaves behind is described from the end: `Run.Always` holds of
  what is true of every settled run to come.  `Run.Converts` says of a piece of a
  run that every value asked for in it is complete by then, and was asked for by
  way of the names that the piece was to deal with.

  `ConvertsTo` states of a step, from any settled run after `start`, that its
  result is given by a plain function of the final table.  It is closed under the
  ways in which the walk is put together, so the walk is followed case by case
  (`Value.convertsTo`).
-/
import FlatBundle.Proofs.Conversion.Replacement

namespace FlatBundle

variable {α β : Type} {host : Host} {root : String} {exported : List SymbolId}

/-! ## §1. What a piece of a run converts -/

/-- The property holds of the table of every settled run that comes later. -/
def Run.Always (host : Host) (root : String) (exported : List SymbolId) (run : Run)
    (p : SymbolTable → Prop) : Prop :=
  ∀ later : Run, later.Settled host root exported → run.Precedes later → p later.symbols

/-- The value is the rewritten value of the symbol's declaration, the references in it
have been dealt with, and the identity of the symbol is stored. -/
structure SymbolTable.Complete (table : SymbolTable) (sources : Sources)
    (exported : List SymbolId) (id : SymbolId) (value : Option Value) : Prop where
  stored : (table.canonical? id).isSome
  value : value = (table.declared? sources id).map fun declared =>
    declared.2.rewrite sources (table.handle exported) declared.1
  reached : ∀ module declared, table.declared? sources id = some (module, declared) →
    ∀ target ∈ declared.targets sources module, table.Reached exported target

/-- A piece of a run in which values are asked for, all by way of the symbols that
`asked` says. -/
structure Run.Converts (host : Host) (root : String) (exported : List SymbolId)
    (asked : SymbolTable → SymbolId → Prop) (run later : Run) : Prop where
  settled : later.Settled host root exported
  precedes : run.Precedes later
  /-- A value that had been asked for before is left alone. -/
  kept : ∀ id, run.symbols.isReferenced id = true →
    later.symbols.value? id = run.symbols.value? id
  complete : ∀ id, later.symbols.isReferenced id = true → run.symbols.isReferenced id = true
    ∨ later.Always host root exported fun table =>
        table.Complete (host.sources root) exported id (later.symbols.value? id)
          ∧ ∃ first, asked table first
            ∧ Relation.ReflTransGen (table.Needs (host.sources root) exported) first id

/-- The symbols that references to some names ask for. -/
def asks (exported : List SymbolId) (targets : List Target) (table : SymbolTable)
    (id : SymbolId) : Prop :=
  ∃ target ∈ targets, table.needed? exported target = some id

theorem Run.Always.mono {run later : Run} {p : SymbolTable → Prop}
    (h : run.Always host root exported p) (precedes : run.Precedes later) :
    later.Always host root exported p :=
  fun final settled hlater => h final settled (precedes.trans hlater)

namespace Run.Converts

variable {asked asked' : SymbolTable → SymbolId → Prop}

theorem of_prepares {run later : Run} (settled : later.Settled host root exported)
    (prepares : run.Prepares later) : run.Converts host root exported asked later where
  settled := settled
  precedes := prepares.precedes
  kept := fun id _ => prepares.value id
  complete := fun id hid => Or.inl ((prepares.referenced id).symm.trans hid)

theorem mono {run later : Run} (h : run.Converts host root exported asked later)
    (weaker : ∀ final : Run, final.Settled host root exported → later.Precedes final →
      ∀ id, asked final.symbols id → asked' final.symbols id) :
    run.Converts host root exported asked' later where
  settled := h.settled
  precedes := h.precedes
  kept := h.kept
  complete := by
    intro id hid
    rcases h.complete id hid with old | new
    · exact Or.inl old
    · refine Or.inr fun final settled precedes => ?_
      obtain ⟨complete, first, hfirst, chain⟩ := new final settled precedes
      exact ⟨complete, first, weaker final settled precedes first hfirst, chain⟩

theorem trans {first second third : Run} (h : first.Converts host root exported asked second)
    (h' : second.Converts host root exported asked third) :
    first.Converts host root exported asked third where
  settled := h'.settled
  precedes := h.precedes.trans h'.precedes
  kept := fun id hid =>
    (h'.kept id (h.precedes.referenced id hid)).trans (h.kept id hid)
  complete := by
    intro id hid
    -- what the second piece did not ask for, the first has asked for or found
    rcases h'.complete id hid with old | new
    · rcases h.complete id old with older | new
      · exact Or.inl older
      · rw [h'.kept id old]
        exact Or.inr (new.mono h'.precedes)
    · exact Or.inr new

/-- A piece that only gets ready comes first. -/
theorem prepare {first second third : Run} (prepares : first.Prepares second)
    (settled : second.Settled host root exported)
    (h : second.Converts host root exported asked third) :
    first.Converts host root exported asked third :=
  (of_prepares settled prepares).trans h

end Run.Converts

/-! ## §2. Steps that rewrite -/

/-- From any settled run after `start`, the step deals with the references to
`targets`, and its result is what `expected` makes of the final table. -/
def ConvertsTo (host : Host) (root : String) (exported : List SymbolId) (start : Run)
    (x : ConvertM α) (targets : List Target) (expected : SymbolTable → α) : Prop :=
  ∀ run : Run, run.Settled host root exported → start.Precedes run →
    ConvertM.Yields x run fun a later =>
      run.Converts host root exported (asks exported targets) later
        ∧ later.Always host root exported fun table =>
            a = expected table ∧ ∀ target ∈ targets, table.Reached exported target

namespace ConvertsTo

variable {start : Run} {targets targets' : List Target}

theorem pure (a : α) : ConvertsTo host root exported start (Pure.pure a) [] fun _ => a := by
  intro run settled _
  refine ConvertM.Yields.pure ⟨Run.Converts.of_prepares settled (Run.Prepares.refl run), ?_⟩
  intro final _ _
  exact ⟨rfl, fun target htarget => absurd htarget List.not_mem_nil⟩

/-- A step after a step: the second result is a function of the first. -/
theorem seq {x : ConvertM α} {f : α → ConvertM β} {expected : SymbolTable → α}
    {expected' : α → SymbolTable → β}
    (h : ConvertsTo host root exported start x targets expected)
    (h' : ∀ a, ConvertsTo host root exported start (f a) targets' (expected' a)) :
    ConvertsTo host root exported start (x >>= f) (targets ++ targets')
      fun table => expected' (expected table) table := by
  intro run settled precedes
  refine ConvertM.Yields.bind (h run settled precedes) ?_
  intro a middle hstep
  obtain ⟨converts, always⟩ := hstep
  refine (h' a middle converts.settled (precedes.trans converts.precedes)).mono ?_
  intro b later hstep
  obtain ⟨converts', always'⟩ := hstep
  refine ⟨Run.Converts.trans (converts.mono ?_) (converts'.mono ?_), ?_⟩
  · intro final _ _ id hstep
    obtain ⟨target, htarget, hid⟩ := hstep
    exact ⟨target, List.mem_append_left _ htarget, hid⟩
  · intro final _ _ id hstep
    obtain ⟨target, htarget, hid⟩ := hstep
    exact ⟨target, List.mem_append_right _ htarget, hid⟩
  · intro final hfinal hprecedes
    -- both results are compared in the last table, which comes after both steps
    obtain ⟨ha, reached⟩ := always final hfinal (converts'.precedes.trans hprecedes)
    obtain ⟨hb, reached'⟩ := always' final hfinal hprecedes
    constructor
    · show b = expected' (expected final.symbols) final.symbols
      rw [← ha]
      exact hb
    intro target htarget
    rcases List.mem_append.1 htarget with htarget | htarget
    · exact reached target htarget
    · exact reached' target htarget

/-- The last step of a walk: its result is put into its place. -/
theorem map {x : ConvertM α} {expected : SymbolTable → α}
    (h : ConvertsTo host root exported start x targets expected) (g : α → β) :
    ConvertsTo host root exported start (x >>= fun a => Pure.pure (g a)) targets
      fun table => g (expected table) := by
  have both := h.seq fun a => ConvertsTo.pure (g a)
  rw [List.append_nil] at both
  exact both

end ConvertsTo

/-! ## §3. References that are met -/

/-- `convertSymbol` converts the value of any symbol's identity, in settled runs
after `start`. -/
def ConvertsSymbols (host : Host) (root : String) (exported : List SymbolId) (start : Run)
    (convertSymbol : SymbolId → ConvertM Unit) : Prop :=
  ∀ run : Run, ∀ id, run.Settled host root exported → start.Precedes run →
    id < run.symbols.size → run.symbols.IsPlaced root id →
    ConvertM.Yields (convertSymbol id) run fun _ later =>
      run.Converts host root exported
          (fun table first => first = (table.canonicalize exported id).symbol) later
        ∧ later.symbols.isReferenced (run.symbols.canonicalize exported id).symbol = true

/-- What a settled run says of a symbol is what any later one says. -/
theorem Run.Settled.grows {run final : Run} (h : run.Settled host root exported)
    (h' : final.Settled host root exported) (precedes : run.Precedes final) {id : Nat}
    (bound : id < run.symbols.size) :
    final.symbols.key? id = run.symbols.key? id
      ∧ final.symbols.origin? id = run.symbols.origin? id
      ∧ final.symbols.canonicalize exported id = run.symbols.canonicalize exported id :=
  ⟨precedes.grows.key? id bound,
    SymbolTable.origin?_grows precedes.grows h.sound.linked bound,
    SymbolTable.canonicalize_grows precedes.grows h.sound.linked h'.sound.linked h.lt_size bound⟩

section

variable {start : Run} {convertSymbol : SymbolId → ConvertM Unit}

/-- **A reference to a name of the library** becomes what stands for the name in
the final table. -/
theorem convertsTo_reference
    (symbols : ConvertsSymbols host root exported start convertSymbol) {module : String}
    (placed : IsModule root module) (name : String) :
    ConvertsTo host root exported start
      (do referenceTo convertSymbol (← liftM (settledSymbol module name)))
      [(module, name)] fun table => table.handle exported (module, name) := by
  intro run settled precedes
  refine ConvertM.Yields.bind (ConvertM.Yields.lift (settled.settledSymbol module name)) ?_
  intro id ready hstep
  obtain ⟨settled₁, prepares, key, known⟩ := hstep
  have bound := SymbolTable.lt_size_of_key? key
  have stored := settled₁.canonical?_eq known
  obtain ⟨origin, horigin⟩ := SymbolTable.exists_origin?_of_lt settled₁.sound.linked bound
  -- whatever comes later, the name stands for this symbol
  have stays : ∀ final : Run, final.Settled host root exported → ready.Precedes final →
      final.symbols.handle exported (module, name)
          = (if ModulePath.isRelative origin.1 then
              .ofReference (.bundled (ready.symbols.canonicalize exported id).symbol)
            else .imported origin.1 origin.2)
        ∧ final.symbols.needed? exported (module, name)
          = (if ModulePath.isRelative origin.1 then
              some (ready.symbols.canonicalize exported id).symbol else none)
        ∧ (final.symbols.lookup module name).isSome := by
    intro final hfinal hprecedes
    obtain ⟨hkey, hdecl, hcanon⟩ := settled₁.grows hfinal hprecedes bound
    have key' := hkey.trans key
    have horigin' := hdecl.trans horigin
    refine ⟨?_, ?_, ?_⟩
    · rw [SymbolTable.handle, SymbolTable.replacement_eq _ key' horigin', hcanon]
    · rw [SymbolTable.needed?_eq key' horigin', hcanon]
    · rw [(final.symbols.lookup_eq_some_iff_key? module name id).2 key']
      rfl
  -- the identity has been stored, so it is read and not looked for
  have identity : ConvertM.Yields (settledIdentity id) ready fun canonical run' =>
      canonical = ready.symbols.canonicalize exported id ∧ ready = run' := by
    refine ⟨_, _, ?_, rfl, rfl⟩
    show (ready.symbols.canonical id, ready) = _
    rw [SymbolTable.canonical_of_canonical? stored]
  refine ConvertM.Yields.bind identity ?_
  intro _ _ hstep
  obtain ⟨rfl, rfl⟩ := hstep
  refine ConvertM.Yields.bindGet ?_
  have declaration : ((ready.symbols.get?
      (ready.symbols.canonicalize exported id).declaration).getD default).module = origin.1
      ∧ ((ready.symbols.get?
        (ready.symbols.canonicalize exported id).declaration).getD default).name = origin.2 := by
    rw [SymbolTable.declaration_canonicalize]
    obtain ⟨symbol, hs, hsame⟩ := Option.map_eq_some_iff.1 horigin
    rw [hs, ← hsame]
    exact ⟨rfl, rfl⟩
  -- inside the library the value is converted too; outside it is left as an import
  by_cases inside : ModulePath.isRelative origin.1 = true
  · simp only [inside, if_true] at stays
    simp only [declaration, inside, if_true]
    refine ConvertM.Yields.bind (symbols ready id settled₁ (precedes.trans prepares.precedes) bound
      ⟨module, ⟨name, key⟩, placed⟩) ?_
    intro _ later hstep
    obtain ⟨converts, marked⟩ := hstep
    refine ConvertM.Yields.pure ⟨Run.Converts.prepare prepares settled₁ (converts.mono ?_), ?_⟩
    · rintro final hfinal hprecedes first rfl
      have hready := converts.precedes.trans hprecedes
      refine ⟨(module, name), List.mem_cons_self, ?_⟩
      rw [(stays final hfinal hready).2.1, (settled₁.grows hfinal hready bound).2.2]
    · intro final hfinal hprecedes
      obtain ⟨hhandle, hneeded, hfound⟩ := stays final hfinal (converts.precedes.trans hprecedes)
      refine ⟨hhandle.symm, ?_⟩
      intro target htarget
      rw [List.mem_singleton.1 htarget]
      refine ⟨hfound, fun other hother => ?_⟩
      rw [hneeded] at hother
      rw [← Option.some.inj hother]
      exact hprecedes.referenced _ marked
  · simp only [inside] at stays
    simp only [declaration, inside]
    refine ConvertM.Yields.pure ⟨Run.Converts.of_prepares settled₁ prepares, ?_⟩
    intro final hfinal hprecedes
    obtain ⟨hhandle, hneeded, hfound⟩ := stays final hfinal hprecedes
    refine ⟨hhandle.symm, ?_⟩
    intro target htarget
    rw [List.mem_singleton.1 htarget]
    refine ⟨hfound, fun other hother => ?_⟩
    rw [hneeded] at hother
    cases hother

/-- A look at the library, which has one answer, comes before a step. -/
theorem ConvertsTo.read {γ : Type} {x : RunM γ} {answer : γ} {f : γ → ConvertM β}
    {targets : List Target} {expected : SymbolTable → β}
    (look : ∀ run : Run, run.Settled host root exported → RunM.Ensures x run fun a later =>
      a = answer ∧ later.Settled host root exported ∧ run.Prepares later)
    (h : ConvertsTo host root exported start (f answer) targets expected) :
    ConvertsTo host root exported start (liftM x >>= f) targets expected := by
  intro run settled precedes
  refine ConvertM.Yields.bind (ConvertM.Yields.lift (look run settled)) ?_
  intro _ middle hstep
  obtain ⟨rfl, settled', prepares⟩ := hstep
  refine (h middle settled' (precedes.trans prepares.precedes)).mono ?_
  intro b later hstep
  obtain ⟨converts, always⟩ := hstep
  exact ⟨Run.Converts.prepare prepares settled' converts, always⟩

theorem Run.Settled.declares {run : Run} (h : run.Settled host root exported)
    (module name : String) :
    RunM.Ensures (FlatBundle.declares module name) run fun answer later =>
      answer = (host.sources root).declares module name ∧ later.Settled host root exported
        ∧ run.Prepares later := by
  refine RunM.Ensures.bind (h.document module) ?_
  intro document later hstep
  obtain ⟨rfl, settled, same⟩ := hstep
  have prepares := Run.Prepares.of_symbols_eq same
  cases hd : host.sources root module with
  | none => exact ⟨by rw [Sources.declares, hd]; rfl, settled, prepares⟩
  | some document => exact ⟨by rw [Sources.declares, hd]; rfl, settled, prepares⟩

/-! ## §4. The walk over a value -/

variable (symbols : ConvertsSymbols host root exported start convertSymbol) {module : String}
variable (placed : IsModule root module)

include symbols placed

set_option linter.unusedSectionVars false

mutual

/-- **Converting a value is rewriting it** with what stands for references in the
final table. -/
theorem Value.convertsTo : ∀ value : Value,
    ConvertsTo host root exported start (value.convert convertSymbol module)
      (value.targets (host.sources root) module)
      fun table => value.rewrite (host.sources root) (table.handle exported) module
  | .null | .bool _ | .num _ | .str _ => ConvertsTo.pure _
  | .arr items => by
      have walk := (Convert.list_convertsTo items).map Value.arr
      simpa only [Value.convert, Value.targets, Value.rewrite] using walk
  | .obj entries => by
      have walk := (Convert.entries_convertsTo entries).map Value.obj
      simpa only [Value.convert, Value.targets, Value.rewrite] using walk
  | .node node => Node.convertsTo node

theorem Node.convertsTo : ∀ node : Node,
    ConvertsTo host root exported start (node.convert convertSymbol module)
      (node.targets (host.sources root) module)
      fun table => node.rewrite (host.sources root) (table.handle exported) module
  | .cls base arity decorators members statics => by
      have walk :=
        (Convert.members?_convertsTo members).seq fun members =>
          (Convert.statics?_convertsTo statics).seq fun statics =>
            (Convert.value?_convertsTo base).seq fun base =>
              (Convert.list?_convertsTo decorators).map fun decorators =>
                Value.node (.cls base arity decorators members statics)
      simpa only [Node.convert, Node.targets, Node.rewrite] using walk
  | .iface => ConvertsTo.pure _
  | .func parameters defaults body => by
      have walk :=
        (Convert.list?_convertsTo defaults).seq fun defaults =>
          (Convert.value?_convertsTo body).map fun body =>
            Value.node (.func parameters defaults body)
      simpa only [Node.convert, Node.targets, Node.rewrite] using walk
  | .err message line character context _ => ConvertsTo.pure _
  | .ref reference => Reference.convertsTo reference
  | .binary operator left right => by
      have walk :=
        (Value.convertsTo left).seq fun left =>
          (Value.convertsTo right).map fun right => Value.node (.binary operator left right)
      simpa only [Node.convert, Node.targets, Node.rewrite] using walk
  | .index expression index => by
      have walk :=
        (Value.convertsTo expression).seq fun expression =>
          (Value.convertsTo index).map fun index => Value.node (.index expression index)
      simpa only [Node.convert, Node.targets, Node.rewrite] using walk
  | .pre operator operand => by
      have walk := (Value.convertsTo operand).map fun operand => Value.node (.pre operator operand)
      simpa only [Node.convert, Node.targets, Node.rewrite] using walk
  | .cond condition thenValue elseValue => by
      have walk :=
        (Value.convertsTo condition).seq fun condition =>
          (Value.convertsTo thenValue).seq fun thenValue =>
            (Value.convertsTo elseValue).map fun elseValue =>
              Value.node (.cond condition thenValue elseValue)
      simpa only [Node.convert, Node.targets, Node.rewrite] using walk
  | .call callee arguments => by
      have walk :=
        (Value.convertsTo callee).seq fun callee =>
          (Convert.list?_convertsTo arguments).map fun arguments =>
            Value.node (.call callee arguments)
      simpa only [Node.convert, Node.targets, Node.rewrite] using walk
  | .construct callee arguments => by
      have walk :=
        (Value.convertsTo callee).seq fun callee =>
          (Convert.list?_convertsTo arguments).map fun arguments =>
            Value.node (.construct callee arguments)
      simpa only [Node.convert, Node.targets, Node.rewrite] using walk
  | .select expression member => by
      have walk := (Value.convertsTo expression).map fun expression =>
        Value.node (.select expression member)
      simpa only [Node.convert, Node.targets, Node.rewrite] using walk
  | .spread expression => by
      have walk := (Value.convertsTo expression).map fun expression =>
        Value.node (.spread expression)
      simpa only [Node.convert, Node.targets, Node.rewrite] using walk

theorem Reference.convertsTo : ∀ reference : Reference,
    ConvertsTo host root exported start (reference.convert convertSymbol module)
      (reference.targets (host.sources root) module)
      fun table => reference.rewrite (host.sources root) (table.handle exported) module
  | .global name arguments => by
      have kept := (Convert.list?_convertsTo arguments).map fun arguments =>
        Value.ofReference (.global name arguments)
      simp only [Reference.convert, Reference.targets, Reference.rewrite]
      refine ConvertsTo.read (fun run settled => settled.declares module name) ?_
      split
      · exact convertsTo_reference symbols placed name
      · exact kept
  | .imported specifier name arguments => by
      have kept := (Convert.list?_convertsTo arguments).map fun arguments =>
        Value.ofReference (.imported specifier name arguments)
      simp only [Reference.convert, Reference.targets, Reference.rewrite]
      split
      · exact convertsTo_reference symbols (Or.inl (ModulePath.isNormal_resolve _ _)) name
      · exact kept
  | .default specifier flag arguments => by
      have kept := (Convert.list?_convertsTo arguments).map fun arguments =>
        Value.ofReference (.default specifier flag arguments)
      simp only [Reference.convert, Reference.targets, Reference.rewrite]
      split
      · exact ConvertsTo.pure _
      · exact kept
  | .module specifier => by
      simp only [Reference.convert, Reference.targets, Reference.rewrite]
      split <;> exact ConvertsTo.pure _
  | .bundled id => ConvertsTo.pure _

theorem Member.convertsTo : ∀ member : Member,
    ConvertsTo host root exported start (member.convert convertSymbol module)
      (member.targets (host.sources root) module)
      fun table => member.rewrite (host.sources root) (table.handle exported) module
  | .constructor decorators parameterDecorators parameters => by
      have walk :=
        (Convert.list?_convertsTo decorators).seq fun decorators =>
          (Convert.lists?_convertsTo parameterDecorators).seq fun parameterDecorators =>
            (Convert.list?_convertsTo parameters).map fun parameters =>
              Member.constructor decorators parameterDecorators parameters
      simpa only [Member.convert, Member.targets, Member.rewrite] using walk
  | .method decorators parameterDecorators _ => by
      have walk :=
        (Convert.list?_convertsTo decorators).seq fun decorators =>
          (Convert.lists?_convertsTo parameterDecorators).map fun parameterDecorators =>
            Member.method decorators parameterDecorators none
      simpa only [Member.convert, Member.targets, Member.rewrite] using walk
  | .property decorators => by
      have walk := (Convert.list?_convertsTo decorators).map Member.property
      simpa only [Member.convert, Member.targets, Member.rewrite] using walk

theorem Convert.list_convertsTo : ∀ values : List Value,
    ConvertsTo host root exported start (Convert.list convertSymbol module values)
      (Targets.list (host.sources root) module values)
      fun table => Rewrite.list (host.sources root) (table.handle exported) module values
  | [] => ConvertsTo.pure _
  | value :: rest => by
      have walk :=
        (Value.convertsTo value).seq fun value =>
          (Convert.list_convertsTo rest).map fun rest => value :: rest
      simpa only [Convert.list, Targets.list, Rewrite.list] using walk

theorem Convert.entries_convertsTo : ∀ entries : List (String × Value),
    ConvertsTo host root exported start (Convert.entries convertSymbol module entries)
      (Targets.entries (host.sources root) module entries)
      fun table => Rewrite.entries (host.sources root) (table.handle exported) module entries
  | [] => ConvertsTo.pure _
  | (name, value) :: rest => by
      have walk :=
        (Value.convertsTo value).seq fun value =>
          (Convert.entries_convertsTo rest).map fun rest => (name, value) :: rest
      simpa only [Convert.entries, Targets.entries, Rewrite.entries] using walk

theorem Convert.value?_convertsTo : ∀ value : Option Value,
    ConvertsTo host root exported start (Convert.value? convertSymbol module value)
      (Targets.value? (host.sources root) module value)
      fun table => Rewrite.value? (host.sources root) (table.handle exported) module value
  | none => ConvertsTo.pure _
  | some value => by
      have walk := (Value.convertsTo value).map some
      simpa only [Convert.value?, Targets.value?, Rewrite.value?] using walk

theorem Convert.list?_convertsTo : ∀ values : Option (List Value),
    ConvertsTo host root exported start (Convert.list? convertSymbol module values)
      (Targets.list? (host.sources root) module values)
      fun table => Rewrite.list? (host.sources root) (table.handle exported) module values
  | none => ConvertsTo.pure _
  | some values => by
      have walk := (Convert.list_convertsTo values).map some
      simpa only [Convert.list?, Targets.list?, Rewrite.list?] using walk

theorem Convert.lists?_convertsTo : ∀ lists : Option (List (Option (List Value))),
    ConvertsTo host root exported start (Convert.lists? convertSymbol module lists)
      (Targets.lists? (host.sources root) module lists)
      fun table => Rewrite.lists? (host.sources root) (table.handle exported) module lists
  | none => ConvertsTo.pure _
  | some lists => by
      have walk := (Convert.lists_convertsTo lists).map some
      simpa only [Convert.lists?, Targets.lists?, Rewrite.lists?] using walk

theorem Convert.lists_convertsTo : ∀ lists : List (Option (List Value)),
    ConvertsTo host root exported start (Convert.lists convertSymbol module lists)
      (Targets.lists (host.sources root) module lists)
      fun table => Rewrite.lists (host.sources root) (table.handle exported) module lists
  | [] => ConvertsTo.pure _
  | decorators :: rest => by
      have walk :=
        (Convert.list?_convertsTo decorators).seq fun decorators =>
          (Convert.lists_convertsTo rest).map fun rest => decorators :: rest
      simpa only [Convert.lists, Targets.lists, Rewrite.lists] using walk

theorem Convert.members?_convertsTo : ∀ members : Option (List (String × List Member)),
    ConvertsTo host root exported start (Convert.members? convertSymbol module members)
      (Targets.members? (host.sources root) module members)
      fun table => Rewrite.members? (host.sources root) (table.handle exported) module members
  | none => ConvertsTo.pure _
  | some members => by
      have walk := (Convert.members_convertsTo members).map some
      simpa only [Convert.members?, Targets.members?, Rewrite.members?] using walk

theorem Convert.members_convertsTo : ∀ members : List (String × List Member),
    ConvertsTo host root exported start (Convert.members convertSymbol module members)
      (Targets.members (host.sources root) module members)
      fun table => Rewrite.members (host.sources root) (table.handle exported) module members
  | [] => ConvertsTo.pure _
  | (name, overloads) :: rest => by
      have walk :=
        (Convert.overloads_convertsTo overloads).seq fun overloads =>
          (Convert.members_convertsTo rest).map fun rest => (name, overloads) :: rest
      simpa only [Convert.members, Targets.members, Rewrite.members] using walk

theorem Convert.overloads_convertsTo : ∀ overloads : List Member,
    ConvertsTo host root exported start (Convert.overloads convertSymbol module overloads)
      (Targets.overloads (host.sources root) module overloads)
      fun table => Rewrite.overloads (host.sources root) (table.handle exported) module overloads
  | [] => ConvertsTo.pure _
  | member :: rest => by
      have walk :=
        (Member.convertsTo member).seq fun member =>
          (Convert.overloads_convertsTo rest).map fun rest => member :: rest
      simpa only [Convert.overloads, Targets.overloads, Rewrite.overloads] using walk

theorem Convert.statics?_convertsTo : ∀ statics : Option (List (String × Value)),
    ConvertsTo host root exported start (Convert.statics? convertSymbol module statics)
      (Targets.statics? (host.sources root) module statics)
      fun table => Rewrite.statics? (host.sources root) (table.handle exported) module statics
  | none => ConvertsTo.pure _
  | some statics => by
      have walk := (Convert.statics_convertsTo statics).map some
      simpa only [Convert.statics?, Targets.statics?, Rewrite.statics?] using walk

theorem Convert.statics_convertsTo : ∀ statics : List (String × Value),
    ConvertsTo host root exported start (Convert.statics convertSymbol module statics)
      (Targets.statics (host.sources root) module statics)
      fun table => Rewrite.statics (host.sources root) (table.handle exported) module statics
  | [] => ConvertsTo.pure _
  | (name, value) :: rest => by
      have copied := (Convert.statics_convertsTo rest).map fun rest => (name, value) :: rest
      cases value with
      | node node =>
          cases node with
          | func parameters defaults body =>
              exact (Convert.list?_convertsTo defaults).seq fun defaults =>
                (Convert.value?_convertsTo body).seq fun body =>
                  (Convert.statics_convertsTo rest).map fun rest =>
                    (name, .node (.func parameters defaults body)) :: rest
          | _ => exact copied
      | _ => exact copied

end

end

end FlatBundle
