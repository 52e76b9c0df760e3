/-
  FlatBundle.Proofs.Conversion.Settled
  ────────────────────────────────────
  **THE RUN WHILE VALUES ARE CONVERTED.**

  Once the exports of the root are known, a run is `Settled` between any two steps
  of conversion: no module is being resolved, every identity that has been stored
  is the identity that the table gives now, and the symbols whose values have been
  asked for are identities themselves.

  Conversion gets ready in small steps that ask for no value (`Run.Prepares`):
  exports are resolved, symbols created, identities stored and documents read.
-/
import FlatBundle.Proofs.Export.Tracing

namespace FlatBundle

variable {host : Host} {root : String} {exported : List SymbolId}

/-! ## §1. Settled runs -/

/-- A name by which conversion knows a module: one in normal form, or the name of
the root module. -/
def IsModule (root module : String) : Prop :=
  ModulePath.IsNormal module ∨ module = rootModule root

/-- The symbol is for a name of a module that conversion knows. -/
def SymbolTable.IsPlaced (table : SymbolTable) (root : String) (id : SymbolId) : Prop :=
  ∃ module, table.BelongsTo module id ∧ IsModule root module

/-- What holds of a run between steps of conversion. -/
structure Run.Settled (host : Host) (root : String) (exported : List SymbolId) (run : Run) :
    Prop where
  sound : run.Sound host root
  idle : run.inProgress = []
  rootExports : run.rootExports = exported
  /-- The exports of the root are `exported`. -/
  known : run.resolved.get? (rootModule root) = some exported
  /-- Stored identities are not stale. -/
  settled : ∀ id canonical, run.symbols.canonical? id = some canonical →
    canonical = run.symbols.canonicalize exported id
  /-- The symbols whose values have been asked for are identities. -/
  referenced : ∀ id, run.symbols.isReferenced id = true →
    run.symbols.IsIdentity exported id
      ∧ run.symbols.IsPlaced root (run.symbols.declaration id)
  /-- There is no value that has not been asked for. -/
  unasked : ∀ id, run.symbols.isReferenced id = false → run.symbols.value? id = none
  unnamed : ∀ id, run.symbols.privateName? id = none
  /-- Without cyclic exports, the links are what the documents say. -/
  traced : (host.sources root).Acyclic → run.Traced (host.sources root)

theorem SymbolTable.IsPlaced.grows {before after : SymbolTable} (h : before.Grows after)
    {id : SymbolId} (placed : before.IsPlaced root id) : after.IsPlaced root id := by
  obtain ⟨module, ⟨name, hk⟩, hm⟩ := placed
  exact ⟨module, ⟨name, h.key?_eq_some hk⟩, hm⟩

/-- What a symbol leads to is for a name of a module that conversion knows. -/
theorem Run.Sound.isPlaced {run : Run} (sound : run.Sound host root) {id other : SymbolId}
    (placed : run.symbols.IsPlaced root id) (leads : run.symbols.LeadsTo id other) :
    run.symbols.IsPlaced root other := by
  rcases Relation.ReflTransGen.cases_tail leads with rfl | ⟨middle, -, step⟩
  · exact placed
  · have bound := sound.linked.lt_size_of_exports step
    obtain ⟨module, name, hk⟩ := SymbolTable.exists_key?_of_lt bound
    exact ⟨module, ⟨name, hk⟩, Or.inl (sound.normal middle other module step ⟨name, hk⟩)⟩

theorem Run.Settled.owned {run : Run} (h : run.Settled host root exported) :
    ∀ id ∈ exported, run.symbols.BelongsTo (rootModule root) id :=
  (h.sound.lists _ _ h.known).2

theorem Run.Settled.lt_size {run : Run} (h : run.Settled host root exported) :
    ∀ id ∈ exported, id < run.symbols.size := by
  intro id hid
  obtain ⟨name, hk⟩ := h.owned id hid
  exact SymbolTable.lt_size_of_key? hk

theorem SymbolTable.lt_size_of_canonical? {table : SymbolTable} {id : Nat} {canonical : Canonical}
    (h : table.canonical? id = some canonical) : id < table.size := by
  obtain ⟨symbol, hs, -⟩ := Option.bind_eq_some_iff.1 h
  exact lt_size_of_get? hs

/-- What a run that is settled makes of the identity of an identity. -/
theorem Run.Settled.canonical?_eq {run : Run} (h : run.Settled host root exported) {id : SymbolId}
    (known : (run.symbols.canonical? id).isSome) :
    run.symbols.canonical? id = some (run.symbols.canonicalize exported id) := by
  obtain ⟨canonical, hc⟩ := Option.isSome_iff_exists.1 known
  rw [hc, h.settled id canonical hc]

/-! ## §2. A table with the same links -/

/-- A settled run in which symbols have changed in other things than names and
links. -/
theorem Run.Settled.of_same_links {run : Run} (h : run.Settled host root exported)
    {symbols : SymbolTable} {log : List Step}
    (same : run.symbols.SameLinks symbols)
    (settled : ∀ id canonical, symbols.canonical? id = some canonical →
      canonical = run.symbols.canonicalize exported id)
    (referenced : ∀ id, symbols.isReferenced id = true →
      run.symbols.IsIdentity exported id
        ∧ run.symbols.IsPlaced root (run.symbols.declaration id))
    (unasked : ∀ id, symbols.isReferenced id = false → symbols.value? id = none)
    (unnamed : ∀ id, symbols.privateName? id = none) :
    Run.Settled host root exported { run with symbols := symbols, log := log } := by
  -- with the same links each table has grown out of the other
  have grows := same.grows
  have shrinks := same.symm.grows
  have linked := h.sound.linked
  have linked' := same.linked linked
  refine ⟨h.sound.of_same_links same, h.idle, h.rootExports, h.known, ?_, ?_, unasked, unnamed,
    fun acyclic => (h.traced acyclic).of_same_links h.sound grows same.exports rfl⟩
  · intro id canonical hc
    have bound := Nat.lt_of_lt_of_le (SymbolTable.lt_size_of_canonical? hc) shrinks.size_le
    rw [settled id canonical hc]
    exact (SymbolTable.canonicalize_grows grows linked linked' h.lt_size bound).symm
  · intro id hid
    obtain ⟨identity, placed⟩ := referenced id hid
    refine ⟨identity.grows grows linked linked' h.lt_size, ?_⟩
    show symbols.IsPlaced root (symbols.declaration id)
    rw [SymbolTable.declaration_grows grows linked identity.bound]
    exact placed.grows grows

/-! ## §3. Getting ready -/

/-- The later run has more symbols and links, more values that were asked for, and
more identities stored. -/
structure Run.Precedes (run later : Run) : Prop where
  grows : run.symbols.Grows later.symbols
  referenced : ∀ id, run.symbols.isReferenced id = true → later.symbols.isReferenced id = true
  stored : ∀ id, (run.symbols.canonical? id).isSome → (later.symbols.canonical? id).isSome

theorem Run.Precedes.refl (run : Run) : run.Precedes run :=
  ⟨SymbolTable.Grows.refl _, fun _ h => h, fun _ h => h⟩

theorem Run.Precedes.trans {first second third : Run} (h : first.Precedes second)
    (h' : second.Precedes third) : first.Precedes third :=
  ⟨h.grows.trans h'.grows, fun id hid => h'.referenced id (h.referenced id hid),
    fun id hid => h'.stored id (h.stored id hid)⟩

/-- The step asks for no value and converts none. -/
structure Run.Prepares (run later : Run) : Prop where
  grows : run.symbols.Grows later.symbols
  referenced : ∀ id, later.symbols.isReferenced id = run.symbols.isReferenced id
  value : ∀ id, later.symbols.value? id = run.symbols.value? id
  stored : ∀ id, (run.symbols.canonical? id).isSome → (later.symbols.canonical? id).isSome

theorem Run.Prepares.of_symbols_eq {run later : Run} (same : later.symbols = run.symbols) :
    run.Prepares later := by
  refine ⟨?_, fun id => ?_, fun id => ?_, fun id => ?_⟩ <;> rw [same]
  · exact SymbolTable.Grows.refl _
  · exact fun known => known

theorem Run.Prepares.refl (run : Run) : run.Prepares run :=
  Run.Prepares.of_symbols_eq rfl

theorem Run.Prepares.trans {first second third : Run} (h : first.Prepares second)
    (h' : second.Prepares third) : first.Prepares third :=
  ⟨h.grows.trans h'.grows, fun id => (h'.referenced id).trans (h.referenced id),
    fun id => (h'.value id).trans (h.value id), fun id hid => h'.stored id (h.stored id hid)⟩

theorem Run.Prepares.precedes {run later : Run} (h : run.Prepares later) : run.Precedes later :=
  ⟨h.grows, fun id hid => (h.referenced id).trans hid, h.stored⟩

/-- Steps that only add symbols and links keep the run settled. -/
theorem Run.Settled.of_extends {run later : Run} (h : run.Settled host root exported)
    (sound : later.Sound host root) (symbols : run.symbols.Extends later.symbols)
    (stack : later.inProgress = run.inProgress) (roots : later.rootExports = run.rootExports)
    (resolved : ∀ module ids, run.resolved.get? module = some ids →
      later.resolved.get? module = some ids)
    (traced : (host.sources root).Acyclic → later.Traced (host.sources root)) :
    later.Settled host root exported ∧ run.Prepares later := by
  have grows := symbols.grows
  have linked := h.sound.linked
  refine ⟨⟨sound, stack.trans h.idle, roots.trans h.rootExports, resolved _ _ h.known,
      ?_, ?_, ?_, ?_, traced⟩,
    ⟨grows, symbols.isReferenced, symbols.value?, fun id hid => symbols.canonical? id ▸ hid⟩⟩
  -- a stored identity is an old one, as new symbols have none
  · intro id canonical hc
    rw [symbols.canonical?] at hc
    rw [h.settled id canonical hc]
    exact (SymbolTable.canonicalize_grows grows linked sound.linked h.lt_size
      (SymbolTable.lt_size_of_canonical? hc)).symm
  · intro id hid
    rw [symbols.isReferenced] at hid
    obtain ⟨identity, placed⟩ := h.referenced id hid
    refine ⟨identity.grows grows linked sound.linked h.lt_size, ?_⟩
    rw [SymbolTable.declaration_grows grows linked identity.bound]
    exact placed.grows grows
  · intro id hid
    rw [symbols.value?]
    exact h.unasked id ((symbols.isReferenced id).symm.trans hid)
  · intro id
    rw [symbols.privateName?]
    exact h.unnamed id

/-- It does not matter what the log says. -/
theorem Run.Settled.noted {run : Run} (h : run.Settled host root exported) (log : List Step) :
    Run.Settled host root exported { run with log := log } where
  sound := h.sound.noted log
  idle := h.idle
  rootExports := h.rootExports
  known := h.known
  settled := h.settled
  referenced := h.referenced
  unasked := h.unasked
  unnamed := h.unnamed
  traced := fun acyclic =>
    ⟨(h.traced acyclic).links, (h.traced acyclic).origins, (h.traced acyclic).lists⟩

/-- The exports of a module are resolved. -/
theorem Run.Settled.askExports {run : Run} (h : run.Settled host root exported) (module : String) :
    RunM.Ensures (askExports module) run fun _ run' =>
      run'.Settled host root exported ∧ run.Prepares run' ∧ run'.Knows module := by
  refine RunM.Ensures.askExports ((traces_exportAll h.sound h.idle h.traced module).mono ?_)
  intro result run' hstep
  obtain ⟨hout, traced'⟩ := hstep
  obtain ⟨settled, prepares⟩ :=
    h.of_extends hout.sound hout.symbols hout.stack hout.rootExports
      hout.keeps.resolved traced'
  exact ⟨settled.noted _, prepares.trans (Run.Prepares.of_symbols_eq rfl), hout.knows⟩

/-- The symbol for a name of a known module is looked up or created. -/
theorem Run.Settled.symbolOf {run : Run} (h : run.Settled host root exported) {source : String}
    (hsource : run.Knows source) (name : String) :
    RunM.Ensures (RunM.symbolOf source name) run fun id run' =>
      run'.Settled host root exported ∧ run.Prepares run'
        ∧ run'.symbols.key? id = some (source, name) := by
  obtain ⟨settled, prepares⟩ := h.of_extends (h.sound.symbolOf hsource name)
    (SymbolTable.Extends.symbolOf run.symbols source name) rfl rfl (fun _ _ hr => hr)
    fun acyclic =>
      (h.traced acyclic).symbolOf h.sound source name
  exact ⟨settled, prepares, run.symbols.key?_symbolOf source name⟩

/-- A document is read. -/
theorem Run.Settled.document {run : Run} (h : run.Settled host root exported) (module : String) :
    RunM.Ensures (RunM.document module) run fun document run' =>
      document = host.sources root module ∧ run'.Settled host root exported
        ∧ run'.symbols = run.symbols := by
  refine (h.sound.document module).mono ?_
  intro document _ hstep
  obtain ⟨answer, sound, rfl⟩ := hstep
  refine ⟨answer, ⟨sound, h.idle, h.rootExports, h.known, h.settled, h.referenced, h.unasked,
    h.unnamed, fun acyclic => ?_⟩, rfl⟩
  exact ⟨(h.traced acyclic).links, (h.traced acyclic).origins, (h.traced acyclic).lists⟩

/-! ## §4. Identities are stored -/

/-- The identity of a symbol is stored. -/
theorem Run.Settled.settle {run : Run} (h : run.Settled host root exported) {id : Nat}
    (bound : id < run.symbols.size) {later : Run} {log : List Step}
    (stored : later = { run with symbols := (run.symbols.settle exported id).2, log := log }) :
    later.Settled host root exported ∧ run.Prepares later
      ∧ later.symbols.canonical? id = some (run.symbols.canonicalize exported id) := by
  subst stored
  let store : Symbol → Symbol := fun symbol =>
    { symbol with canonical := some (run.symbols.canonicalize exported id) }
  -- the identity that is stored is the one the walks find, and links stay
  have same : run.symbols.SameLinks (run.symbols.modify id store) :=
    SymbolTable.SameLinks.modify _ id (fun _ => rfl) fun _ => rfl
  have marks : ∀ other,
      (run.symbols.modify id store).isReferenced other = run.symbols.isReferenced other :=
    fun other => run.symbols.isReferenced_modify id other fun _ => rfl
  have values : ∀ other, (run.symbols.modify id store).value? other = run.symbols.value? other :=
    fun other => run.symbols.value?_modify id other fun _ => rfl
  have names : ∀ other,
      (run.symbols.modify id store).privateName? other = run.symbols.privateName? other :=
    fun other => run.symbols.privateName?_modify id other fun _ => rfl
  have here : (run.symbols.modify id store).canonical? id
      = some (run.symbols.canonicalize exported id) := by
    obtain ⟨symbol, -, hs⟩ := run.symbols.bind_modify_self Symbol.canonical bound store
    exact hs
  have there : ∀ other, other ≠ id →
      (run.symbols.modify id store).canonical? other = run.symbols.canonical? other := by
    intro other ne
    rw [SymbolTable.canonical?, run.symbols.get?_modify_of_ne ne, SymbolTable.canonical?]
  refine ⟨h.of_same_links same ?_ ?_ ?_ ?_, ⟨same.grows, marks, values, ?_⟩, here⟩
  · intro other canonical hc
    by_cases asked : other = id
    · subst asked
      exact (Option.some.inj (here.symm.trans hc)).symm
    · exact h.settled other canonical ((there other asked).symm.trans hc)
  · intro other hother
    exact h.referenced other ((marks other).symm.trans hother)
  · intro other hother
    exact (values other).trans (h.unasked other ((marks other).symm.trans hother))
  · intro other
    exact (names other).trans (h.unnamed other)
  · intro other known
    show ((run.symbols.modify id store).canonical? other).isSome = true
    by_cases asked : other = id
    · rw [asked, here]
      rfl
    · rw [there other asked]
      exact known

/-- The identity of a symbol is asked for. -/
theorem Run.Settled.canonical {run : Run} (h : run.Settled host root exported) {id : Nat}
    (bound : id < run.symbols.size) :
    RunM.Ensures (RunM.canonical id) run fun canonical run' =>
      canonical = run.symbols.canonicalize exported id ∧ run'.Settled host root exported
        ∧ run.Prepares run'
        ∧ run'.symbols.canonical? id = some (run.symbols.canonicalize exported id) := by
  unfold RunM.Ensures RunM.canonical
  cases known : run.symbols.canonical? id with
  | some canonical =>
      -- an identity that is stored is the one that would be found now
      have fresh := h.settled id canonical known
      exact ⟨fresh, h, Run.Prepares.refl run, known.trans (congrArg some fresh)⟩
  | none =>
      obtain rfl := h.rootExports
      obtain ⟨settled, prepares, stored⟩ := h.settle bound rfl
      exact ⟨rfl, settled, prepares, stored⟩

/-- The symbol for a name of a module, with its identity stored. -/
theorem Run.Settled.settledSymbol {run : Run} (h : run.Settled host root exported)
    (module name : String) :
    RunM.Ensures (settledSymbol module name) run fun id run' =>
      run'.Settled host root exported ∧ run.Prepares run'
        ∧ run'.symbols.key? id = some (module, name) ∧ (run'.symbols.canonical? id).isSome := by
  refine RunM.Ensures.bind (h.askExports module) ?_
  intro _ run₁ hstep
  obtain ⟨settled₁, prepares₁, knows⟩ := hstep
  refine RunM.Ensures.bind (settled₁.symbolOf knows name) ?_
  intro id run₂ hstep
  obtain ⟨settled₂, prepares₂, key⟩ := hstep
  refine RunM.Ensures.bind (settled₂.canonical (SymbolTable.lt_size_of_key? key)) ?_
  intro canonical run₃ hstep
  obtain ⟨-, settled₃, prepares₃, stored⟩ := hstep
  refine RunM.Ensures.pure ⟨settled₃, (prepares₁.trans prepares₂).trans prepares₃,
    prepares₃.grows.key?_eq_some key, ?_⟩
  rw [stored]
  rfl

end FlatBundle
