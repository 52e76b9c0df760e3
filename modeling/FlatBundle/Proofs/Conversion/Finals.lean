/-
  FlatBundle.Proofs.Conversion.Finals
  ───────────────────────────────────
  **DECLARATIONS ARE WHERE NAMES RESOLVE.**

  In a traced run a link is an origin, so following `exports` in the table is
  following origins through the documents.  Where no module re-exports from itself the
  walk stops at a name without an origin: the declaration of a symbol is what its
  name resolves to (`Run.Settled.resolves`), and the identity of a symbol has the
  same declaration (`Run.Settled.declaration_symbol`).
-/
import FlatBundle.Proofs.Conversion.Replacement

namespace FlatBundle

variable {host : Host} {root : String} {exported : List SymbolId} {run : Run}

/-! ## §1. Links and origins -/

/-- Every module that a symbol belongs to is resolved. -/
theorem Run.Settled.resolved_of_key? (h : run.Settled host root exported) {id : SymbolId}
    {target : Target} (key : run.symbols.key? id = some target) :
    (run.resolved.get? target.1).isSome := by
  rcases h.sound.knows id target.1 ⟨target.2, key⟩ with known | entered
  · exact known
  · rw [h.idle] at entered
    cases entered

/-- What a symbol leads to is where its name comes from, in some steps. -/
theorem Run.Settled.path_of_leadsTo (h : run.Settled host root exported)
    (acyclic : (host.sources root).Acyclic) {id other : SymbolId} {target origin : Target}
    (leads : run.symbols.LeadsTo id other) (key : run.symbols.key? id = some target)
    (key' : run.symbols.key? other = some origin) :
    Relation.ReflTransGen (host.sources root).Origin target origin := by
  induction leads generalizing origin with
  | refl =>
      rw [key] at key'
      rw [Option.some.inj key']
  | @tail middle other _ step ih =>
      -- the links are traced, so each link of the walk is a step between names
      obtain ⟨module, name, between⟩ :=
        SymbolTable.exists_key?_of_lt (SymbolTable.lt_size_of_exports step)
      have link : run.symbols.Links (module, name) origin := ⟨middle, other, between, key', step⟩
      exact Relation.ReflTransGen.tail (ih between) ((h.traced acyclic).links _ _ link)

/-- Where a name comes from is a symbol that the name's symbol leads to. -/
theorem Run.Settled.leadsTo_of_path (h : run.Settled host root exported)
    (acyclic : (host.sources root).Acyclic) {id : SymbolId} {target origin : Target}
    (path : Relation.ReflTransGen (host.sources root).Origin target origin)
    (key : run.symbols.key? id = some target) :
    ∃ other, run.symbols.key? other = some origin ∧ run.symbols.LeadsTo id other := by
  induction path with
  | refl => exact ⟨id, key, Relation.ReflTransGen.refl⟩
  | tail _ step ih =>
      obtain ⟨middle, between, leads⟩ := ih
      -- the module of the name has been resolved, so its origins are linked
      obtain ⟨first, other, hfirst, hother, link⟩ :=
        (h.traced acyclic).origins _ _ (h.resolved_of_key? between) step
      obtain rfl := SymbolTable.key?_inj hfirst between
      exact ⟨other, hother, Relation.ReflTransGen.tail leads link⟩

/-! ## §2. Declarations -/

/-- The walk along `exports` stops at a symbol that exports nothing, for a cycle of
links would be a cycle of modules. -/
theorem Run.Settled.exports_of_isEnd (h : run.Settled host root exported)
    (acyclic : (host.sources root).Acyclic) {id : SymbolId} (hend : run.symbols.IsEnd id) :
    run.symbols.exports id = none := by
  rcases hend with stop | ⟨next, step, cycle⟩
  · exact stop
  · exfalso
    obtain ⟨module, name, key⟩ :=
      SymbolTable.exists_key?_of_lt (SymbolTable.lt_size_of_exports step)
    obtain ⟨module', name', key'⟩ :=
      SymbolTable.exists_key?_of_lt (h.sound.linked.lt_size_of_exports step)
    have first := (h.traced acyclic).links _ _ ⟨id, next, key, key', step⟩
    have rest := h.path_of_leadsTo acyclic cycle key' key
    -- the cycle of links is a cycle of names, and so of modules
    have round : Relation.TransGen (host.sources root).Origin (module, name) (module, name) :=
      Relation.TransGen.head' first rest
    exact acyclic module (round.lift Prod.fst fun _ _ step => step.edge)

/-- A symbol that exports nothing is the declaration of all that lead to it. -/
theorem Run.Settled.declaration_eq (h : run.Settled host root exported)
    (acyclic : (host.sources root).Acyclic) {id other : SymbolId}
    (leads : run.symbols.LeadsTo id other) (stop : run.symbols.exports other = none) :
    run.symbols.declaration id = other := by
  have stop' := h.exports_of_isEnd acyclic (SymbolTable.isEnd_declaration h.sound.linked id)
  -- of two symbols that the walk comes through, the last one exports nothing
  rcases (run.symbols.leadsTo_declaration id).total leads with path | path
  · rcases Relation.ReflTransGen.cases_head path with same | ⟨next, step, -⟩
    · exact same
    · cases stop'.symm.trans step
  · rcases Relation.ReflTransGen.cases_head path with same | ⟨next, step, -⟩
    · exact same.symm
    · cases stop.symm.trans step

/-- **The declaration of a symbol is what its name resolves to.** -/
theorem Run.Settled.resolves (h : run.Settled host root exported)
    (acyclic : (host.sources root).Acyclic) {id : SymbolId} {target final : Target}
    (key : run.symbols.key? id = some target) (declared : run.symbols.origin? id = some final) :
    (host.sources root).Resolves target final where
  path := h.path_of_leadsTo acyclic (run.symbols.leadsTo_declaration id) key declared
  ends := by
    intro origin step
    have stop := h.exports_of_isEnd acyclic (SymbolTable.isEnd_declaration h.sound.linked id)
    obtain ⟨first, source, hfirst, -, link⟩ :=
      (h.traced acyclic).origins _ _ (h.resolved_of_key? declared) step
    obtain rfl := SymbolTable.key?_inj hfirst declared
    cases stop.symm.trans link

/-- **A symbol and its identity have one declaration.** -/
theorem Run.Settled.declaration_symbol (h : run.Settled host root exported)
    (acyclic : (host.sources root).Acyclic) (id : SymbolId) :
    run.symbols.declaration (run.symbols.canonicalize exported id).symbol
      = run.symbols.declaration id := by
  have stop := h.exports_of_isEnd acyclic (SymbolTable.isEnd_declaration h.sound.linked id)
  -- a private identity is the declaration, a public one leads to it
  cases isPrivate : (run.symbols.canonicalize exported id).isPrivate with
  | true =>
      rw [SymbolTable.symbol_of_isPrivate isPrivate]
      exact SymbolTable.declaration_of_exports_eq_none stop
  | false =>
      obtain ⟨-, leads⟩ := SymbolTable.symbol_of_isPublic h.sound.linked isPrivate
      exact h.declaration_eq acyclic leads stop

end FlatBundle
