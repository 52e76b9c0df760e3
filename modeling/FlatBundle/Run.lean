/-
  FlatBundle.Run
  ──────────────
  **THE STATE OF A BUNDLING RUN.**

  A run collects symbols as it looks at more and more modules.  Its state is the
  store, the symbol table, the exports of the modules that have been resolved,
  the modules being resolved at the moment, and the exports of the root module
  once they are known.

  A run changes by small steps (`Step.apply`), and it keeps a log of them, as the
  store keeps a log of what it has asked for.  Nothing is decided by the log; it
  is there so that one can speak of the moments that a run goes through.  What is
  done in a run is a computation `RunM`.
-/
import FlatBundle.Host
import FlatBundle.Symbol.Canonical

namespace FlatBundle

/-! ## §1. Steps -/

/-- A small step of a run. -/
inductive Step where
  /-- The document of a module is looked at. -/
  | document (module : String)
  /-- The symbol for a name is looked up or created. -/
  | symbolOf (module name : String)
  /-- A symbol is recorded to export another. -/
  | link (exported newName : SymbolId)
  /-- Resolving the exports of a module begins. -/
  | enter (module : String)
  /-- An entry of the document of a module is looked at. -/
  | entry (module name : String)
  /-- The exports of a module are known. -/
  | leave (module : String) (exported : List SymbolId)
  /-- The exports of a module are given to whom has asked for them from outside. -/
  | answer (module : String)
  /-- The exports of the root module are settled. -/
  | roots (exported : List SymbolId)
  /-- The identity of a symbol is stored. -/
  | settle (id : SymbolId)
  /-- The value of a symbol is asked for. -/
  | mark (id : SymbolId)
  /-- The conversion of the value of a symbol begins. -/
  | convert (id : SymbolId)
  /-- The converted value of a symbol is stored. -/
  | store (id : SymbolId) (value : Value)

/-! ## §2. The state -/

/-- The state of a bundling run. -/
structure Run where
  store : Store
  symbols : SymbolTable
  /-- The exports of resolved modules. -/
  resolved : Entries (List SymbolId)
  /-- The modules whose exports are being resolved. -/
  inProgress : List String
  /-- The exports of the root module, once they are settled. -/
  rootExports : List SymbolId
  /-- The steps that have been made, the last one first. -/
  log : List Step

/-- The run before its first step. -/
def Run.start (host : Host) (root : String) : Run :=
  ⟨Store.new host root, SymbolTable.empty, Entries.empty, [], [], []⟩

/-- The steps that a run has made, in order. -/
def Run.history (run : Run) : List Step := run.log.reverse

/-- The name of the root module inside the bundle. -/
def rootModule (root : String) : String := "./" ++ ModulePath.basename root

/-- What a step makes of a run, which notes the step. -/
def Step.apply (step : Step) (run : Run) : Run :=
  let run := { run with log := step :: run.log }
  match step with
  | .document module => { run with store := (run.store.get module).2 }
  | .symbolOf module name => { run with symbols := (run.symbols.symbolOf module name).2 }
  | .link exported newName => { run with symbols := run.symbols.link exported newName }
  | .enter module => { run with inProgress := module :: run.inProgress }
  | .leave module exported =>
      { run with
        inProgress := run.inProgress.erase module
        resolved := run.resolved.insert module exported }
  | .roots exported => { run with rootExports := exported }
  | .settle id => { run with symbols := (run.symbols.settle run.rootExports id).2 }
  | .mark id =>
      { run with symbols := run.symbols.modify id fun symbol => { symbol with referenced := true } }
  | .store id value =>
      { run with symbols := run.symbols.modify id fun symbol => { symbol with value := some value } }
  -- these are only noted
  | .entry _ _ | .answer _ | .convert _ => run

/-! ## §3. Computations -/

/-- A computation in a run. -/
abbrev RunM := StateM Run

namespace RunM

/-- Make a step. -/
def perform (step : Step) : RunM Unit := modify step.apply

/-- The document of a module. -/
def document (module : String) : RunM (Option Document) := fun run =>
  let (answer, store) := run.store.get module
  (answer, { run with store := store, log := .document module :: run.log })

/-- The symbol for a name of a module, created if need be. -/
def symbolOf (module name : String) : RunM SymbolId := fun run =>
  let (id, symbols) := run.symbols.symbolOf module name
  (id, { run with symbols := symbols, log := .symbolOf module name :: run.log })

/-- Record that one symbol exports another. -/
def link (exported newName : SymbolId) : RunM Unit := perform (.link exported newName)

/-- The identity of a symbol, which is settled if it is still open. -/
def canonical (id : SymbolId) : RunM Canonical := fun run =>
  match run.symbols.canonical? id with
  | some canonical => (canonical, run)
  | none =>
      let (canonical, symbols) := run.symbols.settle run.rootExports id
      (canonical, { run with symbols := symbols, log := .settle id :: run.log })

end RunM

end FlatBundle
