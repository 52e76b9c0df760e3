/-
  FlatBundle.Symbol.Table
  ───────────────────────
  **THE SYMBOLS OF A BUNDLING RUN.**

  A symbol is a name in a module.  The table numbers the symbols in order of
  creation and records which symbol is exported under which other symbol: the
  pointer `exports` goes from an alias to what it exports, the list `aliases`
  goes back.  An alias keeps the first symbol that it was linked to.
-/
import FlatBundle.Metadata.Value
import FlatBundle.Symbol.Numbering

namespace FlatBundle

/-! ## §1. Symbols -/

/-- What is known of a symbol's identity in the bundle. -/
structure Canonical where
  /-- The root module does not export the symbol under any name. -/
  isPrivate : Bool
  /-- The symbol that has the declaration. -/
  declaration : SymbolId
  /-- The symbol under which the bundle refers to it. -/
  symbol : SymbolId
  deriving DecidableEq, Repr

/-- A name of a module. -/
structure Symbol where
  module : String
  name : String
  /-- The symbols that export this one, in the order in which they were
  linked. -/
  aliases : List SymbolId := []
  /-- The symbol that this one exports under a name of its own. -/
  exports : Option SymbolId := none
  /-- The identity in the bundle, once it is settled. -/
  canonical : Option Canonical := none
  /-- The value has been converted, or is being converted. -/
  referenced : Bool := false
  /-- The name in the bundle of a private symbol. -/
  privateName : Option String := none
  /-- The converted value, in which references are still handles. -/
  value : Option Value := none

instance : Inhabited Symbol := ⟨{ module := "", name := "" }⟩

/-- A symbol that nothing is known about yet. -/
def Symbol.new (module name : String) : Symbol := { module := module, name := name }

/-- The symbol is the one for a name of a module. -/
def Symbol.IsFor (module name : String) (symbol : Symbol) : Prop :=
  symbol.module = module ∧ symbol.name = name

/-- What a change makes of a symbol, which keeps its module and its name. -/
def Symbol.update (change : Symbol → Symbol) (symbol : Symbol) : Symbol :=
  { change symbol with module := symbol.module, name := symbol.name }

theorem Symbol.isFor_update (module name : String) (change : Symbol → Symbol) (symbol : Symbol) :
    (symbol.update change).IsFor module name ↔ symbol.IsFor module name := Iff.rfl

/-! ## §2. The table -/

/-- The symbols of a run, in order of creation. -/
structure SymbolTable where
  /-- The numbers of the symbols, for look-up. -/
  numbering : Numbering
  symbols : Array Symbol
  /-- The number of a name is the place of its symbol.  So no two symbols are for
  the same name of the same module. -/
  numbered : ∀ module name id,
    numbering.find? module name = some id
      ↔ ∃ symbol, symbols[id]? = some symbol ∧ symbol.IsFor module name

namespace SymbolTable

/-- The table without symbols. -/
def empty : SymbolTable := ⟨Numbering.empty, #[], by simp [Numbering.find?_empty]⟩

instance : Inhabited SymbolTable := ⟨empty⟩

/-- The number of symbols. -/
def size (table : SymbolTable) : Nat := table.symbols.size

/-- The symbols, in order of creation. -/
def toList (table : SymbolTable) : List Symbol := table.symbols.toList

/-- The symbol with a number. -/
def get? (table : SymbolTable) (id : SymbolId) : Option Symbol := table.symbols[id]?

/-- The number of the symbol for a name of a module. -/
def lookup (table : SymbolTable) (module name : String) : Option SymbolId :=
  table.numbering.find? module name

theorem lookup_eq_some_iff (table : SymbolTable) (module name : String) (id : SymbolId) :
    table.lookup module name = some id
      ↔ ∃ symbol, table.get? id = some symbol ∧ symbol.IsFor module name :=
  table.numbered module name id

/-- The table with one more symbol, for a name that has none. -/
def push (table : SymbolTable) (module name : String)
    (fresh : table.lookup module name = none) : SymbolTable where
  numbering := table.numbering.add module name table.symbols.size
  symbols := table.symbols.push (Symbol.new module name)
  numbered := by
    intro module' name' id
    have old := table.numbered module' name' id
    rw [Numbering.find?_add, Array.getElem?_push]
    -- the new symbol is the only one for its name
    by_cases same : module' = module ∧ name' = name
    · obtain ⟨rfl, rfl⟩ := same
      have absent : table.numbering.find? module' name' = none := fresh
      by_cases last : id = table.symbols.size
      · simp [last, Symbol.IsFor, Symbol.new]
      · simpa [last, absent, Ne.symm last] using old
    · rw [if_neg same]
      by_cases last : id = table.symbols.size
      · subst last
        have other : ¬ (Symbol.new module name).IsFor module' name' :=
          fun h => same ⟨h.1.symm, h.2.symm⟩
        simpa [other] using old
      · simpa [last] using old

theorem get?_push (table : SymbolTable) (module name : String)
    (fresh : table.lookup module name = none) (id : SymbolId) :
    (table.push module name fresh).get? id
      = if id = table.size then some (Symbol.new module name) else table.get? id :=
  Array.getElem?_push

/-- The number of the symbol for a name of a module, which is created if there
is none. -/
def symbolOf (table : SymbolTable) (module name : String) : SymbolId × SymbolTable :=
  match h : table.lookup module name with
  | some id => (id, table)
  | none => (table.size, table.push module name h)

theorem symbolOf_of_lookup_eq_some {table : SymbolTable} {module name : String} {id : SymbolId}
    (h : table.lookup module name = some id) : table.symbolOf module name = (id, table) := by
  unfold symbolOf
  split
  · next found => rw [Option.some.inj (found.symm.trans h)]
  · next absent => rw [absent] at h; cases h

theorem symbolOf_of_lookup_eq_none {table : SymbolTable} {module name : String}
    (h : table.lookup module name = none) :
    table.symbolOf module name = (table.size, table.push module name h) := by
  unfold symbolOf
  split
  · next found => rw [found] at h; cases h
  · rfl

/-- The table with one symbol changed. -/
def modify (table : SymbolTable) (id : SymbolId) (change : Symbol → Symbol) : SymbolTable where
  numbering := table.numbering
  symbols := table.symbols.modify id (Symbol.update change)
  numbered := by
    intro module name other
    rw [table.numbered, Array.getElem?_modify]
    split
    · cases table.symbols[other]? <;> simp [Symbol.isFor_update]
    · rfl

theorem get?_modify (table : SymbolTable) (id other : SymbolId) (change : Symbol → Symbol) :
    (table.modify id change).get? other
      = if other = id then (table.get? other).map (Symbol.update change)
        else table.get? other := by
  simp only [modify, get?, Array.getElem?_modify, eq_comm]

/-- The symbols that export a symbol. -/
def aliases (table : SymbolTable) (id : SymbolId) : List SymbolId :=
  match table.get? id with
  | some symbol => symbol.aliases
  | none => []

/-- The symbol that a symbol exports. -/
def exports (table : SymbolTable) (id : SymbolId) : Option SymbolId :=
  (table.get? id).bind Symbol.exports

/-- Record that `newName` exports `exported`.  A symbol does not export itself,
and what it exports is settled once. -/
def link (table : SymbolTable) (exported newName : SymbolId) : SymbolTable :=
  if exported = newName ∨ (table.exports newName).isSome then table
  else
    (table.modify newName fun symbol => { symbol with exports := some exported }).modify exported
      fun symbol => { symbol with aliases := symbol.aliases ++ [newName] }

/-- The identity of a symbol, if it is settled. -/
def canonical? (table : SymbolTable) (id : SymbolId) : Option Canonical :=
  (table.get? id).bind Symbol.canonical

/-- All numbers, in order of creation. -/
def ids (table : SymbolTable) : List SymbolId := List.range table.size

end SymbolTable

end FlatBundle
