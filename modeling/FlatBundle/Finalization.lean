/-
  FlatBundle.Finalization
  ───────────────────────
  **HANDLES GET THEIR FINAL NAMES.**

  Once every private symbol of a bundle has a name, each handle in a value is
  replaced by a reference to the global name of its symbol: the private name of
  a private symbol, its own name otherwise.  Nothing else in the value changes.
  A handle whose identity is not settled, or that is private and has no name, is
  an error.
-/
import FlatBundle.Symbol.Canonical

namespace FlatBundle

/-! ## §1. The name of a handle -/

namespace SymbolTable

/-- The name of a symbol in the bundle. -/
def finalName (table : SymbolTable) (id : SymbolId) : Bundling String := do
  let symbol := (table.get? id).getD default
  if (← table.canonical id).isPrivate then
    match symbol.privateName with
    | some name => return name
    | none => throw (.unresolvedHandle symbol.module symbol.name)
  else return symbol.name

end SymbolTable

/-! ## §2. Values -/

mutual

/-- A value with final names in place of handles. -/
def Value.finalize (table : SymbolTable) : Value → Bundling Value
  | .null => return .null
  | .bool b => return .bool b
  | .num n => return .num n
  | .str s => return .str s
  | .arr items => do return .arr (← Finalize.list table items)
  | .obj entries => do return .obj (← Finalize.entries table entries)
  | .node node => do return .node (← node.finalize table)

/-- A node with final names.  Errors are kept as they are. -/
def Node.finalize (table : SymbolTable) : Node → Bundling Node
  | .cls base arity decorators members statics => do
      let members ← Finalize.members? table members
      let statics ← Finalize.entries? table statics
      let base ← Finalize.value? table base
      let decorators ← Finalize.list? table decorators
      return .cls base arity decorators members statics
  | .iface => return .iface
  | .func parameters defaults body => do
      let defaults ← Finalize.list? table defaults
      let body ← Finalize.value? table body
      return .func parameters defaults body
  | .err message line character context module =>
      return .err message line character context module
  | .ref reference => do return .ref (← reference.finalize table)
  | .binary operator left right => do
      let left ← left.finalize table
      let right ← right.finalize table
      return .binary operator left right
  | .index expression index => do
      let expression ← expression.finalize table
      let index ← index.finalize table
      return .index expression index
  | .pre operator operand => do return .pre operator (← operand.finalize table)
  | .cond condition thenValue elseValue => do
      let condition ← condition.finalize table
      let thenValue ← thenValue.finalize table
      let elseValue ← elseValue.finalize table
      return .cond condition thenValue elseValue
  | .call callee arguments => do
      let callee ← callee.finalize table
      let arguments ← Finalize.list? table arguments
      return .call callee arguments
  | .construct callee arguments => do
      let callee ← callee.finalize table
      let arguments ← Finalize.list? table arguments
      return .construct callee arguments
  | .select expression member => do return .select (← expression.finalize table) member
  | .spread expression => do return .spread (← expression.finalize table)

/-- A reference with final names. -/
def Reference.finalize (table : SymbolTable) : Reference → Bundling Reference
  | .imported module name arguments => do
      return .imported module name (← Finalize.list? table arguments)
  | .default module flag arguments => do
      return .default module flag (← Finalize.list? table arguments)
  | .module module => return .module module
  | .global name arguments => do return .global name (← Finalize.list? table arguments)
  | .bundled id => do return .global (← table.finalName id) none

/-- A class member with final names. -/
def Member.finalize (table : SymbolTable) : Member → Bundling Member
  | .constructor decorators parameterDecorators parameters => do
      let parameterDecorators ← Finalize.lists? table parameterDecorators
      let decorators ← Finalize.list? table decorators
      let parameters ← Finalize.list? table parameters
      return .constructor decorators parameterDecorators parameters
  | .method decorators parameterDecorators parameters => do
      let parameterDecorators ← Finalize.lists? table parameterDecorators
      let decorators ← Finalize.list? table decorators
      let parameters ← Finalize.list? table parameters
      return .method decorators parameterDecorators parameters
  | .property decorators => do return .property (← Finalize.list? table decorators)

/-- Values in order. -/
def Finalize.list (table : SymbolTable) : List Value → Bundling (List Value)
  | [] => return []
  | value :: rest => do
      let value ← value.finalize table
      return value :: (← Finalize.list table rest)

/-- Named values in order. -/
def Finalize.entries (table : SymbolTable) :
    List (String × Value) → Bundling (List (String × Value))
  | [] => return []
  | (name, value) :: rest => do
      let value ← value.finalize table
      return (name, value) :: (← Finalize.entries table rest)

/-- A value that may be absent. -/
def Finalize.value? (table : SymbolTable) : Option Value → Bundling (Option Value)
  | none => return none
  | some value => do return some (← value.finalize table)

/-- A list of values that may be absent. -/
def Finalize.list? (table : SymbolTable) : Option (List Value) → Bundling (Option (List Value))
  | none => return none
  | some values => do return some (← Finalize.list table values)

/-- Named values that may be absent. -/
def Finalize.entries? (table : SymbolTable) :
    Option (List (String × Value)) → Bundling (Option (List (String × Value)))
  | none => return none
  | some entries => do return some (← Finalize.entries table entries)

/-- The decorators of each parameter, if any are given. -/
def Finalize.lists? (table : SymbolTable) :
    Option (List (Option (List Value))) → Bundling (Option (List (Option (List Value))))
  | none => return none
  | some lists => do return some (← Finalize.lists table lists)

/-- The decorators of each parameter. -/
def Finalize.lists (table : SymbolTable) :
    List (Option (List Value)) → Bundling (List (Option (List Value)))
  | [] => return []
  | decorators :: rest => do
      let decorators ← Finalize.list? table decorators
      return decorators :: (← Finalize.lists table rest)

/-- The members of a class, if any are given. -/
def Finalize.members? (table : SymbolTable) :
    Option (List (String × List Member)) → Bundling (Option (List (String × List Member)))
  | none => return none
  | some members => do return some (← Finalize.members table members)

/-- The members of a class by name. -/
def Finalize.members (table : SymbolTable) :
    List (String × List Member) → Bundling (List (String × List Member))
  | [] => return []
  | (name, overloads) :: rest => do
      let overloads ← Finalize.overloads table overloads
      return (name, overloads) :: (← Finalize.members table rest)

/-- The members of one name. -/
def Finalize.overloads (table : SymbolTable) : List Member → Bundling (List Member)
  | [] => return []
  | member :: rest => do
      let member ← member.finalize table
      return member :: (← Finalize.overloads table rest)

end

end FlatBundle
