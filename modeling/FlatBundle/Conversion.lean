/-
  FlatBundle.Conversion
  ─────────────────────
  **FROM THE VALUES OF MODULES TO THE VALUES OF THE BUNDLE.**

  A value refers to names of the module that it stands in and to names of other
  modules.  Conversion walks over a value and turns every reference to a symbol
  inside the bundle into a handle for the symbol's identity, converting the value
  of that symbol on the way; a name that is only re-exported from outside the
  bundle becomes a reference to its source.

  The walk over one value is a recursion on the value (`Value.convert`).  It is
  told how to convert the value of a symbol, and `convertSymbol` ties the knot:
  the value of an identity is converted once, however often it is met.  A
  reference to a symbol whose identity is not settled is an error.
-/
import FlatBundle.Export

namespace FlatBundle

/-! ## §1. References to symbols -/

/-- A step of a run that may fail. -/
abbrev ConvertM := ExceptT BundleError RunM

/-- Names that start like this are made by a compiler and are not bundled. -/
def reservedPrefix : List Char := ['_', '_', '_']

/-- Whether a name is made by a compiler. -/
def isReservedName (name : String) : Bool := reservedPrefix.isPrefixOf name.toList

/-- The symbol for a name of a module, its identity settled.  The exports of the
module are resolved first, so that all links of the symbol are known. -/
def settledSymbol (module name : String) : RunM SymbolId := do
  let _ ← askExports module
  let id ← RunM.symbolOf module name
  let _ ← RunM.canonical id
  return id

/-- The identity of a symbol, which has to be settled. -/
def settledIdentity (id : SymbolId) : ConvertM Canonical := fun run =>
  (run.symbols.canonical id, run)

/-- The reference to a symbol.  `convertSymbol` converts the symbol's value. -/
def referenceTo (convertSymbol : SymbolId → ConvertM Unit) (id : SymbolId) : ConvertM Value := do
  let canonical ← settledIdentity id
  let declaration := ((← get).symbols.get? canonical.declaration).getD default
  if ModulePath.isRelative declaration.module then
    convertSymbol id
    return .ofReference (.bundled canonical.symbol)
  else
    return .imported declaration.module declaration.name

/-- Whether a module declares a name. -/
def declares (module name : String) : RunM Bool := do
  match ← RunM.document module with
  | some document => return document.declares name
  | none => return false

/-- The error for a reference that has no counterpart in a bundle, where modules
of the library do not exist any more. -/
def unsupportedReference (message specifier module : String) : Value :=
  .error message [("module", .str specifier)] (some module)

/-- The message for a default import from a module of the library. -/
def unsupportedDefault : String := "Unsupported bundled default import reference"

/-- The message for a reference to a module of the library as a whole. -/
def unsupportedModule : String := "Unsupported bundled module reference"

/-! ## §2. Values -/

mutual

/-- A value of `module`, converted. -/
def Value.convert (convertSymbol : SymbolId → ConvertM Unit) (module : String) :
    Value → ConvertM Value
  | .null => return .null
  | .bool b => return .bool b
  | .num n => return .num n
  | .str s => return .str s
  | .arr items => do return .arr (← Convert.list convertSymbol module items)
  | .obj entries => do return .obj (← Convert.entries convertSymbol module entries)
  | .node node => node.convert convertSymbol module

/-- A node of `module`, converted.  Errors are marked with the module. -/
def Node.convert (convertSymbol : SymbolId → ConvertM Unit) (module : String) :
    Node → ConvertM Value
  | .cls base arity decorators members statics => do
      -- members and static members come first: symbols are numbered in this order
      let members ← Convert.members? convertSymbol module members
      let statics ← Convert.statics? convertSymbol module statics
      let base ← Convert.value? convertSymbol module base
      let decorators ← Convert.list? convertSymbol module decorators
      return .node (.cls base arity decorators members statics)
  | .iface => return .node .iface
  | .func parameters defaults body => do
      let defaults ← Convert.list? convertSymbol module defaults
      let body ← Convert.value? convertSymbol module body
      return .node (.func parameters defaults body)
  | .err message line character context _ =>
      return .node (.err message line character context (some module))
  | .ref reference => reference.convert convertSymbol module
  | .binary operator left right => do
      let left ← left.convert convertSymbol module
      let right ← right.convert convertSymbol module
      return .node (.binary operator left right)
  | .index expression index => do
      let expression ← expression.convert convertSymbol module
      let index ← index.convert convertSymbol module
      return .node (.index expression index)
  | .pre operator operand => do
      let operand ← operand.convert convertSymbol module
      return .node (.pre operator operand)
  | .cond condition thenValue elseValue => do
      let condition ← condition.convert convertSymbol module
      let thenValue ← thenValue.convert convertSymbol module
      let elseValue ← elseValue.convert convertSymbol module
      return .node (.cond condition thenValue elseValue)
  | .call callee arguments => do
      let callee ← callee.convert convertSymbol module
      let arguments ← Convert.list? convertSymbol module arguments
      return .node (.call callee arguments)
  | .construct callee arguments => do
      let callee ← callee.convert convertSymbol module
      let arguments ← Convert.list? convertSymbol module arguments
      return .node (.construct callee arguments)
  | .select expression member => do
      let expression ← expression.convert convertSymbol module
      return .node (.select expression member)
  | .spread expression => do
      let expression ← expression.convert convertSymbol module
      return .node (.spread expression)

/-- A reference in `module`, converted.  Names that the module does not declare
and modules outside of the bundle stay as they are. -/
def Reference.convert (convertSymbol : SymbolId → ConvertM Unit) (module : String) :
    Reference → ConvertM Value
  | .global name arguments => do
      if ← declares module name then
        referenceTo convertSymbol (← settledSymbol module name)
      else
        let arguments ← Convert.list? convertSymbol module arguments
        return .ofReference (.global name arguments)
  | .imported specifier name arguments => do
      if ModulePath.isRelative specifier then
        -- arguments of a reference that is met are dropped
        let source := ModulePath.resolve specifier module
        referenceTo convertSymbol (← settledSymbol source name)
      else
        let arguments ← Convert.list? convertSymbol module arguments
        return .ofReference (.imported specifier name arguments)
  | .default specifier flag arguments => do
      if ModulePath.isRelative specifier then
        return unsupportedReference unsupportedDefault specifier module
      else
        let arguments ← Convert.list? convertSymbol module arguments
        return .ofReference (.default specifier flag arguments)
  | .module specifier =>
      if ModulePath.isRelative specifier then
        return unsupportedReference unsupportedModule specifier module
      else return .ofReference (.module specifier)
  | .bundled id => return .ofReference (.bundled id)

/-- A class member, converted.  The parameters of a method are dropped. -/
def Member.convert (convertSymbol : SymbolId → ConvertM Unit) (module : String) :
    Member → ConvertM Member
  | .constructor decorators parameterDecorators parameters => do
      let decorators ← Convert.list? convertSymbol module decorators
      let parameterDecorators ← Convert.lists? convertSymbol module parameterDecorators
      let parameters ← Convert.list? convertSymbol module parameters
      return .constructor decorators parameterDecorators parameters
  | .method decorators parameterDecorators _ => do
      let decorators ← Convert.list? convertSymbol module decorators
      let parameterDecorators ← Convert.lists? convertSymbol module parameterDecorators
      return .method decorators parameterDecorators none
  | .property decorators => do
      let decorators ← Convert.list? convertSymbol module decorators
      return .property decorators

/-- Values, converted in order. -/
def Convert.list (convertSymbol : SymbolId → ConvertM Unit) (module : String) :
    List Value → ConvertM (List Value)
  | [] => return []
  | value :: rest => do
      let value ← value.convert convertSymbol module
      return value :: (← Convert.list convertSymbol module rest)

/-- Named values, converted in order. -/
def Convert.entries (convertSymbol : SymbolId → ConvertM Unit) (module : String) :
    List (String × Value) → ConvertM (List (String × Value))
  | [] => return []
  | (name, value) :: rest => do
      let value ← value.convert convertSymbol module
      return (name, value) :: (← Convert.entries convertSymbol module rest)

/-- A value that may be absent. -/
def Convert.value? (convertSymbol : SymbolId → ConvertM Unit) (module : String) :
    Option Value → ConvertM (Option Value)
  | none => return none
  | some value => do return some (← value.convert convertSymbol module)

/-- A list of values that may be absent. -/
def Convert.list? (convertSymbol : SymbolId → ConvertM Unit) (module : String) :
    Option (List Value) → ConvertM (Option (List Value))
  | none => return none
  | some values => do return some (← Convert.list convertSymbol module values)

/-- The decorators of each parameter, if any are given. -/
def Convert.lists? (convertSymbol : SymbolId → ConvertM Unit) (module : String) :
    Option (List (Option (List Value))) → ConvertM (Option (List (Option (List Value))))
  | none => return none
  | some lists => do return some (← Convert.lists convertSymbol module lists)

/-- The decorators of each parameter. -/
def Convert.lists (convertSymbol : SymbolId → ConvertM Unit) (module : String) :
    List (Option (List Value)) → ConvertM (List (Option (List Value)))
  | [] => return []
  | decorators :: rest => do
      let decorators ← Convert.list? convertSymbol module decorators
      return decorators :: (← Convert.lists convertSymbol module rest)

/-- The members of a class, if any are given. -/
def Convert.members? (convertSymbol : SymbolId → ConvertM Unit) (module : String) :
    Option (List (String × List Member)) → ConvertM (Option (List (String × List Member)))
  | none => return none
  | some members => do return some (← Convert.members convertSymbol module members)

/-- The members of a class by name. -/
def Convert.members (convertSymbol : SymbolId → ConvertM Unit) (module : String) :
    List (String × List Member) → ConvertM (List (String × List Member))
  | [] => return []
  | (name, overloads) :: rest => do
      let overloads ← Convert.overloads convertSymbol module overloads
      return (name, overloads) :: (← Convert.members convertSymbol module rest)

/-- The members of one name. -/
def Convert.overloads (convertSymbol : SymbolId → ConvertM Unit) (module : String) :
    List Member → ConvertM (List Member)
  | [] => return []
  | member :: rest => do
      let member ← member.convert convertSymbol module
      return member :: (← Convert.overloads convertSymbol module rest)

/-- The static members of a class, if any are given. -/
def Convert.statics? (convertSymbol : SymbolId → ConvertM Unit) (module : String) :
    Option (List (String × Value)) → ConvertM (Option (List (String × Value)))
  | none => return none
  | some statics => do return some (← Convert.statics convertSymbol module statics)

/-- The static members of a class.  Functions are converted; all other static
members stay as they are. -/
def Convert.statics (convertSymbol : SymbolId → ConvertM Unit) (module : String) :
    List (String × Value) → ConvertM (List (String × Value))
  | [] => return []
  | (name, .node (.func parameters defaults body)) :: rest => do
      let defaults ← Convert.list? convertSymbol module defaults
      let body ← Convert.value? convertSymbol module body
      return (name, .node (.func parameters defaults body))
        :: (← Convert.statics convertSymbol module rest)
  | (name, value) :: rest => do
      return (name, value) :: (← Convert.statics convertSymbol module rest)

end

/-! ## §3. Symbols -/

/-- Store as the value of `target` what a conversion comes to. -/
def storeConverted (target : SymbolId) (conversion : ConvertM Value) : ConvertM Unit := do
  RunM.perform (.convert target)
  let converted ← conversion
  RunM.perform (.store target converted)

/-- Convert the value that `target`, an identity that has just been marked,
stands for: the entry of its declaration, unless the name is made by a
compiler. -/
def convertDeclaration (convertSymbol : SymbolId → ConvertM Unit) (target : SymbolId) :
    ConvertM Unit := do
  let canonical ← RunM.canonical target
  let declaration := ((← get).symbols.get? canonical.declaration).getD default
  -- a name made by a compiler gets no value, whatever the document says
  if isReservedName declaration.name then return ()
  match ← RunM.document declaration.module with
  | none => return ()
  | some document =>
      match document.get? declaration.name with
      | none => return ()
      | some value => storeConverted target (value.convert convertSymbol declaration.module)

/-- Convert the value of a symbol's identity, once.  Conversion may nest `depth`
symbols deep. -/
def convertNested : (depth : Nat) → (id : SymbolId) → ConvertM Unit
  | 0, _ => return ()
  | depth + 1, id => do
      let target := (← RunM.canonical id).symbol
      match (← get).symbols.get? target with
      | none => return ()
      | some symbol =>
          -- marked before its value is converted, so that cycles end here
          if symbol.referenced then return ()
          RunM.perform (.mark target)
          convertDeclaration (convertNested depth) target

/-- How deep conversion can nest: every symbol on the way down is an identity
that has not been met before, either a root export or an entry of a document,
where the root module may go by a name of its own. -/
def conversionDepth (run : Run) : Nat :=
  let entries := run.store.host.toList.flatMap fun pair => pair.2.entries.toList
  run.rootExports.length + 2 * entries.length + 2

/-- Convert the value of a symbol's identity, and the values of all symbols that
it refers to. -/
def convertSymbol (id : SymbolId) : ConvertM Unit := do
  convertNested (conversionDepth (← get)) id

end FlatBundle
