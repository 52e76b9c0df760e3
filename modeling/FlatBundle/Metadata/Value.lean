/-
  FlatBundle.Metadata.Value
  ─────────────────────────
  **THE VALUES THAT METADATA DOCUMENTS CARRY.**

  A value is a piece of source code folded into data: a literal, a list, a plain
  object, or a node.  Nodes are declarations (classes, functions), expressions
  that could not be folded further (calls, operators, references) and errors.

  A reference names a symbol.  While a bundle is under way it may also be a
  handle, the number of a symbol in the symbol table, whose name in the bundle
  is not known yet; a handle has no text form.
-/
import FlatBundle.Entries
import FlatBundle.Json.Basic

namespace FlatBundle

/-- The place of a symbol in order of creation.  There is no bound on the number of symbols
here; a program that keeps places in 32 bits agrees with this as long as it makes no more than
2^32 symbols. -/
abbrev SymbolId := Nat

/-! ## §1. Values and nodes -/

mutual

/-- A value of a metadata document. -/
inductive Value where
  | null
  | bool (value : Bool)
  | num (value : Number)
  | str (value : String)
  | arr (items : List Value)
  /-- A node: code that is not plain data. -/
  | node (node : Node)
  /-- A plain object. -/
  | obj (entries : List (String × Value))

/-- Code in a document, told apart by its tag. -/
inductive Node where
  /-- A class: base class, number of type parameters, decorators, decorated
  members by name, static members. -/
  | cls (base : Option Value) (arity : Option UInt32) (decorators : Option (List Value))
      (members : Option (List (String × List Member)))
      (statics : Option (List (String × Value)))
  /-- An interface, which has no value when the code runs. -/
  | iface
  /-- A function whose body is one expression: parameter names, default values
  of parameters, the expression. -/
  | func (parameters : List String) (defaults : Option (List Value)) (body : Option Value)
  /-- An error that stands in place of a value. -/
  | err (message : String) (line character : Option UInt32)
      (context : Option (List (String × Value))) (module : Option String)
  | ref (reference : Reference)
  | binary (operator : String) (left right : Value)
  /-- An element of an expression: `expression[index]`. -/
  | index (expression index : Value)
  /-- An operator in front of its operand. -/
  | pre (operator : String) (operand : Value)
  | cond (condition thenValue elseValue : Value)
  | call (callee : Value) (arguments : Option (List Value))
  /-- A call that creates an instance: `new callee(arguments)`. -/
  | construct (callee : Value) (arguments : Option (List Value))
  /-- A member of an expression: `expression.member`. -/
  | select (expression : Value) (member : String)
  | spread (expression : Value)

/-- A decorated member of a class.  A parameter without decorators has none in
the list of parameter decorators. -/
inductive Member where
  | constructor (decorators : Option (List Value))
      (parameterDecorators : Option (List (Option (List Value))))
      (parameters : Option (List Value))
  | method (decorators : Option (List Value))
      (parameterDecorators : Option (List (Option (List Value))))
      (parameters : Option (List Value))
  | property (decorators : Option (List Value))

/-- What a reference names. -/
inductive Reference where
  /-- A symbol that a module exports. -/
  | imported (module name : String) (arguments : Option (List Value))
  /-- The default export of a module. -/
  | default (module : String) (flag : Bool) (arguments : Option (List Value))
  /-- A module as a whole. -/
  | module (module : String)
  /-- A symbol of the module itself, or one that is known everywhere. -/
  | global (name : String) (arguments : Option (List Value))
  /-- A handle: a bundled symbol whose final name is still open. -/
  | bundled (id : SymbolId)

end


instance : Inhabited Value := ⟨.null⟩

/-! ## §2. Building and looking at values -/

namespace Value

/-- The value of a reference. -/
def ofReference (reference : Reference) : Value := .node (.ref reference)

/-- A reference to a global name without arguments. -/
def global (name : String) : Value := ofReference (.global name none)

/-- A reference to an exported symbol without arguments. -/
def imported (module name : String) : Value := ofReference (.imported module name none)

/-- The reference that a value is. -/
def reference? : Value → Option Reference
  | .node (.ref reference) => some reference
  | _ => none

/-- Whether a value is a literal, with nothing inside. -/
def isPrimitive : Value → Bool
  | .null | .bool _ | .num _ | .str _ => true
  | _ => false

/-- An error with a message, data that describe it, and the module where it was
found.  A key that is given twice keeps its first place and its last value. -/
def error (message : String) (context : List (String × Value)) (module : Option String) :
    Value :=
  let context := if context = [] then none else some (Pairs.merge context)
  .node (.err message none none context module)

end Value

/-! ## §3. Tags -/

/-- The tags of nodes, in the order in which they are numbered. -/
inductive NodeTag where
  | cls | iface | func | err | ref | binary | index | pre | cond | call | construct | select
  | spread
  deriving DecidableEq, Repr

/-- The word for a tag. -/
def NodeTag.name : NodeTag → String
  | .cls => "class"
  | .iface => "interface"
  | .func => "function"
  | .err => "error"
  | .ref => "reference"
  | .binary => "binary"
  | .index => "index"
  | .pre => "pre"
  | .cond => "if"
  | .call => "call"
  | .construct => "new"
  | .select => "select"
  | .spread => "spread"

/-- All tags of nodes by number. -/
def NodeTag.all : List NodeTag :=
  [.cls, .iface, .func, .err, .ref, .binary, .index, .pre, .cond, .call, .construct, .select,
    .spread]

/-- The tag of a node. -/
def Node.tag : Node → NodeTag
  | .cls .. => .cls
  | .iface => .iface
  | .func .. => .func
  | .err .. => .err
  | .ref _ => .ref
  | .binary .. => .binary
  | .index .. => .index
  | .pre .. => .pre
  | .cond .. => .cond
  | .call .. => .call
  | .construct .. => .construct
  | .select .. => .select
  | .spread _ => .spread

/-- The tags of class members, in the order in which they are numbered. -/
inductive MemberTag where
  | constructor | method | property
  deriving DecidableEq, Repr

/-- The word for a tag. -/
def MemberTag.name : MemberTag → String
  | .constructor => "constructor"
  | .method => "method"
  | .property => "property"

/-- All tags of members by number. -/
def MemberTag.all : List MemberTag := [.constructor, .method, .property]

/-- The tag of a member. -/
def Member.tag : Member → MemberTag
  | .constructor .. => .constructor
  | .method .. => .method
  | .property _ => .property

/-- The key under which objects carry the tag of a node, a member or a
document. -/
def tagKey : String := "__symbolic"

end FlatBundle
