/-
  FlatBundle.Metadata.Encode
  ──────────────────────────
  **FROM VALUES AND DOCUMENTS TO JSON TREES.**

  A node is written as an object with its tag first and its fields in a fixed
  order; a field that has nothing to say is left out.  A handle has no written
  form, so a value that holds one cannot be encoded.
-/
import FlatBundle.Metadata.Document

namespace FlatBundle

/-! ## §1. Fields -/

namespace Encode

/-- A field that is left out where there is nothing to write. -/
def optional (name : String) : Option Json → List (String × Json)
  | none => []
  | some json => [(name, json)]

/-- An object with a tag. -/
def tagged (tag : String) (fields : List (String × Json)) : Json :=
  .obj ((tagKey, .str tag) :: fields)

/-- A number. -/
def word (n : UInt32) : Json := .num (.int n.toNat)

/-- A list of strings. -/
def strings (xs : List String) : Json := .arr (xs.map .str)

end Encode

open Encode

/-! ## §2. Values -/

mutual

/-- The tree of a value. -/
def Value.encode? : Value → Option Json
  | .null => some .null
  | .bool b => some (.bool b)
  | .num n => some (.num n)
  | .str s => some (.str s)
  | .arr items => do return .arr (← Encode.list? items)
  | .node node => node.encode?
  | .obj entries => do return .obj (← Encode.entries? entries)

/-- The tree of a node. -/
def Node.encode? : Node → Option Json
  | .cls base arity decorators members statics => do
      let base ← Encode.value? base
      let decorators ← Encode.values? decorators
      let members ← Encode.members? members
      let statics ← Encode.map? statics
      return tagged NodeTag.cls.name
        (optional "extends" base ++ optional "arity" (arity.map word)
          ++ optional "decorators" decorators ++ optional "members" members
          ++ optional "statics" statics)
  | .iface => some (tagged NodeTag.iface.name [])
  | .func parameters defaults body => do
      let defaults ← Encode.values? defaults
      let body ← Encode.value? body
      return tagged NodeTag.func.name
        (("parameters", strings parameters)
          :: optional "defaults" defaults ++ optional "value" body)
  | .err message line character context module => do
      let context ← Encode.map? context
      return tagged NodeTag.err.name
        (("message", .str message)
          :: optional "line" (line.map word) ++ optional "character" (character.map word)
          ++ optional "context" context ++ optional "module" (module.map .str))
  | .ref reference => reference.encode?
  | .binary operator left right => do
      let left ← left.encode?
      let right ← right.encode?
      return tagged NodeTag.binary.name
        [("operator", .str operator), ("left", left), ("right", right)]
  | .index expression index => do
      let expression ← expression.encode?
      let index ← index.encode?
      return tagged NodeTag.index.name [("expression", expression), ("index", index)]
  | .pre operator operand => do
      let operand ← operand.encode?
      return tagged NodeTag.pre.name [("operator", .str operator), ("operand", operand)]
  | .cond condition thenValue elseValue => do
      let condition ← condition.encode?
      let thenValue ← thenValue.encode?
      let elseValue ← elseValue.encode?
      return tagged NodeTag.cond.name
        [("condition", condition), ("thenExpression", thenValue), ("elseExpression", elseValue)]
  | .call callee arguments => do
      let callee ← callee.encode?
      let arguments ← Encode.values? arguments
      return tagged NodeTag.call.name (("expression", callee) :: optional "arguments" arguments)
  | .construct callee arguments => do
      let callee ← callee.encode?
      let arguments ← Encode.values? arguments
      return tagged NodeTag.construct.name
        (("expression", callee) :: optional "arguments" arguments)
  | .select expression member => do
      let expression ← expression.encode?
      return tagged NodeTag.select.name [("expression", expression), ("member", .str member)]
  | .spread expression => do
      let expression ← expression.encode?
      return tagged NodeTag.spread.name [("expression", expression)]

/-- The tree of a reference; a handle has none. -/
def Reference.encode? : Reference → Option Json
  | .imported module name arguments => do
      let arguments ← Encode.values? arguments
      return tagged NodeTag.ref.name
        (("module", .str module) :: ("name", .str name) :: optional "arguments" arguments)
  | .default module flag arguments => do
      let arguments ← Encode.values? arguments
      return tagged NodeTag.ref.name
        (("module", .str module) :: ("default", .bool flag) :: optional "arguments" arguments)
  | .module module => some (tagged NodeTag.ref.name [("module", .str module)])
  | .global name arguments => do
      let arguments ← Encode.values? arguments
      return tagged NodeTag.ref.name (("name", .str name) :: optional "arguments" arguments)
  | .bundled _ => none

/-- The tree of a class member. -/
def Member.encode? : Member → Option Json
  | .constructor decorators parameterDecorators parameters => do
      let decorators ← Encode.values? decorators
      let parameterDecorators ← Encode.parameterDecorators? parameterDecorators
      let parameters ← Encode.values? parameters
      return tagged MemberTag.constructor.name
        (optional "decorators" decorators ++ optional "parameterDecorators" parameterDecorators
          ++ optional "parameters" parameters)
  | .method decorators parameterDecorators parameters => do
      let decorators ← Encode.values? decorators
      let parameterDecorators ← Encode.parameterDecorators? parameterDecorators
      let parameters ← Encode.values? parameters
      return tagged MemberTag.method.name
        (optional "decorators" decorators ++ optional "parameterDecorators" parameterDecorators
          ++ optional "parameters" parameters)
  | .property decorators => do
      let decorators ← Encode.values? decorators
      return tagged MemberTag.property.name (optional "decorators" decorators)

/-- The trees of values. -/
def Encode.list? : List Value → Option (List Json)
  | [] => some []
  | value :: rest => do
      let value ← value.encode?
      return value :: (← Encode.list? rest)

/-- The trees of named values. -/
def Encode.entries? : List (String × Value) → Option (List (String × Json))
  | [] => some []
  | (name, value) :: rest => do
      let value ← value.encode?
      return (name, value) :: (← Encode.entries? rest)

/-- The tree of a value that may be absent; the inner option says whether it
is. -/
def Encode.value? : Option Value → Option (Option Json)
  | none => some none
  | some value => do return some (← value.encode?)

/-- The tree of a list that may be absent. -/
def Encode.values? : Option (List Value) → Option (Option Json)
  | none => some none
  | some values => do return some (.arr (← Encode.list? values))

/-- The tree of a map that may be absent. -/
def Encode.map? : Option (List (String × Value)) → Option (Option Json)
  | none => some none
  | some entries => do return some (.obj (← Encode.entries? entries))

/-- The tree of the members of a class. -/
def Encode.members? : Option (List (String × List Member)) → Option (Option Json)
  | none => some none
  | some members => do return some (.obj (← Encode.memberEntries? members))

/-- The trees of named lists of members. -/
def Encode.memberEntries? : List (String × List Member) → Option (List (String × Json))
  | [] => some []
  | (name, members) :: rest => do
      let members ← Encode.memberList? members
      return (name, .arr members) :: (← Encode.memberEntries? rest)

/-- The trees of members of one name. -/
def Encode.memberList? : List Member → Option (List Json)
  | [] => some []
  | member :: rest => do
      let member ← member.encode?
      return member :: (← Encode.memberList? rest)

/-- The tree of parameter decorators that may be absent. -/
def Encode.parameterDecorators? : Option (List (Option (List Value))) → Option (Option Json)
  | none => some none
  | some parameters => do return some (.arr (← Encode.parameterList? parameters))

/-- The trees of the decorators of each parameter. -/
def Encode.parameterList? : List (Option (List Value)) → Option (List Json)
  | [] => some []
  | decorators :: rest => do
      let decorators ← Encode.values? decorators
      return decorators.getD .null :: (← Encode.parameterList? rest)

end

/-! ## §3. Documents -/

/-- The tree of one name of an export declaration. -/
def ExportItem.encode : ExportItem → Json
  | .plain name => .str name
  | .renamed name newName => .obj [("name", .str name), ("as", .str newName)]

/-- The tree of an export declaration. -/
def ExportDeclaration.encode (declaration : ExportDeclaration) : Json :=
  .obj (("from", .str declaration.source)
    :: optional "export" (declaration.items.map fun items => .arr (items.map ExportItem.encode)))

/-- The tree of a document. -/
def Document.encode? (document : Document) : Option Json := do
  let entries ← Encode.entries? document.entries.toList
  let exports := document.exports.map fun exports =>
    Json.arr (exports.map ExportDeclaration.encode)
  return tagged "module"
    (("version", word document.version) :: ("metadata", .obj entries)
      :: optional "exports" exports ++ optional "importAs" (document.importAs.map .str))

end FlatBundle
