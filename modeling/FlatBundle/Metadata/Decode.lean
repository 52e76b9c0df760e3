/-
  FlatBundle.Metadata.Decode
  ──────────────────────────
  **FROM JSON TREES TO VALUES AND DOCUMENTS.**

  Every JSON tree is a value.  An object is a node if its tag is known and all
  fields of that kind of node are there and well formed; otherwise it is a plain
  object, tag and all.  A reference is what its fields make it: a module and a
  name, a default import, a module, or a name alone, tried in this order.

  Decoding goes from the leaves up (`Reading.ofJson`): every part of a tree is
  read on its own first, and the parts of a node are then chosen among the
  finished readings.  So the whole is one recursion on the tree, and how a node
  is read (`node?`) does not recurse at all.

  A document is decoded strictly: a field that is there must have its type.
-/
import FlatBundle.Metadata.Document

namespace FlatBundle

/-! ## §1. Readings -/

/-- A JSON tree whose parts have been decoded. -/
inductive Reading where
  /-- A tree without parts. -/
  | scalar (json : Json)
  /-- A list of parts. -/
  | list (items : List Reading)
  /-- An object: its fields as they stand in the text, what it is as a value,
  and the class member that it is, if any. -/
  | object (fields : List (String × Reading)) (value : Value) (member : Option Member)
  deriving Inhabited

/-! ## §2. What a single part can be read as -/

namespace Reading

mutual

/-- What a part is as a value. -/
def value : Reading → Value
  | .scalar .null => .null
  | .scalar (.bool b) => .bool b
  | .scalar (.num n) => .num n
  | .scalar (.str s) => .str s
  | .scalar (.arr _) | .scalar (.obj _) => .null
  | .list items => .arr (values items)
  | .object _ value _ => value

/-- What parts are as values. -/
def values : List Reading → List Value
  | [] => []
  | item :: rest => item.value :: values rest

end

/-- A string. -/
def string? : Reading → Option String
  | .scalar (.str s) => some s
  | _ => none

/-- A truth value. -/
def bool? : Reading → Option Bool
  | .scalar (.bool b) => some b
  | _ => none

/-- A whole number that a word of 32 bits holds. -/
def word? : Reading → Option UInt32
  | .scalar (.num (.int n)) =>
      if 0 ≤ n ∧ n < Int.pow 2 32 then some (UInt32.ofNat n.toNat) else none
  | _ => none

/-- A list of parts. -/
def list? : Reading → Option (List Reading)
  | .list items => some items
  | _ => none

/-- A list of values. -/
def values? (r : Reading) : Option (List Value) :=
  r.list?.map (·.map value)

/-- A list of strings. -/
def strings? (r : Reading) : Option (List String) :=
  r.list?.bind (·.mapM string?)

/-- A map of values. -/
def map? : Reading → Option (List (String × Value))
  | .object fields _ _ => some (Pairs.merge (fields.map fun field => (field.1, field.2.value)))
  | _ => none

/-- Something that may be left open by writing `null`. -/
def orNull {α : Type} (read? : Reading → Option α) : Reading → Option (Option α)
  | .scalar .null => some none
  | r => (read? r).map some

/-- The decorators of each parameter. -/
def parameterDecorators? (r : Reading) : Option (List (Option (List Value))) :=
  r.list?.bind (·.mapM (orNull values?))

/-- The number of a tag: its place among `names`, or that place as a number. -/
def tagNumber? (names : List String) : Reading → Option Nat
  | .scalar (.str s) => names.idxOf? s
  | .scalar (.num (.int n)) => if 0 ≤ n then some n.toNat else none
  | _ => none

/-! ## §3. Fields of an object -/

/-- The field of a name: none if the name repeats, `some none` if it is
absent. -/
def field? (fields : List (String × Reading)) (name : String) : Option (Option Reading) :=
  match fields.filter (·.1 = name) with
  | [] => some none
  | [field] => some (some field.2)
  | _ => none

/-- A field that must be there. -/
def required? {α : Type} (fields : List (String × Reading)) (name : String)
    (read? : Reading → Option α) : Option α := do
  (← field? fields name).bind read?

/-- A field that may be absent or `null`. -/
def optional? {α : Type} (fields : List (String × Reading)) (name : String)
    (read? : Reading → Option α) : Option (Option α) := do
  match ← field? fields name with
  | none => return none
  | some r => orNull read? r

/-- A field with a default; where it is there, it must be well formed. -/
def defaulted? {α : Type} (fields : List (String × Reading)) (name : String) (default : α)
    (read? : Reading → Option α) : Option α := do
  match ← field? fields name with
  | none => return default
  | some r => read? r

/-- A field that holds any value. -/
def valueField? (fields : List (String × Reading)) (name : String) : Option Value :=
  required? fields name (fun r => some r.value)

/-! ## §4. Members -/

/-- The member with a tag and named fields. -/
def memberOf? (tag : MemberTag) (fields : List (String × Reading)) : Option Member := do
  let decorators ← optional? fields "decorators" values?
  match tag with
  | .property => return .property decorators
  | .constructor =>
      let parameterDecorators ← optional? fields "parameterDecorators" parameterDecorators?
      let parameters ← optional? fields "parameters" values?
      return .constructor decorators parameterDecorators parameters
  | .method =>
      let parameterDecorators ← optional? fields "parameterDecorators" parameterDecorators?
      let parameters ← optional? fields "parameters" values?
      return .method decorators parameterDecorators parameters

/-- The tag of a member. -/
def memberTag? (r : Reading) : Option MemberTag := do
  MemberTag.all[← r.tagNumber? (MemberTag.all.map MemberTag.name)]?

/-- A member written as an object. -/
def memberOfFields? (fields : List (String × Reading)) : Option Member := do
  memberOf? (← required? fields tagKey memberTag?) fields

/-- The names of a member's fields in order, for members written as lists. -/
def memberFields : MemberTag → List String
  | .property => ["decorators"]
  | _ => ["decorators", "parameterDecorators", "parameters"]

/-- A member written as a list: its tag and then its fields in order, with
fields missing at the end. -/
def memberOfItems? : List Reading → Option Member
  | [] => none
  | head :: items => do
      let tag ← memberTag? head
      let names := memberFields tag
      if names.length < items.length then none
      else memberOf? tag (names.zip items)

/-- A member of a class. -/
def member? : Reading → Option Member
  | .scalar _ => none
  | .list items => memberOfItems? items
  | .object _ _ member => member

/-- The members of a class by name. -/
def members? : Reading → Option (List (String × List Member))
  | .object fields _ _ => do
      let members ← fields.mapM fun field => do
        return (field.1, ← (← field.2.list?).mapM member?)
      return Pairs.merge members
  | _ => none

/-! ## §5. Nodes -/

/-- The reference that fields make: each form looks at its own fields only. -/
def reference? (fields : List (String × Reading)) : Option Reference :=
  let imported := do
    let module ← required? fields "module" string?
    let name ← required? fields "name" string?
    return Reference.imported module name (← optional? fields "arguments" values?)
  let default := do
    let module ← required? fields "module" string?
    let flag ← required? fields "default" bool?
    return Reference.default module flag (← optional? fields "arguments" values?)
  let module := do
    return Reference.module (← required? fields "module" string?)
  let global := do
    let name ← required? fields "name" string?
    return Reference.global name (← optional? fields "arguments" values?)
  imported <|> default <|> module <|> global

/-- The node with a tag and fields. -/
def nodeOf? (tag : NodeTag) (fields : List (String × Reading)) : Option Node :=
  match tag with
  | .cls => do
      let base ← optional? fields "extends" (fun r => some r.value)
      let arity ← optional? fields "arity" word?
      let decorators ← optional? fields "decorators" values?
      let members ← optional? fields "members" members?
      let statics ← optional? fields "statics" map?
      return .cls base arity decorators members statics
  | .iface => some .iface
  | .func => do
      let parameters ← defaulted? fields "parameters" [] strings?
      let defaults ← optional? fields "defaults" values?
      let body ← optional? fields "value" (fun r => some r.value)
      return .func parameters defaults body
  | .err => do
      let message ← required? fields "message" string?
      let line ← optional? fields "line" word?
      let character ← optional? fields "character" word?
      let context ← optional? fields "context" map?
      let module ← optional? fields "module" string?
      return .err message line character context module
  | .ref => (reference? fields).map .ref
  | .binary => do
      let operator ← required? fields "operator" string?
      return .binary operator (← valueField? fields "left") (← valueField? fields "right")
  | .index => do
      return .index (← valueField? fields "expression") (← valueField? fields "index")
  | .pre => do
      return .pre (← required? fields "operator" string?) (← valueField? fields "operand")
  | .cond => do
      let condition ← valueField? fields "condition"
      let thenValue ← valueField? fields "thenExpression"
      return .cond condition thenValue (← valueField? fields "elseExpression")
  | .call => do
      return .call (← valueField? fields "expression") (← optional? fields "arguments" values?)
  | .construct => do
      let callee ← valueField? fields "expression"
      return .construct callee (← optional? fields "arguments" values?)
  | .select => do
      return .select (← valueField? fields "expression") (← required? fields "member" string?)
  | .spread => do
      return .spread (← valueField? fields "expression")

/-- The tag of a node. -/
def nodeTag? (r : Reading) : Option NodeTag := do
  NodeTag.all[← r.tagNumber? (NodeTag.all.map NodeTag.name)]?

/-- The node that an object is. -/
def node? (fields : List (String × Reading)) : Option Node := do
  nodeOf? (← required? fields tagKey nodeTag?) fields

/-- The object with the given fields: a node if it is one, a plain object
otherwise. -/
def ofFields (fields : List (String × Reading)) : Reading :=
  let value :=
    match node? fields with
    | some node => .node node
    | none => .obj (Pairs.merge (fields.map fun field => (field.1, field.2.value)))
  .object fields value (memberOfFields? fields)

/-! ## §6. Trees -/

mutual

/-- The reading of a tree, all its parts read first. -/
def ofJson : Json → Reading
  | .null => .scalar .null
  | .bool b => .scalar (.bool b)
  | .num n => .scalar (.num n)
  | .str s => .scalar (.str s)
  | .arr items => .list (ofItems items)
  | .obj fields => ofFields (ofPairs fields)

/-- The readings of items. -/
def ofItems : List Json → List Reading
  | [] => []
  | item :: rest => ofJson item :: ofItems rest

/-- The readings of fields. -/
def ofPairs : List (String × Json) → List (String × Reading)
  | [] => []
  | (name, value) :: rest => (name, ofJson value) :: ofPairs rest

end

end Reading

/-- The value that a JSON tree is. -/
def Value.ofJson (json : Json) : Value :=
  (Reading.ofJson json).value

/-! ## §7. Documents -/

namespace Reading

/-- The fields of a record that may also be written as a list of its fields in
order, with fields missing at the end. -/
def record? (names : List String) : Reading → Option (List (String × Reading))
  | .object fields _ _ => some fields
  | .list items => if names.length < items.length then none else some (names.zip items)
  | .scalar _ => none

/-- One name of an export declaration. -/
def exportItem? : Reading → Option ExportItem
  | .scalar (.str s) => some (.plain s)
  | .object fields _ _ => do
      return .renamed (← required? fields "name" string?) (← required? fields "as" string?)
  | _ => none

/-- The fields of an export declaration in order. -/
def exportFields : List String := ["from", "export"]

/-- An export declaration. -/
def exportDeclaration? (r : Reading) : Option ExportDeclaration := do
  let fields ← r.record? exportFields
  let source ← required? fields "from" string?
  let items ← optional? fields "export" fun r => r.list?.bind (·.mapM exportItem?)
  return ⟨source, items⟩

/-- The word for the tag of a document. -/
def documentTag : String := "module"

/-- The tag of a document: its word, or an object with the word as its only
name and nothing under it. -/
def documentTag? : Reading → Option Unit
  | .scalar (.str s) => if s = documentTag then some () else none
  | .object [(name, .scalar .null)] _ _ => if name = documentTag then some () else none
  | _ => none

/-- The fields of a document in order. -/
def documentFields : List String := [tagKey, "version", "metadata", "exports", "importAs"]

/-- The document that a tree is. -/
def document? (r : Reading) : Option Document := do
  let fields ← r.record? documentFields
  defaulted? fields tagKey () documentTag?
  let version ← defaulted? fields "version" formatVersion word?
  let entries ← defaulted? fields "metadata" [] map?
  let exports ← optional? fields "exports" fun r => r.list?.bind (·.mapM exportDeclaration?)
  let importAs ← optional? fields "importAs" string?
  return ⟨version, Entries.ofList entries, exports, importAs⟩

end Reading

/-- The document that a JSON tree is. -/
def Document.ofJson? (json : Json) : Option Document :=
  (Reading.ofJson json).document?

end FlatBundle
