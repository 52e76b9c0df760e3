/-
  FlatBundle.Proofs.Value.Equality
  ────────────────────────────────
  **EQUALITY OF VALUES CAN BE DECIDED.**

  Two values are compared by walking over both of them at once (`Value.same`), and the
  comparison says yes exactly if they are equal (`Value.same_iff`).  So what a bundle of a
  given library holds can be computed and compared with what is expected.
-/
import FlatBundle.Metadata.Value

namespace FlatBundle

/-! ## §1. Comparison -/

mutual

/-- Whether two values are the same. -/
def Value.same : Value → Value → Bool
  | .null, .null => true
  | .bool b, .bool b' => b == b'
  | .num n, .num n' => n == n'
  | .str s, .str s' => s == s'
  | .arr items, .arr items' => Same.list items items'
  | .node node, .node node' => node.same node'
  | .obj entries, .obj entries' => Same.entries entries entries'
  | _, _ => false

/-- Whether two nodes are the same. -/
def Node.same : Node → Node → Bool
  | .cls base arity decorators members statics, .cls base' arity' decorators' members' statics' =>
      Same.value? base base' && arity == arity' && Same.list? decorators decorators'
        && Same.members? members members' && Same.entries? statics statics'
  | .iface, .iface => true
  | .func parameters defaults body, .func parameters' defaults' body' =>
      parameters == parameters' && Same.list? defaults defaults' && Same.value? body body'
  | .err message line character context module, .err message' line' character' context' module' =>
      message == message' && line == line' && character == character'
        && Same.entries? context context' && module == module'
  | .ref reference, .ref reference' => reference.same reference'
  | .binary operator left right, .binary operator' left' right' =>
      operator == operator' && left.same left' && right.same right'
  | .index expression index, .index expression' index' =>
      expression.same expression' && index.same index'
  | .pre operator operand, .pre operator' operand' =>
      operator == operator' && operand.same operand'
  | .cond condition thenValue elseValue, .cond condition' thenValue' elseValue' =>
      condition.same condition' && thenValue.same thenValue' && elseValue.same elseValue'
  | .call callee arguments, .call callee' arguments'
  | .construct callee arguments, .construct callee' arguments' =>
      callee.same callee' && Same.list? arguments arguments'
  | .select expression member, .select expression' member' =>
      expression.same expression' && member == member'
  | .spread expression, .spread expression' => expression.same expression'
  | _, _ => false

/-- Whether two references are the same. -/
def Reference.same : Reference → Reference → Bool
  | .imported module name arguments, .imported module' name' arguments' =>
      module == module' && name == name' && Same.list? arguments arguments'
  | .default module flag arguments, .default module' flag' arguments' =>
      module == module' && flag == flag' && Same.list? arguments arguments'
  | .module module, .module module' => module == module'
  | .global name arguments, .global name' arguments' =>
      name == name' && Same.list? arguments arguments'
  | .bundled id, .bundled id' => id == id'
  | _, _ => false

/-- Whether two class members are the same. -/
def Member.same : Member → Member → Bool
  | .constructor decorators lists parameters, .constructor decorators' lists' parameters'
  | .method decorators lists parameters, .method decorators' lists' parameters' =>
      Same.list? decorators decorators' && Same.lists? lists lists'
        && Same.list? parameters parameters'
  | .property decorators, .property decorators' => Same.list? decorators decorators'
  | _, _ => false

/-- Values, compared in order. -/
def Same.list : List Value → List Value → Bool
  | [], [] => true
  | value :: rest, value' :: rest' => value.same value' && Same.list rest rest'
  | _, _ => false

/-- Named values, compared in order. -/
def Same.entries : List (String × Value) → List (String × Value) → Bool
  | [], [] => true
  | (name, value) :: rest, (name', value') :: rest' =>
      name == name' && value.same value' && Same.entries rest rest'
  | _, _ => false

def Same.value? : Option Value → Option Value → Bool
  | none, none => true
  | some value, some value' => value.same value'
  | _, _ => false

def Same.list? : Option (List Value) → Option (List Value) → Bool
  | none, none => true
  | some values, some values' => Same.list values values'
  | _, _ => false

def Same.entries? : Option (List (String × Value)) → Option (List (String × Value)) → Bool
  | none, none => true
  | some entries, some entries' => Same.entries entries entries'
  | _, _ => false

/-- The decorators of each parameter. -/
def Same.lists : List (Option (List Value)) → List (Option (List Value)) → Bool
  | [], [] => true
  | values :: rest, values' :: rest' => Same.list? values values' && Same.lists rest rest'
  | _, _ => false

def Same.lists? : Option (List (Option (List Value))) → Option (List (Option (List Value))) → Bool
  | none, none => true
  | some lists, some lists' => Same.lists lists lists'
  | _, _ => false

/-- The members of one name. -/
def Same.overloads : List Member → List Member → Bool
  | [], [] => true
  | member :: rest, member' :: rest' => member.same member' && Same.overloads rest rest'
  | _, _ => false

/-- The members of a class by name. -/
def Same.members : List (String × List Member) → List (String × List Member) → Bool
  | [], [] => true
  | (name, overloads) :: rest, (name', overloads') :: rest' =>
      name == name' && Same.overloads overloads overloads' && Same.members rest rest'
  | _, _ => false

def Same.members? : Option (List (String × List Member)) → Option (List (String × List Member)) →
    Bool
  | none, none => true
  | some members, some members' => Same.members members members'
  | _, _ => false

end

/-! ## §2. The comparison is equality -/

mutual

/-- **The comparison of two values says whether they are equal.** -/
theorem Value.same_iff : ∀ value other : Value, value.same other = true ↔ value = other
  | .null, other | .bool _, other | .num _, other | .str _, other => by
      cases other <;> simp [Value.same]
  | .arr items, other => by cases other <;> simp [Value.same, Same.list_iff items]
  | .node node, other => by cases other <;> simp [Value.same, node.same_iff]
  | .obj entries, other => by cases other <;> simp [Value.same, Same.entries_iff entries]

theorem Node.same_iff : ∀ node other : Node, node.same other = true ↔ node = other
  | .cls base _ decorators members statics, other => by
      cases other <;> simp [Node.same, Same.value?_iff base, Same.list?_iff decorators,
        Same.members?_iff members, Same.entries?_iff statics, and_assoc]
  | .iface, other => by cases other <;> simp [Node.same]
  | .func _ defaults body, other => by
      cases other <;> simp [Node.same, Same.list?_iff defaults, Same.value?_iff body, and_assoc]
  | .err _ _ _ context _, other => by
      cases other <;> simp [Node.same, Same.entries?_iff context, and_assoc]
  | .ref reference, other => by cases other <;> simp [Node.same, reference.same_iff]
  | .binary _ left right, other => by
      cases other <;> simp [Node.same, left.same_iff, right.same_iff, and_assoc]
  | .index expression index, other => by
      cases other <;> simp [Node.same, expression.same_iff, index.same_iff]
  | .pre _ operand, other => by cases other <;> simp [Node.same, operand.same_iff]
  | .cond condition thenValue elseValue, other => by
      cases other <;> simp [Node.same, condition.same_iff, thenValue.same_iff,
        elseValue.same_iff, and_assoc]
  | .call callee arguments, other | .construct callee arguments, other => by
      cases other <;> simp [Node.same, callee.same_iff, Same.list?_iff arguments]
  | .select expression _, other => by cases other <;> simp [Node.same, expression.same_iff]
  | .spread expression, other => by cases other <;> simp [Node.same, expression.same_iff]

theorem Reference.same_iff : ∀ reference other : Reference,
    reference.same other = true ↔ reference = other
  | .imported _ _ arguments, other | .default _ _ arguments, other
  | .global _ arguments, other => by
      cases other <;> simp [Reference.same, Same.list?_iff arguments, and_assoc]
  | .module _, other | .bundled _, other => by cases other <;> simp [Reference.same]

theorem Member.same_iff : ∀ member other : Member, member.same other = true ↔ member = other
  | .constructor decorators lists parameters, other
  | .method decorators lists parameters, other => by
      cases other <;> simp [Member.same, Same.list?_iff decorators, Same.lists?_iff lists,
        Same.list?_iff parameters, and_assoc]
  | .property decorators, other => by
      cases other <;> simp [Member.same, Same.list?_iff decorators]

theorem Same.list_iff : ∀ values others : List Value,
    Same.list values others = true ↔ values = others
  | [], others => by cases others <;> simp [Same.list]
  | value :: rest, others => by
      cases others <;> simp [Same.list, value.same_iff, Same.list_iff rest]

theorem Same.entries_iff : ∀ entries others : List (String × Value),
    Same.entries entries others = true ↔ entries = others
  | [], others => by cases others <;> simp [Same.entries]
  | (name, value) :: rest, others => by
      rcases others with - | ⟨⟨name', value'⟩, rest'⟩ <;>
        simp [Same.entries, value.same_iff, Same.entries_iff rest]

theorem Same.value?_iff : ∀ value other : Option Value,
    Same.value? value other = true ↔ value = other
  | none, other => by cases other <;> simp [Same.value?]
  | some value, other => by cases other <;> simp [Same.value?, value.same_iff]

theorem Same.list?_iff : ∀ values other : Option (List Value),
    Same.list? values other = true ↔ values = other
  | none, other => by cases other <;> simp [Same.list?]
  | some values, other => by cases other <;> simp [Same.list?, Same.list_iff values]

theorem Same.entries?_iff : ∀ entries other : Option (List (String × Value)),
    Same.entries? entries other = true ↔ entries = other
  | none, other => by cases other <;> simp [Same.entries?]
  | some entries, other => by cases other <;> simp [Same.entries?, Same.entries_iff entries]

theorem Same.lists_iff : ∀ lists others : List (Option (List Value)),
    Same.lists lists others = true ↔ lists = others
  | [], others => by cases others <;> simp [Same.lists]
  | values :: rest, others => by
      cases others <;> simp [Same.lists, Same.list?_iff values, Same.lists_iff rest]

theorem Same.lists?_iff : ∀ lists other : Option (List (Option (List Value))),
    Same.lists? lists other = true ↔ lists = other
  | none, other => by cases other <;> simp [Same.lists?]
  | some lists, other => by cases other <;> simp [Same.lists?, Same.lists_iff lists]

theorem Same.overloads_iff : ∀ members others : List Member,
    Same.overloads members others = true ↔ members = others
  | [], others => by cases others <;> simp [Same.overloads]
  | member :: rest, others => by
      cases others <;> simp [Same.overloads, member.same_iff, Same.overloads_iff rest]

theorem Same.members_iff : ∀ members others : List (String × List Member),
    Same.members members others = true ↔ members = others
  | [], others => by cases others <;> simp [Same.members]
  | (name, overloads) :: rest, others => by
      rcases others with - | ⟨⟨name', overloads'⟩, rest'⟩ <;>
        simp [Same.members, Same.overloads_iff overloads, Same.members_iff rest]

theorem Same.members?_iff : ∀ members other : Option (List (String × List Member)),
    Same.members? members other = true ↔ members = other
  | none, other => by cases other <;> simp [Same.members?]
  | some members, other => by cases other <;> simp [Same.members?, Same.members_iff members]

end

instance : DecidableEq Value := fun value other =>
  decidable_of_iff (value.same other = true) (value.same_iff other)

end FlatBundle
