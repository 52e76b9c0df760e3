/-
  FlatBundle.Proofs.Value.Filling
  ───────────────────────────────
  **REFERENCES IN THE PLACE OF HANDLES.**

  `Value.fill` puts a reference in the place of each handle of a value, at every position, and
  leaves all else as it is.  Two laws say what a reader expects of a substitution:

    • where handles stand for themselves nothing changes (`Value.fill_eq_self`),
    • the handles of the result are those of the references that are put in, in the order of
      the handles that they are put in for (`Value.handles_fill`).
-/
import FlatBundle.Proofs.Value.Handles

namespace FlatBundle

/-! ## §1. Filling handles in -/

mutual

/-- The value with references in place of its handles. -/
def Value.fill (point : SymbolId → Reference) : Value → Value
  | .null => .null
  | .bool b => .bool b
  | .num n => .num n
  | .str s => .str s
  | .arr items => .arr (Fill.list point items)
  | .node node => .node (node.fill point)
  | .obj entries => .obj (Fill.entries point entries)

/-- The node with references in place of its handles, also in the context of an error. -/
def Node.fill (point : SymbolId → Reference) : Node → Node
  | .cls base arity decorators members statics =>
      .cls (Fill.value? point base) arity (Fill.list? point decorators)
        (Fill.members? point members) (Fill.entries? point statics)
  | .iface => .iface
  | .func parameters defaults body =>
      .func parameters (Fill.list? point defaults) (Fill.value? point body)
  | .err message line character context module =>
      .err message line character (Fill.entries? point context) module
  | .ref reference => .ref (reference.fill point)
  | .binary operator left right => .binary operator (left.fill point) (right.fill point)
  | .index expression index => .index (expression.fill point) (index.fill point)
  | .pre operator operand => .pre operator (operand.fill point)
  | .cond condition thenValue elseValue =>
      .cond (condition.fill point) (thenValue.fill point) (elseValue.fill point)
  | .call callee arguments => .call (callee.fill point) (Fill.list? point arguments)
  | .construct callee arguments => .construct (callee.fill point) (Fill.list? point arguments)
  | .select expression member => .select (expression.fill point) member
  | .spread expression => .spread (expression.fill point)

/-- The reference with references in place of its handles, or in its own place if it is one. -/
def Reference.fill (point : SymbolId → Reference) : Reference → Reference
  | .imported module name arguments => .imported module name (Fill.list? point arguments)
  | .default module flag arguments => .default module flag (Fill.list? point arguments)
  | .module module => .module module
  | .global name arguments => .global name (Fill.list? point arguments)
  | .bundled id => point id

/-- The class member with references in place of its handles. -/
def Member.fill (point : SymbolId → Reference) : Member → Member
  | .constructor decorators parameterDecorators parameters =>
      .constructor (Fill.list? point decorators) (Fill.lists? point parameterDecorators)
        (Fill.list? point parameters)
  | .method decorators parameterDecorators parameters =>
      .method (Fill.list? point decorators) (Fill.lists? point parameterDecorators)
        (Fill.list? point parameters)
  | .property decorators => .property (Fill.list? point decorators)

/-- Values in order. -/
def Fill.list (point : SymbolId → Reference) : List Value → List Value
  | [] => []
  | value :: rest => value.fill point :: Fill.list point rest

/-- Named values in order. -/
def Fill.entries (point : SymbolId → Reference) : List (String × Value) → List (String × Value)
  | [] => []
  | (name, value) :: rest => (name, value.fill point) :: Fill.entries point rest

/-- A value that may be absent. -/
def Fill.value? (point : SymbolId → Reference) : Option Value → Option Value
  | none => none
  | some value => some (value.fill point)

/-- A list of values that may be absent. -/
def Fill.list? (point : SymbolId → Reference) : Option (List Value) → Option (List Value)
  | none => none
  | some values => some (Fill.list point values)

/-- Named values that may be absent. -/
def Fill.entries? (point : SymbolId → Reference) :
    Option (List (String × Value)) → Option (List (String × Value))
  | none => none
  | some entries => some (Fill.entries point entries)

/-- The decorators of parameters that may be absent. -/
def Fill.lists? (point : SymbolId → Reference) :
    Option (List (Option (List Value))) → Option (List (Option (List Value)))
  | none => none
  | some lists => some (Fill.lists point lists)

/-- The decorators of each parameter. -/
def Fill.lists (point : SymbolId → Reference) :
    List (Option (List Value)) → List (Option (List Value))
  | [] => []
  | decorators :: rest => Fill.list? point decorators :: Fill.lists point rest

/-- Members that may be absent. -/
def Fill.members? (point : SymbolId → Reference) :
    Option (List (String × List Member)) → Option (List (String × List Member))
  | none => none
  | some members => some (Fill.members point members)

/-- The members of a class by name. -/
def Fill.members (point : SymbolId → Reference) :
    List (String × List Member) → List (String × List Member)
  | [] => []
  | (name, overloads) :: rest =>
      (name, Fill.overloads point overloads) :: Fill.members point rest

/-- The members of one name. -/
def Fill.overloads (point : SymbolId → Reference) : List Member → List Member
  | [] => []
  | member :: rest => member.fill point :: Fill.overloads point rest

end

/-! ## §2. The laws of filling -/

section

variable {point : SymbolId → Reference}

mutual

/-- **Where the handles stand for themselves, filling changes nothing.** -/
theorem Value.fill_eq_self : ∀ value : Value,
    (∀ id ∈ value.handles, point id = .bundled id) → value.fill point = value
  | .null, _ | .bool _, _ | .num _, _ | .str _, _ => rfl
  | .arr items, h => by rw [Value.fill, Fill.list_eq_self items h]
  | .node node, h => by rw [Value.fill, Node.fill_eq_self node h]
  | .obj entries, h => by rw [Value.fill, Fill.entries_eq_self entries h]

theorem Node.fill_eq_self : ∀ node : Node,
    (∀ id ∈ node.handles, point id = .bundled id) → node.fill point = node
  | .cls base arity decorators members statics, h => by
      simp only [Node.handles, List.forall_mem_append] at h
      rw [Node.fill, Fill.value?_eq_self base h.1.1.1, Fill.list?_eq_self decorators h.1.1.2,
        Fill.members?_eq_self members h.1.2, Fill.entries?_eq_self statics h.2]
  | .iface, _ => rfl
  | .func parameters defaults body, h => by
      simp only [Node.handles, List.forall_mem_append] at h
      rw [Node.fill, Fill.list?_eq_self defaults h.1, Fill.value?_eq_self body h.2]
  | .err message line character context module, h => by
      rw [Node.fill, Fill.entries?_eq_self context h]
  | .ref reference, h => by rw [Node.fill, Reference.fill_eq_self reference h]
  | .binary operator left right, h => by
      simp only [Node.handles, List.forall_mem_append] at h
      rw [Node.fill, Value.fill_eq_self left h.1, Value.fill_eq_self right h.2]
  | .index expression index, h => by
      simp only [Node.handles, List.forall_mem_append] at h
      rw [Node.fill, Value.fill_eq_self expression h.1, Value.fill_eq_self index h.2]
  | .pre operator operand, h => by rw [Node.fill, Value.fill_eq_self operand h]
  | .cond condition thenValue elseValue, h => by
      simp only [Node.handles, List.forall_mem_append] at h
      rw [Node.fill, Value.fill_eq_self condition h.1.1, Value.fill_eq_self thenValue h.1.2,
        Value.fill_eq_self elseValue h.2]
  | .call callee arguments, h | .construct callee arguments, h => by
      simp only [Node.handles, List.forall_mem_append] at h
      rw [Node.fill, Value.fill_eq_self callee h.1, Fill.list?_eq_self arguments h.2]
  | .select expression member, h => by rw [Node.fill, Value.fill_eq_self expression h]
  | .spread expression, h => by rw [Node.fill, Value.fill_eq_self expression h]

theorem Reference.fill_eq_self : ∀ reference : Reference,
    (∀ id ∈ reference.handles, point id = .bundled id) → reference.fill point = reference
  | .imported _ _ arguments, h | .default _ _ arguments, h | .global _ arguments, h => by
      rw [Reference.fill, Fill.list?_eq_self arguments h]
  | .module _, _ => rfl
  | .bundled id, h => h id (List.mem_singleton.2 rfl)

theorem Member.fill_eq_self : ∀ member : Member,
    (∀ id ∈ member.handles, point id = .bundled id) → member.fill point = member
  | .constructor decorators parameterDecorators parameters, h
  | .method decorators parameterDecorators parameters, h => by
      simp only [Member.handles, List.forall_mem_append] at h
      rw [Member.fill, Fill.list?_eq_self decorators h.1.1,
        Fill.lists?_eq_self parameterDecorators h.1.2, Fill.list?_eq_self parameters h.2]
  | .property decorators, h => by rw [Member.fill, Fill.list?_eq_self decorators h]

theorem Fill.list_eq_self : ∀ values : List Value,
    (∀ id ∈ Handles.list values, point id = .bundled id) → Fill.list point values = values
  | [], _ => rfl
  | value :: rest, h => by
      rw [Handles.list, List.forall_mem_append] at h
      rw [Fill.list, Value.fill_eq_self value h.1, Fill.list_eq_self rest h.2]

theorem Fill.entries_eq_self : ∀ entries : List (String × Value),
    (∀ id ∈ Handles.entries entries, point id = .bundled id) →
      Fill.entries point entries = entries
  | [], _ => rfl
  | (name, value) :: rest, h => by
      rw [Handles.entries, List.forall_mem_append] at h
      rw [Fill.entries, Value.fill_eq_self value h.1, Fill.entries_eq_self rest h.2]

theorem Fill.value?_eq_self : ∀ value : Option Value,
    (∀ id ∈ Handles.value? value, point id = .bundled id) → Fill.value? point value = value
  | none, _ => rfl
  | some value, h => congrArg some (Value.fill_eq_self value h)

theorem Fill.list?_eq_self : ∀ values : Option (List Value),
    (∀ id ∈ Handles.list? values, point id = .bundled id) → Fill.list? point values = values
  | none, _ => rfl
  | some values, h => congrArg some (Fill.list_eq_self values h)

theorem Fill.entries?_eq_self : ∀ entries : Option (List (String × Value)),
    (∀ id ∈ Handles.entries? entries, point id = .bundled id) →
      Fill.entries? point entries = entries
  | none, _ => rfl
  | some entries, h => congrArg some (Fill.entries_eq_self entries h)

theorem Fill.lists?_eq_self : ∀ lists : Option (List (Option (List Value))),
    (∀ id ∈ Handles.lists? lists, point id = .bundled id) → Fill.lists? point lists = lists
  | none, _ => rfl
  | some lists, h => congrArg some (Fill.lists_eq_self lists h)

theorem Fill.lists_eq_self : ∀ lists : List (Option (List Value)),
    (∀ id ∈ Handles.lists lists, point id = .bundled id) → Fill.lists point lists = lists
  | [], _ => rfl
  | decorators :: rest, h => by
      rw [Handles.lists, List.forall_mem_append] at h
      rw [Fill.lists, Fill.list?_eq_self decorators h.1, Fill.lists_eq_self rest h.2]

theorem Fill.members?_eq_self : ∀ members : Option (List (String × List Member)),
    (∀ id ∈ Handles.members? members, point id = .bundled id) →
      Fill.members? point members = members
  | none, _ => rfl
  | some members, h => congrArg some (Fill.members_eq_self members h)

theorem Fill.members_eq_self : ∀ members : List (String × List Member),
    (∀ id ∈ Handles.members members, point id = .bundled id) →
      Fill.members point members = members
  | [], _ => rfl
  | (name, overloads) :: rest, h => by
      rw [Handles.members, List.forall_mem_append] at h
      rw [Fill.members, Fill.overloads_eq_self overloads h.1, Fill.members_eq_self rest h.2]

theorem Fill.overloads_eq_self : ∀ overloads : List Member,
    (∀ id ∈ Handles.overloads overloads, point id = .bundled id) →
      Fill.overloads point overloads = overloads
  | [], _ => rfl
  | member :: rest, h => by
      rw [Handles.overloads, List.forall_mem_append] at h
      rw [Fill.overloads, Member.fill_eq_self member h.1, Fill.overloads_eq_self rest h.2]

end

mutual

/-- **The handles of the result are those of what is filled in.** -/
theorem Value.handles_fill : ∀ value : Value,
    (value.fill point).handles = value.handles.flatMap fun id => (point id).handles
  | .null | .bool _ | .num _ | .str _ => rfl
  | .arr items => Fill.handles_list items
  | .node node => Node.handles_fill node
  | .obj entries => Fill.handles_entries entries

theorem Node.handles_fill : ∀ node : Node,
    (node.fill point).handles = node.handles.flatMap fun id => (point id).handles
  | .cls base arity decorators members statics => by
      simp only [Node.fill, Node.handles, List.flatMap_append, Fill.handles_value? base,
        Fill.handles_list? decorators, Fill.handles_members? members,
        Fill.handles_entries? statics]
  | .iface => rfl
  | .func parameters defaults body => by
      simp only [Node.fill, Node.handles, List.flatMap_append, Fill.handles_list? defaults,
        Fill.handles_value? body]
  | .err message line character context module => Fill.handles_entries? context
  | .ref reference => Reference.handles_fill reference
  | .binary operator left right => by
      simp only [Node.fill, Node.handles, List.flatMap_append, Value.handles_fill left,
        Value.handles_fill right]
  | .index expression index => by
      simp only [Node.fill, Node.handles, List.flatMap_append, Value.handles_fill expression,
        Value.handles_fill index]
  | .pre operator operand => Value.handles_fill operand
  | .cond condition thenValue elseValue => by
      simp only [Node.fill, Node.handles, List.flatMap_append, Value.handles_fill condition,
        Value.handles_fill thenValue, Value.handles_fill elseValue]
  | .call callee arguments | .construct callee arguments => by
      simp only [Node.fill, Node.handles, List.flatMap_append, Value.handles_fill callee,
        Fill.handles_list? arguments]
  | .select expression member => Value.handles_fill expression
  | .spread expression => Value.handles_fill expression

theorem Reference.handles_fill : ∀ reference : Reference,
    (reference.fill point).handles = reference.handles.flatMap fun id => (point id).handles
  | .imported _ _ arguments | .default _ _ arguments | .global _ arguments =>
      Fill.handles_list? arguments
  | .module _ => rfl
  | .bundled id => by rw [Reference.fill, Reference.handles, List.flatMap_singleton]

theorem Member.handles_fill : ∀ member : Member,
    (member.fill point).handles = member.handles.flatMap fun id => (point id).handles
  | .constructor decorators parameterDecorators parameters
  | .method decorators parameterDecorators parameters => by
      simp only [Member.fill, Member.handles, List.flatMap_append, Fill.handles_list? decorators,
        Fill.handles_lists? parameterDecorators, Fill.handles_list? parameters]
  | .property decorators => Fill.handles_list? decorators

theorem Fill.handles_list : ∀ values : List Value,
    Handles.list (Fill.list point values)
      = (Handles.list values).flatMap fun id => (point id).handles
  | [] => rfl
  | value :: rest => by
      rw [Fill.list, Handles.list, Handles.list, List.flatMap_append, Value.handles_fill value,
        Fill.handles_list rest]

theorem Fill.handles_entries : ∀ entries : List (String × Value),
    Handles.entries (Fill.entries point entries)
      = (Handles.entries entries).flatMap fun id => (point id).handles
  | [] => rfl
  | (name, value) :: rest => by
      rw [Fill.entries, Handles.entries, Handles.entries, List.flatMap_append,
        Value.handles_fill value, Fill.handles_entries rest]

theorem Fill.handles_value? : ∀ value : Option Value,
    Handles.value? (Fill.value? point value)
      = (Handles.value? value).flatMap fun id => (point id).handles
  | none => rfl
  | some value => Value.handles_fill value

theorem Fill.handles_list? : ∀ values : Option (List Value),
    Handles.list? (Fill.list? point values)
      = (Handles.list? values).flatMap fun id => (point id).handles
  | none => rfl
  | some values => Fill.handles_list values

theorem Fill.handles_entries? : ∀ entries : Option (List (String × Value)),
    Handles.entries? (Fill.entries? point entries)
      = (Handles.entries? entries).flatMap fun id => (point id).handles
  | none => rfl
  | some entries => Fill.handles_entries entries

theorem Fill.handles_lists? : ∀ lists : Option (List (Option (List Value))),
    Handles.lists? (Fill.lists? point lists)
      = (Handles.lists? lists).flatMap fun id => (point id).handles
  | none => rfl
  | some lists => Fill.handles_lists lists

theorem Fill.handles_lists : ∀ lists : List (Option (List Value)),
    Handles.lists (Fill.lists point lists)
      = (Handles.lists lists).flatMap fun id => (point id).handles
  | [] => rfl
  | decorators :: rest => by
      rw [Fill.lists, Handles.lists, Handles.lists, List.flatMap_append,
        Fill.handles_list? decorators, Fill.handles_lists rest]

theorem Fill.handles_members? : ∀ members : Option (List (String × List Member)),
    Handles.members? (Fill.members? point members)
      = (Handles.members? members).flatMap fun id => (point id).handles
  | none => rfl
  | some members => Fill.handles_members members

theorem Fill.handles_members : ∀ members : List (String × List Member),
    Handles.members (Fill.members point members)
      = (Handles.members members).flatMap fun id => (point id).handles
  | [] => rfl
  | (name, overloads) :: rest => by
      rw [Fill.members, Handles.members, Handles.members, List.flatMap_append,
        Fill.handles_overloads overloads, Fill.handles_members rest]

theorem Fill.handles_overloads : ∀ overloads : List Member,
    Handles.overloads (Fill.overloads point overloads)
      = (Handles.overloads overloads).flatMap fun id => (point id).handles
  | [] => rfl
  | member :: rest => by
      rw [Fill.overloads, Handles.overloads, Handles.overloads, List.flatMap_append,
        Member.handles_fill member, Fill.handles_overloads rest]

end

end

end FlatBundle
