/-
  FlatBundle.Proofs.Value.Handles
  ───────────────────────────────
  **VALUES WITHOUT HANDLES.**

  `Value.handles` lists the handles at every position of a value, in arguments of
  references, static members, decorators of parameters and contexts of errors
  too.  A value without handles is one that was read from a text, or one in which
  every handle has got its final name:

    • it has a written form (`Value.encode?_isSome_iff`), and nothing else has,
    • putting final names in leaves it alone (`Value.finalize_of_handles`).
-/
import FlatBundle.Finalization
import FlatBundle.Metadata.Encode

namespace FlatBundle

/-! ## §1. The handles of a value -/

mutual

/-- The handles in a value, at every position. -/
def Value.handles : Value → List SymbolId
  | .null | .bool _ | .num _ | .str _ => []
  | .arr items => Handles.list items
  | .node node => node.handles
  | .obj entries => Handles.entries entries

/-- The handles in a node. -/
def Node.handles : Node → List SymbolId
  | .cls base _ decorators members statics =>
      Handles.value? base ++ Handles.list? decorators ++ Handles.members? members
        ++ Handles.entries? statics
  | .iface => []
  | .func _ defaults body => Handles.list? defaults ++ Handles.value? body
  | .err _ _ _ context _ => Handles.entries? context
  | .ref reference => reference.handles
  | .binary _ left right => left.handles ++ right.handles
  | .index expression index => expression.handles ++ index.handles
  | .pre _ operand => operand.handles
  | .cond condition thenValue elseValue =>
      condition.handles ++ thenValue.handles ++ elseValue.handles
  | .call callee arguments => callee.handles ++ Handles.list? arguments
  | .construct callee arguments => callee.handles ++ Handles.list? arguments
  | .select expression _ => expression.handles
  | .spread expression => expression.handles

/-- The handles in a reference, which may be one itself. -/
def Reference.handles : Reference → List SymbolId
  | .imported _ _ arguments => Handles.list? arguments
  | .default _ _ arguments => Handles.list? arguments
  | .module _ => []
  | .global _ arguments => Handles.list? arguments
  | .bundled id => [id]

/-- The handles in a class member. -/
def Member.handles : Member → List SymbolId
  | .constructor decorators parameterDecorators parameters =>
      Handles.list? decorators ++ Handles.lists? parameterDecorators ++ Handles.list? parameters
  | .method decorators parameterDecorators parameters =>
      Handles.list? decorators ++ Handles.lists? parameterDecorators ++ Handles.list? parameters
  | .property decorators => Handles.list? decorators

/-- The handles in a list of values. -/
def Handles.list : List Value → List SymbolId
  | [] => []
  | value :: rest => value.handles ++ Handles.list rest

/-- The handles in named values. -/
def Handles.entries : List (String × Value) → List SymbolId
  | [] => []
  | (_, value) :: rest => value.handles ++ Handles.entries rest

/-- The handles in a value that may be absent. -/
def Handles.value? : Option Value → List SymbolId
  | none => []
  | some value => value.handles

/-- The handles in a list that may be absent. -/
def Handles.list? : Option (List Value) → List SymbolId
  | none => []
  | some values => Handles.list values

/-- The handles in named values that may be absent. -/
def Handles.entries? : Option (List (String × Value)) → List SymbolId
  | none => []
  | some entries => Handles.entries entries

/-- The handles in the decorators of parameters that may be absent. -/
def Handles.lists? : Option (List (Option (List Value))) → List SymbolId
  | none => []
  | some lists => Handles.lists lists

/-- The handles in the decorators of each parameter. -/
def Handles.lists : List (Option (List Value)) → List SymbolId
  | [] => []
  | decorators :: rest => Handles.list? decorators ++ Handles.lists rest

/-- The handles in members that may be absent. -/
def Handles.members? : Option (List (String × List Member)) → List SymbolId
  | none => []
  | some members => Handles.members members

/-- The handles in the members of a class. -/
def Handles.members : List (String × List Member) → List SymbolId
  | [] => []
  | (_, overloads) :: rest => Handles.overloads overloads ++ Handles.members rest

/-- The handles in the members of one name. -/
def Handles.overloads : List Member → List SymbolId
  | [] => []
  | member :: rest => member.handles ++ Handles.overloads rest

end

/-- There is no handle at any position of the value. -/
def Value.HandleFree (value : Value) : Prop := value.handles = []

instance (value : Value) : Decidable value.HandleFree :=
  inferInstanceAs (Decidable (value.handles = []))

/-- There is no handle in any value of the document. -/
def Document.HandleFree (document : Document) : Prop :=
  ∀ entry ∈ document.entries.toList, entry.2.HandleFree

instance (document : Document) : Decidable document.HandleFree :=
  inferInstanceAs (Decidable (∀ entry ∈ document.entries.toList, entry.2.HandleFree))

/-! ## §2. What has a written form -/

/-- A second step whose success does not depend on the result of the first. -/
@[simp] theorem any_const {α : Type} (x : Option α) (b : Bool) :
    x.any (fun _ => b) = (x.isSome && b) := by
  cases x with
  | none => rfl
  | some a => simp

mutual

/-- **A value has a written form exactly if there is no handle in it.** -/
theorem Value.encode?_isSome_iff : ∀ value : Value, value.encode?.isSome ↔ value.handles = []
  | .null | .bool _ | .num _ | .str _ => by simp [Value.encode?, Value.handles]
  | .arr items => by
      simp [Value.encode?, Value.handles, Option.isSome_bind,
        Encode.list?_isSome_iff items]
  | .node node => by simp [Value.encode?, Value.handles, Node.encode?_isSome_iff node]
  | .obj entries => by
      simp [Value.encode?, Value.handles, Option.isSome_bind,
        Encode.entries?_isSome_iff entries]

theorem Node.encode?_isSome_iff : ∀ node : Node, node.encode?.isSome ↔ node.handles = []
  | .cls base arity decorators members statics => by
      simp [Node.encode?, Node.handles, Option.isSome_bind,
        Encode.value?_isSome_iff base, Encode.values?_isSome_iff decorators,
        Encode.members?_isSome_iff members, Encode.map?_isSome_iff statics]
  | .iface => by simp [Node.encode?, Node.handles]
  | .func parameters defaults body => by
      simp [Node.encode?, Node.handles, Option.isSome_bind,
        Encode.values?_isSome_iff defaults, Encode.value?_isSome_iff body]
  | .err message line character context module => by
      simp [Node.encode?, Node.handles, Option.isSome_bind,
        Encode.map?_isSome_iff context]
  | .ref reference => by
      simp [Node.encode?, Node.handles, Reference.encode?_isSome_iff reference]
  | .binary operator left right => by
      simp [Node.encode?, Node.handles, Option.isSome_bind,
        Value.encode?_isSome_iff left, Value.encode?_isSome_iff right]
  | .index expression index => by
      simp [Node.encode?, Node.handles, Option.isSome_bind,
        Value.encode?_isSome_iff expression, Value.encode?_isSome_iff index]
  | .pre operator operand => by
      simp [Node.encode?, Node.handles, Option.isSome_bind,
        Value.encode?_isSome_iff operand]
  | .cond condition thenValue elseValue => by
      simp [Node.encode?, Node.handles, Option.isSome_bind,
        Value.encode?_isSome_iff condition, Value.encode?_isSome_iff thenValue,
        Value.encode?_isSome_iff elseValue]
  | .call callee arguments => by
      simp [Node.encode?, Node.handles, Option.isSome_bind,
        Value.encode?_isSome_iff callee, Encode.values?_isSome_iff arguments]
  | .construct callee arguments => by
      simp [Node.encode?, Node.handles, Option.isSome_bind,
        Value.encode?_isSome_iff callee, Encode.values?_isSome_iff arguments]
  | .select expression member => by
      simp [Node.encode?, Node.handles, Option.isSome_bind,
        Value.encode?_isSome_iff expression]
  | .spread expression => by
      simp [Node.encode?, Node.handles, Option.isSome_bind,
        Value.encode?_isSome_iff expression]

theorem Reference.encode?_isSome_iff :
    ∀ reference : Reference, reference.encode?.isSome ↔ reference.handles = []
  | .imported _ _ arguments | .default _ _ arguments | .global _ arguments => by
      simp [Reference.encode?, Reference.handles, Option.isSome_bind,
        Encode.values?_isSome_iff arguments]
  | .module _ | .bundled _ => by simp [Reference.encode?, Reference.handles]

theorem Member.encode?_isSome_iff :
    ∀ member : Member, member.encode?.isSome ↔ member.handles = []
  | .constructor decorators parameterDecorators parameters
  | .method decorators parameterDecorators parameters => by
      simp [Member.encode?, Member.handles, Option.isSome_bind,
        Encode.values?_isSome_iff decorators, Encode.values?_isSome_iff parameters,
        Encode.parameterDecorators?_isSome_iff parameterDecorators]
  | .property decorators => by
      simp [Member.encode?, Member.handles, Option.isSome_bind,
        Encode.values?_isSome_iff decorators]

theorem Encode.list?_isSome_iff :
    ∀ values : List Value, (Encode.list? values).isSome ↔ Handles.list values = []
  | [] => by simp [Encode.list?, Handles.list]
  | value :: rest => by
      simp [Encode.list?, Handles.list, Option.isSome_bind,
        Value.encode?_isSome_iff value, Encode.list?_isSome_iff rest]

theorem Encode.entries?_isSome_iff : ∀ entries : List (String × Value),
    (Encode.entries? entries).isSome ↔ Handles.entries entries = []
  | [] => by simp [Encode.entries?, Handles.entries]
  | (name, value) :: rest => by
      simp [Encode.entries?, Handles.entries, Option.isSome_bind,
        Value.encode?_isSome_iff value, Encode.entries?_isSome_iff rest]

theorem Encode.value?_isSome_iff :
    ∀ value : Option Value, (Encode.value? value).isSome ↔ Handles.value? value = []
  | none => by simp [Encode.value?, Handles.value?]
  | some value => by
      simp [Encode.value?, Handles.value?, Option.isSome_bind,
        Value.encode?_isSome_iff value]

theorem Encode.values?_isSome_iff :
    ∀ values : Option (List Value), (Encode.values? values).isSome ↔ Handles.list? values = []
  | none => by simp [Encode.values?, Handles.list?]
  | some values => by
      simp [Encode.values?, Handles.list?, Option.isSome_bind,
        Encode.list?_isSome_iff values]

theorem Encode.map?_isSome_iff : ∀ entries : Option (List (String × Value)),
    (Encode.map? entries).isSome ↔ Handles.entries? entries = []
  | none => by simp [Encode.map?, Handles.entries?]
  | some entries => by
      simp [Encode.map?, Handles.entries?, Option.isSome_bind,
        Encode.entries?_isSome_iff entries]

theorem Encode.members?_isSome_iff : ∀ members : Option (List (String × List Member)),
    (Encode.members? members).isSome ↔ Handles.members? members = []
  | none => by simp [Encode.members?, Handles.members?]
  | some members => by
      simp [Encode.members?, Handles.members?, Option.isSome_bind,
        Encode.memberEntries?_isSome_iff members]

theorem Encode.memberEntries?_isSome_iff : ∀ members : List (String × List Member),
    (Encode.memberEntries? members).isSome ↔ Handles.members members = []
  | [] => by simp [Encode.memberEntries?, Handles.members]
  | (name, overloads) :: rest => by
      simp [Encode.memberEntries?, Handles.members, Option.isSome_bind,
        Encode.memberList?_isSome_iff overloads, Encode.memberEntries?_isSome_iff rest]

theorem Encode.memberList?_isSome_iff : ∀ overloads : List Member,
    (Encode.memberList? overloads).isSome ↔ Handles.overloads overloads = []
  | [] => by simp [Encode.memberList?, Handles.overloads]
  | member :: rest => by
      simp [Encode.memberList?, Handles.overloads, Option.isSome_bind,
        Member.encode?_isSome_iff member, Encode.memberList?_isSome_iff rest]

theorem Encode.parameterDecorators?_isSome_iff : ∀ lists : Option (List (Option (List Value))),
    (Encode.parameterDecorators? lists).isSome ↔ Handles.lists? lists = []
  | none => by simp [Encode.parameterDecorators?, Handles.lists?]
  | some lists => by
      simp [Encode.parameterDecorators?, Handles.lists?, Option.isSome_bind,
        Encode.parameterList?_isSome_iff lists]

theorem Encode.parameterList?_isSome_iff : ∀ lists : List (Option (List Value)),
    (Encode.parameterList? lists).isSome ↔ Handles.lists lists = []
  | [] => by simp [Encode.parameterList?, Handles.lists]
  | decorators :: rest => by
      simp [Encode.parameterList?, Handles.lists, Option.isSome_bind,
        Encode.values?_isSome_iff decorators, Encode.parameterList?_isSome_iff rest]

end

/-- **A document without handles has a text**, indented or not. -/
theorem Document.encode?_isSome {document : Document} (h : document.HandleFree) :
    document.encode?.isSome := by
  have entries : ∀ pairs : List (String × Value), (∀ entry ∈ pairs, entry.2.HandleFree) →
      Handles.entries pairs = [] := by
    intro pairs free
    induction pairs with
    | nil => rfl
    | cons pair rest ih =>
        have here : pair.2.handles = [] := free pair List.mem_cons_self
        have there := ih fun entry hentry => free entry (List.mem_cons_of_mem _ hentry)
        rw [Handles.entries, here, there]
        rfl
  have encoded := (Encode.entries?_isSome_iff document.entries.toList).2 (entries _ h)
  obtain ⟨json, hjson⟩ := Option.isSome_iff_exists.1 encoded
  rw [Document.encode?, hjson]
  rfl

/-! ## §3. Nothing to be named -/

mutual

/-- **There is nothing to be named in a value without handles.** -/
theorem Value.finalize_of_handles (table : SymbolTable) :
    ∀ value : Value, value.handles = [] → value.finalize table = .ok value
  | .null, _ | .bool _, _ | .num _, _ | .str _, _ => rfl
  | .arr items, h => by
      rw [Value.finalize, Finalize.list_of_handles table items h]
      rfl
  | .node node, h => by
      rw [Value.finalize, Node.finalize_of_handles table node h]
      rfl
  | .obj entries, h => by
      rw [Value.finalize, Finalize.entries_of_handles table entries h]
      rfl

theorem Node.finalize_of_handles (table : SymbolTable) :
    ∀ node : Node, node.handles = [] → node.finalize table = .ok node
  | .cls base arity decorators members statics, h => by
      simp only [Node.handles, List.append_eq_nil_iff] at h
      obtain ⟨⟨⟨hbase, hdecorators⟩, hmembers⟩, hstatics⟩ := h
      rw [Node.finalize, Finalize.members?_of_handles table members hmembers,
        Finalize.entries?_of_handles table statics hstatics,
        Finalize.value?_of_handles table base hbase,
        Finalize.list?_of_handles table decorators hdecorators]
      rfl
  | .iface, _ => rfl
  | .func parameters defaults body, h => by
      simp only [Node.handles, List.append_eq_nil_iff] at h
      rw [Node.finalize, Finalize.list?_of_handles table defaults h.1,
        Finalize.value?_of_handles table body h.2]
      rfl
  | .err message line character context module, _ => rfl
  | .ref reference, h => by
      rw [Node.finalize, Reference.finalize_of_handles table reference h]
      rfl
  | .binary operator left right, h => by
      simp only [Node.handles, List.append_eq_nil_iff] at h
      rw [Node.finalize, Value.finalize_of_handles table left h.1,
        Value.finalize_of_handles table right h.2]
      rfl
  | .index expression index, h => by
      simp only [Node.handles, List.append_eq_nil_iff] at h
      rw [Node.finalize, Value.finalize_of_handles table expression h.1,
        Value.finalize_of_handles table index h.2]
      rfl
  | .pre operator operand, h => by
      rw [Node.finalize, Value.finalize_of_handles table operand h]
      rfl
  | .cond condition thenValue elseValue, h => by
      simp only [Node.handles, List.append_eq_nil_iff] at h
      rw [Node.finalize, Value.finalize_of_handles table condition h.1.1,
        Value.finalize_of_handles table thenValue h.1.2,
        Value.finalize_of_handles table elseValue h.2]
      rfl
  | .call callee arguments, h => by
      simp only [Node.handles, List.append_eq_nil_iff] at h
      rw [Node.finalize, Value.finalize_of_handles table callee h.1,
        Finalize.list?_of_handles table arguments h.2]
      rfl
  | .construct callee arguments, h => by
      simp only [Node.handles, List.append_eq_nil_iff] at h
      rw [Node.finalize, Value.finalize_of_handles table callee h.1,
        Finalize.list?_of_handles table arguments h.2]
      rfl
  | .select expression member, h => by
      rw [Node.finalize, Value.finalize_of_handles table expression h]
      rfl
  | .spread expression, h => by
      rw [Node.finalize, Value.finalize_of_handles table expression h]
      rfl

theorem Reference.finalize_of_handles (table : SymbolTable) :
    ∀ reference : Reference, reference.handles = [] → reference.finalize table = .ok reference
  | .imported _ _ arguments, h | .default _ _ arguments, h | .global _ arguments, h => by
      rw [Reference.finalize, Finalize.list?_of_handles table arguments h]
      rfl
  | .module _, _ => rfl
  | .bundled _, h => absurd h (by simp [Reference.handles])

theorem Member.finalize_of_handles (table : SymbolTable) :
    ∀ member : Member, member.handles = [] → member.finalize table = .ok member
  | .constructor decorators parameterDecorators parameters, h
  | .method decorators parameterDecorators parameters, h => by
      simp only [Member.handles, List.append_eq_nil_iff] at h
      rw [Member.finalize, Finalize.lists?_of_handles table parameterDecorators h.1.2,
        Finalize.list?_of_handles table decorators h.1.1,
        Finalize.list?_of_handles table parameters h.2]
      rfl
  | .property decorators, h => by
      rw [Member.finalize, Finalize.list?_of_handles table decorators h]
      rfl

theorem Finalize.list_of_handles (table : SymbolTable) :
    ∀ values : List Value, Handles.list values = [] → Finalize.list table values = .ok values
  | [], _ => rfl
  | value :: rest, h => by
      simp only [Handles.list, List.append_eq_nil_iff] at h
      rw [Finalize.list, Value.finalize_of_handles table value h.1,
        Finalize.list_of_handles table rest h.2]
      rfl

theorem Finalize.entries_of_handles (table : SymbolTable) :
    ∀ entries : List (String × Value), Handles.entries entries = [] →
      Finalize.entries table entries = .ok entries
  | [], _ => rfl
  | (name, value) :: rest, h => by
      simp only [Handles.entries, List.append_eq_nil_iff] at h
      rw [Finalize.entries, Value.finalize_of_handles table value h.1,
        Finalize.entries_of_handles table rest h.2]
      rfl

theorem Finalize.value?_of_handles (table : SymbolTable) :
    ∀ value : Option Value, Handles.value? value = [] → Finalize.value? table value = .ok value
  | none, _ => rfl
  | some value, h => by
      rw [Finalize.value?, Value.finalize_of_handles table value h]
      rfl

theorem Finalize.list?_of_handles (table : SymbolTable) :
    ∀ values : Option (List Value), Handles.list? values = [] →
      Finalize.list? table values = .ok values
  | none, _ => rfl
  | some values, h => by
      rw [Finalize.list?, Finalize.list_of_handles table values h]
      rfl

theorem Finalize.entries?_of_handles (table : SymbolTable) :
    ∀ entries : Option (List (String × Value)), Handles.entries? entries = [] →
      Finalize.entries? table entries = .ok entries
  | none, _ => rfl
  | some entries, h => by
      rw [Finalize.entries?, Finalize.entries_of_handles table entries h]
      rfl

theorem Finalize.lists?_of_handles (table : SymbolTable) :
    ∀ lists : Option (List (Option (List Value))), Handles.lists? lists = [] →
      Finalize.lists? table lists = .ok lists
  | none, _ => rfl
  | some lists, h => by
      rw [Finalize.lists?, Finalize.lists_of_handles table lists h]
      rfl

theorem Finalize.lists_of_handles (table : SymbolTable) :
    ∀ lists : List (Option (List Value)), Handles.lists lists = [] →
      Finalize.lists table lists = .ok lists
  | [], _ => rfl
  | decorators :: rest, h => by
      simp only [Handles.lists, List.append_eq_nil_iff] at h
      rw [Finalize.lists, Finalize.list?_of_handles table decorators h.1,
        Finalize.lists_of_handles table rest h.2]
      rfl

theorem Finalize.members?_of_handles (table : SymbolTable) :
    ∀ members : Option (List (String × List Member)), Handles.members? members = [] →
      Finalize.members? table members = .ok members
  | none, _ => rfl
  | some members, h => by
      rw [Finalize.members?, Finalize.members_of_handles table members h]
      rfl

theorem Finalize.members_of_handles (table : SymbolTable) :
    ∀ members : List (String × List Member), Handles.members members = [] →
      Finalize.members table members = .ok members
  | [], _ => rfl
  | (name, overloads) :: rest, h => by
      simp only [Handles.members, List.append_eq_nil_iff] at h
      rw [Finalize.members, Finalize.overloads_of_handles table overloads h.1,
        Finalize.members_of_handles table rest h.2]
      rfl

theorem Finalize.overloads_of_handles (table : SymbolTable) :
    ∀ overloads : List Member, Handles.overloads overloads = [] →
      Finalize.overloads table overloads = .ok overloads
  | [], _ => rfl
  | member :: rest, h => by
      simp only [Handles.overloads, List.append_eq_nil_iff] at h
      rw [Finalize.overloads, Member.finalize_of_handles table member h.1,
        Finalize.overloads_of_handles table rest h.2]
      rfl

end

end FlatBundle
