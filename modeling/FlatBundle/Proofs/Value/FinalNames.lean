/-
  FlatBundle.Proofs.Value.FinalNames
  ──────────────────────────────────
  **FINAL NAMES IN A REWRITTEN VALUE.**

  Rewriting a value with handles and putting final names in afterwards is the same
  as rewriting it with the final names in the first place
  (`Value.finalize_rewrite`): the two walks cover the same positions.  Rewriting
  brings no handles in that the replacements do not have
  (`Value.handles_rewrite`).
-/
import FlatBundle.Proofs.Value.Handles
import FlatBundle.Proofs.Value.Rewrite

namespace FlatBundle

/-! ## §1. Two walks over a value -/

section

variable {sources : Sources} {module : String} {table : SymbolTable} {handle final : Target → Value}

mutual

/-- **Rewriting with handles and then putting final names in is rewriting with
final names**, in a value that has no handles of its own. -/
theorem Value.finalize_rewrite : ∀ value : Value, value.handles = [] →
    (∀ t ∈ value.targets sources module, (handle t).finalize table = .ok (final t)) →
    (value.rewrite sources handle module).finalize table = .ok (value.rewrite sources final module)
  | .null, _, _ | .bool _, _, _ | .num _, _, _ | .str _, _, _ => rfl
  | .arr items, free, named => by
      rw [Value.rewrite, Value.finalize, Rewrite.finalize_list items free named]
      rfl
  | .obj entries, free, named => by
      rw [Value.rewrite, Value.finalize, Rewrite.finalize_entries entries free named]
      rfl
  | .node node, free, named => Node.finalize_rewrite node free named

theorem Node.finalize_rewrite : ∀ node : Node, node.handles = [] →
    (∀ t ∈ node.targets sources module, (handle t).finalize table = .ok (final t)) →
    (node.rewrite sources handle module).finalize table = .ok (node.rewrite sources final module)
  | .cls base arity decorators members statics, free, named => by
      simp only [Node.handles, List.append_eq_nil_iff] at free
      simp only [Node.targets, List.forall_mem_append] at named
      obtain ⟨⟨⟨hbase, hdecorators⟩, hmembers⟩, hstatics⟩ := free
      obtain ⟨nmembers, nstatics, nbase, ndecorators⟩ := named
      rw [Node.rewrite, Value.finalize, Node.finalize,
        Rewrite.finalize_members? members hmembers nmembers,
        Rewrite.finalize_statics? statics hstatics nstatics,
        Rewrite.finalize_value? base hbase nbase,
        Rewrite.finalize_list? decorators hdecorators ndecorators]
      rfl
  | .iface, _, _ => rfl
  | .func parameters defaults body, free, named => by
      simp only [Node.handles, List.append_eq_nil_iff] at free
      simp only [Node.targets, List.forall_mem_append] at named
      rw [Node.rewrite, Value.finalize, Node.finalize,
        Rewrite.finalize_list? defaults free.1 named.1,
        Rewrite.finalize_value? body free.2 named.2]
      rfl
  | .err message line character context _, _, _ => rfl
  | .ref reference, free, named => Reference.finalize_rewrite reference free named
  | .binary operator left right, free, named => by
      simp only [Node.handles, List.append_eq_nil_iff] at free
      simp only [Node.targets, List.forall_mem_append] at named
      rw [Node.rewrite, Value.finalize, Node.finalize,
        Value.finalize_rewrite left free.1 named.1,
        Value.finalize_rewrite right free.2 named.2]
      rfl
  | .index expression index, free, named => by
      simp only [Node.handles, List.append_eq_nil_iff] at free
      simp only [Node.targets, List.forall_mem_append] at named
      rw [Node.rewrite, Value.finalize, Node.finalize,
        Value.finalize_rewrite expression free.1 named.1,
        Value.finalize_rewrite index free.2 named.2]
      rfl
  | .pre operator operand, free, named => by
      rw [Node.rewrite, Value.finalize, Node.finalize,
        Value.finalize_rewrite operand free named]
      rfl
  | .cond condition thenValue elseValue, free, named => by
      simp only [Node.handles, List.append_eq_nil_iff] at free
      simp only [Node.targets, List.forall_mem_append] at named
      rw [Node.rewrite, Value.finalize, Node.finalize,
        Value.finalize_rewrite condition free.1.1 named.1,
        Value.finalize_rewrite thenValue free.1.2 named.2.1,
        Value.finalize_rewrite elseValue free.2 named.2.2]
      rfl
  | .call callee arguments, free, named => by
      simp only [Node.handles, List.append_eq_nil_iff] at free
      simp only [Node.targets, List.forall_mem_append] at named
      rw [Node.rewrite, Value.finalize, Node.finalize,
        Value.finalize_rewrite callee free.1 named.1,
        Rewrite.finalize_list? arguments free.2 named.2]
      rfl
  | .construct callee arguments, free, named => by
      simp only [Node.handles, List.append_eq_nil_iff] at free
      simp only [Node.targets, List.forall_mem_append] at named
      rw [Node.rewrite, Value.finalize, Node.finalize,
        Value.finalize_rewrite callee free.1 named.1,
        Rewrite.finalize_list? arguments free.2 named.2]
      rfl
  | .select expression member, free, named => by
      rw [Node.rewrite, Value.finalize, Node.finalize,
        Value.finalize_rewrite expression free named]
      rfl
  | .spread expression, free, named => by
      rw [Node.rewrite, Value.finalize, Node.finalize,
        Value.finalize_rewrite expression free named]
      rfl

theorem Reference.finalize_rewrite : ∀ reference : Reference, reference.handles = [] →
    (∀ t ∈ reference.targets sources module, (handle t).finalize table = .ok (final t)) →
    (reference.rewrite sources handle module).finalize table
      = .ok (reference.rewrite sources final module)
  | .global name arguments, free, named => by
      rw [Reference.targets] at named
      rw [Reference.rewrite, Reference.rewrite]
      -- a name that is met is replaced, and its arguments are not looked at
      by_cases met : sources.declares module name = true
      · rw [if_pos met] at named ⊢
        rw [if_pos met]
        exact named _ List.mem_cons_self
      · rw [if_neg met] at named ⊢
        rw [if_neg met, Value.ofReference, Value.finalize, Node.finalize, Reference.finalize,
          Rewrite.finalize_list? arguments free named]
        rfl
  | .imported specifier name arguments, free, named => by
      rw [Reference.targets] at named
      rw [Reference.rewrite, Reference.rewrite]
      by_cases met : ModulePath.isRelative specifier = true
      · rw [if_pos met] at named ⊢
        rw [if_pos met]
        exact named _ List.mem_cons_self
      · rw [if_neg met] at named ⊢
        rw [if_neg met, Value.ofReference, Value.finalize, Node.finalize, Reference.finalize,
          Rewrite.finalize_list? arguments free named]
        rfl
  | .default specifier flag arguments, free, named => by
      rw [Reference.targets] at named
      rw [Reference.rewrite, Reference.rewrite]
      by_cases met : ModulePath.isRelative specifier = true
      · rw [if_pos met, if_pos met]
        rfl
      · rw [if_neg met] at named ⊢
        rw [if_neg met, Value.ofReference, Value.finalize, Node.finalize, Reference.finalize,
          Rewrite.finalize_list? arguments free named]
        rfl
  | .module specifier, _, _ => by
      rw [Reference.rewrite, Reference.rewrite]
      split <;> rfl
  -- a handle is what the library does not have
  | .bundled id, free, _ => absurd free (by simp [Reference.handles])

theorem Member.finalize_rewrite : ∀ member : Member, member.handles = [] →
    (∀ t ∈ member.targets sources module, (handle t).finalize table = .ok (final t)) →
    (member.rewrite sources handle module).finalize table
      = .ok (member.rewrite sources final module)
  | .constructor decorators parameterDecorators parameters, free, named => by
      simp only [Member.handles, List.append_eq_nil_iff] at free
      simp only [Member.targets, List.forall_mem_append] at named
      rw [Member.rewrite, Member.finalize,
        Rewrite.finalize_lists? parameterDecorators free.1.2 named.2.1,
        Rewrite.finalize_list? decorators free.1.1 named.1,
        Rewrite.finalize_list? parameters free.2 named.2.2]
      rfl
  | .method decorators parameterDecorators parameters, free, named => by
      simp only [Member.handles, List.append_eq_nil_iff] at free
      simp only [Member.targets, List.forall_mem_append] at named
      rw [Member.rewrite, Member.finalize,
        Rewrite.finalize_lists? parameterDecorators free.1.2 named.2,
        Rewrite.finalize_list? decorators free.1.1 named.1]
      rfl
  | .property decorators, free, named => by
      rw [Member.rewrite, Member.finalize, Rewrite.finalize_list? decorators free named]
      rfl

theorem Rewrite.finalize_list : ∀ values : List Value, Handles.list values = [] →
    (∀ t ∈ Targets.list sources module values, (handle t).finalize table = .ok (final t)) →
    Finalize.list table (Rewrite.list sources handle module values)
      = .ok (Rewrite.list sources final module values)
  | [], _, _ => rfl
  | value :: rest, free, named => by
      simp only [Handles.list, List.append_eq_nil_iff] at free
      simp only [Targets.list, List.forall_mem_append] at named
      rw [Rewrite.list, Finalize.list, Value.finalize_rewrite value free.1 named.1,
        Rewrite.finalize_list rest free.2 named.2]
      rfl

theorem Rewrite.finalize_entries : ∀ entries : List (String × Value),
    Handles.entries entries = [] →
    (∀ t ∈ Targets.entries sources module entries, (handle t).finalize table = .ok (final t)) →
    Finalize.entries table (Rewrite.entries sources handle module entries)
      = .ok (Rewrite.entries sources final module entries)
  | [], _, _ => rfl
  | (name, value) :: rest, free, named => by
      simp only [Handles.entries, List.append_eq_nil_iff] at free
      simp only [Targets.entries, List.forall_mem_append] at named
      rw [Rewrite.entries, Finalize.entries, Value.finalize_rewrite value free.1 named.1,
        Rewrite.finalize_entries rest free.2 named.2]
      rfl

theorem Rewrite.finalize_value? : ∀ value : Option Value, Handles.value? value = [] →
    (∀ t ∈ Targets.value? sources module value, (handle t).finalize table = .ok (final t)) →
    Finalize.value? table (Rewrite.value? sources handle module value)
      = .ok (Rewrite.value? sources final module value)
  | none, _, _ => rfl
  | some value, free, named => by
      rw [Rewrite.value?, Finalize.value?, Value.finalize_rewrite value free named]
      rfl

theorem Rewrite.finalize_list? : ∀ values : Option (List Value), Handles.list? values = [] →
    (∀ t ∈ Targets.list? sources module values, (handle t).finalize table = .ok (final t)) →
    Finalize.list? table (Rewrite.list? sources handle module values)
      = .ok (Rewrite.list? sources final module values)
  | none, _, _ => rfl
  | some values, free, named => by
      rw [Rewrite.list?, Finalize.list?, Rewrite.finalize_list values free named]
      rfl

theorem Rewrite.finalize_lists? : ∀ lists : Option (List (Option (List Value))),
    Handles.lists? lists = [] →
    (∀ t ∈ Targets.lists? sources module lists, (handle t).finalize table = .ok (final t)) →
    Finalize.lists? table (Rewrite.lists? sources handle module lists)
      = .ok (Rewrite.lists? sources final module lists)
  | none, _, _ => rfl
  | some lists, free, named => by
      rw [Rewrite.lists?, Finalize.lists?, Rewrite.finalize_lists lists free named]
      rfl

theorem Rewrite.finalize_lists : ∀ lists : List (Option (List Value)),
    Handles.lists lists = [] →
    (∀ t ∈ Targets.lists sources module lists, (handle t).finalize table = .ok (final t)) →
    Finalize.lists table (Rewrite.lists sources handle module lists)
      = .ok (Rewrite.lists sources final module lists)
  | [], _, _ => rfl
  | decorators :: rest, free, named => by
      simp only [Handles.lists, List.append_eq_nil_iff] at free
      simp only [Targets.lists, List.forall_mem_append] at named
      rw [Rewrite.lists, Finalize.lists, Rewrite.finalize_list? decorators free.1 named.1,
        Rewrite.finalize_lists rest free.2 named.2]
      rfl

theorem Rewrite.finalize_members? : ∀ members : Option (List (String × List Member)),
    Handles.members? members = [] →
    (∀ t ∈ Targets.members? sources module members, (handle t).finalize table = .ok (final t)) →
    Finalize.members? table (Rewrite.members? sources handle module members)
      = .ok (Rewrite.members? sources final module members)
  | none, _, _ => rfl
  | some members, free, named => by
      rw [Rewrite.members?, Finalize.members?, Rewrite.finalize_members members free named]
      rfl

theorem Rewrite.finalize_members : ∀ members : List (String × List Member),
    Handles.members members = [] →
    (∀ t ∈ Targets.members sources module members, (handle t).finalize table = .ok (final t)) →
    Finalize.members table (Rewrite.members sources handle module members)
      = .ok (Rewrite.members sources final module members)
  | [], _, _ => rfl
  | (name, overloads) :: rest, free, named => by
      simp only [Handles.members, List.append_eq_nil_iff] at free
      simp only [Targets.members, List.forall_mem_append] at named
      rw [Rewrite.members, Finalize.members, Rewrite.finalize_overloads overloads free.1 named.1,
        Rewrite.finalize_members rest free.2 named.2]
      rfl

theorem Rewrite.finalize_overloads : ∀ overloads : List Member,
    Handles.overloads overloads = [] →
    (∀ t ∈ Targets.overloads sources module overloads,
      (handle t).finalize table = .ok (final t)) →
    Finalize.overloads table (Rewrite.overloads sources handle module overloads)
      = .ok (Rewrite.overloads sources final module overloads)
  | [], _, _ => rfl
  | member :: rest, free, named => by
      simp only [Handles.overloads, List.append_eq_nil_iff] at free
      simp only [Targets.overloads, List.forall_mem_append] at named
      rw [Rewrite.overloads, Finalize.overloads, Member.finalize_rewrite member free.1 named.1,
        Rewrite.finalize_overloads rest free.2 named.2]
      rfl

theorem Rewrite.finalize_statics? : ∀ statics : Option (List (String × Value)),
    Handles.entries? statics = [] →
    (∀ t ∈ Targets.statics? sources module statics, (handle t).finalize table = .ok (final t)) →
    Finalize.entries? table (Rewrite.statics? sources handle module statics)
      = .ok (Rewrite.statics? sources final module statics)
  | none, _, _ => rfl
  | some statics, free, named => by
      rw [Rewrite.statics?, Finalize.entries?, Rewrite.finalize_statics statics free named]
      rfl

/-- A static member that is not a function is copied; it has no handles to be
named. -/
theorem Rewrite.finalize_statics : ∀ statics : List (String × Value),
    Handles.entries statics = [] →
    (∀ t ∈ Targets.statics sources module statics, (handle t).finalize table = .ok (final t)) →
    Finalize.entries table (Rewrite.statics sources handle module statics)
      = .ok (Rewrite.statics sources final module statics)
  -- only functions among the static members are walked into
  | [], _, _ => rfl
  | (name, value) :: rest, free, named => by
      simp only [Handles.entries, List.append_eq_nil_iff] at free
      have copied : Targets.statics sources module ((name, value) :: rest)
            = Targets.statics sources module rest →
          Finalize.entries table ((name, value) :: Rewrite.statics sources handle module rest)
            = .ok ((name, value) :: Rewrite.statics sources final module rest) := by
        intro skipped
        rw [Finalize.entries, Value.finalize_of_handles table value free.1,
          Rewrite.finalize_statics rest free.2 (skipped ▸ named)]
        rfl
      cases value with
      | node node =>
          cases node with
          | func parameters defaults body =>
              have hdefaults := free.1
              simp only [Value.handles, Node.handles, List.append_eq_nil_iff] at hdefaults
              simp only [Targets.statics, List.forall_mem_append] at named
              rw [Rewrite.statics, Finalize.entries, Value.finalize, Node.finalize,
                Rewrite.finalize_list? defaults hdefaults.1 named.1,
                Rewrite.finalize_value? body hdefaults.2 named.2.1,
                Rewrite.finalize_statics rest free.2 named.2.2]
              rfl
          | _ => exact copied rfl
      | _ => exact copied rfl

end

end

/-! ## §2. No handles are left -/

section

variable {sources : Sources} {module : String} {replace : Target → Value}
variable (named : ∀ t, (replace t).handles = [])

include named

set_option linter.unusedSectionVars false

mutual

/-- **A rewritten value has no handles** if it had none before, and the
replacements have none. -/
theorem Value.handles_rewrite : ∀ value : Value, value.handles = [] →
    (value.rewrite sources replace module).handles = []
  | .null, _ | .bool _, _ | .num _, _ | .str _, _ => rfl
  | .arr items, free => Rewrite.handles_list items free
  | .obj entries, free => Rewrite.handles_entries entries free
  | .node node, free => Node.handles_rewrite node free

theorem Node.handles_rewrite : ∀ node : Node, node.handles = [] →
    (node.rewrite sources replace module).handles = []
  | .cls base arity decorators members statics, free => by
      simp only [Node.handles, List.append_eq_nil_iff] at free
      obtain ⟨⟨⟨hbase, hdecorators⟩, hmembers⟩, hstatics⟩ := free
      rw [Node.rewrite, Value.handles, Node.handles, Rewrite.handles_value? base hbase,
        Rewrite.handles_list? decorators hdecorators, Rewrite.handles_members? members hmembers,
        Rewrite.handles_statics? statics hstatics]
      rfl
  | .iface, _ => rfl
  | .func parameters defaults body, free => by
      simp only [Node.handles, List.append_eq_nil_iff] at free
      rw [Node.rewrite, Value.handles, Node.handles, Rewrite.handles_list? defaults free.1,
        Rewrite.handles_value? body free.2]
      rfl
  | .err _ _ _ _ _, free => free
  | .ref reference, free => Reference.handles_rewrite reference free
  | .binary _ left right, free => by
      simp only [Node.handles, List.append_eq_nil_iff] at free
      rw [Node.rewrite, Value.handles, Node.handles, Value.handles_rewrite left free.1,
        Value.handles_rewrite right free.2]
      rfl
  | .index expression index, free => by
      simp only [Node.handles, List.append_eq_nil_iff] at free
      rw [Node.rewrite, Value.handles, Node.handles, Value.handles_rewrite expression free.1,
        Value.handles_rewrite index free.2]
      rfl
  | .pre _ operand, free => Value.handles_rewrite operand free
  | .cond condition thenValue elseValue, free => by
      simp only [Node.handles, List.append_eq_nil_iff] at free
      rw [Node.rewrite, Value.handles, Node.handles, Value.handles_rewrite condition free.1.1,
        Value.handles_rewrite thenValue free.1.2, Value.handles_rewrite elseValue free.2]
      rfl
  | .call callee arguments, free => by
      simp only [Node.handles, List.append_eq_nil_iff] at free
      rw [Node.rewrite, Value.handles, Node.handles, Value.handles_rewrite callee free.1,
        Rewrite.handles_list? arguments free.2]
      rfl
  | .construct callee arguments, free => by
      simp only [Node.handles, List.append_eq_nil_iff] at free
      rw [Node.rewrite, Value.handles, Node.handles, Value.handles_rewrite callee free.1,
        Rewrite.handles_list? arguments free.2]
      rfl
  | .select expression _, free => Value.handles_rewrite expression free
  | .spread expression, free => Value.handles_rewrite expression free

theorem Reference.handles_rewrite : ∀ reference : Reference, reference.handles = [] →
    (reference.rewrite sources replace module).handles = []
  | .global name arguments, free => by
      rw [Reference.rewrite]
      split
      · exact named _
      · exact Rewrite.handles_list? arguments free
  | .imported specifier name arguments, free => by
      rw [Reference.rewrite]
      split
      · exact named _
      · exact Rewrite.handles_list? arguments free
  | .default specifier flag arguments, free => by
      rw [Reference.rewrite]
      split
      · rfl
      · exact Rewrite.handles_list? arguments free
  | .module specifier, _ => by
      rw [Reference.rewrite]
      split <;> rfl
  | .bundled id, free => free

theorem Member.handles_rewrite : ∀ member : Member, member.handles = [] →
    (member.rewrite sources replace module).handles = []
  | .constructor decorators parameterDecorators parameters, free => by
      simp only [Member.handles, List.append_eq_nil_iff] at free
      rw [Member.rewrite, Member.handles, Rewrite.handles_list? decorators free.1.1,
        Rewrite.handles_lists? parameterDecorators free.1.2,
        Rewrite.handles_list? parameters free.2]
      rfl
  | .method decorators parameterDecorators parameters, free => by
      simp only [Member.handles, List.append_eq_nil_iff] at free
      rw [Member.rewrite, Member.handles, Rewrite.handles_list? decorators free.1.1,
        Rewrite.handles_lists? parameterDecorators free.1.2]
      rfl
  | .property decorators, free => Rewrite.handles_list? decorators free

theorem Rewrite.handles_list : ∀ values : List Value, Handles.list values = [] →
    Handles.list (Rewrite.list sources replace module values) = []
  | [], _ => rfl
  | value :: rest, free => by
      simp only [Handles.list, List.append_eq_nil_iff] at free
      rw [Rewrite.list, Handles.list, Value.handles_rewrite value free.1,
        Rewrite.handles_list rest free.2]
      rfl

theorem Rewrite.handles_entries : ∀ entries : List (String × Value),
    Handles.entries entries = [] →
    Handles.entries (Rewrite.entries sources replace module entries) = []
  | [], _ => rfl
  | (name, value) :: rest, free => by
      simp only [Handles.entries, List.append_eq_nil_iff] at free
      rw [Rewrite.entries, Handles.entries, Value.handles_rewrite value free.1,
        Rewrite.handles_entries rest free.2]
      rfl

theorem Rewrite.handles_value? : ∀ value : Option Value, Handles.value? value = [] →
    Handles.value? (Rewrite.value? sources replace module value) = []
  | none, _ => rfl
  | some value, free => Value.handles_rewrite value free

theorem Rewrite.handles_list? : ∀ values : Option (List Value), Handles.list? values = [] →
    Handles.list? (Rewrite.list? sources replace module values) = []
  | none, _ => rfl
  | some values, free => Rewrite.handles_list values free

theorem Rewrite.handles_lists? : ∀ lists : Option (List (Option (List Value))),
    Handles.lists? lists = [] →
    Handles.lists? (Rewrite.lists? sources replace module lists) = []
  | none, _ => rfl
  | some lists, free => Rewrite.handles_lists lists free

theorem Rewrite.handles_lists : ∀ lists : List (Option (List Value)), Handles.lists lists = [] →
    Handles.lists (Rewrite.lists sources replace module lists) = []
  | [], _ => rfl
  | decorators :: rest, free => by
      simp only [Handles.lists, List.append_eq_nil_iff] at free
      rw [Rewrite.lists, Handles.lists, Rewrite.handles_list? decorators free.1,
        Rewrite.handles_lists rest free.2]
      rfl

theorem Rewrite.handles_members? : ∀ members : Option (List (String × List Member)),
    Handles.members? members = [] →
    Handles.members? (Rewrite.members? sources replace module members) = []
  | none, _ => rfl
  | some members, free => Rewrite.handles_members members free

theorem Rewrite.handles_members : ∀ members : List (String × List Member),
    Handles.members members = [] →
    Handles.members (Rewrite.members sources replace module members) = []
  | [], _ => rfl
  | (name, overloads) :: rest, free => by
      simp only [Handles.members, List.append_eq_nil_iff] at free
      rw [Rewrite.members, Handles.members, Rewrite.handles_overloads overloads free.1,
        Rewrite.handles_members rest free.2]
      rfl

theorem Rewrite.handles_overloads : ∀ overloads : List Member, Handles.overloads overloads = [] →
    Handles.overloads (Rewrite.overloads sources replace module overloads) = []
  | [], _ => rfl
  | member :: rest, free => by
      simp only [Handles.overloads, List.append_eq_nil_iff] at free
      rw [Rewrite.overloads, Handles.overloads, Member.handles_rewrite member free.1,
        Rewrite.handles_overloads rest free.2]
      rfl

theorem Rewrite.handles_statics? : ∀ statics : Option (List (String × Value)),
    Handles.entries? statics = [] →
    Handles.entries? (Rewrite.statics? sources replace module statics) = []
  | none, _ => rfl
  | some statics, free => Rewrite.handles_statics statics free

theorem Rewrite.handles_statics : ∀ statics : List (String × Value),
    Handles.entries statics = [] →
    Handles.entries (Rewrite.statics sources replace module statics) = []
  | [], _ => rfl
  | (name, value) :: rest, free => by
      simp only [Handles.entries, List.append_eq_nil_iff] at free
      have copied : Handles.entries ((name, value) :: Rewrite.statics sources replace module rest)
          = [] := by
        rw [Handles.entries, free.1, Rewrite.handles_statics rest free.2]
        rfl
      cases value with
      | node node =>
          cases node with
          | func parameters defaults body =>
              have hdefaults := free.1
              simp only [Value.handles, Node.handles, List.append_eq_nil_iff] at hdefaults
              rw [Rewrite.statics, Handles.entries, Value.handles, Node.handles,
                Rewrite.handles_list? defaults hdefaults.1,
                Rewrite.handles_value? body hdefaults.2, Rewrite.handles_statics rest free.2]
              rfl
          | _ => exact copied
      | _ => exact copied

end

end

end FlatBundle
