/-
  FlatBundle.Proofs.Value.Settling
  ────────────────────────────────
  **FINAL NAMES ARE A SUBSTITUTION.**

  A handle is ready if its identity is settled and, in case that makes it private, it has a
  private name; otherwise it is at fault.  Putting final names in fills all handles with what
  shows their symbols, provided that they are ready, and fails with the fault of one of them
  otherwise (`Value.Everywhere.settles`).

  `Settles` says so of any walk over something with handles.  It is put together from the
  parts of a value by `Settles.bind`, one step for each constructor, and the lists between a
  value and its children are taken by plain induction.
-/
import FlatBundle.Proofs.Symbol.Links
import FlatBundle.Proofs.Value.Children
import FlatBundle.Proofs.Value.Filling

namespace FlatBundle

/-! ## §1. Handles that are ready -/

namespace SymbolTable

variable {table : SymbolTable} {id : SymbolId}

/-- The identity of the symbol is settled, and it has a private name if it is private. -/
def IsReady (table : SymbolTable) (id : SymbolId) : Prop :=
  ∃ canonical, table.canonical? id = some canonical
    ∧ (canonical.isPrivate = true → (table.privateName? id).isSome)

/-- The global name under which the bundle shows a symbol: the private name of a private
symbol, its own name otherwise. -/
def shownName (table : SymbolTable) (id : SymbolId) : String :=
  let symbol := (table.get? id).getD default
  if symbol.canonical.any Canonical.isPrivate then symbol.privateName.getD "" else symbol.name

/-- The reference under which the bundle shows a symbol. -/
def shown (table : SymbolTable) (id : SymbolId) : Reference := .global (table.shownName id) none

/-- What there is to complain about a symbol: its identity is not settled, or it is private
and has no private name.  The error says which symbol it is. -/
inductive IsFault (table : SymbolTable) (id : SymbolId) : BundleError → Prop
  | unsettled {module name : String} (key : table.key? id = some (module, name))
      (absent : table.canonical? id = none) : IsFault table id (.invalidState module name)
  | unnamed {module name : String} {canonical : Canonical}
      (key : table.key? id = some (module, name))
      (settled : table.canonical? id = some canonical) (hidden : canonical.isPrivate = true)
      (nameless : table.privateName? id = none) :
      IsFault table id (.unresolvedHandle module name)

theorem IsFault.not_isReady {error : BundleError} (fault : table.IsFault id error) :
    ¬ table.IsReady id := by
  rintro ⟨canonical, settled, named⟩
  cases fault with
  | unsettled _ absent => cases absent.symm.trans settled
  | unnamed _ settled' hidden nameless =>
      obtain rfl := Option.some.inj (settled'.symm.trans settled)
      rw [nameless] at named
      cases named hidden

end SymbolTable

/-! ## §2. Walks that end with final names or with a fault -/

/-- A walk over something whose handles are in the table: it gives `filled` if all of them are
ready, and the fault of one of them otherwise. -/
def SymbolTable.Settles {α : Type} (table : SymbolTable) (handles : List SymbolId)
    (walk : Bundling α) (filled : α) : Prop :=
  (∀ id ∈ handles, id < table.size) →
    ((∀ id ∈ handles, table.IsReady id) ∧ walk = .ok filled)
      ∨ ∃ id ∈ handles, ∃ error, table.IsFault id error ∧ walk = .error error

namespace SymbolTable.Settles

variable {α β : Type} {table : SymbolTable} {handles others : List SymbolId}
variable {walk : Bundling α} {filled : α}

/-- Where there is no handle, there is nothing that could fail. -/
theorem pure (filled : α) : table.Settles [] (Pure.pure filled : Bundling α) filled :=
  fun _ => .inl ⟨fun _ mem => absurd mem List.not_mem_nil, rfl⟩

/-- One walk after another: the first fault ends both. -/
theorem bind {next : α → Bundling β} {result : β} (first : table.Settles handles walk filled)
    (second : table.Settles others (next filled) result) :
    table.Settles (handles ++ others) (walk >>= next) result := by
  intro bound
  rw [List.forall_mem_append] at bound
  rcases first bound.1 with ⟨ready, rfl⟩ | ⟨id, mem, error, fault, rfl⟩
  · rcases second bound.2 with ⟨ready', done⟩ | ⟨id, mem, error, fault, failed⟩
    · exact .inl ⟨List.forall_mem_append.2 ⟨ready, ready'⟩, done⟩
    · exact .inr ⟨id, List.mem_append_right _ mem, error, fault, failed⟩
  · exact .inr ⟨id, List.mem_append_left _ mem, error, fault, rfl⟩

/-- A walk whose result is put into something that has no further handles. -/
theorem map (f : α → β) (h : table.Settles handles walk filled) :
    table.Settles handles (walk >>= fun a => Pure.pure (f a)) (f filled) := by
  rw [← List.append_nil handles]
  exact h.bind (pure (f filled))

/-- It does not matter in which order the handles are listed. -/
theorem of_mem (h : table.Settles handles walk filled)
    (same : ∀ id, id ∈ handles ↔ id ∈ others) : table.Settles others walk filled := by
  intro bound
  rcases h fun id mem => bound id ((same id).1 mem) with
    ⟨ready, done⟩ | ⟨id, mem, error, fault, failed⟩
  · exact .inl ⟨fun id mem => ready id ((same id).2 mem), done⟩
  · exact .inr ⟨id, (same id).1 mem, error, fault, failed⟩

end SymbolTable.Settles

/-- A handle settles to its name. -/
theorem SymbolTable.settles_finalName (table : SymbolTable) (id : SymbolId) :
    table.Settles [id] (table.finalName id) (table.shownName id) := by
  intro bound
  obtain ⟨symbol, hs⟩ := exists_get?_of_lt (bound id (List.mem_singleton.2 rfl))
  have key := key?_of_get? hs
  have settled : table.canonical? id = symbol.canonical := by rw [canonical?, hs, Option.bind_some]
  have named : table.privateName? id = symbol.privateName := by
    rw [privateName?, hs, Option.bind_some]
  rw [finalName, canonical, shownName, hs, Option.getD_some]
  cases hc : symbol.canonical with
  | none =>
      exact .inr ⟨id, List.mem_singleton.2 rfl, _, .unsettled key (settled.trans hc), rfl⟩
  | some canonical =>
      rw [hc] at settled
      simp only [Option.any_some]
      show _ ∧ (if canonical.isPrivate = true then _ else _) = _
        ∨ ∃ id ∈ _, ∃ error, _ ∧ (if canonical.isPrivate = true then _ else _) = _
      by_cases hidden : canonical.isPrivate = true
      · rw [if_pos hidden, if_pos hidden]
        cases hn : symbol.privateName with
        | none =>
            have nameless := named.trans hn
            exact .inr ⟨id, List.mem_singleton.2 rfl, _, .unnamed key settled hidden nameless, rfl⟩
        | some name =>
            have given : (table.privateName? id).isSome := by
              rw [named, hn]
              rfl
            exact .inl ⟨List.forall_mem_singleton.2 ⟨canonical, settled, fun _ => given⟩, rfl⟩
      · rw [if_neg hidden, if_neg hidden]
        have ready : table.IsReady id := ⟨canonical, settled, fun h => absurd h hidden⟩
        exact .inl ⟨List.forall_mem_singleton.2 ready, rfl⟩

/-- Putting final names into the value fills its handles in, or fails with the fault of one. -/
def Value.Settles (table : SymbolTable) (value : Value) : Prop :=
  table.Settles value.handles (value.finalize table) (value.fill table.shown)

/-! ## §3. Lists of values that settle -/

section

variable {table : SymbolTable}

namespace Finalize

open SymbolTable

theorem settles_list {values : List Value} (h : ∀ value ∈ values, value.Settles table) :
    table.Settles (Handles.list values) (Finalize.list table values)
      (Fill.list table.shown values) := by
  induction values with
  | nil => exact Settles.pure []
  | cons value rest ih =>
      have there := ih fun other mem => h other (List.mem_cons_of_mem _ mem)
      exact (h value List.mem_cons_self).bind (there.map (value.fill table.shown :: ·))

theorem settles_list? {values : Option (List Value)}
    (h : ∀ value ∈ values.getD [], value.Settles table) :
    table.Settles (Handles.list? values) (Finalize.list? table values)
      (Fill.list? table.shown values) := by
  cases values with
  | none => exact Settles.pure none
  | some values => exact (settles_list h).map some

theorem settles_value? {value : Option Value} (h : ∀ inner ∈ value.toList, inner.Settles table) :
    table.Settles (Handles.value? value) (Finalize.value? table value)
      (Fill.value? table.shown value) := by
  cases value with
  | none => exact Settles.pure none
  | some value => exact (h value List.mem_cons_self).map some

theorem settles_entries {entries : List (String × Value)}
    (h : ∀ value ∈ entries.map Prod.snd, value.Settles table) :
    table.Settles (Handles.entries entries) (Finalize.entries table entries)
      (Fill.entries table.shown entries) := by
  induction entries with
  | nil => exact Settles.pure []
  | cons entry rest ih =>
      have there := ih fun other mem => h other (List.mem_cons_of_mem _ mem)
      exact (h entry.2 List.mem_cons_self).bind
        (there.map ((entry.1, entry.2.fill table.shown) :: ·))

theorem settles_entries? {entries : Option (List (String × Value))}
    (h : ∀ value ∈ (entries.getD []).map Prod.snd, value.Settles table) :
    table.Settles (Handles.entries? entries) (Finalize.entries? table entries)
      (Fill.entries? table.shown entries) := by
  cases entries with
  | none => exact Settles.pure none
  | some entries => exact (settles_entries h).map some

theorem settles_lists {lists : List (Option (List Value))}
    (h : ∀ value ∈ lists.flatMap (·.getD []), value.Settles table) :
    table.Settles (Handles.lists lists) (Finalize.lists table lists)
      (Fill.lists table.shown lists) := by
  induction lists with
  | nil => exact Settles.pure []
  | cons decorators rest ih =>
      rw [List.flatMap_cons, List.forall_mem_append] at h
      exact (settles_list? h.1).bind ((ih h.2).map (Fill.list? table.shown decorators :: ·))

theorem settles_lists? {lists : Option (List (Option (List Value)))}
    (h : ∀ value ∈ (lists.getD []).flatMap (·.getD []), value.Settles table) :
    table.Settles (Handles.lists? lists) (Finalize.lists? table lists)
      (Fill.lists? table.shown lists) := by
  cases lists with
  | none => exact Settles.pure none
  | some lists => exact (settles_lists h).map some

end Finalize

/-- The decorators of the parameters come first. -/
theorem Member.settles {member : Member} (h : ∀ value ∈ member.children, value.Settles table) :
    table.Settles member.handles (member.finalize table) (member.fill table.shown) := by
  cases member with
  | constructor decorators parameterDecorators parameters
  | method decorators parameterDecorators parameters =>
      simp only [Member.children, List.forall_mem_append] at h
      obtain ⟨hdecorators, hlists, hparameters⟩ := h
      refine SymbolTable.Settles.of_mem ((Finalize.settles_lists? hlists).bind
        ((Finalize.settles_list? hdecorators).bind
          ((Finalize.settles_list? hparameters).map _))) fun id => ?_
      simp only [Member.handles, List.mem_append]
      grind
  | property decorators => exact (Finalize.settles_list? h).map Member.property

namespace Finalize

open SymbolTable

theorem settles_overloads {overloads : List Member}
    (h : ∀ value ∈ overloads.flatMap Member.children, value.Settles table) :
    table.Settles (Handles.overloads overloads) (Finalize.overloads table overloads)
      (Fill.overloads table.shown overloads) := by
  induction overloads with
  | nil => exact Settles.pure []
  | cons member rest ih =>
      rw [List.flatMap_cons, List.forall_mem_append] at h
      exact (Member.settles h.1).bind ((ih h.2).map (member.fill table.shown :: ·))

theorem settles_members {members : List (String × List Member)}
    (h : ∀ value ∈ members.flatMap (fun entry => entry.2.flatMap Member.children),
      value.Settles table) :
    table.Settles (Handles.members members) (Finalize.members table members)
      (Fill.members table.shown members) := by
  induction members with
  | nil => exact Settles.pure []
  | cons entry rest ih =>
      rw [List.flatMap_cons, List.forall_mem_append] at h
      exact (settles_overloads h.1).bind
        ((ih h.2).map ((entry.1, Fill.overloads table.shown entry.2) :: ·))

theorem settles_members? {members : Option (List (String × List Member))}
    (h : ∀ value ∈ (members.getD []).flatMap (fun entry => entry.2.flatMap Member.children),
      value.Settles table) :
    table.Settles (Handles.members? members) (Finalize.members? table members)
      (Fill.members? table.shown members) := by
  cases members with
  | none => exact Settles.pure none
  | some members => exact (settles_members h).map some

end Finalize

/-! ## §4. Values that settle -/

/-- If the value is an error, there is no handle in its context. -/
def Value.QuietError : Value → Prop
  | .node (.err _ _ _ context _) => Handles.entries? context = []
  | _ => True

theorem Reference.settles {reference : Reference}
    (h : ∀ value ∈ reference.parts, value.Settles table) :
    table.Settles reference.handles (reference.finalize table) (reference.fill table.shown) := by
  cases reference with
  | imported module name arguments => exact (Finalize.settles_list? h).map _
  | default module flag arguments => exact (Finalize.settles_list? h).map _
  | module module => exact SymbolTable.Settles.pure (Reference.module module)
  | global name arguments => exact (Finalize.settles_list? h).map _
  | bundled id => exact (table.settles_finalName id).map fun name => Reference.global name none

theorem Node.settles {node : Node} (quiet : (Value.node node).QuietError)
    (h : ∀ value ∈ node.children, value.Settles table) :
    table.Settles node.handles (node.finalize table) (node.fill table.shown) := by
  cases node with
  | cls base arity decorators members statics =>
      simp only [Node.children, List.forall_mem_append] at h
      obtain ⟨hmembers, hstatics, hbase, hdecorators⟩ := h
      refine SymbolTable.Settles.of_mem ((Finalize.settles_members? hmembers).bind
        ((Finalize.settles_entries? hstatics).bind ((Finalize.settles_value? hbase).bind
          ((Finalize.settles_list? hdecorators).map _)))) fun id => ?_
      simp only [Node.handles, List.mem_append]
      grind
  | iface => exact SymbolTable.Settles.pure Node.iface
  | func parameters defaults body =>
      simp only [Node.children, List.forall_mem_append] at h
      exact (Finalize.settles_list? h.1).bind ((Finalize.settles_value? h.2).map _)
  | err message line character context module =>
      -- an error is kept, and there is nothing to fill in
      have quiet : Handles.entries? context = [] := quiet
      have kept : Fill.entries? table.shown context = context :=
        Fill.entries?_eq_self context fun id mem => by
          rw [quiet] at mem
          cases mem
      rw [Node.handles, quiet, Node.fill, kept]
      exact SymbolTable.Settles.pure _
  | ref reference => exact (Reference.settles h).map Node.ref
  | call callee arguments =>
      simp only [Node.children, List.forall_mem_cons] at h
      exact h.1.bind ((Finalize.settles_list? h.2).map _)
  | construct callee arguments =>
      simp only [Node.children, List.forall_mem_cons] at h
      exact h.1.bind ((Finalize.settles_list? h.2).map _)
  | binary operator left right =>
      simp only [Node.children, List.forall_mem_cons] at h
      exact h.1.bind (h.2.1.map _)
  | index expression place =>
      simp only [Node.children, List.forall_mem_cons] at h
      exact h.1.bind (h.2.1.map _)
  | pre operator operand => exact (h operand List.mem_cons_self).map _
  | cond condition thenValue elseValue =>
      simp only [Node.children, List.forall_mem_cons] at h
      rw [Node.handles, List.append_assoc]
      exact h.1.bind (h.2.1.bind (h.2.2.1.map _))
  | select expression member => exact (h expression List.mem_cons_self).map (Node.select · member)
  | spread expression => exact (h expression List.mem_cons_self).map Node.spread

/-- **Final names fill the handles in, or a handle is at fault**, at every depth of a value
whose errors are quiet. -/
theorem Value.Everywhere.settles {value : Value} (h : value.Everywhere Value.QuietError) :
    value.Settles table := by
  induction h with
  | @intro value here _ ih =>
      cases value with
      | null => exact SymbolTable.Settles.pure Value.null
      | bool b => exact SymbolTable.Settles.pure (Value.bool b)
      | num n => exact SymbolTable.Settles.pure (Value.num n)
      | str s => exact SymbolTable.Settles.pure (Value.str s)
      | arr items => exact (Finalize.settles_list ih).map Value.arr
      | obj entries => exact (Finalize.settles_entries ih).map Value.obj
      | node node => exact (Node.settles here ih).map Value.node

/-! ## §5. What putting final names in does -/

/-- What shows a symbol is no handle. -/
theorem Value.handleFree_fill_shown (table : SymbolTable) (value : Value) :
    (value.fill table.shown).HandleFree := by
  rw [Value.HandleFree, Value.handles_fill]
  exact List.flatMap_eq_nil_iff.2 fun _ _ => rfl

/-- Putting the final names of a table into a value is a substitution for its handles. -/
structure Value.IsNamedBy (value : Value) (table : SymbolTable) : Prop where
  /-- It goes through exactly if every handle is ready. -/
  succeeds_iff : (∃ named, value.finalize table = .ok named)
    ↔ ∀ id ∈ value.handles, table.IsReady id
  /-- The result is the value with what shows the symbols in place of the handles. -/
  filled : ∀ named, value.finalize table = .ok named → named = value.fill table.shown
  /-- No handle is left. -/
  handleFree : ∀ named, value.finalize table = .ok named → named.HandleFree
  /-- Doing it once more changes nothing. -/
  again : ∀ named, value.finalize table = .ok named → named.finalize table = .ok named
  /-- Without handles there is nothing to be done. -/
  plain : value.HandleFree → value.finalize table = .ok value
  /-- An error is the fault of a handle that occurs in the value. -/
  fault : ∀ error, value.finalize table = .error error →
    ∃ id ∈ value.handles, table.IsFault id error

/-- **Putting final names in is total substitution of handles**: in every value whose errors
have no handle in their contexts, and for every table that has the symbols of the handles, it
puts the global name of the symbol in the place of each handle and changes nothing else, or it
fails because of a handle that is not ready. -/
theorem Value.finalize_isSubstitution (table : SymbolTable) (value : Value)
    (quiet : value.Everywhere Value.QuietError) (bound : ∀ id ∈ value.handles, id < table.size) :
    value.IsNamedBy table := by
  have outcome := quiet.settles bound
  have through : ∀ named, value.finalize table = .ok named →
      (∀ id ∈ value.handles, table.IsReady id) ∧ named = value.fill table.shown := by
    intro named h
    rcases outcome with ⟨ready, done⟩ | ⟨id, mem, error, fault, failed⟩
    · exact ⟨ready, Except.ok.inj (h.symm.trans done)⟩
    · cases h.symm.trans failed
  have free : ∀ named, value.finalize table = .ok named → named.HandleFree := by
    intro named h
    rw [(through named h).2]
    exact value.handleFree_fill_shown table
  refine
    { succeeds_iff := ⟨fun ⟨named, h⟩ => (through named h).1, fun ready => ?_⟩
      filled := fun named h => (through named h).2
      handleFree := free
      again := fun named h => named.finalize_of_handles table (free named h)
      plain := value.finalize_of_handles table
      fault := fun error h => ?_ }
  · rcases outcome with ⟨-, done⟩ | ⟨id, mem, error, fault, -⟩
    · exact ⟨_, done⟩
    · exact absurd (ready id mem) fault.not_isReady
  · rcases outcome with ⟨-, done⟩ | ⟨id, mem, error, fault, failed⟩
    · cases h.symm.trans done
    · obtain rfl := Except.error.inj (h.symm.trans failed)
      exact ⟨id, mem, fault⟩

/-- A table with a private symbol that has a name and one whose identity is open. -/
def halfNamedTable : SymbolTable :=
  let table := (((SymbolTable.empty.symbolOf "./a" "Hidden").2).symbolOf "./a" "Open").2
  table.modify 0 fun symbol =>
    { symbol with canonical := some ⟨true, 0, 0⟩, privateName := some "ɵa" }

/-- A list of a reference whose argument is the given handle, and an error. -/
def wrappedHandle (id : SymbolId) : Value :=
  .arr [.ofReference (.imported "@x" "Box" (some [.ofReference (.bundled id)])),
    .node (.err "lost" none none (some [("at", .str "here")]) none)]

/-- Errors in a wrapped handle are quiet. -/
theorem wrappedHandle_quiet (id : SymbolId) : (wrappedHandle id).Everywhere Value.QuietError := by
  have leaf : ∀ value : Value, value.children = [] → value.QuietError →
      value.Everywhere Value.QuietError :=
    fun value none quiet => .intro quiet fun child mem => by
      rw [none] at mem
      cases mem
  refine .intro trivial (List.forall_mem_cons.2 ⟨?_, List.forall_mem_singleton.2 ?_⟩)
  · exact .intro trivial (List.forall_mem_singleton.2 (leaf _ rfl trivial))
  · exact .intro rfl (List.forall_mem_singleton.2 (leaf _ rfl trivial))

/-- The handle that has a name is filled in, inside of the argument, and the one that is open
is an error that names it. -/
theorem finalize_wrappedHandle :
    ((wrappedHandle 0).Everywhere Value.QuietError ∧ (∀ id ∈ (wrappedHandle 0).handles,
        id < halfNamedTable.size) ∧ (wrappedHandle 0).IsNamedBy halfNamedTable
      ∧ (wrappedHandle 0).finalize halfNamedTable
        = .ok (.arr [.ofReference (.imported "@x" "Box" (some [.global "ɵa"])),
            .node (.err "lost" none none (some [("at", .str "here")]) none)]))
      ∧ (wrappedHandle 1).IsNamedBy halfNamedTable
      ∧ (wrappedHandle 1).finalize halfNamedTable = .error (.invalidState "./a" "Open") := by
  have bound : ∀ id, id < 2 → ∀ handle ∈ (wrappedHandle id).handles,
      handle < halfNamedTable.size := by
    intro id small handle mem
    have only : (wrappedHandle id).handles = [id] := rfl
    rw [only, List.mem_singleton] at mem
    exact mem ▸ small
  have first := (wrappedHandle 0).finalize_isSubstitution halfNamedTable (wrappedHandle_quiet 0)
    (bound 0 (by decide))
  have second := (wrappedHandle 1).finalize_isSubstitution halfNamedTable (wrappedHandle_quiet 1)
    (bound 1 (by decide))
  exact ⟨⟨wrappedHandle_quiet 0, bound 0 (by decide), first, rfl⟩, second, rfl⟩

end

end FlatBundle
